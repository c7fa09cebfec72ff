import PsplinkUsb.UsbHostfsPc.HostFiles

/-!
An operating system with a plain file behind every descriptor. The results of `read`
and `write` come from a script: errors, and transfers of at most so many bytes. When
the script is used up, every call transfers all it can.
-/

namespace PsplinkUsb.UsbHostfsPc.PlainFile

open PsplinkUsb.HostFs.Wire
open PsplinkUsb.UsbHostfsPc.OsCalls
open PsplinkUsb.UsbHostfsPc.HostFiles

inductive Outcome where
  | fail (e : Errno)
  | upto (k : ℕ)
deriving DecidableEq

structure FileState where
  content : Bytes
  offset : ℕ
  script : List Outcome

def FileState.left (f : FileState) : ℕ := f.content.length - f.offset

/-- The content after bytes are stored at an offset. A gap is filled with zeros. -/
def overwrite (content : Bytes) (offset : ℕ) (data : Bytes) : Bytes :=
  if data = [] then content
  else content.takeD offset 0 ++ data ++ content.drop (offset + data.length)

/-- How much of `asked` bytes the next call transfers. -/
def nextOutcome (asked : ℕ) : List Outcome → Except Errno ℕ
  | [] => .ok asked
  | .fail e :: _ => .error e
  | .upto k :: _ => .ok (min k asked)

def readPlain (n : ℕ) (f : FileState) : Except Errno Bytes × FileState :=
  match nextOutcome n f.script with
  | .error e => (.error e, { f with script := f.script.tail })
  | .ok k =>
      let data := (f.content.drop f.offset).take k
      (.ok data, { f with offset := f.offset + data.length, script := f.script.tail })

def writePlain (data : Bytes) (f : FileState) : Except Errno ℕ × FileState :=
  match nextOutcome data.length f.script with
  | .error e => (.error e, { f with script := f.script.tail })
  | .ok k =>
      (.ok k,
        { content := overwrite f.content f.offset (data.take k)
          offset := f.offset + k
          script := f.script.tail })

theorem nextOutcome_le {asked k : ℕ} {script : List Outcome}
    (h : nextOutcome asked script = .ok k) : k ≤ asked := by
  cases script with
  | nil =>
      obtain rfl := by simpa [nextOutcome] using h
      exact le_rfl
  | cons outcome rest =>
      cases outcome with
      | fail e => simp [nextOutcome] at h
      | upto n =>
          obtain rfl := by simpa [nextOutcome] using h
          exact Nat.min_le_right ..

theorem script_shrinks {asked : ℕ} {e : Errno} {script : List Outcome}
    (h : nextOutcome asked script = .error e) : script.tail.length < script.length := by
  cases script with
  | nil => simp [nextOutcome] at h
  | cons outcome rest => exact Nat.lt_succ_self _

/-- No call succeeds. -/
def refusingOs (σ : Type) : HostOs σ where
  openFile := fun _ _ _ s => (.error enoent, s)
  close := fun _ s => (.error einval, s)
  read := fun _ _ s => (.error einval, s)
  write := fun _ _ s => (.error einval, s)
  lseek := fun _ _ _ s => (.error einval, s)
  unlink := fun _ s => (.error enoent, s)
  rmdir := fun _ s => (.error enoent, s)
  mkdir := fun _ _ s => (.error enoent, s)
  rename := fun _ _ s => (.error enoent, s)
  chmod := fun _ _ s => (.error enoent, s)
  utime := fun _ _ _ s => (.error enoent, s)
  stat := fun _ _ => .error enoent
  statvfs := fun _ _ => .error enoent
  scandir := fun _ _ => .error enoent
  readNames := fun _ _ => none
  localtime := fun t => { year := 70, mon := 0, mday := 1, hour := 0, min := 0, sec := t }
  mktime := fun _ => none
  mallocSucceeds := fun _ _ => true
  drivesLocked := fun _ => true
  errno := fun _ => enoent
  patience := fun _ => 0
  read_le := fun _ _ _ _ h => nomatch h
  write_le := fun _ _ _ _ h => nomatch h
  read_eintr := fun _ _ _ h => absurd (Except.error.inj h) (by decide)
  write_eintr := fun _ _ _ h => absurd (Except.error.inj h) (by decide)

/-- Only `read`, `write` and `close` succeed. -/
def fileOs : HostOs FileState where
  openFile := fun _ _ _ f => (.error enoent, f)
  close := fun _ f => (.ok (), f)
  read := fun _ n f => readPlain n f
  write := fun _ data f => writePlain data f
  lseek := fun _ _ _ f => (.error einval, f)
  unlink := fun _ f => (.error enoent, f)
  rmdir := fun _ f => (.error enoent, f)
  mkdir := fun _ _ f => (.error enoent, f)
  rename := fun _ _ f => (.error enoent, f)
  chmod := fun _ _ f => (.error enoent, f)
  utime := fun _ _ _ f => (.error enoent, f)
  stat := fun _ _ => .error enoent
  statvfs := fun _ _ => .error enoent
  scandir := fun _ _ => .error enoent
  readNames := fun _ _ => none
  localtime := fun t => { year := 70, mon := 0, mday := 1, hour := 0, min := 0, sec := t }
  mktime := fun _ => none
  mallocSucceeds := fun _ _ => true
  drivesLocked := fun _ => true
  errno := fun _ => enoent
  patience := fun f => f.script.length
  read_le := by
    intro fd n f data h
    rw [readPlain] at h
    split at h
    · simp at h
    · rename_i k hk
      obtain rfl := by simpa using h
      exact (List.length_take_le _ _).trans (nextOutcome_le hk)
  write_le := by
    intro fd data f n h
    rw [writePlain] at h
    split at h
    · simp at h
    · rename_i k hk
      obtain rfl := by simpa using h
      exact nextOutcome_le hk
  read_eintr := by
    intro fd n f h
    rw [readPlain] at h ⊢
    split at h
    · rename_i e he
      exact script_shrinks he
    · simp at h
  write_eintr := by
    intro fd data f h
    rw [writePlain] at h ⊢
    split at h
    · rename_i e he
      exact script_shrinks he
    · simp at h

/-- A PC on which a plain file is open as handle 3, at its start. -/
def oneFile (content : Bytes) (script : List Outcome) : Host FileState where
  openFiles := fun fid =>
    if fid.val = 3 then { opened := true, mode := pspORdwr, name := none } else FileHandle.closed
  openDirs := fun _ => DirHandle.closed
  drives := fun _ => { rootdir := [], currdir := [] }
  msslash := false
  nocase := false
  os := { content := content, offset := 0, script := script }

/-- What one request comes to: the bytes it moves, the error that ends it, and the
script it leaves. -/
structure Moved where
  bytes : ℕ
  error : Option Errno
  script : List Outcome

/-- The transfer of `asked` bytes where there is room for `room`, by the results of the
script. -/
def move (asked room : ℕ) : List Outcome → Moved
  | [] => { bytes := min asked room, error := none, script := [] }
  | .fail e :: rest =>
      if asked = 0 then { bytes := 0, error := none, script := .fail e :: rest }
      else if e = eintr then move asked room rest
      else { bytes := 0, error := some e, script := rest }
  | .upto k :: rest =>
      let n := min k (min asked room)
      if asked = 0 then { bytes := 0, error := none, script := .upto k :: rest }
      else if n = 0 then { bytes := 0, error := none, script := rest }
      else
        let r := move (asked - n) (room - n) rest
        { r with bytes := n + r.bytes }

/-- What `fixed_read` and `fixed_write` return, after `before` bytes. -/
def Moved.result (r : Moved) (before : ℕ) : Word :=
  match r.error with
  | some e => getError e
  | none => BitVec.ofNat 32 (before + r.bytes)

theorem move_zero (room : ℕ) (script : List Outcome) :
    move 0 room script = { bytes := 0, error := none, script := script } := by
  rcases script with _ | ⟨e | k, rest⟩
  · simp [move]
  · rw [move, if_pos rfl]
  · rw [move, if_pos rfl]

theorem move_le (asked room : ℕ) (script : List Outcome) :
    (move asked room script).bytes ≤ min asked room := by
  induction script generalizing asked room with
  | nil => exact le_rfl
  | cons outcome rest ih =>
      cases outcome with
      | fail e =>
          rw [move]
          split
          · exact Nat.zero_le _
          · split
            · exact ih asked room
            · exact Nat.zero_le _
      | upto k =>
          simp only [move]
          split
          · exact Nat.zero_le _
          · split
            · exact Nat.zero_le _
            · have := ih (asked - min k (min asked room)) (room - min k (min asked room))
              simp only
              omega

@[simp] theorem overwrite_nil (content : Bytes) (offset : ℕ) :
    overwrite content offset [] = content := by
  rw [overwrite, if_pos rfl]

theorem overwrite_append (content : Bytes) (offset : ℕ) (first second : Bytes) :
    overwrite (overwrite content offset first) (offset + first.length) second =
      overwrite content offset (first ++ second) := by
  rcases eq_or_ne first [] with rfl | hfirst
  · simp
  · rcases eq_or_ne second [] with rfl | hsecond
    · simp
    · have hfront : (content.takeD offset 0 ++ first).length = offset + first.length := by
        rw [List.length_append, List.takeD_length]
      rw [overwrite, if_neg hsecond, overwrite, if_neg hfirst, overwrite,
        if_neg (by simp [hfirst]), List.takeD_left' hfront, ← List.drop_drop,
        List.drop_left' hfront, List.drop_drop, List.length_append, List.append_assoc,
        List.append_assoc, List.append_assoc, List.append_assoc, Nat.add_assoc]

theorem fixedWrite_fileOs (fd : ℕ) {data : Bytes} {room : ℕ} (hroom : data.length ≤ room)
    (before : ℕ) (f : FileState) :
    fixedWrite fileOs fd data before f =
      ((move data.length room f.script).result before,
        { content := overwrite f.content f.offset (data.take (move data.length room f.script).bytes)
          offset := f.offset + (move data.length room f.script).bytes
          script := (move data.length room f.script).script }) := by
  obtain ⟨content, offset, script⟩ := f
  induction script generalizing data room before content offset with
  | nil =>
      rcases eq_or_ne data [] with rfl | hdata
      · simp [fixedWrite_nil, move_zero, Moved.result]
      · have hlength := List.length_pos_iff.mpr hdata
        have hwrite : fileOs.write fd data ⟨content, offset, []⟩ =
            (.ok data.length, ⟨overwrite content offset data, offset + data.length, []⟩) := by
          simp [fileOs, writePlain, nextOutcome]
        rw [fixedWrite_pos hdata hwrite hlength.ne', List.drop_length, fixedWrite_nil]
        simp [move, Moved.result, Nat.min_eq_left hroom]
  | cons outcome rest ih =>
      rcases eq_or_ne data [] with rfl | hdata
      · simp [fixedWrite_nil, move_zero, Moved.result]
      · have hlength := List.length_pos_iff.mpr hdata
        cases outcome with
        | fail e =>
            have hwrite : fileOs.write fd data ⟨content, offset, .fail e :: rest⟩ =
                (.error e, ⟨content, offset, rest⟩) := by
              simp [fileOs, writePlain, nextOutcome]
            rw [fixedWrite_error hdata hwrite, move, if_neg hlength.ne']
            split
            · exact ih hroom before content offset
            · simp [Moved.result]
        | upto k =>
            have hmin : min k (min data.length room) = min k data.length := by
              rw [Nat.min_eq_left hroom]
            have hwrite : fileOs.write fd data ⟨content, offset, .upto k :: rest⟩ =
                (.ok (min k data.length),
                  ⟨overwrite content offset (data.take (min k data.length)),
                    offset + min k data.length, rest⟩) := by
              simp [fileOs, writePlain, nextOutcome]
            simp only [move, if_neg hlength.ne', hmin]
            generalize hn : min k data.length = n at hwrite ⊢
            have hle : n ≤ data.length := hn ▸ Nat.min_le_right ..
            rcases Nat.eq_zero_or_pos n with rfl | hpos
            · simp [fixedWrite_zero hdata hwrite, Moved.result]
            · have htake : (data.take n).length = n := List.length_take_of_le hle
              have hdrop : (data.drop n).length ≤ room - n := by
                rw [List.length_drop]
                omega
              have happend := overwrite_append content offset (data.take n)
                ((data.drop n).take (move (data.length - n) (room - n) rest).bytes)
              rw [htake, ← List.take_add] at happend
              rw [fixedWrite_pos hdata hwrite hpos.ne', if_neg hpos.ne', ih hdrop, List.length_drop]
              simp only [happend, Moved.result, Nat.add_assoc]

theorem fileOs_read_upto (fd asked k : ℕ) (content : Bytes) (offset : ℕ) (rest : List Outcome) :
    fileOs.read fd asked ⟨content, offset, .upto k :: rest⟩ =
      (.ok ((content.drop offset).take (min k asked)),
        ⟨content, offset + ((content.drop offset).take (min k asked)).length, rest⟩) := by
  simp [fileOs, readPlain, nextOutcome]

theorem fixedRead_done {asked offset : ℕ} {content : Bytes}
    (hdone : asked = 0 ∨ content.length ≤ offset) (fd : ℕ) (data : Bytes) :
    fixedRead fileOs fd asked data ⟨content, offset, []⟩ =
      (BitVec.ofNat 32 data.length, data, ⟨content, offset, []⟩) := by
  rcases Nat.eq_zero_or_pos asked with rfl | hpos
  · exact fixedRead_zero
  · have hend : content.length ≤ offset := by omega
    have hread : fileOs.read fd asked ⟨content, offset, []⟩ =
        (.ok [], ⟨content, offset, []⟩) := by
      simp [fileOs, readPlain, nextOutcome, hend]
    exact fixedRead_nil hpos.ne' hread

/-- `fixed_read` moves what the script lets it move, and comes to the next bytes of the
file. -/
theorem fixedRead_fileOs (fd asked : ℕ) (data : Bytes) (f : FileState) :
    fixedRead fileOs fd asked data f =
      ((move asked f.left f.script).result data.length,
        data ++ (f.content.drop f.offset).take (move asked f.left f.script).bytes,
        { f with
          offset := f.offset + (move asked f.left f.script).bytes
          script := (move asked f.left f.script).script }) := by
  obtain ⟨content, offset, script⟩ := f
  induction script generalizing asked data offset with
  | nil =>
      have hread : fileOs.read fd asked ⟨content, offset, []⟩ =
          (.ok ((content.drop offset).take asked),
            ⟨content, offset + ((content.drop offset).take asked).length, []⟩) := by
        simp [fileOs, readPlain, nextOutcome]
      generalize hbytes : (content.drop offset).take asked = bytes at hread
      have hlength : bytes.length = min asked (content.length - offset) := by
        rw [← hbytes, List.length_take, List.length_drop]
      have hprefix : bytes = (content.drop offset).take bytes.length :=
        List.prefix_iff_eq_take.mp (hbytes ▸ List.take_prefix ..)
      simp only [move, FileState.left, ← hlength, ← hprefix]
      rcases Nat.eq_zero_or_pos asked with rfl | hpos
      · obtain rfl : bytes = [] := by simpa using hlength
        simp [fixedRead_zero, Moved.result]
      · rcases eq_or_ne bytes [] with rfl | hne
        · simp [fixedRead_nil hpos.ne' hread, Moved.result]
        · rw [fixedRead_cons hpos.ne' hread hne, fixedRead_done (by omega)]
          simp [Moved.result]
  | cons outcome rest ih =>
      rcases Nat.eq_zero_or_pos asked with rfl | hpos
      · simp [fixedRead_zero, move_zero, Moved.result]
      · cases outcome with
        | fail e =>
            have hread : fileOs.read fd asked ⟨content, offset, .fail e :: rest⟩ =
                (.error e, ⟨content, offset, rest⟩) := by
              simp [fileOs, readPlain, nextOutcome]
            rw [fixedRead_error hpos.ne' hread, move, if_neg hpos.ne']
            split
            · exact ih asked data offset
            · simp [Moved.result]
        | upto k =>
            have hread := fileOs_read_upto fd asked k content offset rest
            generalize hbytes : (content.drop offset).take (min k asked) = bytes at hread
            have hlength : bytes.length = min k (min asked (content.length - offset)) := by
              rw [← hbytes, List.length_take, List.length_drop, Nat.min_assoc]
            simp only [move, if_neg hpos.ne', FileState.left, ← hlength]
            rcases eq_or_ne bytes [] with rfl | hne
            · simp [fixedRead_nil hpos.ne' hread, Moved.result]
            · rw [fixedRead_cons hpos.ne' hread hne, if_neg (by simpa using hne), ih]
              have hprefix : bytes = (content.drop offset).take bytes.length :=
                List.prefix_iff_eq_take.mp (hbytes ▸ List.take_prefix ..)
              simp only [Moved.result, List.length_append, Nat.add_assoc, FileState.left,
                List.take_add, List.drop_drop, ← hprefix, List.append_assoc, Nat.sub_sub]

end PsplinkUsb.UsbHostfsPc.PlainFile
