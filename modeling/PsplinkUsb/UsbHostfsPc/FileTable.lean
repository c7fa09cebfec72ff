import Mathlib.Data.List.Induction
import Mathlib.Data.List.MinMax
import Mathlib.Data.Set.Insert
import PsplinkUsb.HostFs.Exchange
import PsplinkUsb.UsbHostfsPc.PlainFile

namespace PsplinkUsb.UsbHostfsPc.FileTable

open PsplinkUsb.Library.Duplex
open PsplinkUsb.HostFs.Wire
open PsplinkUsb.HostFs.Exchange
open PsplinkUsb.UsbHostfsPc.HostPath
open PsplinkUsb.UsbHostfsPc.OsCalls
open PsplinkUsb.UsbHostfsPc.HostFiles
open PsplinkUsb.UsbHostfsPc.Handlers
open PsplinkUsb.UsbHostfsPc.PlainFile

variable {σ : Type} (os : HostOs σ)

def initHostfs (h : Host σ) : Host σ :=
  { h with
    openFiles := fun _ => FileHandle.closed
    openDirs := fun _ => DirHandle.closed
    drives := fun d => { h.drives d with currdir := [slash] } }

/-- Close the descriptor of an entry and clear the entry, as `handle_close` and `close_hostfs`
do. -/
def closeFile (fid : Fin maxFiles) (h : Host σ) : Host σ :=
  { h with
    os := (os.close fid h.os).2
    openFiles := Function.update h.openFiles fid
      { h.openFiles fid with opened := false, name := none } }

/-- One round of the first loop of `close_hostfs`. The standard files are left out. -/
def closeIfOpened (h : Host σ) (fid : Fin maxFiles) : Host σ :=
  if (h.openFiles fid).opened then closeFile os fid h else h

def closeFiles (h : Host σ) : Host σ :=
  ((List.finRange maxFiles).drop 3).foldl (closeIfOpened os) h

def closeDirIfOpened (h : Host σ) (did : Fin maxDirs) : Host σ :=
  if (h.openDirs did).opened then (dirClose (BitVec.ofNat 32 did) h).2 else h

def closeDirs (h : Host σ) : Host σ := (List.finRange maxDirs).foldl closeDirIfOpened h

def closeHostfs (h : Host σ) : Host σ := closeDirs (closeFiles os h)

/-- A call of `open_file`, or the request struct of a handler, for a write with the data that
is there to be received. -/
inductive FileRequest where
  | open (drive : Word) (path : Path) (mode mask : Word)
  | close (cmd : Bytes)
  | read (cmd : Bytes)
  | write (cmd data : Bytes)
  | lseek (cmd : Bytes)

/-- What a handler sends, and the state it leaves. Data that does not come is an error that is
not answered. -/
def served (p : Proc UInt8 (Host σ)) (data : Bytes) (h : Host σ) : List Bytes × Host σ :=
  match p.feed data with
  | some o => (o.sent, o.result)
  | none => ([], h)

def FileRequest.serve (h : Host σ) : FileRequest → List Bytes × Host σ
  | .open drive path mode mask => ([], (openFile os drive path mode mask h).2)
  | .close cmd => served (handleClose os h cmd) [] h
  | .read cmd => served (handleRead os h cmd) [] h
  | .write cmd data => served (handleWrite os h cmd) data h
  | .lseek cmd => served (handleLseek os h cmd) [] h

def runRequests (requests : List FileRequest) (h : Host σ) : Host σ :=
  requests.foldl (fun h r => (r.serve os h).2) h

/-- The descriptor that `open_file` returns. -/
def FileRequest.returned (h : Host σ) : FileRequest → Option (Fin maxFiles)
  | .open drive path mode mask => toSlot (openFile os drive path mode mask h).1
  | _ => none

/-- The descriptor that a close request names. -/
def FileRequest.closes : FileRequest → Option (Fin maxFiles)
  | .close cmd => if cmd.length = HostFsCommand.close.cmdSize then toSlot (field32 cmd 12) else none
  | _ => none

/-- A request returned the descriptor, and none of the later ones closes it. -/
def LeftOpen (requests : List FileRequest) (h : Host σ) (i : Fin maxFiles) : Prop :=
  ∃ before r after, requests = before ++ r :: after ∧
    r.returned os (runRequests os before h) = some i ∧ ∀ r' ∈ after, r'.closes ≠ some i

/-- The number that a request gives for a file. -/
def FileRequest.number : FileRequest → Option Word
  | .open _ _ _ _ => none
  | .close cmd | .read cmd | .write cmd _ | .lseek cmd => some (field32 cmd 12)

/-- The struct has its size, and there is something to read or write. -/
def FileRequest.WellFormed : FileRequest → Prop
  | .open _ _ _ _ => True
  | .close cmd => cmd.length = HostFsCommand.close.cmdSize
  | .read cmd => cmd.length = HostFsCommand.read.cmdSize ∧ 0 < (field32 cmd 16).toInt
  | .write cmd data =>
      cmd.length = HostFsCommand.write.cmdSize ∧ (HostFsCmd.decode cmd).extralen ≠ 0 ∧
        (HostFsCmd.decode cmd).extralen.toNat ≤ data.length
  | .lseek cmd => cmd.length = HostFsCommand.lseek.cmdSize

/-- The response with the result -1. -/
def FileRequest.refusal : FileRequest → Bytes
  | .open _ _ _ _ => []
  | .close _ => (Reply.res (-1)).packet .close
  | .read _ => (Reply.res (-1)).packet .read
  | .write _ _ => (Reply.res (-1)).packet .write
  | .lseek _ =>
      Reply.packet .lseek { extralen := 0, fields := le32 (-1) ++ le64 0, data := [] }

/-- What the calls on descriptors do to the ones a process holds: `open` gives it one more,
above those it was started with, `close` takes it away whatever it returns, and the others
change none. -/
structure Descriptors {σ : Type} (os : HostOs σ) (held : σ → Set ℕ) : Prop where
  open_ok : ∀ path flags mask s fd s', os.openFile path flags mask s = (.ok fd, s') →
    3 ≤ fd ∧ fd ∉ held s ∧ held s' = insert fd (held s)
  open_error : ∀ path flags mask s e s', os.openFile path flags mask s = (.error e, s') →
    held s' = held s
  close : ∀ fd s, held (os.close fd s).2 = held s \ {fd}
  read : ∀ fd n s, held (os.read fd n s).2 = held s
  write : ∀ fd data s, held (os.write fd data s).2 = held s
  lseek : ∀ fd ofs whence s, held (os.lseek fd ofs whence s).2 = held s

section Steps

variable {os} {held : σ → Set ℕ} {h : Host σ} {cmd data : Bytes} {i fid : Fin maxFiles}

theorem toSlot_getError (e : Errno) : toSlot (getError e) = none := by
  have hneg := getError_toInt_neg e
  rw [toSlot, dif_neg]
  rw [BitVec.toInt_eq_toNat_cond] at hneg
  split at hneg
  · omega
  · simp only [maxFiles]
    omega

theorem toSlot_ofNat {fd : ℕ} (hfd : fd < maxFiles) :
    toSlot (BitVec.ofNat 32 fd) = some ⟨fd, hfd⟩ := by
  have hmod : (BitVec.ofNat 32 fd).toNat = fd := by
    rw [BitVec.toNat_ofNat]
    exact Nat.mod_eq_of_lt (hfd.trans (by decide))
  rw [toSlot, dif_pos (by rw [hmod]; exact hfd)]
  simp only [hmod]

/-- What `open_file` does: nothing to the table but on success, and then the descriptor it
returns is the one it opened. -/
theorem openFile_cases (hos : Descriptors os held) (drive : Word) (path : Path) (mode mask : Word)
    (h : Host σ) :
    (toSlot (openFile os drive path mode mask h).1 = none ∧
      (openFile os drive path mode mask h).2.openFiles = h.openFiles ∧
      held (openFile os drive path mode mask h).2.os = held h.os) ∨
    ∃ fid file, toSlot (openFile os drive path mode mask h).1 = some fid ∧
      file.opened = true ∧
      (openFile os drive path mode mask h).2.openFiles = Function.update h.openFiles fid file ∧
      2 < fid.val ∧ fid.val ∉ held h.os ∧
      held (openFile os drive path mode mask h).2.os = insert fid.val (held h.os) := by
  rw [openFile]
  split
  · exact .inl ⟨toSlot_getError _, rfl, rfl⟩
  · split
    · exact .inl ⟨toSlot_getError _, rfl, rfl⟩
    · dsimp only
      split
      · exact .inl ⟨toSlot_getError _, rfl, rfl⟩
      · split
        · rename_i e s hopen
          exact .inl ⟨toSlot_getError _, rfl, hos.open_error _ _ _ _ _ _ hopen⟩
        · rename_i fd s hopen
          obtain ⟨hlow, hfresh, hheld⟩ := hos.open_ok _ _ _ _ _ _ hopen
          split
          · rename_i hfd
            exact .inr ⟨⟨fd, hfd⟩, _, toSlot_ofNat hfd, rfl, rfl, hlow, hfresh, hheld⟩
          · refine .inl ⟨toSlot_getError _, rfl, ?_⟩
            rw [hos.close, hheld]
            exact Set.insert_sdiff_self_of_notMem hfresh

theorem held_fixedRead (hos : Descriptors os held) (fd left : ℕ) (data : Bytes) (s : σ) :
    held (fixedRead os fd left data s).2.2 = held s := by
  have hread {n : ℕ} {s s' : σ} {result : Except Errno Bytes}
      (h : os.read fd n s = (result, s')) : held s' = held s := by
    rw [← hos.read fd n s, h]
  induction left, data, s using fixedRead.induct os fd with
  | case1 data s => rw [fixedRead_zero]
  | case2 left data s hleft s' h ih => rw [fixedRead_error hleft h, if_pos rfl, ih, hread h]
  | case3 left data s hleft e s' h he => rw [fixedRead_error hleft h, if_neg he, hread h]
  | case4 left data s hleft s' h => rw [fixedRead_nil hleft h, hread h]
  | case5 left data s hleft b bytes s' h ih =>
      rw [fixedRead_cons hleft h (List.cons_ne_nil b bytes), ih, hread h]

theorem held_fixedWrite (hos : Descriptors os held) (fd : ℕ) (data : Bytes) (byteswrite : ℕ)
    (s : σ) : held (fixedWrite os fd data byteswrite s).2 = held s := by
  have hwrite {data : Bytes} {s s' : σ} {result : Except Errno ℕ}
      (h : os.write fd data s = (result, s')) : held s' = held s := by
    rw [← hos.write fd data s, h]
  induction data, byteswrite, s using fixedWrite.induct os fd with
  | case1 byteswrite s => rw [fixedWrite_nil]
  | case2 data byteswrite s hdata s' h ih =>
      rw [fixedWrite_error hdata h, if_pos rfl, ih, hwrite h]
  | case3 data byteswrite s hdata e s' h he => rw [fixedWrite_error hdata h, if_neg he, hwrite h]
  | case4 data byteswrite s hdata s' h => rw [fixedWrite_zero hdata h, hwrite h]
  | case5 data byteswrite s hdata n s' h ih =>
      rw [fixedWrite_pos hdata h (Nat.succ_ne_zero n), ih, hwrite h]

/-- Neither the table nor the descriptors change. -/
structure Kept (held : σ → Set ℕ) (h h' : Host σ) : Prop where
  openFiles : h'.openFiles = h.openFiles
  held : held h'.os = held h.os

theorem Kept.refl (h : Host σ) : Kept held h h := ⟨rfl, rfl⟩

theorem served_respond (command : HostFsCommand) (r : Reply × Host σ) (data : Bytes) (h : Host σ) :
    served (respond command r) data h = (replyPackets command r.1, r.2) := by
  rw [served, feed_respond]

theorem read_kept (hos : Descriptors os held) (cmd : Bytes) (h : Host σ) :
    Kept held h ((FileRequest.read cmd).serve os h).2 := by
  rw [FileRequest.serve, handleRead]
  split
  · exact .refl h
  · split
    · exact .refl h
    · rw [served_respond, readFile]
      split
      · exact .refl h
      · split
        · exact ⟨rfl, held_fixedRead hos _ _ _ _⟩
        · exact .refl h

theorem write_kept (hos : Descriptors os held) (cmd data : Bytes) (h : Host σ) :
    Kept held h ((FileRequest.write cmd data).serve os h).2 := by
  rw [FileRequest.serve, handleWrite, handleData]
  split
  · exact .refl h
  · split
    · exact .refl h
    · rw [served, Proc.feed]
      split
      · rename_i o hfed
        split at hfed
        · rw [feed_respond] at hfed
          obtain rfl := Option.some.inj hfed
          dsimp only
          rw [writeFile]
          split
          · exact .refl h
          · split
            · exact ⟨rfl, held_fixedWrite hos _ _ _ _⟩
            · exact .refl h
        · cases hfed
      · exact .refl h

theorem lseek_kept (hos : Descriptors os held) (cmd : Bytes) (h : Host σ) :
    Kept held h ((FileRequest.lseek cmd).serve os h).2 := by
  rw [FileRequest.serve, handleLseek, handle]
  split
  · exact .refl h
  · rw [served_respond]
    dsimp only
    split
    · exact .refl h
    · split
      · exact ⟨rfl, hos.lseek _ _ _ _⟩
      · exact .refl h

theorem close_serve (cmd : Bytes) (h : Host σ) :
    ((FileRequest.close cmd).serve os h).2 =
      match (FileRequest.close cmd).closes with
      | none => h
      | some fid => if 2 < fid.val then closeIfOpened os h fid else h := by
  rw [FileRequest.serve, handleClose, handle, FileRequest.closes]
  split
  · rfl
  · rename_i hsize
    rw [if_pos (not_not.mp hsize), served_respond]
    dsimp only
    cases toSlot (field32 cmd 12) with
    | none => rfl
    | some fid =>
        dsimp only
        rw [closeIfOpened]
        rcases Nat.lt_or_ge 2 fid.val with hlow | hlow
        · rw [if_pos hlow]
          split
          · rename_i hopened
            rw [if_pos hopened.2]
            rfl
          · rename_i hclosed
            rw [if_neg fun hopened => hclosed ⟨hlow, hopened⟩]
        · rw [if_neg fun hopened => absurd hopened.1 (Nat.not_lt.mpr hlow),
            if_neg (Nat.not_lt.mpr hlow)]

/-- A number without an opened entry is answered with -1, if the request is well formed, and
nothing is done. -/
theorem serve_refused {r : FileRequest} {number : Word} (hnumber : r.number = some number)
    (hclosed : ∀ fid, toSlot number = some fid → (h.openFiles fid).opened = false) :
    (r.WellFormed → r.serve os h = ([r.refusal], h)) ∧
      (¬r.WellFormed → r.serve os h = ([], h)) := by
  cases r with
  | «open» drive path mode mask => cases hnumber
  | close cmd =>
      obtain rfl := Option.some.inj hnumber
      rw [FileRequest.serve, handleClose, handle, FileRequest.WellFormed]
      constructor
      · intro hsize
        rw [if_neg (not_not.mpr hsize), served_respond]
        cases hslot : toSlot (field32 cmd 12) with
        | none => rfl
        | some fid =>
            simp only [hclosed fid hslot, Bool.false_eq_true, and_false, if_false]
            rfl
      · intro hsize
        rw [if_pos hsize]
        rfl
  | read cmd =>
      obtain rfl := Option.some.inj hnumber
      rw [FileRequest.serve, handleRead, FileRequest.WellFormed]
      constructor
      · rintro ⟨hsize, hlen⟩
        rw [if_neg (not_not.mpr hsize), if_neg (Int.not_le.mpr hlen), served_respond, readFile]
        cases hslot : toSlot (field32 cmd 12) with
        | none => rfl
        | some fid =>
            simp only [hclosed fid hslot, Bool.false_eq_true, if_false]
            rfl
      · intro hbad
        split
        · rfl
        · rename_i hsize
          rw [if_pos (Int.not_lt.mp fun hlen => hbad ⟨not_not.mp hsize, hlen⟩)]
          rfl
  | write cmd data =>
      obtain rfl := Option.some.inj hnumber
      rw [FileRequest.serve, handleWrite, handleData, FileRequest.WellFormed]
      constructor
      · rintro ⟨hsize, hdata, hlen⟩
        rw [if_neg (not_not.mpr hsize), if_neg hdata, served, Proc.feed, if_pos hlen, feed_respond,
          writeFile]
        cases hslot : toSlot (field32 cmd 12) with
        | none => rfl
        | some fid =>
            simp only [hclosed fid hslot, Bool.false_eq_true, if_false]
            rfl
      · intro hbad
        split
        · rfl
        · rename_i hsize
          split
          · rfl
          · rename_i hdata
            rw [served, Proc.feed, if_neg fun hlen => hbad ⟨not_not.mp hsize, hdata, hlen⟩]
  | lseek cmd =>
      obtain rfl := Option.some.inj hnumber
      rw [FileRequest.serve, handleLseek, handle, FileRequest.WellFormed]
      constructor
      · intro hsize
        rw [if_neg (not_not.mpr hsize), served_respond]
        cases hslot : toSlot (field32 cmd 12) with
        | none => rfl
        | some fid =>
            simp only [hclosed fid hslot, Bool.false_eq_true, and_false, if_false]
            rfl
      · intro hsize
        rw [if_pos hsize]
        rfl

/-! ### The table and the descriptors -/

/-- The descriptors of the opened entries. -/
def openedSet (h : Host σ) : Set ℕ := {fd | ∃ i, (h.openFiles i).opened = true ∧ i.val = fd}

/-- The process holds the descriptors that it was started with and those of the opened entries,
none of which is one of the others. -/
structure Holds (held : σ → Set ℕ) (base : Set ℕ) (h : Host σ) : Prop where
  low : ∀ i, (h.openFiles i).opened = true → 2 < i.val
  apart : ∀ i, (h.openFiles i).opened = true → i.val ∉ base
  held : held h.os = base ∪ openedSet h

variable {base : Set ℕ} {h' : Host σ}

theorem Holds.initHostfs (h₀ : Host σ) : Holds held (held h₀.os) (initHostfs h₀) where
  low := fun _ hi => absurd hi Bool.false_ne_true
  apart := fun _ hi => absurd hi Bool.false_ne_true
  held := by
    symm
    apply Set.union_eq_left.mpr
    rintro fd ⟨i, hi, -⟩
    exact absurd hi Bool.false_ne_true

theorem Holds.kept (hholds : Holds held base h) (hkept : Kept held h h') : Holds held base h' where
  low := by
    rw [hkept.openFiles]
    exact hholds.low
  apart := by
    rw [hkept.openFiles]
    exact hholds.apart
  held := by
    rw [hkept.held, hholds.held, openedSet, openedSet, hkept.openFiles]

theorem opened_update {file : FileHandle}
    (hfiles : h'.openFiles = Function.update h.openFiles fid file) :
    (h'.openFiles i).opened = if i = fid then file.opened else (h.openFiles i).opened := by
  rw [hfiles, Function.update_apply]
  split
  · rfl
  · rfl

theorem Holds.opens (hholds : Holds held base h) {file : FileHandle} (hopened : file.opened = true)
    (hfiles : h'.openFiles = Function.update h.openFiles fid file) (hlow : 2 < fid.val)
    (hfresh : fid.val ∉ held h.os) (hheld : held h'.os = insert fid.val (held h.os)) :
    Holds held base h' := by
  have hcases (i : Fin maxFiles) :
      (h'.openFiles i).opened = true ↔ i = fid ∨ (h.openFiles i).opened = true := by
    rw [opened_update hfiles]
    split
    · rename_i heq
      exact iff_of_true hopened (.inl heq)
    · rename_i hne
      rw [or_iff_right hne]
  rw [hholds.held] at hfresh
  constructor
  · intro i hi
    rcases (hcases i).mp hi with rfl | hi
    · exact hlow
    · exact hholds.low i hi
  · intro i hi
    rcases (hcases i).mp hi with rfl | hi
    · exact fun hbase => hfresh (.inl hbase)
    · exact hholds.apart i hi
  · ext fd
    rw [hheld, hholds.held, Set.mem_insert_iff, Set.mem_union, Set.mem_union]
    constructor
    · rintro (rfl | hbase | ⟨i, hi, rfl⟩)
      · exact .inr ⟨fid, (hcases fid).mpr (.inl rfl), rfl⟩
      · exact .inl hbase
      · exact .inr ⟨i, (hcases i).mpr (.inr hi), rfl⟩
    · rintro (hbase | ⟨i, hi, rfl⟩)
      · exact .inr (.inl hbase)
      · rcases (hcases i).mp hi with rfl | hi
        · exact .inl rfl
        · exact .inr (.inr ⟨i, hi, rfl⟩)

theorem opened_closeFile :
    ((closeFile os fid h).openFiles i).opened = true ↔ i ≠ fid ∧ (h.openFiles i).opened = true := by
  rw [@opened_update σ h i fid (closeFile os fid h) _ rfl]
  split
  · rename_i heq
    exact iff_of_false Bool.false_ne_true fun h => h.1 heq
  · rename_i hne
    exact (and_iff_right hne).symm

theorem Holds.closes (hos : Descriptors os held) (hholds : Holds held base h)
    (hopened : (h.openFiles fid).opened = true) : Holds held base (closeFile os fid h) := by
  constructor
  · exact fun i hi => hholds.low i (opened_closeFile.mp hi).2
  · exact fun i hi => hholds.apart i (opened_closeFile.mp hi).2
  · ext fd
    have hheld : held (closeFile os fid h).os = held h.os \ {fid.val} := hos.close _ _
    rw [hheld, hholds.held, Set.mem_sdiff, Set.mem_singleton_iff, Set.mem_union, Set.mem_union]
    constructor
    · rintro ⟨hbase | ⟨i, hi, rfl⟩, hne⟩
      · exact .inl hbase
      · exact .inr ⟨i, opened_closeFile.mpr ⟨fun heq => hne (congrArg Fin.val heq), hi⟩, rfl⟩
    · rintro (hbase | ⟨i, hi, rfl⟩)
      · refine ⟨.inl hbase, ?_⟩
        rintro rfl
        exact hholds.apart fid hopened hbase
      · obtain ⟨hne, hi⟩ := opened_closeFile.mp hi
        exact ⟨.inr ⟨i, hi, rfl⟩, fun heq => hne (Fin.ext heq)⟩

theorem Holds.closeIfOpened (hos : Descriptors os held) (hholds : Holds held base h)
    (fid : Fin maxFiles) : Holds held base (closeIfOpened os h fid) := by
  rw [FileTable.closeIfOpened]
  split
  · rename_i hopened
    exact hholds.closes hos hopened
  · exact hholds

theorem opened_closeIfOpened :
    ((closeIfOpened os h fid).openFiles i).opened = true ↔
      i ≠ fid ∧ (h.openFiles i).opened = true := by
  rw [closeIfOpened]
  split
  · exact opened_closeFile
  · rename_i hclosed
    constructor
    · intro hi
      refine ⟨?_, hi⟩
      rintro rfl
      exact hclosed hi
    · exact And.right

/-! ### One request -/

theorem Holds.serve (hos : Descriptors os held) (hholds : Holds held base h) (r : FileRequest) :
    Holds held base (r.serve os h).2 := by
  cases r with
  | «open» drive path mode mask =>
      rw [FileRequest.serve]
      rcases openFile_cases hos drive path mode mask h with ⟨-, hfiles, hheld⟩ |
        ⟨fid, file, -, hopened, hfiles, hlow, hfresh, hheld⟩
      · exact hholds.kept ⟨hfiles, hheld⟩
      · exact hholds.opens hopened hfiles hlow hfresh hheld
  | close cmd =>
      rw [close_serve]
      cases (FileRequest.close cmd).closes with
      | none => exact hholds
      | some fid =>
          dsimp only
          split
          · exact hholds.closeIfOpened hos fid
          · exact hholds
  | read cmd => exact hholds.kept (read_kept hos cmd h)
  | write cmd data => exact hholds.kept (write_kept hos cmd data h)
  | lseek cmd => exact hholds.kept (lseek_kept hos cmd h)

theorem opened_kept (hkept : Kept held h h') :
    (h'.openFiles i).opened = true ↔ (h.openFiles i).opened = true := by
  rw [hkept.openFiles]

theorem opened_serve (hos : Descriptors os held) (hholds : Holds held base h) (r : FileRequest) :
    ((r.serve os h).2.openFiles i).opened = true ↔
      r.returned os h = some i ∨ (h.openFiles i).opened = true ∧ r.closes ≠ some i := by
  have hother (hkept : Kept held h (r.serve os h).2) (hreturned : r.returned os h = none)
      (hcloses : r.closes = none) :
      ((r.serve os h).2.openFiles i).opened = true ↔
        r.returned os h = some i ∨ (h.openFiles i).opened = true ∧ r.closes ≠ some i := by
    rw [opened_kept hkept, hreturned, hcloses]
    simp
  cases r with
  | «open» drive path mode mask =>
      have hcloses : (FileRequest.open drive path mode mask).closes = none := rfl
      rw [FileRequest.serve, FileRequest.returned, hcloses]
      rcases openFile_cases hos drive path mode mask h with ⟨hslot, hfiles, -⟩ |
        ⟨fid, file, hslot, hopened, hfiles, -, -, -⟩
      · rw [hslot, hfiles]
        simp
      · rw [hslot, opened_update hfiles, Option.some_inj]
        split
        · rename_i heq
          exact iff_of_true hopened (.inl heq.symm)
        · rename_i hne
          rw [or_iff_right fun heq => hne heq.symm]
          simp
  | close cmd =>
      have hreturned : (FileRequest.close cmd).returned os h = none := rfl
      rw [close_serve, hreturned, or_iff_right (fun h => nomatch h)]
      cases (FileRequest.close cmd).closes with
      | none => simp
      | some fid =>
          rw [ne_eq, Option.some_inj, and_comm]
          dsimp only
          split
          · rw [opened_closeIfOpened, ne_comm]
          · rename_i hlow
            constructor
            · intro hi
              refine ⟨?_, hi⟩
              rintro rfl
              exact hlow (hholds.low fid hi)
            · exact And.right
  | read cmd => exact hother (read_kept hos cmd h) rfl rfl
  | write cmd data => exact hother (write_kept hos cmd data h) rfl rfl
  | lseek cmd => exact hother (lseek_kept hos cmd h) rfl rfl

/-! ### Runs -/

theorem runRequests_concat (rs : List FileRequest) (r : FileRequest) (h : Host σ) :
    runRequests os (rs ++ [r]) h = (r.serve os (runRequests os rs h)).2 := by
  rw [runRequests, List.foldl_append]
  rfl

theorem Holds.run (hos : Descriptors os held) (hholds : Holds held base h)
    (rs : List FileRequest) : Holds held base (runRequests os rs h) := by
  induction rs using List.reverseRecOn with
  | nil => exact hholds
  | append_singleton rs r ih =>
      rw [runRequests_concat]
      exact ih.serve hos r

/-- The opened entries are those that were returned and not closed since. -/
theorem opened_runRequests (hos : Descriptors os held) (hholds : Holds held base h)
    (hclosed : ∀ i, (h.openFiles i).opened = false) (rs : List FileRequest) :
    ((runRequests os rs h).openFiles i).opened = true ↔ LeftOpen os rs h i := by
  simp only [LeftOpen]
  induction rs using List.reverseRecOn with
  | nil =>
      rw [runRequests, List.foldl_nil, hclosed]
      simp
  | append_singleton rs r ih =>
      rw [runRequests_concat, opened_serve hos (hholds.run hos rs), ih]
      constructor
      · rintro (hreturned | ⟨⟨before, r', after, rfl, hreturned, hafter⟩, hr⟩)
        · exact ⟨rs, r, [], rfl, hreturned, fun _ h => absurd h List.not_mem_nil⟩
        · refine ⟨before, r', after ++ [r], by simp, hreturned, fun q hq => ?_⟩
          rcases List.mem_append.mp hq with hq | hq
          · exact hafter q hq
          · rwa [List.mem_singleton.mp hq]
      · rintro ⟨before, r', after, hsplit, hreturned, hafter⟩
        rcases List.eq_nil_or_concat after with rfl | ⟨after, last, rfl⟩
        · obtain ⟨rfl, hlast⟩ := List.append_inj' hsplit rfl
          obtain ⟨rfl, -⟩ := List.cons.inj hlast
          exact .inl hreturned
        · rw [List.concat_eq_append] at hsplit hafter
          rw [← List.cons_append, ← List.append_assoc] at hsplit
          obtain ⟨rfl, hlast⟩ := List.append_inj' hsplit rfl
          obtain ⟨rfl, -⟩ := List.cons.inj hlast
          refine .inr ⟨⟨before, r', after, rfl, hreturned, fun q hq => ?_⟩, ?_⟩
          · exact hafter q (List.mem_append_left _ hq)
          · exact hafter r (List.mem_append_right _ (List.mem_singleton.mpr rfl))

theorem holds_closeFiles (hos : Descriptors os held) (hholds : Holds held base h) :
    Holds held base (closeFiles os h) := by
  have hfold (fids : List (Fin maxFiles)) {h : Host σ} (hholds : Holds held base h) :
      Holds held base (fids.foldl (closeIfOpened os) h) := by
    induction fids generalizing h with
    | nil => exact hholds
    | cons fid fids ih => exact ih (hholds.closeIfOpened hos fid)
  exact hfold _ hholds

theorem opened_closeFiles :
    ((closeFiles os h).openFiles i).opened = true ↔
      i ∉ (List.finRange maxFiles).drop 3 ∧ (h.openFiles i).opened = true := by
  have hfold (fids : List (Fin maxFiles)) (h : Host σ) :
      ((fids.foldl (closeIfOpened os) h).openFiles i).opened = true ↔
        i ∉ fids ∧ (h.openFiles i).opened = true := by
    induction fids generalizing h with
    | nil => simp
    | cons fid fids ih =>
        rw [List.foldl_cons, ih, opened_closeIfOpened, List.mem_cons, not_or, and_assoc,
          and_left_comm]
  rw [closeFiles]
  exact hfold _ h

theorem kept_dirClose (did : Word) (h : Host σ) : Kept held h (dirClose did h).2 := by
  rw [dirClose]
  cases toSlot did with
  | none => exact .refl h
  | some did =>
      dsimp only
      split
      · exact ⟨rfl, rfl⟩
      · exact .refl h

theorem kept_closeDirIfOpened (did : Fin maxDirs) (h : Host σ) :
    Kept held h (closeDirIfOpened h did) := by
  rw [closeDirIfOpened]
  split
  · exact kept_dirClose _ h
  · exact .refl h

theorem kept_closeDirs (h : Host σ) : Kept held h (closeDirs h) := by
  have hfold (dids : List (Fin maxDirs)) (h : Host σ) :
      Kept held h (dids.foldl closeDirIfOpened h) := by
    induction dids generalizing h with
    | nil => exact .refl h
    | cons did dids ih =>
        have hfirst := @kept_closeDirIfOpened σ held did h
        have hrest := ih (closeDirIfOpened h did)
        exact ⟨hrest.openFiles.trans hfirst.openFiles, hrest.held.trans hfirst.held⟩
  rw [closeDirs]
  exact hfold _ h

theorem mem_drop_finRange (hlow : 2 < i.val) : i ∈ (List.finRange maxFiles).drop 3 := by
  rw [List.mem_drop_iff_getElem]
  refine ⟨i.val - 3, by simp only [List.length_finRange]; omega, ?_⟩
  rw [List.getElem_finRange]
  apply Fin.ext
  simp only [Fin.val_cast]
  omega

/-- After `close_hostfs` no entry is opened, and the process holds what it was started with. -/
theorem closeHostfs_closed (hos : Descriptors os held) (hholds : Holds held base h) :
    (∀ i, ((closeHostfs os h).openFiles i).opened = false) ∧
      held (closeHostfs os h).os = base := by
  rw [closeHostfs]
  have hkept := @kept_closeDirs σ held (closeFiles os h)
  have hend := (holds_closeFiles hos hholds).kept hkept
  have hclosed (i : Fin maxFiles) : ((closeDirs (closeFiles os h)).openFiles i).opened = false := by
    rw [← Bool.not_eq_true]
    intro hi
    obtain ⟨hskipped, hopened⟩ := opened_closeFiles.mp ((opened_kept hkept).mp hi)
    exact hskipped (mem_drop_finRange (hholds.low i hopened))
  refine ⟨hclosed, ?_⟩
  rw [hend.held, Set.union_eq_left]
  rintro fd ⟨i, hi, -⟩
  rw [hclosed i] at hi
  cases hi

end Steps

variable {os} in
/-- From `init_hostfs` on, the opened entries are those that `open_file` returned and no later
request closes. A request for another number leaves everything as it is, and is answered with
-1 if it is well formed, else not at all. `close_hostfs` closes all that was left open. -/
theorem file_table {held : σ → Set ℕ} (hos : Descriptors os held) (h₀ : Host σ)
    (rs : List FileRequest) :
    let h := runRequests os rs (initHostfs h₀)
    (∀ i, (h.openFiles i).opened = true ↔ LeftOpen os rs (initHostfs h₀) i) ∧
      (∀ r number, FileRequest.number r = some number →
        (∀ fid, toSlot number = some fid → ¬LeftOpen os rs (initHostfs h₀) fid) →
          (r.WellFormed → r.serve os h = ([r.refusal], h)) ∧
            (¬r.WellFormed → r.serve os h = ([], h))) ∧
      (∀ i, LeftOpen os rs (initHostfs h₀) i →
        i.val ∈ held h.os ∧ i.val ∉ held (closeHostfs os h).os) ∧
      held (closeHostfs os h).os = held h₀.os ∧
      ∀ i, ((closeHostfs os h).openFiles i).opened = false := by
  intro h
  have hinit (i : Fin maxFiles) : ((initHostfs h₀).openFiles i).opened = false := rfl
  have hstart : Holds held (held h₀.os) (initHostfs h₀) := Holds.initHostfs h₀
  have hholds : Holds held (held h₀.os) h := hstart.run hos rs
  have hleft (i : Fin maxFiles) :
      (h.openFiles i).opened = true ↔ LeftOpen os rs (initHostfs h₀) i :=
    opened_runRequests hos hstart hinit rs
  obtain ⟨hclosed, hend⟩ := closeHostfs_closed hos hholds
  refine ⟨hleft, ?_, ?_, hend, hclosed⟩
  · intro r number hnumber hother
    apply serve_refused hnumber
    intro fid hslot
    rw [← Bool.not_eq_true, hleft]
    exact hother fid hslot
  · intro i hi
    have hopened := (hleft i).mpr hi
    rw [hend, hholds.held]
    exact ⟨.inr ⟨i, hopened, rfl⟩, hholds.apart i hopened⟩

/-- A process that is given the descriptor above all those it has. -/
def freshOs : HostOs (List ℕ) :=
  { refusingOs (List ℕ) with
    openFile := fun _ _ _ fds =>
      let fd := (2 :: fds).foldr max 0 + 1
      (.ok fd, fd :: fds)
    close := fun fd fds => (if fd ∈ fds then .ok () else .error 9, fds.filter (· ≠ fd)) }

theorem descriptors_freshOs : Descriptors freshOs fun fds => {fd | fd ∈ fds} where
  open_ok := by
    intro path flags mask fds fd fds' h
    obtain ⟨hfd, rfl⟩ := Prod.mk.inj h
    obtain rfl := Except.ok.inj hfd
    have hmax (n : ℕ) (hn : n ∈ 2 :: fds) : n < (2 :: fds).foldr max 0 + 1 :=
      Nat.lt_succ_of_le (List.le_max_of_le' 0 hn le_rfl)
    refine ⟨hmax 2 List.mem_cons_self, fun hmem => ?_, ?_⟩
    · exact absurd (hmax _ (List.mem_cons_of_mem 2 hmem)) (lt_irrefl _)
    · ext n
      exact List.mem_cons
  open_error := by
    intro path flags mask fds e fds' h
    cases (Prod.mk.inj h).1
  close := by
    intro fd fds
    ext n
    simp [freshOs]
  read := fun _ _ _ => rfl
  write := fun _ _ _ => rfl
  lseek := fun _ _ _ _ => rfl

/-- A PC that was started with the standard files. -/
def started : Host (List ℕ) where
  openFiles := fun _ => FileHandle.closed
  openDirs := fun _ => DirHandle.closed
  drives := fun _ => { rootdir := [slash], currdir := [] }
  msslash := false
  nocase := false
  os := [0, 1, 2]

/-- A read request for a number of bytes. -/
def readRequest (fid len : Word) : FileRequest :=
  .read (({ magic := hostfsMagic, command := HostFsCommand.read.code, extralen := 0 } :
    HostFsCmd).encode ++ le32 fid ++ le32 len)

theorem file_table_one_open :
    let h := runRequests freshOs [.open 0 [97] 1 0] (initHostfs started)
    (h.openFiles 3).opened = true ∧
      (readRequest 4 8).serve freshOs h = ([(readRequest 4 8).refusal], h) ∧
      3 ∉ (closeHostfs freshOs h).os := by
  intro h
  obtain ⟨hleft, hother, hclosed, -, -⟩ :=
    file_table descriptors_freshOs started [.open 0 [97] 1 0]
  have hopened : (h.openFiles 3).opened = true := by decide
  refine ⟨hopened, ?_, ?_⟩
  · refine (hother (readRequest 4 8) 4 (by decide) fun fid hfid => ?_).1 ⟨by decide, by decide⟩
    obtain rfl : (4 : Fin maxFiles) = fid := Option.some.inj hfid
    rw [← hleft]
    decide
  · exact (hclosed 3 ((hleft 3).mp hopened)).2

/-- A request to read nothing is not answered. -/
theorem file_table_silent :
    ¬∀ r number, FileRequest.number r = some number →
      (∀ fid, toSlot number = some fid → ¬LeftOpen freshOs [] (initHostfs started) fid) →
        (r.serve freshOs (initHostfs started)).1 = [r.refusal] := by
  intro hclaim
  have hread := hclaim (readRequest 4 0) 4 (by decide) fun fid _ hleft => ?_
  · exact absurd hread (by decide)
  · obtain ⟨before, r, after, hsplit, -⟩ := hleft
    cases before <;> cases hsplit

end PsplinkUsb.UsbHostfsPc.FileTable
