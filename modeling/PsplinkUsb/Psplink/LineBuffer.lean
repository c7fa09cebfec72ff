import PsplinkUsb.Library.CString
import PsplinkUsb.Library.CheckedBuffer
import PsplinkUsb.Psplink.AddressNames

namespace PsplinkUsb.Psplink.LineBuffer

open PsplinkUsb.Library.Ascii
open PsplinkUsb.Library.CheckedBuffer
open PsplinkUsb.Library.CString (cstr not_mem_cstr)
open PsplinkUsb.Library.Numerals
open PsplinkUsb.Psplink.AddressNames
open PsplinkUsb.Psplink.ProgramMemory (Word)
open PsplinkUsb.Psplink.DecodeAddr (Bytes Machine Operator ParseState Plain ampersand atSign bar
  closeParen dollar equals exclamation greater isASpace less openParen parseLoop parseLoop_brackets
  parseLoop_dollar parseLoop_name parseLoop_plain percent readNumber star text tilde upTo)

def lineBufSize : ℕ := 1024

/-- The name of a register: up to `room` letters and digits, and the place behind them. -/
def regText (buf : Bytes) : ℕ → ℕ → Checked (Bytes × ℕ)
  | 0, line => .ok ([], line)
  | room + 1, line => do
      let c ← read buf line
      if isAlnum c then
        let (reg, line) ← regText buf room (line + 1)
        .ok (c :: reg, line)
      else .ok ([], line)

/-- The loop to the end of the brackets: the depth that is left, and where. -/
def closing (buf : Bytes) : ℕ → ℕ → ℕ → Checked (ℕ × ℕ)
  | 0, _, _ => .error .unfinished
  | rounds + 1, depth, pos => do
      let c ← read buf pos
      if c = 0 then .ok (depth, pos)
      else if c = openParen then closing buf rounds (depth + 1) (pos + 1)
      else if c = closeParen then
        if depth - 1 = 0 then .ok (depth - 1, pos) else closing buf rounds (depth - 1) (pos + 1)
      else closing buf rounds depth (pos + 1)

/-- The text is cut at its first `c`; the place is the one behind it. -/
def cutAt (c : UInt8) (buf : Bytes) (rounds name : ℕ) : Checked (Option ℕ × Bytes) := do
  match ← strchr c buf rounds name with
  | none => .ok (none, buf)
  | some p => do
      let buf ← write buf p 0
      .ok (some (p + 1), buf)

def getModaddr (k : Kernel) (buf : Bytes) (rounds name : ℕ) : Checked (Option Word × Bytes) := do
  let (pcolon, buf) ← cutAt colon buf rounds name
  let s ← stringAt buf rounds name
  match k.moduleUid s with
  | none => .ok (none, buf)
  | some uid =>
      let info := (k.queryModuleInfo uid).getD .cleared
      match pcolon with
      | none => .ok (k.moduleValue uid info none, buf)
      | some pcolon => do
          let ext ← stringAt buf rounds pcolon
          if ext ∈ [text "text", text "stext", text "sdata", text "sbss"] then
            .ok (k.moduleValue uid info (some ext), buf)
          else do
            let (pcomma, buf) ← cutAt comma buf rounds pcolon
            match pcomma with
            | none => .ok (k.moduleValue uid info (some ext), buf)
            | some pcomma => do
                let library ← stringAt buf rounds pcolon
                let entry ← stringAt buf rounds pcomma
                .ok (some (k.exportValue uid library entry), buf)

def getThreadaddr (k : Kernel) (buf : Bytes) (rounds name : ℕ) : Checked (Option Word × Bytes) := do
  let (pcolon, buf) ← cutAt colon buf rounds name
  let s ← stringAt buf rounds name
  match (k.findThreadByName s).or (hexUid s) with
  | none => .ok (none, buf)
  | some uid =>
      match k.referThreadStatus uid with
      | none => .ok (none, buf)
      | some info =>
          match pcolon with
          | none => .ok (Kernel.threadValue info none, buf)
          | some pcolon => do
              let ext ← stringAt buf rounds pcolon
              .ok (Kernel.threadValue info (some ext), buf)

/-- The address of a module or a thread, by the character around its name. -/
def getNameaddr (k : Kernel) (c : UInt8) (buf : Bytes) (rounds name : ℕ) :
    Checked (Option Word × Bytes) :=
  if c = atSign then getModaddr k buf rounds name else getThreadaddr k buf rounds name

/-- The `switch` over the operators, which looks at the next character for some. -/
def readOperator (buf : Bytes) (line : ℕ) (c : UInt8) : Checked (Option (Operator × ℕ)) := do
  if c ∈ [ampersand, bar, equals, exclamation, less, greater] then
    let next ← read buf (line + 1)
    .ok ((DecodeAddr.readOperator c [next]).map fun (op, behind) =>
      (op, line + 1 + (1 - behind.length)))
  else .ok ((DecodeAddr.readOperator c []).map fun (op, _) => (op, line + 1))

/-- The end of a round, with the value of an operand if it has one. -/
def operand (m : Machine) (st : ParseState)
    (next : Bytes → ℕ → ParseState → Checked (Option Word × Bytes)) (temp : Option Word)
    (buf : Bytes) (line : ℕ) : Checked (Option Word × Bytes) :=
  match temp.bind (m.apply st) with
  | none => .ok (none, buf)
  | some st => next buf line st

def parseLine (k : Kernel) (m : Machine) :
    ℕ → Bytes → ℕ → ParseState → Checked (Option Word × Bytes)
  | 0, _, _, _ => .error .unfinished
  | rounds + 1, buf, line, st => do
      let c ← read buf line
      if c = 0 then .ok (some st.val, buf)
      else if isASpace c then parseLine k m rounds buf (line + 1) st
      else if c = star ∧ (st.op = .start ∨ st.op ≠ .none) then
        parseLine k m rounds buf (line + 1) { st with deref := st.deref + 1 }
      else if c = tilde then parseLine k m rounds buf (line + 1) { st with not := st.not + 1 }
      else if c = dollar then do
        let (reg, line) ← regText buf 15 (line + 1)
        operand m st (parseLine k m rounds) (m.exceptionGetReg reg) buf line
      else if c = atSign ∨ c = percent then do
        match ← strchr c buf rounds (line + 1) with
        | none => .ok (none, buf)
        | some endp => do
            let buf ← write buf endp 0
            let (temp, buf) ← getNameaddr k c buf rounds (line + 1)
            operand m st (parseLine k m rounds) temp buf (endp + 1)
      else if c = openParen then do
        let (depth, pos) ← closing buf rounds 1 (line + 1)
        if depth ≠ 0 then .ok (none, buf)
        else do
          let buf ← write buf pos 0
          let (temp, buf) ← parseLine k m rounds buf (line + 1) .start
          operand m st (parseLine k m rounds) temp buf (pos + 1)
      else if isXDigit c then
        if st.op = .none then .ok (none, buf)
        else do
          let s ← stringAt buf rounds line
          let (temp, behind) := readNumber s
          operand m st (parseLine k m rounds) (some temp) buf (line + (s.length - behind.length))
      else if st.op ≠ .none then .ok (none, buf)
      else do
        match ← readOperator buf line c with
        | none => .ok (none, buf)
        | some (op, line) => parseLine k m rounds buf line { st with op := op }

/-- `strncpy`, and the zero byte at the end. -/
def lineBuf (line : Bytes) : Bytes :=
  let copied := (cstr line).take (lineBufSize - 1)
  copied ++ List.replicate (lineBufSize - copied.length) 0

def memDecode (k : Kernel) (m : Machine) (rounds : ℕ) (line : Bytes) : Checked (Option Word) := do
  let (ret, _) ← parseLine k (k.machine m) rounds (lineBuf line) 0 .start
  .ok ret

variable {k : Kernel} {m : Machine} {s inside behind : Bytes} {c : UInt8}
  {rounds depth : ℕ} {st : ParseState}

theorem regText_eq (front back : Bytes) (room : ℕ) (hnul : 0 ∉ s) :
    regText (front ++ (s ++ 0 :: back)) room front.length =
      .ok ((s.take room).takeWhile isAlnum,
        front.length + ((s.take room).takeWhile isAlnum).length) := by
  induction room generalizing front s with
  | zero => rfl
  | succ room ih =>
      cases s with
      | nil =>
          have hstop : isAlnum 0 = false := by decide
          rw [regText, List.nil_append, read_append, ok_bind, hstop]
          rfl
      | cons c s =>
          rw [regText, List.cons_append, read_append, ok_bind, List.take_succ_cons]
          split
          · rename_i halnum
            have htail := ih (front ++ [c]) (List.not_mem_of_not_mem_cons hnul)
            rw [length_concat, List.append_assoc, List.singleton_append] at htail
            rw [htail, ok_bind, List.takeWhile_cons_of_pos halnum, List.length_cons,
              Nat.add_right_comm, Nat.add_assoc]
          · rename_i halnum
            rw [List.takeWhile_cons_of_neg halnum]
            rfl

theorem append_of_upTo (h : upTo c s = some (inside, behind)) :
    s = inside ++ c :: behind ∧ c ∉ inside := by
  induction s generalizing inside with
  | nil => cases h
  | cons x s ih =>
      rw [upTo] at h
      split at h
      · rename_i hx
        cases h
        exact ⟨by rw [hx, List.nil_append], List.not_mem_nil⟩
      · rename_i hx
        obtain ⟨⟨inside', behind'⟩, hrest, heq⟩ := Option.map_eq_some_iff.mp h
        cases heq
        obtain ⟨rfl, hmem⟩ := ih hrest
        exact ⟨rfl, List.not_mem_cons_of_ne_of_not_mem (Ne.symm hx) hmem⟩

theorem notMem_of_upTo (h : upTo c s = none) : c ∉ s := by
  induction s with
  | nil => exact List.not_mem_nil
  | cons x s ih =>
      rw [upTo] at h
      split at h
      · cases h
      · rename_i hx
        exact List.not_mem_cons_of_ne_of_not_mem (Ne.symm hx) (ih (Option.map_eq_none_iff.mp h))

theorem strchr_eq (front back : Bytes) (hnul : 0 ∉ s) (hc : c ≠ 0) (hrounds : s.length < rounds) :
    strchr c (front ++ (s ++ 0 :: back)) rounds front.length =
      .ok ((upTo c s).map fun p => front.length + p.1.length) := by
  rcases hup : upTo c s with _ | ⟨inside, behind⟩
  · exact strchr_none front back hnul hc (notMem_of_upTo hup) hrounds
  · obtain ⟨rfl, hmem⟩ := append_of_upTo hup
    rw [List.length_append] at hrounds
    rw [List.append_assoc, List.cons_append]
    exact strchr_append front _ (fun h => hnul (List.mem_append_left _ h)) hmem (by omega)

theorem cutAt_eq (front back : Bytes) (hnul : 0 ∉ s) (hc : c ≠ 0) (hrounds : s.length < rounds) :
    cutAt c (front ++ (s ++ 0 :: back)) rounds front.length =
      match upTo c s with
      | none => .ok (none, front ++ (s ++ 0 :: back))
      | some (inside, behind) => .ok (some (front.length + inside.length + 1),
          front ++ (inside ++ 0 :: (behind ++ 0 :: back))) := by
  rw [cutAt, strchr_eq front back hnul hc hrounds, ok_bind]
  rcases hup : upTo c s with _ | ⟨inside, behind⟩
  · rfl
  · obtain ⟨rfl, -⟩ := append_of_upTo hup
    have hwrite := write_append (front ++ inside) c (behind ++ 0 :: back) 0
    rw [List.append_assoc, List.append_assoc, List.length_append] at hwrite
    dsimp only [Option.map_some]
    rw [List.append_assoc, List.cons_append, hwrite, ok_bind]

/-- What is left in the buffer where a text was, of the same length, with what is returned. -/
def Leaves (front s back : Bytes) (r : Checked (Option Word × Bytes)) (v : Option Word) : Prop :=
  ∃ s' : Bytes, s'.length = s.length ∧ r = .ok (v, front ++ (s' ++ 0 :: back))

theorem append_behind (front inside : Bytes) (c : UInt8) (rest : Bytes) :
    front ++ (inside ++ c :: rest) = (front ++ inside ++ [c]) ++ rest := by
  simp only [List.append_assoc, List.singleton_append]

theorem length_behind (front inside : Bytes) (c : UInt8) :
    (front ++ inside ++ [c]).length = front.length + inside.length + 1 := by
  rw [length_concat, List.length_append]

theorem stringAt_behind (front inside back : Bytes) (c : UInt8) (hnul : 0 ∉ behind)
    (hrounds : behind.length < rounds) :
    stringAt (front ++ (inside ++ c :: (behind ++ 0 :: back))) rounds
      (front.length + inside.length + 1) = .ok behind := by
  rw [append_behind, ← length_behind front inside c]
  exact stringAt_append _ back hnul hrounds

theorem leaves_getThreadaddr (k : Kernel) (front back : Bytes) (hnul : 0 ∉ s) (hrounds : s.length < rounds) :
    Leaves front s back (getThreadaddr k (front ++ (s ++ 0 :: back)) rounds front.length)
      (k.getThreadaddr s) := by
  have hcut := cutAt_eq front back hnul (by decide : colon ≠ 0) hrounds
  rw [getThreadaddr, Kernel.getThreadaddr, splitAt, hcut]
  rcases hup : upTo colon s with _ | ⟨name, ext⟩
  · dsimp only
    rw [ok_bind]
    dsimp only
    rw [stringAt_append front back hnul hrounds, ok_bind]
    refine ⟨s, rfl, ?_⟩
    cases (k.findThreadByName s).or (hexUid s) with
    | none => rfl
    | some uid =>
        dsimp only
        cases k.referThreadStatus uid with
        | none => rfl
        | some info => rfl
  · obtain ⟨rfl, -⟩ := append_of_upTo hup
    rw [List.length_append, List.length_cons] at hrounds
    have hname : 0 ∉ name := fun h => hnul (List.mem_append_left _ h)
    have hext : 0 ∉ ext := fun h => hnul (List.mem_append_right _ (List.mem_cons_of_mem _ h))
    dsimp only
    rw [ok_bind]
    dsimp only
    rw [stringAt_append front _ hname (by omega), ok_bind]
    refine ⟨name ++ 0 :: ext, by simp, ?_⟩
    rw [List.append_assoc, List.cons_append]
    cases (k.findThreadByName name).or (hexUid name) with
    | none => rfl
    | some uid =>
        dsimp only
        cases k.referThreadStatus uid with
        | none => rfl
        | some info =>
            dsimp only
            rw [stringAt_behind front name back 0 hext (by omega), ok_bind]

theorem moduleValue_export (k : Kernel) (uid : Word) (info : ModuleInfo) {ext library entry : Bytes}
    (hext : ext ∉ [text "text", text "stext", text "sdata", text "sbss"])
    (hup : upTo comma ext = some (library, entry)) :
    k.moduleValue uid info (some ext) = some (k.exportValue uid library entry) := by
  simp only [List.mem_cons, List.not_mem_nil, or_false, not_or] at hext
  obtain ⟨htext, hstext, hsdata, hsbss⟩ := hext
  have hsplit : splitAt comma ext = (library, some entry) := by rw [splitAt, hup]
  unfold Kernel.moduleValue
  dsimp only
  rw [if_neg htext, if_neg hstext, if_neg hsdata, if_neg hsbss, hsplit]

theorem leaves_getModaddr (k : Kernel) (front back : Bytes) (hnul : 0 ∉ s) (hrounds : s.length < rounds) :
    Leaves front s back (getModaddr k (front ++ (s ++ 0 :: back)) rounds front.length)
      (k.getModaddr s) := by
  have hcut := cutAt_eq front back hnul (by decide : colon ≠ 0) hrounds
  rw [getModaddr, Kernel.getModaddr, splitAt, hcut]
  rcases hup : upTo colon s with _ | ⟨name, ext⟩
  · dsimp only
    rw [ok_bind]
    dsimp only
    rw [stringAt_append front back hnul hrounds, ok_bind]
    refine ⟨s, rfl, ?_⟩
    cases k.moduleUid s with
    | none => rfl
    | some uid => rfl
  · obtain ⟨rfl, -⟩ := append_of_upTo hup
    rw [List.length_append, List.length_cons] at hrounds
    have hname : 0 ∉ name := fun h => hnul (List.mem_append_left _ h)
    have hext : 0 ∉ ext := fun h => hnul (List.mem_append_right _ (List.mem_cons_of_mem _ h))
    dsimp only
    rw [ok_bind]
    dsimp only
    rw [stringAt_append front _ hname (by omega), ok_bind]
    have hleft : Leaves front (name ++ colon :: ext) back
        (.ok (none, front ++ (name ++ 0 :: (ext ++ 0 :: back)))) none :=
      ⟨name ++ 0 :: ext, by simp, by rw [List.append_assoc, List.cons_append]⟩
    cases k.moduleUid name with
    | none => exact hleft
    | some uid =>
        have hvalue : ∀ v, Leaves front (name ++ colon :: ext) back
            (.ok (v, front ++ (name ++ 0 :: (ext ++ 0 :: back)))) v :=
          fun v => ⟨name ++ 0 :: ext, by simp, by rw [List.append_assoc, List.cons_append]⟩
        dsimp only
        rw [stringAt_behind front name back 0 hext (by omega), ok_bind]
        split
        · exact hvalue _
        · rename_i hplain
          have hcomma := cutAt_eq (front ++ name ++ [0]) back hext
            (by decide : comma ≠ 0) (by omega : ext.length < rounds)
          rw [length_behind, ← append_behind] at hcomma
          rw [hcomma]
          rcases hup : upTo comma ext with _ | ⟨library, entry⟩
          · exact hvalue _
          · have hexport := moduleValue_export k uid ((k.queryModuleInfo uid).getD .cleared)
              hplain hup
            obtain ⟨rfl, -⟩ := append_of_upTo hup
            rw [List.length_append, List.length_cons] at hrounds
            have hlibrary : 0 ∉ library := fun h => hext (List.mem_append_left _ h)
            have hentry : 0 ∉ entry := fun h =>
              hext (List.mem_append_right _ (List.mem_cons_of_mem _ h))
            have hfirst := stringAt_append (front ++ name ++ [0]) (entry ++ 0 :: back)
              hlibrary (by omega : library.length < rounds)
            have hsecond := stringAt_behind (front ++ name ++ [0]) library back 0 hentry (by omega : entry.length < rounds)
            rw [length_behind] at hfirst hsecond
            rw [← append_behind] at hfirst hsecond
            dsimp only
            rw [hexport, ok_bind]
            dsimp only
            rw [← append_behind, hfirst, ok_bind, hsecond, ok_bind]
            exact ⟨name ++ 0 :: (library ++ 0 :: entry), by simp, by simp⟩

theorem leaves_getNameaddr (hmod : m.modaddr = k.getModaddr) (hthread : m.threadaddr = k.getThreadaddr)
    (c : UInt8) (front back : Bytes) (hnul : 0 ∉ s) (hrounds : s.length < rounds) :
    Leaves front s back (getNameaddr k c (front ++ (s ++ 0 :: back)) rounds front.length)
      (if c = atSign then m.modaddr s else m.threadaddr s) := by
  rw [getNameaddr, hmod, hthread]
  split
  · exact leaves_getModaddr k front back hnul hrounds
  · exact leaves_getThreadaddr k front back hnul hrounds

theorem append_of_closing (h : DecodeAddr.closing depth s = some (inside, behind)) :
    s = inside ++ closeParen :: behind := by
  induction s generalizing inside depth with
  | nil => cases h
  | cons c s ih =>
      have hrest : ∀ depth', ((DecodeAddr.closing depth' s).map fun p => (c :: p.1, p.2)) =
          some (inside, behind) → c :: s = inside ++ closeParen :: behind := by
        intro depth' hmap
        obtain ⟨⟨inside', behind'⟩, hclosing, heq⟩ := Option.map_eq_some_iff.mp hmap
        cases heq
        exact congrArg (c :: ·) (ih hclosing)
      rw [DecodeAddr.closing] at h
      split at h
      · exact hrest _ h
      · split at h
        · rename_i hclose
          split at h
          · cases h
            rw [hclose, List.nil_append]
          · exact hrest _ h
        · exact hrest _ h

theorem closing_eq (front back : Bytes) (hnul : 0 ∉ s) (hdepth : 0 < depth) (hrounds : s.length < rounds) :
    ∃ depth' pos, closing (front ++ (s ++ 0 :: back)) rounds depth front.length = .ok (depth', pos) ∧
      match DecodeAddr.closing depth s with
      | none => depth' ≠ 0
      | some (inside, _) => depth' = 0 ∧ pos = front.length + inside.length := by
  induction rounds generalizing front s depth with
  | zero => exact absurd hrounds (Nat.not_lt_zero _)
  | succ rounds ih =>
      cases s with
      | nil =>
          rw [closing, List.nil_append, read_append, ok_bind, if_pos rfl]
          exact ⟨depth, front.length, rfl, Nat.ne_of_gt hdepth⟩
      | cons c s =>
          have hnext : ∀ depth', 0 < depth' → ∃ depth'' pos,
              closing (front ++ (c :: s ++ 0 :: back)) rounds depth' (front.length + 1) =
                .ok (depth'', pos) ∧
              match (DecodeAddr.closing depth' s).map fun p => (c :: p.1, p.2) with
              | none => depth'' ≠ 0
              | some (inside, _) => depth'' = 0 ∧ pos = front.length + inside.length := by
            intro depth' hpos
            obtain ⟨depth'', pos, hclosing, hmatch⟩ := ih (front ++ [c])
              (List.not_mem_of_not_mem_cons hnul) hpos (Nat.lt_of_succ_lt_succ hrounds)
            rw [length_concat, List.append_assoc, List.singleton_append] at hclosing
            refine ⟨depth'', pos, hclosing, ?_⟩
            revert hmatch
            cases DecodeAddr.closing depth' s with
            | none => exact id
            | some p =>
                rintro ⟨hzero, hpos⟩
                refine ⟨hzero, ?_⟩
                rw [hpos, length_concat, List.length_cons, Nat.add_right_comm, Nat.add_assoc]
          have hc : c ≠ 0 := (List.ne_of_not_mem_cons hnul).symm
          rw [closing, List.cons_append, read_append, ok_bind, if_neg hc, DecodeAddr.closing,
            ← List.cons_append]
          split
          · exact hnext _ (Nat.succ_pos _)
          · split
            · split
              · rename_i hlast
                have hone : depth = 1 := by omega
                rw [if_pos hone]
                exact ⟨_, _, rfl, hlast, rfl⟩
              · rename_i hmore
                have hone : depth ≠ 1 := by omega
                rw [if_neg hone]
                exact hnext _ (by omega)
            · exact hnext _ hdepth

theorem readNumber_suffix (line : Bytes) : (readNumber line).2 <:+ line := by
  rw [readNumber]
  split
  · rename_i n rest hread
    obtain ⟨p, hint, heq⟩ := Option.map_eq_some_iff.mp hread
    have hsuffix := readInt_suffix hint
    rw [congrArg Prod.snd heq] at hsuffix
    exact hsuffix
  · exact List.suffix_refl _

theorem oneOrTwo_suffix {next : UInt8} {two op : Operator} {one : Option Operator} {line : Bytes}
    (h : DecodeAddr.oneOrTwo next two one line = some (op, behind)) : behind <:+ line := by
  rw [DecodeAddr.oneOrTwo] at h
  split at h
  · cases h
    exact List.tail_suffix line
  · obtain ⟨op', -, heq⟩ := Option.map_eq_some_iff.mp h
    cases heq
    exact List.suffix_refl _

theorem readOperator_suffix {op : Operator} {line : Bytes}
    (h : DecodeAddr.readOperator c line = some (op, behind)) : behind <:+ line := by
  have hone : ∀ op', some (op', line) = some (op, behind) → behind <:+ line := by
    intro op' heq
    cases heq
    exact List.suffix_refl _
  have htwo : ∀ op', some (op', line.tail) = some (op, behind) → behind <:+ line := by
    intro op' heq
    cases heq
    exact List.tail_suffix line
  have hequals : ∀ {two one}, DecodeAddr.oneOrTwo equals two one line = some (op, behind) →
      behind <:+ line := oneOrTwo_suffix
  refine DecodeAddr.of_ite (hone _) (DecodeAddr.of_ite (hone _) (DecodeAddr.of_ite oneOrTwo_suffix
    (DecodeAddr.of_ite oneOrTwo_suffix (DecodeAddr.of_ite (hone _) (DecodeAddr.of_ite hequals
      (DecodeAddr.of_ite hequals ?_)))))) h
  exact DecodeAddr.of_ite (DecodeAddr.of_ite (htwo _) hequals) (DecodeAddr.of_ite
    (DecodeAddr.of_ite (htwo _) hequals) (DecodeAddr.of_ite (hone _)
      (DecodeAddr.of_ite (hone _) fun hnone => absurd hnone.symm (Option.some_ne_none _))))

/-- An operator in a text, with the count of the characters it takes up behind the first. -/
def Reads (s : Bytes) (r : Option (Operator × Bytes)) : Option (Operator × ℕ) :=
  r.map fun p => (p.1, s.length - p.2.length)

theorem reads_two {x : UInt8} {op : Operator} (s : Bytes) :
    Reads (x :: s) (some (op, s)) = some (op, 1) := by
  rw [Reads, Option.map_some, List.length_cons, Nat.add_sub_cancel_left]

theorem reads_one {s : Bytes} {op : Operator} : Reads s (some (op, s)) = some (op, 0) := by
  rw [Reads, Option.map_some, Nat.sub_self]

theorem reads_oneOrTwo {next : UInt8} {two : Operator} {one : Option Operator} (hnext : next ≠ 0)
    (s : Bytes) : Reads [s.headD 0] (DecodeAddr.oneOrTwo next two one [s.headD 0]) =
      Reads s (DecodeAddr.oneOrTwo next two one s) := by
  have hone : ∀ t : Bytes, Reads t (one.map fun op => (op, t)) = one.map fun op => (op, 0) := by
    intro t
    cases one with
    | none => rfl
    | some op => exact reads_one
  cases s with
  | nil =>
      have hzero : ([(0 : UInt8)] : Bytes).head? ≠ some next := fun h => hnext (Option.some.inj h).symm
      have hnil : ([] : Bytes).head? ≠ some next := fun h => Option.some_ne_none next h.symm
      rw [List.headD_nil, DecodeAddr.oneOrTwo, if_neg hzero, DecodeAddr.oneOrTwo, if_neg hnil, hone,
        hone]
  | cons x s =>
      rw [List.headD_cons, DecodeAddr.oneOrTwo, DecodeAddr.oneOrTwo, List.head?_cons, List.head?_cons]
      split
      · exact (reads_two []).trans (reads_two s).symm
      · rw [hone, hone]

theorem reads_ite {next : UInt8} {two : Operator} {r : Bytes → Option (Operator × Bytes)}
    (hnext : next ≠ 0) (hr : ∀ s : Bytes, Reads [s.headD 0] (r [s.headD 0]) = Reads s (r s))
    (s : Bytes) :
    Reads [s.headD 0]
        (if [s.headD 0].head? = some next then some (two, [s.headD 0].tail) else r [s.headD 0]) =
      Reads s (if s.head? = some next then some (two, s.tail) else r s) := by
  cases s with
  | nil =>
      have hzero : ([(0 : UInt8)] : Bytes).head? ≠ some next := fun h => hnext (Option.some.inj h).symm
      rw [List.headD_nil, if_neg hzero, if_neg nofun]
      exact hr []
  | cons x s =>
      rw [List.headD_cons, List.head?_cons, List.head?_cons]
      split
      · exact (reads_two []).trans (reads_two s).symm
      · exact hr (x :: s)

theorem reads_of_ite {p : Prop} [Decidable p] {t : Bytes} {a a' b b' : Option (Operator × Bytes)}
    (ha : Reads t a = Reads s a') (hb : Reads t b = Reads s b') :
    Reads t (if p then a else b) = Reads s (if p then a' else b') := by
  split
  · exact ha
  · exact hb

theorem reads_headD (c : UInt8) (s : Bytes) :
    Reads [s.headD 0] (DecodeAddr.readOperator c [s.headD 0]) =
      Reads s (DecodeAddr.readOperator c s) := by
  have hone : ∀ op : Operator, Reads [s.headD 0] (some (op, [s.headD 0])) = Reads s (some (op, s)) :=
    fun op => reads_one.trans reads_one.symm
  have hequals : ∀ {two one}, Reads [s.headD 0] (DecodeAddr.oneOrTwo equals two one [s.headD 0]) =
      Reads s (DecodeAddr.oneOrTwo equals two one s) := reads_oneOrTwo (by decide) s
  unfold DecodeAddr.readOperator
  refine reads_of_ite (hone _) (reads_of_ite (hone _) (reads_of_ite (reads_oneOrTwo (by decide) s)
    (reads_of_ite (reads_oneOrTwo (by decide) s) (reads_of_ite (hone _) (reads_of_ite hequals
      (reads_of_ite hequals ?_))))))
  refine reads_of_ite (reads_ite (by decide) (reads_oneOrTwo (by decide)) s)
    (reads_of_ite (reads_ite (by decide) (reads_oneOrTwo (by decide)) s)
      (reads_of_ite (hone _) (reads_of_ite (hone _) rfl)))

theorem reads_nil (hc : c ∉ [ampersand, bar, equals, exclamation, less, greater]) (s : Bytes) :
    Reads [] (DecodeAddr.readOperator c []) = Reads s (DecodeAddr.readOperator c s) := by
  simp only [List.mem_cons, List.not_mem_nil, or_false, not_or] at hc
  obtain ⟨hampersand, hbar, hequals, hexclamation, hless, hgreater⟩ := hc
  have hone : ∀ op : Operator, Reads [] (some (op, [])) = Reads s (some (op, s)) :=
    fun op => reads_one.trans reads_one.symm
  unfold DecodeAddr.readOperator
  rw [if_neg hampersand, if_neg hbar, if_neg hequals, if_neg hexclamation, if_neg hless,
    if_neg hgreater, if_neg hampersand, if_neg hbar, if_neg hequals, if_neg hexclamation,
    if_neg hless, if_neg hgreater]
  exact reads_of_ite (hone _) (reads_of_ite (hone _) (reads_of_ite (hone _)
    (reads_of_ite (hone _) (reads_of_ite (hone _) rfl))))

theorem readOperator_eq (front : Bytes) (c : UInt8) (s back : Bytes) :
    readOperator (front ++ (c :: s ++ 0 :: back)) front.length c =
      .ok ((Reads s (DecodeAddr.readOperator c s)).map fun p => (p.1, front.length + 1 + p.2)) := by
  rw [readOperator]
  split
  · have hread : read (front ++ (c :: s ++ 0 :: back)) (front.length + 1) = .ok (s.headD 0) := by
      rw [← length_concat front c]
      cases s with
      | nil =>
          have hnext := read_append (front ++ [c]) 0 back
          rwa [List.append_assoc] at hnext
      | cons x s =>
          have hnext := read_append (front ++ [c]) x (s ++ 0 :: back)
          rwa [List.append_assoc] at hnext
    rw [hread, ok_bind, ← reads_headD, Reads, Option.map_map]
    rfl
  · rename_i hc
    rw [← reads_nil hc s, Reads, Option.map_map]
    congr 2
    funext p
    simp

theorem Leaves.within {used : Bytes} {r : Checked (Option Word × Bytes)} {v : Option Word}
    (h : Leaves (front ++ used) behind back r v) (hlength : used.length + behind.length = s.length) :
    Leaves front s back r v := by
  obtain ⟨s', hs', hr⟩ := h
  refine ⟨used ++ s', ?_, ?_⟩
  · rw [List.length_append, hs', hlength]
  · rw [hr, List.append_assoc, List.append_assoc]

theorem leaves_operand {next : Bytes → ℕ → ParseState → Checked (Option Word × Bytes)}
    {f : ParseState → Option Word} (temp : Option Word)
    (hnext : ∀ temp' ∈ temp, ∀ st', m.apply st temp' = some st' → Leaves front behind back
      (next (front ++ (behind ++ 0 :: back)) front.length st') (f st')) :
    Leaves front behind back
      (operand m st next temp (front ++ (behind ++ 0 :: back)) front.length)
      ((temp.bind (m.apply st)).bind f) := by
  rw [operand]
  cases htemp : temp.bind (m.apply st) with
  | none => exact ⟨behind, rfl, rfl⟩
  | some st' =>
      obtain ⟨temp', hmem, happly⟩ := Option.bind_eq_some_iff.mp htemp
      exact hnext temp' hmem st' happly

/-- The rounds that a text takes at most: a number that takes up nothing is followed by something
that does, or by nothing. -/
def cost (s : Bytes) (st : ParseState) : ℕ := 2 * s.length + if st.op = .none then 0 else 1

theorem cost_le (s : Bytes) (st : ParseState) : cost s st ≤ 2 * s.length + 1 := by
  rw [cost]
  split <;> omega

theorem cost_lt {st' : ParseState} (h : behind.length < s.length) : cost behind st' < cost s st := by
  have hle := cost_le behind st'
  have hge : 2 * s.length ≤ cost s st := Nat.le_add_right _ _
  omega

theorem cost_apply {temp : Word} {st' : ParseState} (h : behind.length ≤ s.length)
    (hst : st.op ≠ .none) (happly : m.apply st temp = some st') : cost behind st' < cost s st := by
  rw [cost, cost, if_neg hst, if_pos (Machine.apply_op happly)]
  omega

/-- Texts that cost less than `rounds` are parsed in so many. -/
def Parses (k : Kernel) (m : Machine) (rounds : ℕ) : Prop :=
  ∀ front s back st, 0 ∉ s → cost s st < rounds →
    Leaves front s back (parseLine k m rounds (front ++ (s ++ 0 :: back)) front.length st)
      (parseLoop m s st)

namespace Parses

variable {line : Bytes}

theorem rest (h : Parses k m rounds) (front used behind back : Bytes) {st' : ParseState}
    (hlength : used.length + behind.length = s.length) (hnul : 0 ∉ behind)
    (hcost : cost behind st' < rounds) :
    Leaves front s back
      (parseLine k m rounds (front ++ (used ++ (behind ++ 0 :: back))) (front.length + used.length) st')
      (parseLoop m behind st') := by
  have hrest := h (front ++ used) behind back st' hnul hcost
  rw [List.length_append, List.append_assoc] at hrest
  exact hrest.within hlength

theorem operand (h : Parses k m rounds) (front used behind back : Bytes) (temp : Option Word)
    (hlength : used.length + behind.length = s.length) (hnul : 0 ∉ behind)
    (hcost : ∀ temp' st', m.apply st temp' = some st' → cost behind st' < rounds) :
    Leaves front s back
      (LineBuffer.operand m st (parseLine k m rounds) temp
        (front ++ (used ++ (behind ++ 0 :: back))) (front.length + used.length))
      ((temp.bind (m.apply st)).bind (parseLoop m behind)) := by
  have hoperand : Leaves (front ++ used) behind back
      (LineBuffer.operand m st (parseLine k m rounds) temp
        (front ++ used ++ (behind ++ 0 :: back)) (front ++ used).length)
      ((temp.bind (m.apply st)).bind (parseLoop m behind)) :=
    leaves_operand temp fun temp' _ st' happly => h _ _ _ st' hnul (hcost temp' st' happly)
  rw [List.length_append, List.append_assoc] at hoperand
  exact hoperand.within hlength

theorem skip (h : Parses k m rounds) (hline : 0 ∉ line) (hrounds : cost (c :: line) st ≤ rounds)
    (st' : ParseState) :
    Leaves front (c :: line) back
      (parseLine k m rounds (front ++ (c :: line ++ 0 :: back)) (front.length + 1) st')
      (parseLoop m line st') :=
  h.rest front [c] line back (Nat.add_comm 1 line.length) hline
    ((cost_lt (Nat.lt_succ_self line.length)).trans_le hrounds)

theorem reg (h : Parses k m rounds) (hline : 0 ∉ line) (hrounds : cost (dollar :: line) st ≤ rounds) :
    Leaves front (dollar :: line) back
      (parseLine k m (rounds + 1) (front ++ (dollar :: line ++ 0 :: back)) front.length st)
      (parseLoop m (dollar :: line) st) := by
  have htext := regText_eq (front ++ [dollar]) back 15 hline
  rw [length_concat, List.append_assoc, List.singleton_append, ← List.cons_append] at htext
  rw [parseLine, List.cons_append, read_append, ok_bind, if_neg (by decide), if_neg (by decide),
    if_neg fun h => absurd h.1 (by decide), if_neg (by decide), if_pos rfl, ← List.cons_append, htext,
    ok_bind, parseLoop_dollar]
  generalize hreg : (line.take 15).takeWhile isAlnum = name
  have hpre : name <+: line := hreg ▸ (List.takeWhile_prefix _).trans (List.take_prefix _ _)
  obtain ⟨behind, rfl⟩ := hpre
  have hregText : DecodeAddr.regText (name ++ behind) = (name, behind) := by
    rw [DecodeAddr.regText, hreg, List.drop_left]
  have hcost : ∀ temp' st', m.apply st temp' = some st' → cost behind st' < rounds := by
    intro temp' st' _
    refine (cost_lt ?_).trans_le hrounds
    rw [List.length_cons, List.length_append]
    omega
  have hoperand := h.operand (s := dollar :: (name ++ behind)) front (dollar :: name) behind back
    (m.exceptionGetReg name) (by simp; omega)
    (fun hmem => hline (List.mem_append_right _ hmem)) hcost
  rw [List.length_cons, ← List.append_assoc (dollar :: name), List.cons_append, Nat.add_comm name.length,
    ← Nat.add_assoc] at hoperand
  rw [hregText]
  exact hoperand

theorem name (h : Parses k m rounds) (hmod : m.modaddr = k.getModaddr)
    (hthread : m.threadaddr = k.getThreadaddr) (hc : c = atSign ∨ c = percent) (hline : 0 ∉ line)
    (hrounds : cost (c :: line) st ≤ rounds) :
    Leaves front (c :: line) back
      (parseLine k m (rounds + 1) (front ++ (c :: line ++ 0 :: back)) front.length st)
      (parseLoop m (c :: line) st) := by
  have hnul : c ≠ 0 := by rcases hc with rfl | rfl <;> decide
  have hspace : ¬isASpace c := by rcases hc with rfl | rfl <;> decide
  have hstar : c ≠ DecodeAddr.star := by rcases hc with rfl | rfl <;> decide
  have htilde : c ≠ tilde := by rcases hc with rfl | rfl <;> decide
  have hdollar : c ≠ dollar := by rcases hc with rfl | rfl <;> decide
  have hfits : line.length < rounds := by
    have hcost : 2 * (line.length + 1) ≤ cost (c :: line) st := Nat.le_add_right _ _
    omega
  have hchr := strchr_eq (front ++ [c]) back hline hnul hfits
  rw [length_concat, List.append_assoc, List.singleton_append, ← List.cons_append] at hchr
  rw [parseLine, List.cons_append, read_append, ok_bind, if_neg hnul, if_neg hspace,
    if_neg fun h => hstar h.1, if_neg htilde, if_neg hdollar, if_pos hc, ← List.cons_append, hchr,
    ok_bind, parseLoop_name hc]
  rcases hup : upTo c line with _ | ⟨name, behind⟩
  · exact ⟨c :: line, rfl, rfl⟩
  · obtain ⟨rfl, -⟩ := append_of_upTo hup
    have hname : 0 ∉ name := fun hmem => hline (List.mem_append_left _ hmem)
    have hbehind : 0 ∉ behind := fun hmem =>
      hline (List.mem_append_right _ (List.mem_cons_of_mem _ hmem))
    have hbuf : front ++ (c :: (name ++ c :: behind) ++ 0 :: back) =
        front ++ [c] ++ name ++ c :: (behind ++ 0 :: back) := by simp
    have hendp : front.length + 1 + name.length = (front ++ [c] ++ name).length := by
      rw [List.length_append, length_concat]
    rw [List.length_append, List.length_cons] at hfits
    obtain ⟨name', hlength, haddr⟩ := leaves_getNameaddr hmod hthread c (front ++ [c])
      (behind ++ 0 :: back) hname (by omega : name.length < rounds)
    rw [length_concat, ← List.append_assoc] at haddr
    dsimp only [Option.map_some, Option.bind_some]
    rw [hbuf, hendp, write_append, ok_bind, haddr, ok_bind]
    dsimp only
    have hcost : ∀ temp' st', m.apply st temp' = some st' → cost behind st' < rounds := by
      intro temp' st' _
      refine (cost_lt ?_).trans_le hrounds
      rw [List.length_cons, List.length_append, List.length_cons]
      omega
    have hoperand := h.operand (s := c :: (name ++ c :: behind)) front
      ([c] ++ name' ++ [0]) behind back
      (if c = atSign then m.modaddr name else m.threadaddr name)
      (by rw [length_behind, hlength]; simp; omega) hbehind hcost
    have hused : front ++ ([c] ++ name' ++ [0] ++ (behind ++ 0 :: back)) =
        front ++ [c] ++ (name' ++ 0 :: (behind ++ 0 :: back)) := by simp
    rw [hused, length_behind, hlength, List.length_singleton] at hoperand
    rw [List.length_append, length_concat, Nat.add_assoc, Nat.add_assoc, ← Nat.add_assoc 1]
    exact hoperand

theorem brackets (h : Parses k m rounds) (hline : 0 ∉ line)
    (hrounds : cost (openParen :: line) st ≤ rounds) :
    Leaves front (openParen :: line) back
      (parseLine k m (rounds + 1) (front ++ (openParen :: line ++ 0 :: back)) front.length st)
      (parseLoop m (openParen :: line) st) := by
  have hfits : line.length < rounds := by
    have hcost : 2 * (line.length + 1) ≤ cost (openParen :: line) st := Nat.le_add_right _ _
    omega
  obtain ⟨depth, pos, hclosing, hmatch⟩ := closing_eq (front ++ [openParen]) back hline
    Nat.one_pos hfits
  rw [length_concat, List.append_assoc, List.singleton_append, ← List.cons_append] at hclosing
  rw [parseLine, List.cons_append, read_append, ok_bind, if_neg (by decide), if_neg (by decide),
    if_neg fun h => absurd h.1 (by decide), if_neg (by decide), if_neg (by decide), if_neg (by decide),
    if_pos rfl, ← List.cons_append, hclosing, ok_bind, parseLoop_brackets]
  rcases hup : DecodeAddr.closing 1 line with _ | ⟨inside, behind⟩
  · rw [hup] at hmatch
    dsimp only at hmatch ⊢
    rw [if_pos hmatch]
    exact ⟨openParen :: line, rfl, rfl⟩
  · rw [hup] at hmatch
    obtain ⟨hdepth, hpos⟩ := hmatch
    obtain rfl := append_of_closing hup
    have hinside : 0 ∉ inside := fun hmem => hline (List.mem_append_left _ hmem)
    have hbehind : 0 ∉ behind := fun hmem =>
      hline (List.mem_append_right _ (List.mem_cons_of_mem _ hmem))
    have hbuf : front ++ (openParen :: (inside ++ closeParen :: behind) ++ 0 :: back) =
        front ++ [openParen] ++ inside ++ closeParen :: (behind ++ 0 :: back) := by simp
    have hcost : ∀ temp' st', m.apply st temp' = some st' → cost behind st' < rounds := by
      intro temp' st' _
      refine (cost_lt ?_).trans_le hrounds
      rw [List.length_cons, List.length_append, List.length_cons]
      omega
    have hcostInside : cost inside .start < rounds := by
      refine (cost_lt ?_).trans_le hrounds
      rw [List.length_cons, List.length_append]
      omega
    obtain ⟨inside', hlength, hparse⟩ := h (front ++ [openParen]) inside (behind ++ 0 :: back) .start
      hinside hcostInside
    rw [length_concat, ← List.append_assoc] at hparse
    have hend : pos = (front ++ [openParen] ++ inside).length := hpos.trans (List.length_append).symm
    dsimp only [Option.bind_some]
    rw [if_neg (not_not_intro hdepth), hbuf, hend, write_append, ok_bind, hparse, ok_bind]
    dsimp only
    have hoperand := h.operand (s := openParen :: (inside ++ closeParen :: behind)) front
      ([openParen] ++ inside' ++ [0]) behind back (parseLoop m inside .start)
      (by rw [length_behind, hlength]; simp; omega) hbehind hcost
    have hused : front ++ ([openParen] ++ inside' ++ [0] ++ (behind ++ 0 :: back)) =
        front ++ [openParen] ++ (inside' ++ 0 :: (behind ++ 0 :: back)) := by simp
    rw [hused, length_behind, hlength, List.length_singleton] at hoperand
    rw [List.length_append, length_concat, Nat.add_assoc, Nat.add_assoc, ← Nat.add_assoc 1]
    exact hoperand

theorem plain (h : Parses k m rounds) (hplain : Plain c st) (hnul : 0 ∉ c :: line)
    (hrounds : cost (c :: line) st ≤ rounds) :
    Leaves front (c :: line) back
      (parseLine k m (rounds + 1) (front ++ (c :: line ++ 0 :: back)) front.length st)
      (parseLoop m (c :: line) st) := by
  have hfits : (c :: line).length < rounds := by
    have hcost : 2 * (line.length + 1) ≤ cost (c :: line) st := Nat.le_add_right _ _
    rw [List.length_cons]
    omega
  have hc : c ≠ 0 := (List.ne_of_not_mem_cons hnul).symm
  rw [parseLine, List.cons_append, read_append, ok_bind, if_neg hc, if_neg hplain.space,
    if_neg hplain.star, if_neg hplain.tilde, if_neg hplain.dollar, if_neg hplain.name,
    if_neg hplain.openParen, ← List.cons_append, parseLoop_plain hplain]
  have hnone : Leaves front (c :: line) back (.ok (none, front ++ (c :: line ++ 0 :: back))) none :=
    ⟨c :: line, rfl, rfl⟩
  split
  · split
    · exact hnone
    · rename_i hst
      rw [stringAt_append front back hnul hfits, ok_bind]
      dsimp only
      obtain ⟨used, hused⟩ := readNumber_suffix (c :: line)
      have hlength : used.length + (readNumber (c :: line)).2.length = (c :: line).length := by
        rw [← List.length_append, hused]
      have hbehind : 0 ∉ (readNumber (c :: line)).2 := fun hmem =>
        hnul ((readNumber_suffix (c :: line)).subset hmem)
      have hcost : ∀ temp' st', m.apply st temp' = some st' →
          cost (readNumber (c :: line)).2 st' < rounds := fun temp' st' happly =>
        (cost_apply (by omega) hst happly).trans_le hrounds
      have hoperand := h.operand front used (readNumber (c :: line)).2 back
        (some (readNumber (c :: line)).1) hlength hbehind hcost
      rw [← List.append_assoc used, hused] at hoperand
      have hplace : (c :: line).length - (readNumber (c :: line)).2.length = used.length := by omega
      rw [hplace]
      exact hoperand
  · split
    · exact hnone
    · rw [readOperator_eq, ok_bind]
      rcases hread : DecodeAddr.readOperator c line with _ | ⟨op, behind⟩
      · exact hnone
      · obtain ⟨used, rfl⟩ := readOperator_suffix hread
        have hlength : (used ++ behind).length - behind.length = used.length := by
          rw [List.length_append, Nat.add_sub_cancel]
        have hbehind : 0 ∉ behind := fun hmem =>
          hnul (List.mem_cons_of_mem _ (List.mem_append_right _ hmem))
        have hcost : cost behind { st with op := op } < rounds := by
          refine (cost_lt ?_).trans_le hrounds
          rw [List.length_cons, List.length_append]
          omega
        have hrest := h.rest (s := c :: (used ++ behind)) front (c :: used) behind back
          (by simp; omega) hbehind hcost
        rw [List.length_cons, Nat.add_comm used.length, ← Nat.add_assoc,
          ← List.append_assoc (c :: used), List.cons_append] at hrest
        rw [Reads, Option.map_some, Option.map_some]
        dsimp only
        rw [hlength]
        exact hrest

theorem succ (h : Parses k m rounds) (hmod : m.modaddr = k.getModaddr)
    (hthread : m.threadaddr = k.getThreadaddr) : Parses k m (rounds + 1) := by
  intro front s back st hnul hcost
  cases s with
  | nil =>
      rw [parseLine, List.nil_append, read_append, ok_bind, if_pos rfl, parseLoop]
      exact ⟨[], rfl, rfl⟩
  | cons c line =>
      have hc : c ≠ 0 := (List.ne_of_not_mem_cons hnul).symm
      have hline : 0 ∉ line := List.not_mem_of_not_mem_cons hnul
      have hrounds := Nat.lt_succ_iff.mp hcost
      by_cases hspace : isASpace c = true
      · rw [parseLine, List.cons_append, read_append, ok_bind, if_neg hc, if_pos hspace, parseLoop,
          if_pos hspace]
        exact h.skip hline hrounds st
      by_cases hstar : c = DecodeAddr.star ∧ (st.op = .start ∨ st.op ≠ .none)
      · rw [parseLine, List.cons_append, read_append, ok_bind, if_neg hc, if_neg hspace,
          if_pos hstar, parseLoop, if_neg hspace, if_pos hstar]
        exact h.skip hline hrounds _
      by_cases htilde : c = tilde
      · rw [parseLine, List.cons_append, read_append, ok_bind, if_neg hc, if_neg hspace,
          if_neg hstar, if_pos htilde, parseLoop, if_neg hspace, if_neg hstar, if_pos htilde]
        exact h.skip hline hrounds _
      by_cases hdollar : c = dollar
      · subst hdollar
        exact h.reg hline hrounds
      by_cases hname : c = atSign ∨ c = percent
      · exact h.name hmod hthread hname hline hrounds
      by_cases hopen : c = openParen
      · subst hopen
        exact h.brackets hline hrounds
      exact h.plain ⟨hspace, hstar, htilde, hdollar, hname, hopen⟩ hnul hrounds

end Parses

theorem parses (hmod : m.modaddr = k.getModaddr) (hthread : m.threadaddr = k.getThreadaddr) :
    ∀ rounds, Parses k m rounds
  | 0 => fun _ _ _ _ _ hcost => absurd hcost (Nat.not_lt_zero _)
  | rounds + 1 => (parses hmod hthread rounds).succ hmod hthread

theorem length_lineBuf (line : Bytes) : (lineBuf line).length = lineBufSize := by
  have hle : ((cstr line).take (lineBufSize - 1)).length ≤ lineBufSize - 1 := List.length_take_le _ _
  have hsize : 0 < lineBufSize := by decide
  rw [lineBuf, List.length_append, List.length_replicate]
  omega

/-- With rounds enough for 1023 characters, every text is parsed to its end, in the copy of it,
with the result that it has as a text. -/
theorem memDecode_ends (k : Kernel) (m : Machine) (line : Bytes) :
    (lineBuf line).length = 1024 ∧ Ends (fun rounds => memDecode k m rounds line) (2 * lineBufSize)
      (DecodeAddr.memDecode (k.machine m) (cstr line)) := by
  refine ⟨length_lineBuf line, fun rounds hrounds => ?_⟩
  have hle : ((cstr line).take (lineBufSize - 1)).length ≤ lineBufSize - 1 := List.length_take_le _ _
  have hsize : 0 < lineBufSize := by decide
  have hnul : 0 ∉ (cstr line).take (lineBufSize - 1) := fun hmem =>
    not_mem_cstr (List.mem_of_mem_take hmem)
  obtain ⟨zeros, hzeros⟩ : ∃ zeros, lineBufSize - ((cstr line).take (lineBufSize - 1)).length =
      zeros + 1 := Nat.exists_eq_succ_of_ne_zero (by omega)
  have hcost := cost_le ((cstr line).take (lineBufSize - 1)) .start
  obtain ⟨s', -, hparse⟩ := parses (m := k.machine m) rfl rfl rounds []
    ((cstr line).take (lineBufSize - 1)) (List.replicate zeros 0) .start hnul (by omega)
  dsimp only
  rw [memDecode, lineBuf, hzeros, List.replicate_succ]
  dsimp only
  rw [List.nil_append, List.length_nil] at hparse
  rw [hparse]
  rfl

end PsplinkUsb.Psplink.LineBuffer
