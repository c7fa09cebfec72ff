import PsplinkUsb.Pspsh.OperandReading

namespace PsplinkUsb.Pspsh.AssembledLine

open PsplinkUsb.Library.Ascii
open PsplinkUsb.Library.Lines
open PsplinkUsb.Psplink.ProgramMemory
open PsplinkUsb.Pspsh.Asm
open PsplinkUsb.Pspsh.Disasm
open PsplinkUsb.Pspsh.InstructionTable
open PsplinkUsb.Pspsh.Operands
open PsplinkUsb.Pspsh.OperandKinds
open PsplinkUsb.Pspsh.OperandReading

variable {opcode pc w w' : Word} {room : ℕ} {name s t arg : Bytes} {ts args : List Bytes}
  {kinds : List OperandKind}

/-- The line of an instruction, before it is cut to the size of the buffer. -/
def line (name : Bytes) (ts : List Bytes) : Bytes :=
  leftJustified 10 name ++ blank :: listed comma blank ts

theorem splitArgs_nil : splitArgs room [] = .ok [] := by
  cases room with
  | zero => rfl
  | succ room => rfl

theorem isComma_eq_false (h : comma ∉ s) : ∀ c ∈ s, decide (c = comma) = false := by
  intro c hc
  rw [decide_eq_false_iff_not]
  rintro rfl
  exact h hc

theorem splitArgs_pieces (hcomma : comma ∉ s) (hstrip : stripWsp s = some arg)
    (h : List.Forall₂ IsOperand ts args) (hroom : ts.length ≤ room) :
    splitArgs (room + 1) (s ++ ts.flatMap fun u => comma :: blank :: u) = .ok (arg :: args) := by
  have hne : s ≠ [] := by
    rintro rfl
    exact absurd hstrip nofun
  have hsep := isComma_eq_false hcomma
  induction h generalizing s arg room with
  | nil =>
      rw [List.flatMap_nil, List.append_nil, splitArgs, strtok_last hne hsep]
      simp only [hstrip, splitArgs_nil]
      rfl
  | @cons u arg' ts args hu h ih =>
      obtain ⟨room, rfl⟩ := Nat.exists_eq_succ_of_ne_zero
        (Nat.ne_of_gt (Nat.lt_of_lt_of_le (Nat.succ_pos _) hroom))
      have hblank : comma ∉ blank :: u :=
        List.not_mem_cons_of_ne_of_not_mem (by decide) hu.comma_notMem
      have hrest := ih hblank hu.strip_blank (Nat.le_of_succ_le_succ hroom) (List.cons_ne_nil _ _)
        (isComma_eq_false hblank)
      rw [List.flatMap_cons, List.cons_append, List.cons_append, splitArgs,
        strtok_append hne hsep (decide_eq_true rfl)]
      rw [List.cons_append] at hrest
      simp only [hstrip, hrest]
      rfl

theorem splitArgs_listed (h : List.Forall₂ IsOperand ts args) (hroom : ts.length ≤ room) :
    splitArgs room (listed comma blank ts) = .ok args := by
  cases h with
  | nil => exact splitArgs_nil
  | cons ht h =>
      obtain ⟨room, rfl⟩ := Nat.exists_eq_succ_of_ne_zero
        (Nat.ne_of_gt (Nat.lt_of_lt_of_le (Nat.succ_pos _) hroom))
      exact splitArgs_pieces ht.comma_notMem ht.strip h (Nat.le_of_succ_le_succ hroom)

theorem isOperand_length (h : List.Forall₂ IsOperand ts args) :
    (ts.flatMap fun u => comma :: blank :: u).length ≤ 18 * ts.length := by
  induction h with
  | nil => simp
  | cons ht h ih =>
      have hlength := ht.length_le
      simp only [List.flatMap_cons, List.length_append, List.length_cons]
      omega

theorem length_listed (h : List.Forall₂ IsOperand ts args) :
    (listed comma blank ts).length ≤ 18 * ts.length := by
  cases h with
  | nil => simp [listed]
  | cons ht h =>
      have hlength := ht.length_le
      have hrest := isOperand_length h
      simp only [listed, List.length_append, List.length_cons]
      omega

theorem dropWhile_listed (h : List.Forall₂ IsOperand ts args) (n : ℕ) :
    (List.replicate n blank ++ listed comma blank ts).dropWhile isSpace =
      listed comma blank ts := by
  have hblank : ∀ c ∈ List.replicate n blank, isSpace c = true := by
    intro c hc
    rw [List.eq_of_mem_replicate hc]
    decide
  rw [List.dropWhile_append_of_pos hblank]
  cases h with
  | nil => rfl
  | cons ht h =>
      obtain ⟨c, t', rfl, hc⟩ := ht.exists_cons
      rw [listed, List.cons_append, List.dropWhile_cons_of_neg (by simp [hc])]

theorem leftJustified_blank (name rest : Bytes) : leftJustified 10 name ++ blank :: rest =
    name ++ blank :: (List.replicate (10 - name.length) blank ++ rest) := by
  have hshift : ∀ n : ℕ, List.replicate n blank ++ blank :: rest =
      blank :: (List.replicate n blank ++ rest) := by
    intro n
    rw [← List.singleton_append, ← List.append_assoc, ← List.replicate_succ', List.replicate_succ,
      List.cons_append]
  rw [leftJustified, List.append_assoc, hshift]

/-- A name that makes the first word of a line. -/
structure IsMnemonic (name : Bytes) : Prop where
  ne_nil : name ≠ []
  length_le : name.length ≤ 16
  chars : ∀ c ∈ name, isOpDelim c = false

instance (name : Bytes) : Decidable (IsMnemonic name) :=
  decidable_of_iff
    (name ≠ [] ∧ name.length ≤ 16 ∧ (name.all fun c => isOpDelim c = false) = true)
    ⟨fun h => ⟨h.1, h.2.1, fun c hc => of_decide_eq_true (List.all_eq_true.mp h.2.2 c hc)⟩,
      fun h => ⟨h.1, h.2, List.all_eq_true.mpr fun c hc => decide_eq_true (h.3 c hc)⟩⟩

theorem length_line (hname : IsMnemonic name) (h : List.Forall₂ IsOperand ts args)
    (hfew : ts.length ≤ 4) : (line name ts).length ≤ 1023 := by
  have hlength := hname.length_le
  have hlisted := length_listed h
  rw [line, leftJustified_blank]
  simp only [List.length_append, List.length_cons, List.length_replicate]
  omega

theorem asmAssemble_line (hname : IsMnemonic name) (h : List.Forall₂ IsOperand ts args)
    (hfew : ts.length ≤ 4) : asmAssemble (line name ts) pc = assembleOp name args pc := by
  have hlength := length_line hname h hfew
  have hargs : splitArgs maxArgs (listed comma blank ts) = .ok args :=
    splitArgs_listed h (Nat.le_trans hfew (by decide))
  rw [asmAssemble, if_neg (by omega), line, leftJustified_blank, strtok_append hname.ne_nil hname.chars (by decide)]
  simp only [orRejected, bind, Except.bind]
  rw [dropWhile_listed h, hargs]

theorem mem_of_findInst {argcount : ℕ} {inst : Asm.Instruction}
    (h : findInst name argcount = some inst) :
    inst ∈ asmMacro ++ asmInst ∧ SameLetters (text inst.name) name := by
  rw [findInst, ← List.find?_append] at h
  have hfound := List.find?_some h
  exact ⟨List.mem_of_find?_eq_some h, (of_decide_eq_true hfound).1⟩

theorem findInst_of_asmAssemble {rest : Bytes} (hname : IsMnemonic name)
    (h : asmAssemble (name ++ blank :: rest) pc = .ok w) :
    ∃ inst ∈ asmMacro ++ asmInst, SameLetters (text inst.name) name := by
  rcases Nat.lt_or_ge (name ++ blank :: rest).length 1024 with hshort | hlong
  · rw [asmAssemble, if_neg (Nat.not_le.mpr hshort),
      strtok_append hname.ne_nil hname.chars (by decide)] at h
    simp only [orRejected, bind, Except.bind] at h
    cases hargs : splitArgs maxArgs (rest.dropWhile isSpace) with
    | error e =>
        rw [hargs] at h
        cases h
    | ok args =>
        rw [hargs] at h
        have hop : assembleOp name args pc = .ok w := h
        cases hfind : findInst name args.length with
        | none =>
            rw [assembleOp, hfind] at hop
            cases hop
        | some inst => exact ⟨inst, mem_of_findInst hfind⟩
  · rw [asmAssemble, if_pos hlong] at h
    cases h

/-- The operands behind the first, in a format of the assembler. -/
def asmRest (kinds : List OperandKind) : List Char :=
  kinds.flatMap fun k => ',' :: ' ' :: ['%', k.letter]

theorem encodeArgs_asmRest (k : OperandKind) (kinds : List OperandKind) (arg : Bytes)
    (args : List Bytes) : encodeArgs pc (asmRest (k :: kinds)) (arg :: args) w =
      (setOperand pc w k.letter arg).bind (encodeArgs pc (asmRest kinds) args) := rfl

theorem encodeArgs_skip {c : Char} {fmt : List Char} (hc : c ≠ '%') :
    encodeArgs pc (c :: fmt) args w = encodeArgs pc fmt args w := by
  rw [encodeArgs.eq_def]
  exact if_neg hc

theorem encodeArgs_asmFmt (args : List Bytes) :
    encodeArgs pc (asmFmt kinds) args w = encodeArgs pc (asmRest kinds) args w := by
  cases kinds with
  | nil => rfl
  | cons k kinds =>
      rw [asmFmt, List.map_cons, listed, List.flatMap_map]
      symm
      exact (encodeArgs_skip (by decide)).trans (encodeArgs_skip (by decide))

theorem or_shown_nil : w ||| opcode &&& shown [] = w := by
  rw [shown]
  simp

theorem encodeArgs_sound (hkinds : .insSize ∉ kinds)
    (h : encodeArgs pc (asmRest kinds) (kinds.map (·.arg opcode pc)) w = .ok w') :
    w' = w ||| opcode &&& shown kinds := by
  induction kinds generalizing w with
  | nil => rw [or_shown_nil, ← Except.ok.inj h]
  | cons k kinds ih =>
      have hk : k ≠ .insSize := fun heq => hkinds (heq ▸ List.mem_cons_self)
      have hkinds : .insSize ∉ kinds := fun hmem => hkinds (List.mem_cons_of_mem _ hmem)
      rw [List.map_cons, encodeArgs_asmRest] at h
      cases hset : setOperand pc w k.letter (k.arg opcode pc) with
      | error e =>
          rw [hset] at h
          exact absurd h nofun
      | ok w₁ =>
          rw [hset] at h
          rw [ih hkinds h, setOperand_sound hk hset, or_and_or, shown]

theorem encodeArgs_append (hkinds : ∀ k ∈ kinds, k ∈ readable) (more : List OperandKind)
    (args : List Bytes) :
    encodeArgs pc (asmRest (kinds ++ more)) (kinds.map (·.arg opcode pc) ++ args) w =
      encodeArgs pc (asmRest more) args (w ||| opcode &&& shown kinds) := by
  induction kinds generalizing w with
  | nil => rw [or_shown_nil, List.nil_append, List.map_nil, List.nil_append]
  | cons k kinds ih =>
      rw [List.cons_append, List.map_cons, List.cons_append, encodeArgs_asmRest,
        setOperand_readable (hkinds k List.mem_cons_self)]
      rw [Except.bind, ih fun k hk => hkinds k (List.mem_cons_of_mem _ hk), or_and_or, shown]

theorem encodeArgs_readable (hkinds : ∀ k ∈ kinds, k ∈ readable) :
    encodeArgs pc (asmRest kinds) (kinds.map (·.arg opcode pc)) w =
      .ok (w ||| opcode &&& shown kinds) := by
  have happend : encodeArgs pc (asmRest (kinds ++ [])) (kinds.map (·.arg opcode pc) ++ []) w =
      .ok (w ||| opcode &&& shown kinds) := encodeArgs_append hkinds [] []
  rwa [List.append_nil, List.append_nil] at happend

theorem forall_isOperand (kinds : List OperandKind) (opcode pc : Word) :
    List.Forall₂ IsOperand (kinds.map (·.print opcode pc)) (kinds.map (·.arg opcode pc)) := by
  rw [List.forall₂_map_left_iff, List.forall₂_map_right_iff, List.forall₂_same]
  exact fun k _ => isOperand_print k opcode pc

end PsplinkUsb.Pspsh.AssembledLine
