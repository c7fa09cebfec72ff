import PsplinkUsb.Pspsh.AssembledLine
import PsplinkUsb.Pspsh.CheckedAsm

namespace PsplinkUsb.Pspsh.AsmFaults

open PsplinkUsb.Library.Ascii
open PsplinkUsb.Library.Lines
open PsplinkUsb.Library.TableSearch
open PsplinkUsb.Psplink.ProgramMemory
open PsplinkUsb.Pspsh.Asm (AsmError Instruction asmInst asmMacro dollar maxArgs)
open PsplinkUsb.Pspsh.CheckedAsm
open PsplinkUsb.Pspsh.Operands

section

variable {α β : Type} {x : Except AsmError α} {f : α → Except AsmError β} {pc opcode : Word}
  {reg arg op : Bytes} {args : List Bytes}

theorem mapError_bind : (x >>= f).mapError stop = x.mapError stop >>= fun a => (f a).mapError stop := by
  cases x with
  | ok a => rfl
  | error e => rfl

theorem orRejected_bind {o : Option α} {g : α → Checked β} (h : ∀ a, g a = (f a).mapError stop) :
    orRejected o >>= g = (Asm.orRejected o >>= f).mapError stop := by
  cases o with
  | none => rfl
  | some a => exact h a

theorem index_of_lt {table : List α} {i : ℕ} (h : i < table.length) :
    index table i = .ok table[i] := entry_of_lt h

theorem copied_eq {size : ℕ} (hsize : 0 < size) (str : Bytes) :
    copied size str = if size ≤ str.length then .error .rejected else .ok str := by
  have hlast : ¬size ≤ min str.length (size - 1) := by omega
  rw [copied, if_neg hlast]

theorem stripEnd_eq (buf : Bytes) : stripEnd buf.length buf = .ok (buf.rdropWhile isSpace) := by
  induction buf using List.reverseRecOn with
  | nil => rfl
  | append_singleton buf c ih =>
      have hindex : index (buf ++ [c]) buf.length = .ok c := by
        rw [index_of_lt (by simp)]
        simp
      rw [List.length_append, List.length_singleton, stripEnd, hindex, List.take_left,
        List.rdropWhile_concat]
      show (if isSpace c = true then _ else _) = _
      split
      · exact ih
      · rfl

theorem stripWsp_eq (buf : Bytes) : stripWsp buf = .ok (Asm.stripWsp buf) := by
  rw [stripWsp, stripEnd_eq, Asm.stripWsp]
  simp only [bind, Except.bind]
  cases (buf.rdropWhile isSpace).dropWhile isSpace with
  | nil => rfl
  | cons c ret => rfl

theorem sameName_comm (name : String) (reg : Bytes) :
    sameName (some name) reg = .ok (decide (SameLetters reg (text name))) := by
  rw [sameName]
  congr 1
  exact decide_eq_decide.mpr eq_comm

theorem parseGpr_eq (reg : Bytes) : parseGpr reg = .ok (Asm.parseGpr reg) := by
  cases reg with
  | nil => rfl
  | cons c reg =>
      have hsearch : search (fun i => do sameName (some (← index regName i)) reg) 0 32 =
          .ok (Asm.findName reg regName) := by
        apply @search_eq _ _ regName _ fun name => decide (SameLetters reg (text name))
        intro i hi
        rw [index_of_lt hi]
        exact sameName_comm _ _
      rw [parseGpr, Asm.parseGpr, hsearch]
      split_ifs
      · rfl
      · rfl
      · rfl

theorem setGpr_eq (opcode : Word) (reg : Bytes) (type : Char) :
    setGpr opcode reg type = (Asm.setGpr opcode reg type).mapError stop := by
  rw [setGpr, Asm.setGpr, parseGpr_eq]
  apply orRejected_bind
  intro regval
  split
  · rfl
  · rfl
  · rfl
  · simp_all [Except.mapError, stop]

theorem cop0Number_eq (reg : Bytes) : cop0Number reg = .ok (Asm.cop0Number reg) := by
  have hsearch : search (isCop0 reg) 0 32 =
      .ok (cop0Regs.findIdx? fun name => name.any fun name => SameLetters (text name) reg) := by
    apply @search_eq _ _ cop0Regs _ fun name => name.any fun name => SameLetters (text name) reg
    intro i hi
    rw [isCop0, index_of_lt hi]
    cases cop0Regs[i] with
    | none => rfl
    | some name => rfl
  rw [cop0Number, hsearch]
  cases reg with
  | nil => rfl
  | cons c number =>
      rw [Asm.cop0Number]
      split_ifs with hdollar hother hother
      · rfl
      · exact absurd (Option.some.inj hdollar) hother
      · exact absurd (congrArg some hother) hdollar
      · rfl

theorem setCop0_eq (opcode : Word) (reg : Bytes) :
    setCop0 opcode reg = (Asm.setCop0 opcode reg).mapError stop := by
  rw [setCop0, Asm.setCop0, cop0Number_eq]
  cases Asm.cop0Number reg with
  | none => rfl
  | some regval => rfl

theorem setDr_eq (opcode : Word) (reg : Bytes) :
    setDr opcode reg = (Asm.setDr opcode reg).mapError stop := by
  rw [setDr, Asm.setDr, drNumber, Asm.drNumber]
  split
  · cases Asm.parseRegnum reg.tail 16 with
    | none => rfl
    | some regval => rfl
  · rfl

theorem setRegofs_eq (opcode : Word) (ofs : Bytes) :
    setRegofs opcode ofs = (Asm.setRegofs opcode ofs).mapError stop := by
  rw [setRegofs, Asm.setRegofs, copied_eq (by decide)]
  rcases Nat.lt_or_ge ofs.length 128 with hshort | hlong
  · rw [if_neg (Nat.not_le.mpr hshort), if_neg (Nat.not_le.mpr hshort)]
    apply orRejected_bind
    rintro ⟨imm, behind⟩
    apply orRejected_bind
    rintro ⟨reg, _⟩
    dsimp only
    rw [stripWsp_eq, stripWsp_eq]
    cases Asm.stripWsp imm with
    | none => rfl
    | some imm =>
        cases Asm.stripWsp reg with
        | none => rfl
        | some reg =>
            show (Asm.setImm opcode imm true).mapError stop >>= (fun opcode => setGpr opcode reg 's') =
              (Asm.setImm opcode imm true >>= fun opcode => Asm.setGpr opcode reg 's').mapError stop
            rw [mapError_bind]
            congr 1
            funext opcode
            exact setGpr_eq opcode reg 's'
  · rw [if_pos hlong, if_pos hlong]
    rfl

theorem setOperand_eq (letter : Char) (pc opcode : Word) (arg : Bytes) :
    setOperand pc opcode letter arg = (Asm.setOperand pc opcode letter arg).mapError stop := by
  rw [setOperand.eq_def, Asm.setOperand.eq_def]
  split
  · exact setGpr_eq _ _ _
  · exact setGpr_eq _ _ _
  · exact setGpr_eq _ _ _
  · rfl
  · rfl
  · exact setRegofs_eq _ _
  · rfl
  · rfl
  · rfl
  · exact setCop0_eq _ _
  · rfl
  · rfl
  · exact setDr_eq _ _
  · simp_all [Except.mapError, stop]

theorem encodeArgs_eq (pc : Word) (args : List Bytes) (fmt : List Char) (argpos : ℕ)
    (hle : argpos ≤ args.length) (opcode : Word) :
    encodeArgs pc (args.map some) fmt argpos opcode =
      (Asm.encodeArgs pc fmt (args.drop argpos) opcode).mapError stop := by
  induction fmt, argpos, opcode using encodeArgs.induct (args.map some) with
  | case1 argpos opcode => rfl
  | case2 fmt opcode =>
      have hend : encodeArgs pc (args.map some) ('%' :: fmt) (args.map some).length opcode =
          .ok opcode := by
        rw [encodeArgs.eq_def]
        exact (if_pos rfl).trans (if_pos rfl)
      rw [hend, List.length_map, List.drop_length]
      cases fmt with
      | nil => rfl
      | cons letter fmt => rfl
  | case3 argpos opcode hmore =>
      rw [encodeArgs, if_pos rfl, if_neg hmore]
      rfl
  | case4 argpos opcode hmore letter fmt =>
      rename_i ih
      rw [List.length_map] at hmore
      have hlt : argpos < args.length := Nat.lt_of_le_of_ne hle hmore
      have hindex : index (args.map some) argpos = .ok (some args[argpos]) := by
        rw [index_of_lt (by rwa [List.length_map]), List.getElem_map]
      rw [encodeArgs, if_pos rfl, List.length_map, if_neg hmore, hindex,
        List.drop_eq_getElem_cons hlt]
      show setOperand pc opcode letter args[argpos] >>=
          (fun opcode => encodeArgs pc (args.map some) fmt (argpos + 1) opcode) =
        (Asm.setOperand pc opcode letter args[argpos] >>=
          fun opcode => Asm.encodeArgs pc fmt (args.drop (argpos + 1)) opcode).mapError stop
      rw [mapError_bind, setOperand_eq]
      congr 1
      funext opcode
      exact ih opcode hlt
  | case5 c fmt argpos opcode hc =>
      rename_i ih
      have hskip : encodeArgs pc (args.map some) (c :: fmt) argpos opcode =
          encodeArgs pc (args.map some) fmt argpos opcode := by
        rw [encodeArgs.eq_def]
        exact if_neg hc
      rw [hskip, AssembledLine.encodeArgs_skip hc]
      exact ih hle

theorem assembleOp_eq (op : Bytes) (args : List Bytes) (pc : Word) :
    assembleOp op (args.map some) pc = (Asm.assembleOp op args pc).mapError stop := by
  rw [assembleOp, Asm.assembleOp, List.length_map]
  cases Asm.findInst op args.length with
  | none => rfl
  | some set => exact encodeArgs_eq pc args _ 0 (Nat.zero_le _) _

theorem splitArgs_eq {room : ℕ} (args : List Bytes) (rest : Bytes)
    (hroom : args.length + room = maxArgs) :
    splitArgs room (args.map some) rest =
      (Asm.splitArgs room rest).mapError stop >>= fun more => .ok ((args ++ more).map some) := by
  induction room generalizing args rest with
  | zero =>
      show Except.ok (args.map some) = Except.ok ((args ++ []).map some)
      rw [List.append_nil]
  | succ room ih =>
      rw [splitArgs, Asm.splitArgs]
      cases strtok (fun c => decide (c = Asm.comma)) rest with
      | none =>
          show Except.ok (args.map some) = Except.ok ((args ++ []).map some)
          rw [List.append_nil]
      | some p =>
          obtain ⟨tok, rest⟩ := p
          dsimp only
          rw [stripWsp_eq]
          cases Asm.stripWsp tok with
          | none => rfl
          | some arg =>
              have hstore : storeArg (args.map some) (some arg) = .ok ((args ++ [arg]).map some) := by
                rw [storeArg, List.length_map, if_pos (by omega), List.map_append]
                rfl
              have hrest := ih (args ++ [arg]) rest (by
                rw [List.length_append, List.length_singleton]
                omega)
              show (storeArg (args.map some) (some arg) >>= fun args => splitArgs room args rest) = _
              rw [hstore]
              refine hrest.trans ?_
              cases Asm.splitArgs room rest with
              | error e => rfl
              | ok more =>
                  show Except.ok ((args ++ [arg] ++ more).map some) =
                    Except.ok ((args ++ arg :: more).map some)
                  rw [List.append_assoc, List.singleton_append]

/-- The checked assembler does what the assembler does. -/
theorem asmAssemble_eq (str : Bytes) (pc : Word) :
    asmAssemble str pc = (Asm.asmAssemble str pc).mapError stop := by
  rw [asmAssemble, Asm.asmAssemble, copied_eq (by decide)]
  rcases Nat.lt_or_ge str.length 1024 with hshort | hlong
  · rw [if_neg (Nat.not_le.mpr hshort), if_neg (Nat.not_le.mpr hshort)]
    apply orRejected_bind
    rintro ⟨op, arghead⟩
    dsimp only
    have hsplit := splitArgs_eq [] (arghead.dropWhile isSpace) (Nat.zero_add maxArgs)
    rw [List.map_nil] at hsplit
    rw [hsplit]
    cases Asm.splitArgs maxArgs (arghead.dropWhile isSpace) with
    | error e => rfl
    | ok args => exact assembleOp_eq op args pc
  · rw [if_pos hlong, if_pos hlong]
    rfl

end

/-- The mnemonic and the operands of a line that fits the buffer and has no empty operand. -/
def splitLine (str : Bytes) : Option (Bytes × List Bytes) := do
  if 1024 ≤ str.length then none
  let (op, arghead) ← strtok Asm.isOpDelim str
  let args ← (Asm.splitArgs maxArgs (arghead.dropWhile isSpace)).toOption
  some (op, args)

/-- The letters of the operands in a format. -/
def letters : List Char → List Char
  | [] => []
  | c :: fmt =>
      if c = '%' then
        match fmt with
        | [] => []
        | letter :: fmt => letter :: letters fmt
      else letters fmt

/-- The line names an instruction, and its operands make the word. -/
def Encodes (str : Bytes) (pc w : Word) : Prop :=
  ∃ op args inst, splitLine str = some (op, args) ∧ inst ∈ asmMacro ++ asmInst ∧
    SameLetters (text inst.name) op ∧ (letters inst.fmt.toList).length = args.length ∧
    ((letters inst.fmt.toList).zip args).foldlM (fun opcode p => Asm.setOperand pc opcode p.1 p.2)
      inst.opcode = .ok w

/-- `mfdr` or `mtdr`, with a general register and something that does not start with `$`. -/
def NamesDebugRegister (str : Bytes) : Prop :=
  ∃ op gpr reg, splitLine str = some (op, [gpr, reg]) ∧
    (SameLetters (text "mfdr") op ∨ SameLetters (text "mtdr") op) ∧
    (Asm.parseGpr gpr).isSome = true ∧ reg.head? ≠ some dollar

section

variable {str op : Bytes} {args : List Bytes} {pc w opcode : Word} {fmt : List Char}

/-- No null pointer is met. -/
def NoNull {α : Type} (x : Except AsmError α) : Prop := x ≠ .error .nullDereference

theorem noNull_ok {α : Type} (a : α) : NoNull (.ok a) := by
  intro h
  cases h

theorem noNull_rejected {α : Type} : NoNull (.error .rejected : Except AsmError α) := by
  intro h
  cases h

theorem noNull_bind {α β : Type} {x : Except AsmError α} {f : α → Except AsmError β}
    (hx : NoNull x) (hf : ∀ a, NoNull (f a)) : NoNull (x >>= f) := by
  cases x with
  | ok a => exact hf a
  | error e => exact fun h => hx (congrArg Except.error (Except.error.inj h))

theorem noNull_orRejected {α : Type} (o : Option α) : NoNull (Asm.orRejected o) := by
  cases o with
  | none => exact noNull_rejected
  | some a => exact noNull_ok a

theorem noNull_splitArgs (room : ℕ) (rest : Bytes) : NoNull (Asm.splitArgs room rest) := by
  induction room generalizing rest with
  | zero => exact noNull_ok _
  | succ room ih =>
      rw [Asm.splitArgs]
      split
      · exact noNull_ok _
      · refine noNull_bind (noNull_orRejected _) fun arg => ?_
        exact noNull_bind (ih _) fun args => noNull_ok _

theorem noNull_setGpr (reg : Bytes) (type : Char) : NoNull (Asm.setGpr opcode reg type) := by
  refine noNull_bind (noNull_orRejected _) fun regval => ?_
  split
  · exact noNull_ok _
  · exact noNull_ok _
  · exact noNull_ok _
  · exact noNull_rejected

theorem noNull_setImm (imm : Bytes) (sign : Bool) : NoNull (Asm.setImm opcode imm sign) := by
  rw [Asm.setImm]
  split
  · exact noNull_ok _
  · exact noNull_rejected

theorem noNull_setRegofs (ofs : Bytes) : NoNull (Asm.setRegofs opcode ofs) := by
  rw [Asm.setRegofs]
  split
  · exact noNull_rejected
  · refine noNull_bind (noNull_orRejected _) fun p => ?_
    refine noNull_bind (noNull_orRejected _) fun q => ?_
    refine noNull_bind (noNull_orRejected _) fun imm => ?_
    refine noNull_bind (noNull_orRejected _) fun reg => ?_
    exact noNull_bind (noNull_setImm _ _) fun opcode => noNull_setGpr _ _

theorem noNull_setOperand {letter : Char} (hletter : letter ≠ 'r') (arg : Bytes) :
    NoNull (Asm.setOperand pc opcode letter arg) := by
  rw [Asm.setOperand.eq_def]
  split
  · exact noNull_setGpr _ _
  · exact noNull_setGpr _ _
  · exact noNull_setGpr _ _
  · exact noNull_setImm _ _
  · exact noNull_setImm _ _
  · exact noNull_setRegofs _
  · rw [Asm.setPcofs]
    split
    · exact noNull_ok _
    · exact noNull_rejected
  · rw [Asm.setJump]
    split
    · exact noNull_ok _
    · exact noNull_rejected
  · exact noNull_bind (noNull_orRejected _) fun val => noNull_ok _
  · exact noNull_bind (noNull_orRejected _) fun regval => noNull_ok _
  · refine noNull_bind (noNull_orRejected _) fun val => ?_
    split
    · exact noNull_rejected
    · exact noNull_ok _
  · exact noNull_bind (noNull_orRejected _) fun val => noNull_ok _
  · exact absurd rfl hletter
  · exact noNull_rejected

theorem noNull_foldlM {ps : List (Char × Bytes)} (hps : ∀ p ∈ ps, p.1 ≠ 'r') :
    NoNull (ps.foldlM (fun opcode p => Asm.setOperand pc opcode p.1 p.2) opcode) := by
  induction ps generalizing opcode with
  | nil => exact noNull_ok _
  | cons p ps ih =>
      rw [List.foldlM_cons]
      refine noNull_bind (noNull_setOperand (hps p List.mem_cons_self) _) fun opcode => ?_
      exact ih fun q hq => hps q (List.mem_cons_of_mem _ hq)

theorem letters_operand (letter : Char) (fmt : List Char) :
    letters ('%' :: letter :: fmt) = letter :: letters fmt := by
  rw [letters.eq_def]
  exact if_pos rfl

theorem letters_skip {c : Char} (hc : c ≠ '%') : letters (c :: fmt) = letters fmt := by
  rw [letters.eq_def]
  exact if_neg hc

theorem encodeArgs_foldlM (hlength : (letters fmt).length = args.length) :
    Asm.encodeArgs pc fmt args opcode =
      ((letters fmt).zip args).foldlM (fun opcode p => Asm.setOperand pc opcode p.1 p.2)
        opcode := by
  induction fmt, args, opcode using Asm.encodeArgs.induct with
  | case1 args opcode => rfl
  | case2 opcode letter fmt arg args =>
      rename_i ih
      rw [letters_operand, List.length_cons, List.length_cons] at hlength
      rw [letters_operand, List.zip_cons_cons, List.foldlM_cons]
      show Asm.setOperand pc opcode letter arg >>=
        (fun opcode => Asm.encodeArgs pc fmt args opcode) = _
      congr 1
      funext opcode
      exact ih opcode (Nat.succ.inj hlength)
  | case3 fmt args opcode hend =>
      cases fmt with
      | nil =>
          cases args with
          | nil => rfl
          | cons arg args => rfl
      | cons letter fmt =>
          cases args with
          | nil =>
              rw [letters_operand] at hlength
              cases hlength
          | cons arg args => exact (hend letter fmt arg args rfl rfl).elim
  | case4 c fmt args opcode hc =>
      rename_i ih
      rw [letters_skip hc] at hlength ⊢
      rw [AssembledLine.encodeArgs_skip hc]
      exact ih hlength

theorem asmAssemble_split (str : Bytes) (pc : Word) :
    Asm.asmAssemble str pc =
      match splitLine str with
      | none => .error .rejected
      | some (op, args) => Asm.assembleOp op args pc := by
  rw [Asm.asmAssemble, splitLine]
  rcases Nat.lt_or_ge str.length 1024 with hshort | hlong
  · rw [if_neg (Nat.not_le.mpr hshort), if_neg (Nat.not_le.mpr hshort)]
    cases strtok Asm.isOpDelim str with
    | none => rfl
    | some p =>
        obtain ⟨op, arghead⟩ := p
        have hargs := noNull_splitArgs maxArgs (arghead.dropWhile isSpace)
        show (Asm.splitArgs maxArgs (arghead.dropWhile isSpace) >>= fun args =>
          Asm.assembleOp op args pc) = _
        simp only [Option.bind_eq_bind, Option.bind_some]
        cases hsplit : Asm.splitArgs maxArgs (arghead.dropWhile isSpace) with
        | ok args => rfl
        | error e =>
            cases e with
            | rejected => rfl
            | nullDereference => exact absurd hsplit hargs
  · rw [if_pos hlong, if_pos hlong]
    rfl

def mfdr : Instruction := ⟨"mfdr", 0x7000003D, 0xFFE007FF, "%t, %r", 2⟩

def mtdr : Instruction := ⟨"mtdr", 0x7080003D, 0xFFE007FF, "%t, %r", 2⟩

/-- The letters of the formats, entry by entry. -/
def tableLetters : List (List Char) :=
  [[], ['t', 'i'], ['t', 'I'], ['d', 's'], ['d', 's'], ['O'], ['O'], ['O'], ['s', 'O'], ['s', 'O'],
   ['s', 'O'], ['s', 'O'], ['d', 't'], ['d', 't'], ['d', 's'], ['s'], ['d', 's', 't'],
   ['t', 's', 'i'], ['t', 's', 'i'], ['d', 's', 't'], ['d', 's', 't'], ['t', 's', 'I'],
   ['s', 't', 'O'], ['s', 't', 'O'], ['s', 'O'], ['s', '0'], ['s', 'O'], ['s', 'O'], ['s', 'O'],
   ['d', 't'], ['s', 'O'], ['s', 'O'], ['s', 'O'], ['s', 'O'], ['s', 'O'], ['s', 'O'],
   ['s', 't', 'O'], ['s', 't', 'O'], ['c'], ['k', 'o'], ['t', 'p'], ['d', 's'], ['d', 's'],
   ['t', 'p'], ['d', 's', 't'], ['d', 's', 't'], [], ['s', 't'], ['s', 't'], [], [],
   ['t', 's', 'a', 'n'], ['t', 's', 'a', 'n'], ['j'], ['s'], ['s', 'd'], ['j'], ['t', 'o'],
   ['t', 'o'], ['t', 'o'], ['t', 'o'], ['t', 'O'], ['t', 'I'], ['t', 'o'], ['t', 'o'], ['t', 'o'],
   ['s', 't'], ['s', 't'], ['t', '0'], ['t', 'r'], ['d'], ['t', 'p'], ['d'], ['d', 's', 't'],
   ['d', 's', 't'], ['d', 't'], ['d', 't'], ['t', '0'], ['t', 'r'], ['t', 'p'], [], ['s'], ['s'],
   ['s', 't'], ['s', 't'], ['d', 's', 't'], ['d', 's', 't'], ['t', 's', 'I'], ['d', 't', 'a'],
   ['d', 't', 's'], ['d', 't'], ['d', 't'], ['t', 'o'], ['t', 'o'], ['d', 't', 's'],
   ['d', 't', 'a'], ['d', 's', 't'], ['t', 's', 'i'], ['t', 's', 'i'], ['d', 's', 't'],
   ['d', 't', 'a'], ['d', 't', 's'], ['d', 't', 's'], ['d', 't', 'a'], ['t', 'o'], ['t', 'o'],
   ['t', 'o'], ['d', 's', 't'], ['d', 's', 't'], [], ['C'], ['d', 's', 't'], ['t', 's', 'I'],
   ['d', 't'], ['d', 't']]

theorem map_letters :
    (asmMacro ++ asmInst).map (fun inst => letters inst.fmt.toList) = tableLetters := by
  decide +kernel

theorem of_tableLetters {p : Instruction → List Char → Prop}
    (hall : ∀ x ∈ (asmMacro ++ asmInst).zip tableLetters, p x.1 x.2) {inst : Instruction}
    (h : inst ∈ asmMacro ++ asmInst) : p inst (letters inst.fmt.toList) := by
  refine hall (inst, letters inst.fmt.toList) ?_
  rw [← map_letters, ← List.map_prod_left_eq_zip]
  exact List.mem_map_of_mem h

theorem letters_table {inst : Instruction} (h : inst ∈ asmMacro ++ asmInst) :
    (letters inst.fmt.toList).length = inst.operands := by
  refine @of_tableLetters (fun inst fmt => fmt.length = inst.operands) ?_ inst h
  decide +kernel

theorem debug_table {inst : Instruction} (h : inst ∈ asmMacro ++ asmInst)
    (hletter : 'r' ∈ letters inst.fmt.toList) : inst = mfdr ∨ inst = mtdr := by
  refine @of_tableLetters (fun inst fmt => 'r' ∈ fmt → inst = mfdr ∨ inst = mtdr) ?_ inst h hletter
  decide +kernel

theorem debug_letters {inst : Instruction} (h : inst = mfdr ∨ inst = mtdr) :
    letters inst.fmt.toList = ['t', 'r'] := by
  have hmem : inst ∈ asmMacro ++ asmInst := by
    rcases h with rfl | rfl
    · decide +kernel
    · decide +kernel
  refine @of_tableLetters (fun inst fmt => inst = mfdr ∨ inst = mtdr → fmt = ['t', 'r']) ?_ inst hmem h
  decide +kernel

example : letters mtdr.fmt.toList = ['t', 'r'] := by decide +kernel

theorem findInst_congr {op' : Bytes} (h : SameLetters op' op) (n : ℕ) :
    Asm.findInst op n = Asm.findInst op' n := by
  have hfound : (fun inst : Instruction =>
        decide (SameLetters (text inst.name) op ∧ inst.operands = n)) =
      fun inst => decide (SameLetters (text inst.name) op' ∧ inst.operands = n) := by
    funext inst
    apply decide_eq_decide.mpr
    rw [SameLetters, SameLetters, show op'.map toLower = op.map toLower from h]
  exact congrArg (fun found => (asmMacro.find? found).or (asmInst.find? found)) hfound

theorem operands_of_findInst {inst : Instruction} {n : ℕ} (h : Asm.findInst op n = some inst) :
    inst.operands = n := by
  rw [Asm.findInst, ← List.find?_append] at h
  have hfound := List.find?_some h
  exact (of_decide_eq_true hfound).2

theorem assembleOp_found {inst : Instruction} (h : Asm.findInst op args.length = some inst) :
    (letters inst.fmt.toList).length = args.length ∧
      Asm.assembleOp op args pc = ((letters inst.fmt.toList).zip args).foldlM
        (fun opcode p => Asm.setOperand pc opcode p.1 p.2) inst.opcode := by
  have hlength : (letters inst.fmt.toList).length = args.length :=
    (letters_table (AssembledLine.mem_of_findInst h).1).trans (operands_of_findInst h)
  refine ⟨hlength, ?_⟩
  rw [Asm.assembleOp, h]
  exact encodeArgs_foldlM hlength

theorem setDr_null_iff (reg : Bytes) :
    Asm.setDr opcode reg = .error .nullDereference ↔ reg.head? ≠ some dollar := by
  rw [Asm.setDr, Asm.drNumber]
  split
  · rename_i hdollar
    refine iff_of_false ?_ fun hne => hne hdollar
    exact noNull_bind (noNull_orRejected _) fun regval => noNull_ok _
  · rename_i hname
    exact iff_of_true rfl hname

theorem debug_null_iff (gpr reg : Bytes) :
    ([('t', gpr), ('r', reg)].foldlM (fun opcode p => Asm.setOperand pc opcode p.1 p.2) opcode :
        Except AsmError Word) = .error .nullDereference ↔
      (Asm.parseGpr gpr).isSome = true ∧ reg.head? ≠ some dollar := by
  show (Asm.setGpr opcode gpr 't' >>= fun opcode => Asm.setDr opcode reg >>= pure) = _ ↔ _
  cases hgpr : Asm.parseGpr gpr with
  | none =>
      have hset : Asm.setGpr opcode gpr 't' = .error .rejected := by
        rw [Asm.setGpr, hgpr]
        rfl
      rw [hset]
      exact iff_of_false noNull_rejected fun h => Bool.noConfusion h.1
  | some regval =>
      obtain ⟨opcode', hset⟩ : ∃ opcode', Asm.setGpr opcode gpr 't' = .ok opcode' := by
        rw [Asm.setGpr, hgpr]
        exact ⟨_, rfl⟩
      rw [hset, ← @setDr_null_iff opcode']
      show (Asm.setDr opcode' reg >>= pure) = _ ↔ _
      rw [bind_pure]
      exact (and_iff_right rfl).symm

theorem assembleOp_null_iff :
    Asm.assembleOp op args pc = .error .nullDereference ↔
      ∃ gpr reg, args = [gpr, reg] ∧
        (SameLetters (text "mfdr") op ∨ SameLetters (text "mtdr") op) ∧
        (Asm.parseGpr gpr).isSome = true ∧ reg.head? ≠ some dollar := by
  constructor
  · intro h
    cases hfind : Asm.findInst op args.length with
    | none =>
        rw [Asm.assembleOp, hfind] at h
        cases h
    | some inst =>
        obtain ⟨hlength, hfold⟩ := @assembleOp_found op args pc inst hfind
        obtain ⟨hmem, hname⟩ := AssembledLine.mem_of_findInst hfind
        rw [hfold] at h
        have hletter : 'r' ∈ letters inst.fmt.toList := by
          by_contra hnone
          refine noNull_foldlM (fun p hp hr => hnone ?_) h
          exact hr ▸ (List.of_mem_zip hp).1
        have hdebug := debug_table hmem hletter
        have hfmt := debug_letters hdebug
        rw [hfmt] at hlength h
        obtain ⟨gpr, reg, rfl⟩ := List.length_eq_two.mp hlength.symm
        refine ⟨gpr, reg, rfl, ?_, (debug_null_iff gpr reg).mp h⟩
        rcases hdebug with rfl | rfl
        · exact .inl hname
        · exact .inr hname
  · rintro ⟨gpr, reg, rfl, hname, hoperands⟩
    have hfind : Asm.findInst op 2 = some mfdr ∨ Asm.findInst op 2 = some mtdr := by
      rcases hname with hname | hname
      · rw [findInst_congr hname]
        exact .inl (by decide +kernel)
      · rw [findInst_congr hname]
        exact .inr (by decide +kernel)
    have hboth : ∀ inst, Asm.findInst op [gpr, reg].length = some inst →
        letters inst.fmt.toList = ['t', 'r'] →
        Asm.assembleOp op [gpr, reg] pc = .error .nullDereference := by
      intro inst hfind hfmt
      rw [(assembleOp_found hfind).2, hfmt]
      exact (debug_null_iff gpr reg).mpr hoperands
    rcases hfind with hfind | hfind
    · exact hboth mfdr hfind (debug_letters (.inl rfl))
    · exact hboth mtdr hfind (debug_letters (.inr rfl))

theorem asmAssemble_null_iff :
    Asm.asmAssemble str pc = .error .nullDereference ↔ NamesDebugRegister str := by
  rw [asmAssemble_split]
  cases hsplit : splitLine str with
  | none =>
      refine iff_of_false noNull_rejected ?_
      rintro ⟨op, gpr, reg, hline, -⟩
      cases hsplit.symm.trans hline
  | some p =>
      obtain ⟨op, args⟩ := p
      refine assembleOp_null_iff.trans ⟨?_, ?_⟩
      · rintro ⟨gpr, reg, rfl, hdebug⟩
        exact ⟨op, gpr, reg, hsplit, hdebug⟩
      · rintro ⟨op', gpr, reg, hline, hdebug⟩
        cases hsplit.symm.trans hline
        exact ⟨gpr, reg, rfl, hdebug⟩

/-- A word is made only of a line that stands for it. -/
theorem encodes_of_asmAssemble (h : Asm.asmAssemble str pc = .ok w) : Encodes str pc w := by
  rw [asmAssemble_split] at h
  cases hsplit : splitLine str with
  | none =>
      rw [hsplit] at h
      cases h
  | some p =>
      obtain ⟨op, args⟩ := p
      rw [hsplit] at h
      dsimp only at h
      cases hfind : Asm.findInst op args.length with
      | none =>
          rw [Asm.assembleOp, hfind] at h
          cases h
      | some inst =>
          obtain ⟨hlength, hfold⟩ := @assembleOp_found op args pc inst hfind
          obtain ⟨hmem, hname⟩ := AssembledLine.mem_of_findInst hfind
          exact ⟨op, args, inst, hsplit, hmem, hname, hlength, hfold.symm.trans h⟩

end

/-- `asmAssemble` meets no fault, and encodes a line or returns -1, exactly for the lines without
the name of a debug register. -/
theorem asm_assemble_safe_iff (str : Bytes) (pc : Word) :
    (asmAssemble str pc = .error .rejected ∨
        ∃ w, asmAssemble str pc = .ok w ∧ Encodes str pc w) ↔ ¬NamesDebugRegister str := by
  rw [asmAssemble_eq, ← @asmAssemble_null_iff str pc]
  cases hresult : Asm.asmAssemble str pc with
  | ok w => exact iff_of_true (.inr ⟨w, rfl, encodes_of_asmAssemble hresult⟩) nofun
  | error e =>
      cases e with
      | rejected => exact iff_of_true (.inl rfl) nofun
      | nullDereference =>
          refine iff_of_false ?_ fun hne => hne rfl
          rintro (heq | ⟨w, heq, -⟩)
          · cases heq
          · cases heq

/-- The line `mfdr $1,DRCNTL`. -/
theorem debug_register_faults :
    let line : Bytes := text "mfdr $1,DRCNTL"
    asmAssemble line 0 = .error (.fault .nullName) ∧
      ¬(asmAssemble line 0 = .error .rejected ∨
        ∃ w, asmAssemble line 0 = .ok w ∧ Encodes line 0 w) := by
  intro line
  have hnull : Asm.asmAssemble line 0 = .error .nullDereference := by
    decide +kernel
  have hfault : asmAssemble line 0 = .error (.fault .nullName) := by
    rw [asmAssemble_eq, hnull]
    rfl
  refine ⟨hfault, ?_⟩
  rw [hfault]
  rintro (heq | ⟨w, heq, -⟩)
  · cases heq
  · cases heq

end PsplinkUsb.Pspsh.AsmFaults
