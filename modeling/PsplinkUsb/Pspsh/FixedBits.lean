import PsplinkUsb.Pspsh.AsmFaults

namespace PsplinkUsb.Pspsh.FixedBits

open PsplinkUsb.Library.Ascii
open PsplinkUsb.Library.BitFields
open PsplinkUsb.Library.Lines
open PsplinkUsb.Library.Numerals
open PsplinkUsb.Psplink.ProgramMemory
open PsplinkUsb.Pspsh.Asm
open PsplinkUsb.Pspsh.AsmFaults (splitLine letters assembleOp_found asmAssemble_split findInst_congr)
open PsplinkUsb.Pspsh.Operands

/-- The bits that the operand of a letter is put in. -/
def field (letter : Char) : Word :=
  match letter with
  | 'd' | '0' | 'n' | 'r' => 0xF800
  | 't' | 'k' => 0x1F0000
  | 's' => 0x3E00000
  | 'i' | 'I' | 'O' => 0xFFFF
  | 'o' => 0x3E0FFFF
  | 'j' => 0x3FFFFFF
  | 'a' => 0x7C0
  | _ => 0

def fields : List Char → Word
  | [] => 0
  | letter :: fmt => field letter ||| fields fmt

/-- The same bits under `m` are set in every word, or no word is made. -/
def Sets (m : Word) (f : Word → Except AsmError Word) : Prop :=
  (∃ e, ∀ opcode, f opcode = .error e) ∨
    ∃ v, v &&& m = v ∧ ∀ opcode, f opcode = .ok (opcode ||| v)

/-- The entry that a line is assembled by. -/
def chosen (str : Bytes) : Option Instruction :=
  (splitLine str).bind fun p => findInst p.1 p.2.length

/-- `msub` or `msubu`, and the first register is not the one of number 0. -/
def SetsFixedBits (str : Bytes) : Prop :=
  ∃ op reg more n, splitLine str = some (op, [reg, more]) ∧
    (SameLetters (text "msub") op ∨ SameLetters (text "msubu") op) ∧
    parseGpr reg = some n ∧ n ≠ 0

section

variable {pc opcode v w m m' : Word} {letter : Char} {arg reg op : Bytes} {args : List Bytes}
  {n k : ℕ} {f g : Word → Except AsmError Word}

theorem Sets.bind (hf : Sets m f) (hg : Sets m' g) : Sets (m ||| m') fun w => f w >>= g := by
  rcases hf with ⟨e, hf⟩ | ⟨v, hv, hf⟩
  · exact .inl ⟨e, fun opcode => congrArg (· >>= g) (hf opcode)⟩
  rcases hg with ⟨e, hg⟩ | ⟨v', hv', hg⟩
  · exact .inl ⟨e, fun opcode => (congrArg (· >>= g) (hf opcode)).trans (hg _)⟩
  · refine .inr ⟨v ||| v', ?_, fun opcode => ?_⟩
    · rw [BitVec.and_or_distrib_right, subset_or_left hv, subset_or_right hv']
    · have hboth := (congrArg (· >>= g) (hf opcode)).trans (hg _)
      rwa [BitVec.or_assoc] at hboth

theorem sets_ok (h : v &&& m = v) : Sets m fun opcode => .ok (opcode ||| v) :=
  .inr ⟨v, h, fun _ => rfl⟩

theorem sets_rejected : Sets m fun _ => .error .rejected := .inl ⟨.rejected, fun _ => rfl⟩

theorem Sets.orRejected_bind {α : Type} {o : Option α} {f : α → Word → Except AsmError Word}
    (h : ∀ a, o = some a → Sets m (f a)) : Sets m fun opcode => orRejected o >>= fun a => f a opcode := by
  cases o with
  | none => exact sets_rejected
  | some a => exact h a rfl

theorem parseRegnum_lt {bound : ℕ} (h : parseRegnum reg bound = some n) : n < bound := by
  rw [parseRegnum] at h
  split at h
  · dsimp only at h
    split at h
    · rename_i hbound
      rw [← Option.some.inj h]
      omega
    · cases h
  · cases h

theorem parseGpr_lt (h : parseGpr reg = some n) : n < 32 := by
  cases reg with
  | nil => cases h
  | cons c reg =>
      rw [parseGpr] at h
      split_ifs at h
      · rcases Option.or_eq_some_iff.mp h with hname | ⟨-, hnumber⟩
        · exact (List.findIdx?_eq_some_iff_getElem.mp hname).1
        · exact parseRegnum_lt hnumber
      · exact parseRegnum_lt h

theorem cop0Number_lt (h : cop0Number reg = some n) : n < 32 := by
  cases reg with
  | nil => cases h
  | cons c number =>
      rw [cop0Number] at h
      split_ifs at h
      · exact parseRegnum_lt h
      · exact (List.findIdx?_eq_some_iff_getElem.mp h).1

theorem five_bits (h : n < 32) (k : ℕ) :
    BitVec.ofNat 32 n <<< k &&& (0x1F : Word) <<< k = BitVec.ofNat 32 n <<< k := by
  have hlow : BitVec.ofNat 32 n &&& (0x1F : Word) = BitVec.ofNat 32 n := by
    have hmod := Nat.and_two_pow_sub_one_eq_mod n 5
    apply BitVec.eq_of_toNat_eq
    rw [BitVec.toNat_and, BitVec.toNat_ofNat, Nat.mod_eq_of_lt (by omega)]
    exact hmod.trans (Nat.mod_eq_of_lt h)
  rw [← BitVec.shiftLeft_and_distrib, hlow]

theorem sets_setGpr (reg : Bytes) {type : Char} (htype : type ∈ ['d', 's', 't']) :
    Sets (field type) fun opcode => setGpr opcode reg type := by
  rcases List.mem_cons.mp htype with rfl | htype
  · exact .orRejected_bind fun regval h => sets_ok (five_bits (parseGpr_lt h) 11)
  rcases List.mem_cons.mp htype with rfl | htype
  · exact .orRejected_bind fun regval h => sets_ok (five_bits (parseGpr_lt h) 21)
  · obtain rfl := List.mem_singleton.mp htype
    exact .orRejected_bind fun regval h => sets_ok (five_bits (parseGpr_lt h) 16)

theorem sets_number {α : Type} (o : Option (α × Bytes)) (bits : α → Word)
    (hbits : ∀ a, bits a &&& m = bits a)
    (hread : ∀ a, o = some (a, []) → ∀ opcode, f opcode = .ok (opcode ||| bits a))
    (hrefused : (∀ a, o ≠ some (a, [])) → ∀ opcode, f opcode = .error .rejected) : Sets m f := by
  by_cases hsome : ∃ a, o = some (a, [])
  · obtain ⟨a, ha⟩ := hsome
    exact .inr ⟨bits a, hbits a, hread a ha⟩
  · exact .inl ⟨.rejected, hrefused fun a ha => hsome ⟨a, ha⟩⟩

theorem low_bits (x : Word) : x &&& 0xFFFF &&& 0xFFFF = x &&& 0xFFFF := by
  rw [BitVec.and_assoc, BitVec.and_self]

theorem setImm_eq {imm : Bytes} {val : ℤ} (sign : Bool) (h : strtol 0 imm = some (val, [])) :
    setImm opcode imm sign = .ok (opcode ||| BitVec.ofInt 32
      (if sign then clampShort (toInt32 val) else toInt32 val) &&& 0xFFFF) := by
  rw [setImm, h]

theorem sets_setImm (imm : Bytes) (sign : Bool) :
    Sets 0xFFFF fun opcode => setImm opcode imm sign := by
  refine sets_number (strtol 0 imm) _ (fun val => low_bits _)
    (fun val h opcode => setImm_eq sign h) fun hno opcode => ?_
  rw [setImm]
  split
  · rename_i val h
    exact absurd h (hno val)
  · rfl

theorem setPcofs_eq {jump : Bytes} {addr : ℕ} (h : strtoul 0 jump = some (addr, [])) :
    setPcofs pc opcode jump = .ok (opcode ||| BitVec.ofInt 32
      (clampShort ((BitVec.ofNat 32 addr - pc - 4).toInt.tdiv 4)) &&& 0xFFFF) := by
  rw [setPcofs, h]

theorem setJump_eq {jump : Bytes} {addr : ℕ} (h : strtoul 0 jump = some (addr, [])) :
    setJump opcode jump = .ok (opcode ||| (BitVec.ofNat 32 addr &&& 0x0FFFFFFF) >>> 2) := by
  rw [setJump, h]

theorem sets_setPcofs (pc : Word) (jump : Bytes) :
    Sets 0xFFFF fun opcode => setPcofs pc opcode jump := by
  refine sets_number (strtoul 0 jump) _ (fun addr => low_bits _) (fun addr h opcode => setPcofs_eq h)
    fun hno opcode => ?_
  rw [setPcofs]
  split
  · rename_i addr h
    exact absurd h (hno addr)
  · rfl

theorem sets_setJump (jump : Bytes) : Sets 0x3FFFFFF fun opcode => setJump opcode jump := by
  refine sets_number (strtoul 0 jump) _ (fun addr => ?_) (fun addr h opcode => setJump_eq h) fun hno opcode => ?_
  · rw [BitVec.ushiftRight_and_distrib, BitVec.and_assoc]
    rfl
  · rw [setJump]
    split
    · rename_i addr h
      exact absurd h (hno addr)
    · rfl

theorem sets_setRegofs (ofs : Bytes) : Sets 0x3E0FFFF fun opcode => setRegofs opcode ofs := by
  by_cases hlong : 128 ≤ ofs.length
  · simp only [setRegofs, if_pos hlong]
    exact sets_rejected
  simp only [setRegofs, if_neg hlong]
  refine .orRejected_bind (f := fun p opcode => _) fun p _ => ?_
  refine .orRejected_bind fun q _ => ?_
  refine .orRejected_bind fun imm _ => ?_
  refine .orRejected_bind fun reg _ => ?_
  exact (sets_setImm imm true).bind (sets_setGpr reg (by decide))

theorem findDr_lt {places : List (Option String × Option String)} {i : ℕ}
    (h : findDr reg i places = .ok n) : n < i + places.length := by
  induction places generalizing i with
  | nil => cases h
  | cons place places ih =>
      have hrest : findDr reg (i + 1) places = .ok n → n < i + (place :: places).length := by
        intro hn
        have hlt := ih hn
        rw [List.length_cons]
        omega
      obtain ⟨dr, cop0⟩ := place
      cases dr with
      | none => exact hrest h
      | some dr =>
          cases cop0 with
          | none => cases h
          | some name =>
              rw [findDr] at h
              split at h
              · rw [← Except.ok.inj h, List.length_cons]
                omega
              · exact hrest h

theorem drNumber_lt (h : drNumber reg = .ok n) : n < 16 := by
  rw [drNumber] at h
  split at h
  · cases hnumber : parseRegnum reg.tail 16 with
    | none =>
        rw [hnumber] at h
        cases h
    | some regval =>
        rw [hnumber] at h
        rw [← Except.ok.inj h]
        exact parseRegnum_lt hnumber
  · exact findDr_lt h

theorem sets_setDr (reg : Bytes) : Sets 0xF800 fun opcode => setDr opcode reg := by
  cases hnumber : drNumber reg with
  | error e => exact .inl ⟨e, fun opcode => by beta_reduce; rw [setDr, hnumber]; rfl⟩
  | ok regval =>
      have hlt := drNumber_lt hnumber
      refine .inr ⟨BitVec.ofNat 32 regval <<< 11, five_bits (by omega) 11, fun opcode => ?_⟩
      beta_reduce
      rw [setDr, hnumber]
      rfl

theorem sets_setN (reg : Bytes) : Sets 0xF800 fun opcode => setN opcode reg := by
  refine .orRejected_bind fun val h => ?_
  have hlt : val < 33 := parseRegnum_lt h
  split
  · exact sets_rejected
  · exact sets_ok (five_bits (by omega) 11)

theorem setOperand_sets (pc : Word) (letter : Char) (arg : Bytes) :
    Sets (field letter) fun opcode => setOperand pc opcode letter arg := by
  unfold setOperand
  split
  · exact sets_setGpr arg (by decide)
  · exact sets_setGpr arg (by decide)
  · exact sets_setGpr arg (by decide)
  · exact sets_setImm arg true
  · exact sets_setImm arg false
  · exact sets_setRegofs arg
  · exact sets_setPcofs pc arg
  · exact sets_setJump arg
  · exact .orRejected_bind fun val h => sets_ok (five_bits (parseRegnum_lt h) 6)
  · exact .orRejected_bind fun regval h => sets_ok (five_bits (cop0Number_lt h) 11)
  · exact sets_setN arg
  · exact .orRejected_bind fun val h => sets_ok (five_bits (parseRegnum_lt h) 16)
  · exact sets_setDr arg
  · exact sets_rejected

theorem operands_sets (pc : Word) (ps : List (Char × Bytes)) :
    Sets (fields (ps.map Prod.fst)) fun opcode =>
      ps.foldlM (fun opcode p => setOperand pc opcode p.1 p.2) opcode := by
  induction ps with
  | nil => exact .inr ⟨0, rfl, fun opcode => congrArg Except.ok BitVec.or_zero.symm⟩
  | cons p ps ih =>
      simp only [List.foldlM_cons]
      exact (setOperand_sets pc p.1 p.2).bind ih

theorem operands_kept {fmt : List Char} (hlength : fmt.length = args.length)
    (hapart : fields fmt &&& m = 0)
    (h : (fmt.zip args).foldlM (fun opcode p => setOperand pc opcode p.1 p.2) opcode = .ok w) :
    w &&& m = opcode &&& m := by
  have hset := operands_sets pc (fmt.zip args)
  rw [List.map_fst_zip hlength.le] at hset
  rcases hset with ⟨e, hset⟩ | ⟨v, hv, hset⟩
  · cases (hset opcode).symm.trans h
  · have hzero : v &&& m = 0 := by
      rw [← hv, BitVec.and_assoc, hapart]
      exact BitVec.and_zero
    rw [← Except.ok.inj ((hset opcode).symm.trans h), BitVec.and_or_distrib_right, hzero]
    exact BitVec.or_zero

def msub : Instruction := ⟨"msub", 0x0000002E, 0xFC00FFFF, "%d, %t", 2⟩

def msubu : Instruction := ⟨"msubu", 0x0000002F, 0xFC00FFFF, "%d, %t", 2⟩

theorem fields_table {inst : Instruction} (h : inst ∈ asmMacro ++ asmInst) :
    inst.opcode &&& inst.mask = inst.opcode ∧
      (fields (letters inst.fmt.toList) &&& inst.mask = 0 ∨ inst = msub ∨ inst = msubu) := by
  refine @AsmFaults.of_tableLetters (fun inst fmt => inst.opcode &&& inst.mask = inst.opcode ∧
    (fields fmt &&& inst.mask = 0 ∨ inst = msub ∨ inst = msubu)) ?_ inst h
  decide +kernel

example : fields (letters msub.fmt.toList) &&& msub.mask ≠ 0 := by decide +kernel

theorem msub_kept_iff {code : Word} (hcode : code &&& 0xFC00FFFF = code)
    (hcut : code &&& 0xF800 = 0) (hn : n < 32) (hv : v &&& 0x1F0000 = v) :
    (code ||| BitVec.ofNat 32 n <<< 11 ||| v) &&& 0xFC00FFFF = code ↔ n = 0 := by
  have hreg := five_bits hn 11
  have hreg' : BitVec.ofNat 32 n <<< 11 &&& (0xFC00FFFF : Word) = BitVec.ofNat 32 n <<< 11 := by
    rw [← hreg, BitVec.and_assoc]
    rfl
  have hv' : v &&& (0xFC00FFFF : Word) = 0#32 := by
    rw [← hv, BitVec.and_assoc]
    exact BitVec.and_zero
  rw [BitVec.and_or_distrib_right, BitVec.and_or_distrib_right, hcode, hreg', hv']
  constructor
  · intro h
    have hfield := congrArg (· &&& (0x1F : Word) <<< 11) h
    have hcut' : code &&& (0x1F : Word) <<< 11 = 0#32 := hcut
    rw [BitVec.or_zero, BitVec.and_or_distrib_right, hcut', hreg, BitVec.zero_or] at hfield
    have hnat := congrArg BitVec.toNat hfield
    simp only [BitVec.toNat_shiftLeft, BitVec.toNat_ofNat, Nat.shiftLeft_eq] at hnat
    omega
  · rintro rfl
    simp

theorem msub_letters {inst : Instruction} (hinst : inst = msub ∨ inst = msubu) :
    letters inst.fmt.toList = ['d', 't'] := by
  have hmem : inst ∈ asmMacro ++ asmInst := by
    rcases hinst with rfl | rfl
    · decide +kernel
    · decide +kernel
  refine @AsmFaults.of_tableLetters (fun inst fmt => inst = msub ∨ inst = msubu → fmt = ['d', 't'])
    ?_ inst hmem hinst
  decide +kernel

theorem findInst_msub {inst : Instruction}
    (hop : SameLetters (text "msub") op ∨ SameLetters (text "msubu") op)
    (h : findInst op 2 = some inst) : inst = msub ∨ inst = msubu := by
  rcases hop with hop | hop
  · rw [findInst_congr hop] at h
    have hmsub : findInst (text "msub") 2 = some msub := by decide +kernel
    exact .inl (Option.some.inj (h.symm.trans hmsub))
  · rw [findInst_congr hop] at h
    have hmsubu : findInst (text "msubu") 2 = some msubu := by decide +kernel
    exact .inr (Option.some.inj (h.symm.trans hmsubu))

theorem msub_assembled {inst : Instruction} (hinst : inst = msub ∨ inst = msubu)
    {more : Bytes}
    (h : ((letters inst.fmt.toList).zip [reg, more]).foldlM
      (fun opcode p => setOperand pc opcode p.1 p.2) inst.opcode = .ok w) :
    ∃ n, parseGpr reg = some n ∧ (w &&& inst.mask = inst.opcode ↔ n = 0) := by
  rw [msub_letters hinst] at h
  have hboth : (setGpr inst.opcode reg 'd' >>= fun opcode => setGpr opcode more 't' >>= pure) =
      .ok w := h
  cases hreg : parseGpr reg with
  | none =>
      rw [setGpr, hreg] at hboth
      cases hboth
  | some n =>
      refine ⟨n, rfl, ?_⟩
      have hfirst : setGpr inst.opcode reg 'd' = .ok (inst.opcode ||| BitVec.ofNat 32 n <<< 11) := by
        rw [setGpr, hreg]
        rfl
      rw [hfirst] at hboth
      have hsecond : setGpr (inst.opcode ||| BitVec.ofNat 32 n <<< 11) more 't' = .ok w :=
        (bind_pure (setGpr _ more 't')).symm.trans hboth
      rcases sets_setGpr more (List.mem_cons_of_mem 'd' (List.mem_cons_of_mem 's' List.mem_cons_self))
        with ⟨e, hset⟩ | ⟨v, hv, hset⟩
      · cases (hset _).symm.trans hsecond
      · rw [← Except.ok.inj ((hset _).symm.trans hsecond)]
        rcases hinst with rfl | rfl
        · exact msub_kept_iff rfl rfl (parseGpr_lt hreg) hv
        · exact msub_kept_iff rfl rfl (parseGpr_lt hreg) hv

theorem found_kept_iff {str : Bytes} {inst : Instruction} (hsplit : splitLine str = some (op, args))
    (hfind : findInst op args.length = some inst)
    (h : ((letters inst.fmt.toList).zip args).foldlM
      (fun opcode p => setOperand pc opcode p.1 p.2) inst.opcode = .ok w) :
    w &&& inst.mask = inst.opcode ↔ ¬SetsFixedBits str := by
  obtain ⟨hlength, -⟩ := @assembleOp_found op args pc inst hfind
  obtain ⟨hmem, hname⟩ := AssembledLine.mem_of_findInst hfind
  obtain ⟨hfixed, hapart⟩ := fields_table hmem
  by_cases hinst : inst = msub ∨ inst = msubu
  · rw [msub_letters hinst] at hlength
    obtain ⟨reg, more, rfl⟩ := List.length_eq_two.mp hlength.symm
    obtain ⟨n, hreg, hkept⟩ := msub_assembled hinst h
    rw [hkept]
    constructor
    · rintro rfl ⟨op', reg', more', n, hline, -, hreg', hne⟩
      cases hsplit.symm.trans hline
      cases hreg.symm.trans hreg'
      exact hne rfl
    · intro hnot
      by_contra hne
      refine hnot ⟨op, reg, more, n, hsplit, ?_, hreg, hne⟩
      rcases hinst with rfl | rfl
      · exact .inl hname
      · exact .inr hname
  · have hzero := hapart.resolve_right hinst
    refine iff_of_true ?_ ?_
    · rw [operands_kept hlength hzero h, hfixed]
    · rintro ⟨op', reg, more, n, hline, hop, -⟩
      cases hsplit.symm.trans hline
      exact hinst (findInst_msub hop hfind)

theorem assembled_found {str : Bytes} (h : asmAssemble str pc = .ok w) :
    ∃ op args inst, splitLine str = some (op, args) ∧ findInst op args.length = some inst ∧
      ∀ pc, asmAssemble str pc = ((letters inst.fmt.toList).zip args).foldlM
        (fun opcode p => setOperand pc opcode p.1 p.2) inst.opcode := by
  cases hsplit : splitLine str with
  | none =>
      rw [asmAssemble_split, hsplit] at h
      cases h
  | some p =>
      obtain ⟨op, args⟩ := p
      cases hfind : findInst op args.length with
      | none =>
          rw [asmAssemble_split, hsplit] at h
          dsimp only at h
          rw [assembleOp, hfind] at h
          cases h
      | some inst =>
          refine ⟨op, args, inst, rfl, hfind, fun pc => ?_⟩
          rw [asmAssemble_split, hsplit]
          exact (assembleOp_found hfind).2

theorem chosen_kept_iff {str : Bytes} (h : asmAssemble str pc = .ok w) :
    (∃ inst, chosen str = some inst ∧ w &&& inst.mask = inst.opcode) ↔ ¬SetsFixedBits str := by
  obtain ⟨op, args, inst, hsplit, hfind, hfold⟩ := assembled_found h
  have hchosen : chosen str = some inst := by
    rw [chosen, hsplit]
    exact hfind
  rw [hfold] at h
  rw [← found_kept_iff hsplit hfind h, hchosen]
  simp

end

/-- The word of a line has the opcode of its entry under the mask, unless the line is an `msub` or
`msubu` that names another first register than number 0. -/
theorem opcode_kept_iff (str : Bytes) (pc : Word) {w : Word} (h : asmAssemble str pc = .ok w) :
    (∃ inst, chosen str = some inst ∧ w &&& inst.mask = inst.opcode) ↔ ¬SetsFixedBits str :=
  chosen_kept_iff h

/-- The line `msub $1,$2`. -/
theorem opcode_kept_iff_msub :
    (∃ inst, chosen (text "msub $1,$2") = some inst ∧ (0x0002082E : Word) &&& inst.mask = inst.opcode) ↔
      ¬SetsFixedBits (text "msub $1,$2") :=
  opcode_kept_iff (text "msub $1,$2") 0 (by decide +kernel)

/-- `msub $1,$2` makes a word that is no `msub`. -/
theorem msub_register_kept :
    asmAssemble (text "msub $1,$2") 0 = .ok 0x0002082E ∧
      chosen (text "msub $1,$2") = some msub ∧ (0x0002082E : Word) &&& msub.mask ≠ msub.opcode := by
  decide +kernel

end PsplinkUsb.Pspsh.FixedBits
