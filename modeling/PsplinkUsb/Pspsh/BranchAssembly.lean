import PsplinkUsb.Pspsh.BranchAgreement
import PsplinkUsb.Pspsh.FixedBits

namespace PsplinkUsb.Pspsh.BranchAssembly

open PsplinkUsb.Library.Ascii
open PsplinkUsb.Library.BitFields
open PsplinkUsb.Library.Lines
open PsplinkUsb.Library.Numerals
open PsplinkUsb.Psplink.ProgramMemory
open PsplinkUsb.Psplink.Stepping (jOpcode jalOpcode IsAbsolute major)
open PsplinkUsb.Pspsh.Asm
open PsplinkUsb.Pspsh.AsmFaults (splitLine letters assembleOp_found asmAssemble_split findInst_congr)
open PsplinkUsb.Pspsh.BranchAgreement
open PsplinkUsb.Pspsh.BranchTargets (addrOf branchInst imm)
open PsplinkUsb.Pspsh.FixedBits
open PsplinkUsb.Pspsh.InstructionTable (AddrType gInst gMacro)
open PsplinkUsb.Pspsh.Operands

/-- The kind of address that a branch or jump takes: the disassembler has the entry too, under
the same name. -/
def addressKind (inst : Asm.Instruction) : Option AddrType :=
  ((gMacro ++ gInst).find? fun entry =>
    entry.name = inst.name ∧ entry.opcode = inst.opcode ∧ entry.IsBranch ∧
      entry.addrtype ≠ .reg).map fun entry => entry.addrtype

/-- A branch with an offset gets to 2^15 instructions around the next one, a jump to its own
segment of 256 MB. -/
def Within (kind : AddrType) (pc t : Word) : Prop :=
  match kind with
  | .a16 => -131072 ≤ (t - (pc + 4)).toInt ∧ (t - (pc + 4)).toInt ≤ 131068
  | .a26 => t &&& (0xF0000000 : Word) = pc &&& (0xF0000000 : Word)
  | _ => False

/-- A line with a branch or jump to an address within reach, behind its registers. -/
structure BranchLine (str : Bytes) (pc : Word) where
  op : Bytes
  regs : List Bytes
  num : Bytes
  inst : Asm.Instruction
  kind : AddrType
  target : ℕ
  split : splitLine str = some (op, regs ++ [num])
  found : findInst op (regs.length + 1) = some inst
  address : addressKind inst = some kind
  registers : ∀ reg ∈ regs, (parseGpr reg).isSome = true
  number : strtoul 0 num = some (target, [])
  aligned : target % 4 = 0
  within : Within kind pc (BitVec.ofNat 32 target)

section

variable {str op num : Bytes} {pc opcode w t : Word} {kind : AddrType} {inst : Asm.Instruction}
  {i : ℤ} {n : ℕ}

theorem toNat_and_low (x : Word) (m : Word) {k : ℕ} (hm : m.toNat = 2 ^ k - 1) :
    (x &&& m).toNat = x.toNat % 2 ^ k := by
  rw [BitVec.toNat_and, hm, Nat.and_two_pow_sub_one_eq_mod]

theorem imm_of_low (hlow : w &&& (0xFFFF : Word) = BitVec.ofInt 32 i &&& (0xFFFF : Word))
    (hi : -0x8000 ≤ i ∧ i ≤ 0x7FFF) : imm w = BitVec.ofInt 32 i := by
  have hnat := congrArg BitVec.toNat hlow
  rw [toNat_and_low w 0xFFFF (k := 16) rfl, toNat_and_low _ 0xFFFF (k := 16) rfl] at hnat
  have hword : ((BitVec.ofInt 32 i).toNat : ℤ) = i % 2 ^ 32 := by
    rw [BitVec.toNat_ofInt]
    omega
  apply BitVec.eq_of_toInt_eq
  rw [imm, BitVec.toInt_signExtend_of_le (by decide), BitVec.toInt_setWidth, BitVec.toInt_ofInt,
    Int.bmod_def, Int.bmod_def]
  omega

theorem addrOf_offset (hpc : pc.toNat % 4 = 0) (ht : t.toNat % 4 = 0) (hreach : Within .a16 pc t)
    (hlow : w &&& (0xFFFF : Word) =
      BitVec.ofInt 32 (clampShort ((t - pc - 4).toInt.tdiv 4)) &&& (0xFFFF : Word)) :
    addrOf .a16 w pc = t := by
  have hfrom : t - (pc + 4) = t - pc - 4 := by ring
  rw [Within, hfrom] at hreach
  obtain ⟨hback, hforth⟩ := hreach
  have hmultiple : (t - pc - 4).toInt % 4 = 0 := by
    have hfour : (4 : Word).toNat = 4 := rfl
    rw [BitVec.toInt_eq_toNat_bmod, BitVec.toNat_sub, BitVec.toNat_sub, hfour, Int.bmod_def]
    omega
  have hdiv : (t - pc - 4).toInt.tdiv 4 * 4 = (t - pc - 4).toInt :=
    Int.tdiv_mul_cancel (Int.dvd_of_emod_eq_zero hmultiple)
  have hclamp : clampShort ((t - pc - 4).toInt.tdiv 4) = (t - pc - 4).toInt.tdiv 4 := by
    rw [clampShort]
    omega
  rw [hclamp] at hlow
  have himm := imm_of_low hlow ⟨by omega, by omega⟩
  have hfour : (4 : Word) = BitVec.ofInt 32 4 := rfl
  calc addrOf .a16 w pc = pc + 4 + imm w * 4 := rfl
    _ = pc + 4 + BitVec.ofInt 32 ((t - pc - 4).toInt.tdiv 4 * 4) := by
        rw [himm, BitVec.ofInt_mul]
        rfl
    _ = pc + 4 + (t - pc - 4) := by rw [hdiv, BitVec.ofInt_toInt]
    _ = t := by ring

theorem toNat_region (x : Word) : (x &&& (0xF0000000 : Word)).toNat = x.toNat / 2 ^ 28 * 2 ^ 28 := by
  have hlt := x.isLt
  rw [region_eq, BitVec.toNat_shiftLeft, toNat_and_low _ 0xF (k := 4) rfl, BitVec.toNat_ushiftRight]
  simp only [Nat.shiftLeft_eq, Nat.shiftRight_eq_div_pow]
  omega

theorem toNat_addrOf_jump (hcode : opcode &&& (0x03FFFFFF : Word) = 0) :
    (addrOf .a26 (opcode ||| (t &&& (0x0FFFFFFF : Word)) >>> 2) pc).toNat =
      t.toNat % 2 ^ 28 / 4 * 4 + pc.toNat / 2 ^ 28 * 2 ^ 28 := by
  have hfield : (opcode ||| (t &&& (0x0FFFFFFF : Word)) >>> 2) &&& (0x03FFFFFF : Word) =
      (t &&& (0x0FFFFFFF : Word)) >>> 2 &&& (0x03FFFFFF : Word) := by
    rw [BitVec.and_or_distrib_right, hcode]
    exact BitVec.zero_or
  have hlt := pc.isLt
  rw [addrOf, hfield, BitVec.toNat_add, toNat_region, BitVec.toNat_shiftLeft,
    toNat_and_low _ 0x03FFFFFF (k := 26) rfl, BitVec.toNat_ushiftRight,
    toNat_and_low _ 0x0FFFFFFF (k := 28) rfl]
  simp only [Nat.shiftLeft_eq, Nat.shiftRight_eq_div_pow]
  omega

theorem addrOf_jump_iff (hcode : opcode &&& (0x03FFFFFF : Word) = 0) :
    addrOf .a26 (opcode ||| (t &&& (0x0FFFFFFF : Word)) >>> 2) pc = t ↔
      t.toNat % 4 = 0 ∧ Within .a26 pc t := by
  have hwithin : Within .a26 pc t ↔ t.toNat / 2 ^ 28 * 2 ^ 28 = pc.toNat / 2 ^ 28 * 2 ^ 28 := by
    rw [← toNat_region, ← toNat_region]
    exact BitVec.toNat_eq
  rw [BitVec.toNat_eq, toNat_addrOf_jump hcode, hwithin]
  omega

def bgezal : Asm.Instruction := ⟨"bgezal", 0x04110000, 0xFC1F0000, "%s, %0", 2⟩

/-- An entry for a branch: registers, then an offset in bits that it and the registers leave
alone. -/
structure OffsetEntry (inst : Asm.Instruction) (regs : List Char) : Prop where
  letters : letters inst.fmt.toList = regs ++ ['O']
  registers : ∀ letter ∈ regs, letter ∈ ['d', 's', 't']
  opcode : inst.opcode &&& (0xFFFF : Word) = 0
  apart : fields regs &&& (0xFFFF : Word) = 0
  listed : ∃ entry ∈ branchInst, entry.addrtype = .a16 ∧
    inst.opcode &&& entry.mask = entry.opcode ∧ fields (regs ++ ['O']) &&& entry.mask = 0

instance (regs : List Char) : DecidablePred fun inst => OffsetEntry inst regs := fun inst =>
  decidable_of_iff (AsmFaults.letters inst.fmt.toList = regs ++ ['O'] ∧
      (∀ letter ∈ regs, letter ∈ ['d', 's', 't']) ∧ inst.opcode &&& (0xFFFF : Word) = 0 ∧
      fields regs &&& (0xFFFF : Word) = 0 ∧ ∃ entry ∈ branchInst, entry.addrtype = .a16 ∧
        inst.opcode &&& entry.mask = entry.opcode ∧ fields (regs ++ ['O']) &&& entry.mask = 0)
    ⟨fun h => ⟨h.1, h.2.1, h.2.2.1, h.2.2.2.1, h.2.2.2.2⟩, fun h => ⟨h.1, h.2, h.3, h.4, h.5⟩⟩

/-- The entries with an address in them, of the table of the disassembler. -/
def addressed : List InstructionTable.Instruction :=
  (gMacro ++ gInst).filter fun entry => entry.IsBranch ∧ entry.addrtype ≠ .reg

theorem addressKind_eq (inst : Asm.Instruction) : addressKind inst =
    (addressed.find? fun entry => entry.opcode = inst.opcode ∧ entry.name = inst.name).map
      fun entry => entry.addrtype := by
  have hsame : ∀ entry : InstructionTable.Instruction,
      (entry.name = inst.name ∧ entry.opcode = inst.opcode ∧ entry.IsBranch ∧
          entry.addrtype ≠ .reg) =
        (decide (entry.IsBranch ∧ entry.addrtype ≠ .reg) = true ∧
          decide (entry.opcode = inst.opcode ∧ entry.name = inst.name) = true) := by
    intro entry
    rw [decide_eq_true_eq, decide_eq_true_eq]
    apply propext
    tauto
  simp only [addressKind, addressed, List.find?_filter, hsame]

/-- The branches but one have an offset behind their registers, and the jumps an address; of the
others, `ll` has an offset. -/
theorem address_table (h : inst ∈ asmMacro ++ asmInst) :
    addressKind inst = none ∧ ('O' ∉ letters inst.fmt.toList ∨
        letters inst.fmt.toList = ['t', 'O'] ∧ inst.opcode &&& (0xFFFF : Word) = 0) ∨
      inst = bgezal ∨
      addressKind inst = some .a16 ∧ (∃ regs, OffsetEntry inst regs ∧ regs ≠ ['t']) ∨
      addressKind inst = some .a26 ∧ letters inst.fmt.toList = ['j'] ∧
        (inst.opcode = 0x08000000 ∨ inst.opcode = 0x0C000000) := by
  have hall := @AsmFaults.of_tableLetters (fun inst fmt =>
    addressKind inst = none ∧ ('O' ∉ fmt ∨ fmt = ['t', 'O'] ∧ inst.opcode &&& (0xFFFF : Word) = 0) ∨
      inst = bgezal ∨
      addressKind inst = some .a16 ∧ (fmt = fmt.dropLast ++ ['O'] ∧
        (∀ letter ∈ fmt.dropLast, letter ∈ ['d', 's', 't']) ∧
        inst.opcode &&& (0xFFFF : Word) = 0 ∧ fields fmt.dropLast &&& (0xFFFF : Word) = 0 ∧
        ∃ entry ∈ branchInst, entry.addrtype = .a16 ∧ inst.opcode &&& entry.mask = entry.opcode ∧
          fields (fmt.dropLast ++ ['O']) &&& entry.mask = 0) ∧ fmt.dropLast ≠ ['t'] ∨
      addressKind inst = some .a26 ∧ fmt = ['j'] ∧
        (inst.opcode = 0x08000000 ∨ inst.opcode = 0x0C000000))
  simp only [addressKind_eq] at hall ⊢
  rcases hall (by decide +kernel) h with
    hnone | hbgezal | ⟨hkind, ⟨hletters, hregs, hopcode, hapart, hlisted⟩, hne⟩ | hjump
  · exact .inl hnone
  · exact .inr (.inl hbgezal)
  · exact .inr (.inr (.inl ⟨hkind, _, ⟨hletters, hregs, hopcode, hapart, hlisted⟩, hne⟩))
  · exact .inr (.inr (.inr hjump))

theorem registers_set {ps : List (Char × Bytes)} (hletters : ∀ p ∈ ps, p.1 ∈ ['d', 's', 't'])
    (hregs : ∀ p ∈ ps, (parseGpr p.2).isSome = true) (pc opcode : Word) :
    ∃ w, ps.foldlM (fun opcode p => setOperand pc opcode p.1 p.2) opcode = .ok w := by
  induction ps generalizing opcode with
  | nil => exact ⟨opcode, rfl⟩
  | cons p ps ih =>
      obtain ⟨letter, reg⟩ := p
      obtain ⟨regval, hreg⟩ := Option.isSome_iff_exists.mp (hregs _ List.mem_cons_self)
      have hfirst : ∃ w, setOperand pc opcode letter reg = .ok w := by
        have hletter := hletters _ List.mem_cons_self
        simp only [List.mem_cons, List.not_mem_nil, or_false] at hletter
        rcases hletter with rfl | rfl | rfl
        · exact ⟨opcode ||| BitVec.ofNat 32 regval <<< 11, by
            rw [setOperand, setGpr, hreg]; rfl⟩
        · exact ⟨opcode ||| BitVec.ofNat 32 regval <<< 21, by
            rw [setOperand, setGpr, hreg]; rfl⟩
        · exact ⟨opcode ||| BitVec.ofNat 32 regval <<< 16, by
            rw [setOperand, setGpr, hreg]; rfl⟩
      obtain ⟨w, hw⟩ := hfirst
      obtain ⟨w', hw'⟩ := ih (fun p hp => hletters p (List.mem_cons_of_mem _ hp))
        (fun p hp => hregs p (List.mem_cons_of_mem _ hp)) w
      refine ⟨w', ?_⟩
      rw [List.foldlM_cons, hw]
      exact hw'

theorem branch_relative {regs : List Char} {args : List Bytes} (hentry : OffsetEntry inst regs)
    (hlength : (letters inst.fmt.toList).length = args.length)
    (h : ((letters inst.fmt.toList).zip args).foldlM
      (fun opcode p => setOperand pc opcode p.1 p.2) inst.opcode = .ok w) : DisasmRelative w := by
  obtain ⟨entry, hmem, htype, hopcode, hapart⟩ := hentry.listed
  refine ⟨entry, hmem, htype, ?_⟩
  rw [hentry.letters] at hlength h
  rw [InstructionTable.Instruction.Matches, operands_kept hlength hapart h, hopcode]

/-- Registers, then the offset: the word of a branch matches its entry and leads to the address. -/
theorem offset_reaches {regs : List Char} {args : List Bytes} (hentry : OffsetEntry inst regs)
    (hlength : regs.length = args.length) (hargs : ∀ arg ∈ args, (parseGpr arg).isSome = true)
    (hnum : strtoul 0 num = some (n, [])) (haligned : n % 4 = 0) (hpc : pc.toNat % 4 = 0)
    (hreach : Within .a16 pc (BitVec.ofNat 32 n)) :
    ∃ w, ((letters inst.fmt.toList).zip (args ++ [num])).foldlM
        (fun opcode p => setOperand pc opcode p.1 p.2) inst.opcode = .ok w ∧
      DisasmBranches w pc (BitVec.ofNat 32 n) := by
  have hletters : ∀ p ∈ regs.zip args, p.1 ∈ ['d', 's', 't'] :=
    fun p hp => hentry.registers p.1 (List.of_mem_zip hp).1
  have hregs : ∀ p ∈ regs.zip args, (parseGpr p.2).isSome = true :=
    fun p hp => hargs p.2 (List.of_mem_zip hp).2
  obtain ⟨front, hfront⟩ := registers_set hletters hregs pc inst.opcode
  have hfold : ((letters inst.fmt.toList).zip (args ++ [num])).foldlM
      (fun opcode p => setOperand pc opcode p.1 p.2) inst.opcode = setPcofs pc front num := by
    rw [hentry.letters, List.zip_append hlength, List.foldlM_append, hfront]
    exact bind_pure (setPcofs pc front num)
  have hlow : front &&& (0xFFFF : Word) = 0 := by
    rw [operands_kept hlength hentry.apart hfront, hentry.opcode]
  have hlength' : (letters inst.fmt.toList).length = (args ++ [num]).length := by
    rw [hentry.letters, List.length_append, List.length_append, hlength]
    rfl
  have hset := hfold.trans (setPcofs_eq hnum)
  rw [hset]
  refine ⟨_, rfl, (disasmBranches_iff hpc).mpr (.inl ⟨branch_relative hentry hlength' hset, ?_⟩)⟩
  have htarget : (BitVec.ofNat 32 n).toNat % 4 = 0 := by
    rw [BitVec.toNat_ofNat]
    omega
  apply addrOf_offset hpc htarget hreach
  rw [BitVec.and_or_distrib_right, hlow, BitVec.and_assoc, BitVec.and_self]
  exact BitVec.zero_or

theorem jump_absolute (hopcode : inst.opcode = 0x08000000 ∨ inst.opcode = 0x0C000000) (t : Word) :
    IsAbsolute (inst.opcode ||| (t &&& (0x0FFFFFFF : Word)) >>> 2) := by
  have hhigh : ((t &&& (0x0FFFFFFF : Word)) >>> 2) >>> 26 = 0 := by
    rw [BitVec.ushiftRight_and_distrib, BitVec.ushiftRight_and_distrib]
    exact BitVec.and_zero
  have hmajor : major (inst.opcode ||| (t &&& (0x0FFFFFFF : Word)) >>> 2) = major inst.opcode := by
    rw [major, BitVec.ushiftRight_or_distrib, hhigh]
    exact BitVec.or_zero
  rw [IsAbsolute, hmajor]
  rcases hopcode with hopcode | hopcode
  · rw [hopcode]
    exact .inr rfl
  · rw [hopcode]
    exact .inl rfl

theorem jump_low (hopcode : inst.opcode = 0x08000000 ∨ inst.opcode = 0x0C000000) :
    inst.opcode &&& (0x03FFFFFF : Word) = 0 := by
  rcases hopcode with hopcode | hopcode
  · rw [hopcode]
    rfl
  · rw [hopcode]
    rfl

/-- It goes to the address. -/
theorem jump_reaches (hopcode : inst.opcode = 0x08000000 ∨ inst.opcode = 0x0C000000)
    (hnum : strtoul 0 num = some (n, [])) (haligned : n % 4 = 0) (hpc : pc.toNat % 4 = 0)
    (hreach : Within .a26 pc (BitVec.ofNat 32 n)) :
    ∃ w, setJump inst.opcode num = .ok w ∧ DisasmBranches w pc (BitVec.ofNat 32 n) := by
  have htarget : (BitVec.ofNat 32 n).toNat % 4 = 0 := by
    rw [BitVec.toNat_ofNat]
    omega
  rw [setJump_eq hnum]
  refine ⟨_, rfl, (disasmBranches_iff hpc).mpr (.inr ⟨jump_absolute hopcode _, ?_⟩)⟩
  exact (addrOf_jump_iff (jump_low hopcode)).mpr ⟨htarget, hreach⟩

theorem number_head {c : UInt8} {s : Bytes} (h : strtoul 0 (c :: s) = some (n, [])) :
    isSpace c = true ∨ c = minus ∨ c = plus ∨ isDigit c = true := by
  by_contra hnone
  simp only [not_or, Bool.not_eq_true] at hnone
  obtain ⟨hspace, hminus, hplus, hdigit⟩ := hnone
  have hbasedigit : c ≠ zero ∧ isBaseDigit 10 c = false := by
    have hall : ∀ c : Fin 256, isDigit (UInt8.ofFin c) = false →
        UInt8.ofFin c ≠ zero ∧ isBaseDigit 10 (UInt8.ofFin c) = false := by
      decide +kernel
    exact hall c.toFin hdigit
  have hsign : readSign ((c :: s).dropWhile isSpace) = (false, c :: s) := by
    rw [List.dropWhile_cons_of_neg (by simp [hspace]), readSign, if_neg hminus, if_neg hplus]
  have hbase : readBase 0 (c :: s) = (10, c :: s) := by
    unfold readBase
    split
    · rename_i z x d rest heq
      cases heq
      rw [if_neg fun hhex => hbasedigit.1 hhex.2.1, if_pos rfl, if_neg hbasedigit.1]
    · rename_i heq
      cases heq
      rw [if_pos rfl, if_neg hbasedigit.1]
    · rename_i heq
      cases heq
  rw [strtoul, readInt, hsign] at h
  dsimp only at h
  rw [hbase] at h
  dsimp only at h
  rw [hbasedigit.2] at h
  cases h

theorem cop0Number_number (h : strtoul 0 num = some (n, [])) : cop0Number num = none := by
  cases num with
  | nil => cases h
  | cons c s =>
      have hhead := number_head h
      have hplain : c ≠ dollar ∧ toLower c = c ∧ isLower c = false := by
        have hall : ∀ c : Fin 256, isSpace (UInt8.ofFin c) = true ∨ UInt8.ofFin c = minus ∨
            UInt8.ofFin c = plus ∨ isDigit (UInt8.ofFin c) = true →
              UInt8.ofFin c ≠ dollar ∧ toLower (UInt8.ofFin c) = UInt8.ofFin c ∧
                isLower (UInt8.ofFin c) = false := by
          decide +kernel
        exact hall c.toFin hhead
      rw [cop0Number, if_neg hplain.1]
      apply List.findIdx?_eq_none_iff.mpr
      intro name hname
      have hletter : (cop0Regs.all fun name => name.all fun name =>
          ((text name).map toLower).head?.any isLower) = true := by
        decide +kernel
      cases name with
      | none => rfl
      | some name =>
          have hlower : ((text name).map toLower).head?.any isLower = true :=
            List.all_eq_true.mp hletter _ hname
          have hdiffer : ¬SameLetters (text name) (c :: s) := by
            intro hsame
            rw [hsame, List.map_cons, hplain.2.1, List.head?_cons, Option.any_some,
              hplain.2.2] at hlower
            cases hlower
          exact decide_eq_false hdiffer

theorem bgezal_of_name (h : inst ∈ asmMacro ++ asmInst)
    (hname : SameLetters (text inst.name) (text "bgezal")) : inst = bgezal := by
  have hall : ((asmMacro ++ asmInst).all fun inst =>
      SameLetters (text inst.name) (text "bgezal") → inst = bgezal) = true := by
    decide +kernel
  exact of_decide_eq_true (List.all_eq_true.mp hall inst h) hname

theorem bgezal_letters : letters bgezal.fmt.toList = ['s', '0'] := by
  refine @AsmFaults.of_tableLetters (fun inst fmt => inst = bgezal → fmt = ['s', '0']) ?_ bgezal ?_ rfl
  · decide +kernel
  · decide +kernel

/-- The format of `bgezal` asks for a register of coprocessor 0 where the address stands. -/
theorem bgezal_rejected {regs : List Bytes}
    (hcount : (regs ++ [num]).length = (letters bgezal.fmt.toList).length)
    (hnum : strtoul 0 num = some (n, [])) (w : Word) :
    ((letters bgezal.fmt.toList).zip (regs ++ [num])).foldlM
      (fun opcode p => setOperand pc opcode p.1 p.2) bgezal.opcode ≠ .ok w := by
  rw [bgezal_letters, List.length_append] at hcount
  obtain ⟨reg, rfl⟩ := List.length_eq_one_iff.mp (Nat.add_right_cancel hcount)
  rw [bgezal_letters]
  intro h
  have hboth : (setGpr bgezal.opcode reg 's' >>= fun opcode => setCop0 opcode num >>= pure) =
      .ok w := h
  have hcop0 : ∀ opcode, setCop0 opcode num = .error .rejected := by
    intro opcode
    rw [setCop0, cop0Number_number hnum]
    rfl
  simp only [hcop0] at hboth
  cases hreg : setGpr bgezal.opcode reg 's' with
  | error e =>
      rw [hreg] at hboth
      cases hboth
  | ok opcode =>
      rw [hreg] at hboth
      cases hboth

end

/-- At every aligned address: the line of a branch or jump makes a word that goes to the address
it gives, unless it is a `bgezal`. -/
theorem branch_reaches_iff (str : Bytes) (pc : Word) (hpc : pc.toNat % 4 = 0)
    (l : BranchLine str pc) :
    (∃ w, asmAssemble str pc = .ok w ∧ DisasmBranches w pc (BitVec.ofNat 32 l.target)) ↔
      ¬SameLetters (text "bgezal") l.op := by
  have hlength : (l.regs ++ [l.num]).length = l.regs.length + 1 := List.length_append
  have hfound : findInst l.op (l.regs ++ [l.num]).length = some l.inst := by
    rw [hlength]
    exact l.found
  obtain ⟨hcount, hfold⟩ := @assembleOp_found l.op (l.regs ++ [l.num]) pc l.inst hfound
  obtain ⟨hmem, hname⟩ := AssembledLine.mem_of_findInst hfound
  have hline : asmAssemble str pc = ((letters l.inst.fmt.toList).zip (l.regs ++ [l.num])).foldlM
      (fun opcode p => setOperand pc opcode p.1 p.2) l.inst.opcode := by
    rw [asmAssemble_split, l.split]
    exact hfold
  rw [hline]
  have hentry := address_table hmem
  rw [l.address] at hentry
  by_cases hbgezal : SameLetters (text "bgezal") l.op
  · refine iff_of_false ?_ (not_not.mpr hbgezal)
    rintro ⟨w, hw, -⟩
    rw [bgezal_of_name hmem (hname.trans hbgezal.symm)] at hcount hw
    exact bgezal_rejected hcount.symm l.number w hw
  · refine iff_of_true ?_ hbgezal
    rcases hentry with ⟨hnone, -⟩ | hinst | ⟨htype, front, hoffset, -⟩ | ⟨htype, hletters, hopcode⟩
    · cases hnone
    · rw [hinst] at hname
      exact absurd hname hbgezal
    · have hkind := Option.some.inj htype
      have hregs : front.length = l.regs.length := by
        rw [hoffset.letters, List.length_append, List.length_append] at hcount
        exact Nat.add_right_cancel hcount
      exact offset_reaches hoffset hregs l.registers l.number l.aligned hpc (hkind ▸ l.within)
    · have hkind := Option.some.inj htype
      have hregs : l.regs = [] := by
        rw [hletters, List.length_append] at hcount
        exact List.length_eq_zero_iff.mp (Nat.add_right_cancel hcount.symm)
      obtain ⟨w, hjump, htarget⟩ := jump_reaches hopcode l.number l.aligned hpc (hkind ▸ l.within)
      refine ⟨w, ?_, htarget⟩
      rw [hletters, hregs]
      exact (bind_pure (setJump l.inst.opcode l.num)).trans hjump

/-- The line `bnez $4, 0x8900010` at 0x8900000. -/
def bnezLine : BranchLine (text "bnez $4, 0x8900010") 0x8900000 where
  op := text "bnez"
  regs := [text "$4"]
  num := text "0x8900010"
  inst := ⟨"bnez", 0x14000000, 0xFC1F0000, "%s, %O", 2⟩
  kind := .a16
  target := 0x8900010
  split := by decide +kernel
  found := by decide +kernel
  address := by decide +kernel
  registers := by decide +kernel
  number := by decide +kernel
  aligned := by decide
  within := ⟨by decide +kernel, by decide +kernel⟩

theorem branch_reaches_iff_bnez :
    (∃ w, asmAssemble (text "bnez $4, 0x8900010") 0x8900000 = .ok w ∧
        DisasmBranches w 0x8900000 0x8900010) ↔ ¬SameLetters (text "bgezal") (text "bnez") :=
  branch_reaches_iff (text "bnez $4, 0x8900010") 0x8900000 (by decide) bnezLine

/-- The line `bgezal $4, 0x8900010` at 0x8900000. -/
def bgezalLine : BranchLine (text "bgezal $4, 0x8900010") 0x8900000 where
  op := text "bgezal"
  regs := [text "$4"]
  num := text "0x8900010"
  inst := bgezal
  kind := .a16
  target := 0x8900010
  split := by decide +kernel
  found := by decide +kernel
  address := by decide +kernel
  registers := by decide +kernel
  number := by decide +kernel
  aligned := by decide
  within := ⟨by decide +kernel, by decide +kernel⟩

theorem bgezal_no_word :
    asmAssemble (text "bgezal $4, 0x8900010") 0x8900000 = .error .rejected ∧
      bgezalLine.op = text "bgezal" ∧ bgezalLine.target = 0x8900010 := by
  decide +kernel

end PsplinkUsb.Pspsh.BranchAssembly
