import PsplinkUsb.Pspsh.BranchAssembly

namespace PsplinkUsb.Pspsh.PlacedLines

open PsplinkUsb.Library.Ascii
open PsplinkUsb.Library.Numerals
open PsplinkUsb.Psplink.ProgramMemory
open PsplinkUsb.Psplink.Stepping (IsAbsolute)
open PsplinkUsb.Pspsh.Asm
open PsplinkUsb.Pspsh.AsmFaults (splitLine letters assembleOp_found)
open PsplinkUsb.Pspsh.BranchAgreement
open PsplinkUsb.Pspsh.BranchAssembly
open PsplinkUsb.Pspsh.BranchTargets (addrOf branchInst imm)
open PsplinkUsb.Pspsh.FixedBits
open PsplinkUsb.Pspsh.Operands

/-- The entry of a line, and the number that its last operand is. -/
def address (str : Bytes) : Option (Asm.Instruction × Word) := do
  let (op, args) ← splitLine str
  let inst ← findInst op args.length
  let arg ← args.getLast?
  let (n, rest) ← strtoul 0 arg
  if rest = [] then some (inst, BitVec.ofNat 32 n) else none

/-- The word is the instruction of the line when it is executed at `p`. -/
structure InstructionAt (str : Bytes) (p w : Word) : Prop where
  assembled : asmAssemble str p = .ok w
  named : ∃ inst, chosen str = some inst ∧ w &&& inst.mask = inst.opcode
  goes : ∀ inst t, address str = some (inst, t) → (addressKind inst).isSome = true →
    DisasmBranches w p t

/-- The offset that a branch at 0 to `t` has leads from `p` to `t`: `p` is 0, or `t` is as far
away as an offset leads, and farther from 0. -/
def Reaches (p t : Word) : Prop :=
  t.toNat % 4 = 0 ∧
    (p = 0 ∧ Within .a16 0 t ∨ 0 < p.toNat ∧ p.toNat < 0x7FFE0004 ∧ t = p + 0x20000 ∨
      0x80020000 ≤ p.toNat ∧ t = p - 0x1FFFC)

/-- From `p` and from 0 it is too far to `t` in the same direction, or the same number of
instructions. -/
def SameOffset (p t : Word) : Prop :=
  131068 ≤ (t - 4).toInt ∧ 131068 ≤ (t - p - 4).toInt ∨
    (t - 4).toInt ≤ -131072 ∧ (t - p - 4).toInt ≤ -131072 ∨
    (t - 4).toInt.tdiv 4 = (t - p - 4).toInt.tdiv 4

/-- What makes the word of a line at 0 its word at `p`. -/
structure Fits (str : Bytes) (p : Word) : Prop where
  register : ¬SetsFixedBits str
  branch : ∀ inst t, address str = some (inst, t) → addressKind inst = some .a16 → Reaches p t
  jump : ∀ inst t, address str = some (inst, t) → addressKind inst = some .a26 →
    t.toNat % 4 = 0 ∧ Within .a26 p t
  linked : ∀ inst t, address str = some (inst, t) → letters inst.fmt.toList = ['t', 'O'] →
    SameOffset p t

/-- The offset that `set_pcofs` puts in the word. -/
def pcofs (p t : Word) : ℤ := clampShort ((t - p - 4).toInt.tdiv 4)

section

variable {str op num : Bytes} {args : List Bytes} {p t w opcode front : Word} {i j : ℤ} {n : ℕ}
  {inst : Asm.Instruction}

theorem pcofs_bounds (p t : Word) : -0x8000 ≤ pcofs p t ∧ pcofs p t ≤ 0x7FFF := by
  rw [pcofs, clampShort]
  omega

theorem ofInt_injective (hi : -0x8000 ≤ i ∧ i ≤ 0x7FFF) (hj : -0x8000 ≤ j ∧ j ≤ 0x7FFF) :
    BitVec.ofInt 32 i = BitVec.ofInt 32 j ↔ i = j := by
  constructor
  · intro h
    have hint := congrArg BitVec.toInt h
    rw [BitVec.toInt_ofInt, BitVec.toInt_ofInt, Int.bmod_def, Int.bmod_def] at hint
    omega
  · exact congrArg _

theorem imm_offset (hfront : front &&& (0xFFFF : Word) = 0) (hi : -0x8000 ≤ i ∧ i ≤ 0x7FFF) :
    imm (front ||| BitVec.ofInt 32 i &&& (0xFFFF : Word)) = BitVec.ofInt 32 i := by
  apply imm_of_low _ hi
  rw [BitVec.and_or_distrib_right, hfront, BitVec.and_assoc, BitVec.and_self]
  exact BitVec.zero_or

theorem offset_eq_iff (hfront : front &&& (0xFFFF : Word) = 0) (p q t : Word) :
    front ||| BitVec.ofInt 32 (pcofs p t) &&& (0xFFFF : Word) =
        front ||| BitVec.ofInt 32 (pcofs q t) &&& (0xFFFF : Word) ↔ pcofs p t = pcofs q t := by
  constructor
  · intro h
    have himm := congrArg imm h
    rw [imm_offset hfront (pcofs_bounds p t), imm_offset hfront (pcofs_bounds q t)] at himm
    exact (ofInt_injective (pcofs_bounds p t) (pcofs_bounds q t)).mp himm
  · intro h
    rw [h]

theorem sub_zero_sub (t : Word) : t - 0 - 4 = t - 4 := congrArg (· - 4) (sub_zero t)

theorem pcofs_eq_iff (p t : Word) : pcofs p t = pcofs 0 t ↔ SameOffset p t := by
  have hsign : Int.sign 4 = 1 := rfl
  have hforth : ∀ x : ℤ, 131068 ≤ x ↔ 0x7FFF ≤ x.tdiv 4 := by
    intro x
    rw [Int.tdiv_eq_ediv, hsign]
    split_ifs with h
    · omega
    · omega
  have hback : ∀ x : ℤ, x ≤ -131072 ↔ x.tdiv 4 ≤ -0x8000 := by
    intro x
    rw [Int.tdiv_eq_ediv, hsign]
    split_ifs with h
    · omega
    · omega
  rw [SameOffset, hforth, hforth, hback, hback, pcofs, pcofs, sub_zero_sub, clampShort, clampShort]
  omega

theorem reaches_arith {P T : ℕ} {x k : ℤ} (hP : P < 2 ^ 32) (hT : T < 2 ^ 32) (hP4 : P % 4 = 0)
    (hT4 : T % 4 = 0)
    (hx : x = T - 4 ∧ T < 0x80000004 ∨ x = T - 4 - 2 ^ 32 ∧ 0x80000004 ≤ T)
    (hk : x ≤ -131072 ∧ k = -0x8000 ∨ 131068 ≤ x ∧ k = 0x7FFF ∨
      -131072 ≤ x ∧ x ≤ 131068 ∧ k * 4 = x) :
    (P + 4 + k * 4 - T : ℤ) % 2 ^ 32 = 0 ↔
      P = 0 ∧ -131072 ≤ x ∧ x ≤ 131068 ∨
        0 < P ∧ P < 0x7FFE0004 ∧ T = (P + 0x20000) % 2 ^ 32 ∨
        0x80020000 ≤ P ∧ T = (2 ^ 32 - 0x1FFFC + P) % 2 ^ 32 := by
  rcases hk with ⟨hback, rfl⟩ | ⟨hforth, rfl⟩ | ⟨hback, hforth, hk⟩
  · rcases hx with ⟨hx, hT'⟩ | ⟨hx, hT'⟩
    · omega
    · omega
  · rcases hx with ⟨hx, hT'⟩ | ⟨hx, hT'⟩
    · omega
    · omega
  · rw [hk]
    rcases hx with ⟨hx, hT'⟩ | ⟨hx, hT'⟩
    · omega
    · omega

theorem toInt_sub_four (t : Word) :
    (t - 4).toInt = t.toNat - 4 ∧ t.toNat < 0x80000004 ∨
      (t - 4).toInt = t.toNat - 4 - 2 ^ 32 ∧ 0x80000004 ≤ t.toNat := by
  have hlt := t.isLt
  have hfour : (4 : Word).toNat = 4 := rfl
  rw [BitVec.toInt_eq_toNat_bmod, BitVec.toNat_sub, hfour, Int.bmod_def]
  omega

theorem addrOf_zero_iff (hp : p.toNat % 4 = 0) (himm : imm w = BitVec.ofInt 32 (pcofs 0 t)) :
    addrOf .a16 w p = t ↔ Reaches p t := by
  have hsum : addrOf .a16 w p = p + 4 + BitVec.ofInt 32 (pcofs 0 t) * 4 := by rw [← himm]; rfl
  have htarget : addrOf .a16 w p = t ↔ (p.toNat + 4 + pcofs 0 t * 4 - t.toNat : ℤ) % 2 ^ 32 = 0 := by
    have hword : (BitVec.ofInt 32 (pcofs 0 t)).toNat = ((pcofs 0 t) % 2 ^ 32).toNat :=
      BitVec.toNat_ofInt _
    have hfour : (4 : Word).toNat = 4 := rfl
    have hlt := t.isLt
    rw [hsum, BitVec.toNat_eq, BitVec.toNat_add, BitVec.toNat_add, BitVec.toNat_mul, hword, hfour]
    omega
  have hreaches : Reaches p t ↔ t.toNat % 4 = 0 ∧
      (p.toNat = 0 ∧ -131072 ≤ (t - 4).toInt ∧ (t - 4).toInt ≤ 131068 ∨
        0 < p.toNat ∧ p.toNat < 0x7FFE0004 ∧ t.toNat = (p.toNat + 0x20000) % 2 ^ 32 ∨
        0x80020000 ≤ p.toNat ∧ t.toNat = (2 ^ 32 - 0x1FFFC + p.toNat) % 2 ^ 32) := by
    have hzero : p = 0 ↔ p.toNat = 0 := BitVec.toNat_eq
    have htwo : (0x20000 : Word).toNat = 0x20000 := rfl
    have hforth : t = p + 0x20000 ↔ t.toNat = (p.toNat + 0x20000) % 2 ^ 32 := by
      rw [BitVec.toNat_eq, BitVec.toNat_add, htwo]
    have hback : t = p - 0x1FFFC ↔ t.toNat = (2 ^ 32 - 0x1FFFC + p.toNat) % 2 ^ 32 :=
      BitVec.toNat_eq
    rw [Reaches, hzero, hforth, hback]
    exact Iff.rfl
  rw [htarget, hreaches]
  by_cases haligned : t.toNat % 4 = 0
  · have hmultiple : (4 : ℤ) ∣ (t - 4).toInt := by
      have hsub := toInt_sub_four t
      omega
    rw [reaches_arith p.isLt t.isLt hp haligned (toInt_sub_four t), and_iff_right haligned]
    rw [pcofs, sub_zero_sub, clampShort, Int.tdiv_eq_ediv_of_dvd hmultiple]
    omega
  · refine iff_of_false ?_ fun h => haligned h.1
    omega

theorem setOperand_congr {letter : Char} (hletter : letter ≠ 'O') (p q opcode : Word) (arg : Bytes) :
    setOperand p opcode letter arg = setOperand q opcode letter arg := by
  unfold setOperand
  split
  case h_7 => exact absurd rfl hletter
  all_goals rfl

theorem operands_congr {ps : List (Char × Bytes)} (h : ∀ x ∈ ps, x.1 ≠ 'O') (p q opcode : Word) :
    ps.foldlM (fun opcode x => setOperand p opcode x.1 x.2) opcode =
      ps.foldlM (fun opcode x => setOperand q opcode x.1 x.2) opcode := by
  induction ps generalizing opcode with
  | nil => rw [List.foldlM_nil, List.foldlM_nil]
  | cons x ps ih =>
      have hrest := funext (ih fun y hy => h y (List.mem_cons_of_mem _ hy))
      rw [List.foldlM_cons, List.foldlM_cons, hrest,
        setOperand_congr (h x List.mem_cons_self) p q opcode x.2]

theorem address_of (hsplit : splitLine str = some (op, args)) (hfind : findInst op args.length = some inst)
    (hlast : args.getLast? = some num) (hnum : strtoul 0 num = some (n, [])) :
    address str = some (inst, BitVec.ofNat 32 n) := by
  simp [address, hsplit, hfind, hlast, hnum]

theorem address_spec {inst' : Asm.Instruction} (hsplit : splitLine str = some (op, args))
    (hfind : findInst op args.length = some inst) (h : address str = some (inst', t)) :
    inst' = inst ∧ ∃ num n, args.getLast? = some num ∧ strtoul 0 num = some (n, []) ∧
      t = BitVec.ofNat 32 n := by
  rw [address, hsplit] at h
  obtain ⟨-, ⟨⟩, h⟩ := Option.bind_eq_some_iff.mp h
  obtain ⟨inst'', hinst, h⟩ := Option.bind_eq_some_iff.mp h
  obtain ⟨num, hlast, h⟩ := Option.bind_eq_some_iff.mp h
  obtain ⟨⟨n, rest⟩, hnum, h⟩ := Option.bind_eq_some_iff.mp h
  dsimp only at h hinst
  split at h
  · rename_i hrest
    cases hfind.symm.trans hinst
    cases h
    exact ⟨rfl, num, n, hlast, hrest ▸ hnum, rfl⟩
  · cases h

theorem forall_address {P : Word → Prop} (haddr : address str = some (inst, t)) :
    (∀ t, address str = some (inst, t) → P t) ↔ P t := by
  constructor
  · exact fun h => h t haddr
  · intro ht t' haddr'
    cases haddr.symm.trans haddr'
    exact ht

theorem offset_line {front : List Char} (hletters : letters inst.fmt.toList = front ++ ['O'])
    (hno : 'O' ∉ front) (hlength : (letters inst.fmt.toList).length = args.length)
    (hopcode : inst.opcode &&& (0xFFFF : Word) = 0) (hapart : fields front &&& (0xFFFF : Word) = 0)
    (h : ((letters inst.fmt.toList).zip args).foldlM
      (fun opcode x => setOperand 0 opcode x.1 x.2) inst.opcode = .ok w) :
    ∃ num n v, args.getLast? = some num ∧ strtoul 0 num = some (n, []) ∧ v &&& (0xFFFF : Word) = 0 ∧
      ∀ p, ((letters inst.fmt.toList).zip args).foldlM
        (fun opcode x => setOperand p opcode x.1 x.2) inst.opcode =
          .ok (v ||| BitVec.ofInt 32 (pcofs p (BitVec.ofNat 32 n)) &&& (0xFFFF : Word)) := by
  rw [hletters, List.length_append] at hlength
  have hargs : args ≠ [] := by
    rintro rfl
    cases hlength
  obtain ⟨args, num, rfl⟩ : ∃ before num, args = before ++ [num] :=
    ⟨_, _, (List.dropLast_append_getLast hargs).symm⟩
  have hfront : front.length = args.length := by
    rw [List.length_append] at hlength
    exact Nat.add_right_cancel hlength
  have hfold : ∀ p, ((letters inst.fmt.toList).zip (args ++ [num])).foldlM
      (fun opcode x => setOperand p opcode x.1 x.2) inst.opcode =
        (front.zip args).foldlM (fun opcode x => setOperand 0 opcode x.1 x.2) inst.opcode >>=
          fun opcode => setPcofs p opcode num := by
    intro p
    have hsame : ∀ x ∈ front.zip args, x.1 ≠ 'O' := by
      rintro x hx heq
      exact hno (heq ▸ (List.of_mem_zip hx).1)
    rw [hletters, List.zip_append hfront, List.foldlM_append, operands_congr hsame p 0]
    congr 1
    funext opcode
    exact bind_pure (setPcofs p opcode num)
  rw [hfold] at h
  cases hbefore : (front.zip args).foldlM (fun opcode x => setOperand 0 opcode x.1 x.2)
      inst.opcode with
  | error e =>
      rw [hbefore] at h
      cases h
  | ok v =>
      rw [hbefore] at h
      have hlow : v &&& (0xFFFF : Word) = 0 := by
        rw [operands_kept hfront hapart hbefore, hopcode]
      have hset : setPcofs 0 v num = .ok w := h
      rw [setPcofs] at hset
      split at hset
      · rename_i n hnum
        refine ⟨num, n, v, List.getLast?_concat, hnum, hlow, fun p => ?_⟩
        rw [hfold, hbefore]
        exact setPcofs_eq hnum
      · cases hset

theorem offset_goes_iff {front : List Char} (hentry : OffsetEntry inst front)
    (hlength : (letters inst.fmt.toList).length = args.length)
    (hfold : ((letters inst.fmt.toList).zip args).foldlM
      (fun opcode x => setOperand 0 opcode x.1 x.2) inst.opcode = .ok w)
    (himm : imm w = BitVec.ofInt 32 (pcofs 0 t)) (hp : p.toNat % 4 = 0) :
    DisasmBranches w p t ↔ Reaches p t := by
  have hrelative := branch_relative hentry hlength hfold
  have hno : ¬IsAbsolute w := fun h => not_disasmRelative h hrelative
  rw [disasmBranches_iff hp, ← addrOf_zero_iff hp himm]
  simp [hrelative, hno]

theorem jump_goes_iff (hopcode : inst.opcode = 0x08000000 ∨ inst.opcode = 0x0C000000)
    (hp : p.toNat % 4 = 0) :
    DisasmBranches (inst.opcode ||| (t &&& (0x0FFFFFFF : Word)) >>> 2) p t ↔
      t.toNat % 4 = 0 ∧ Within .a26 p t := by
  have habsolute := jump_absolute hopcode t
  have hno := not_disasmRelative habsolute
  rw [disasmBranches_iff hp, addrOf_jump_iff (jump_low hopcode)]
  exact ⟨fun h => (h.resolve_left fun h => hno h.1).2, fun h => .inr ⟨habsolute, h⟩⟩

theorem pcofs_of_reaches (h : Reaches p t) : pcofs p t = pcofs 0 t := by
  rw [pcofs_eq_iff]
  obtain ⟨-, ⟨rfl, -⟩ | ⟨hpos, hlt, rfl⟩ | ⟨hle, rfl⟩⟩ := h
  · exact .inr (.inr (by rw [sub_zero_sub]))
  · have hfrom : p + 0x20000 - p - 4 = 0x1FFFC := by
      rw [BitVec.add_comm, BitVec.add_sub_cancel]
      rfl
    have hsub := toInt_sub_four (p + 0x20000)
    have hsum : (p + 0x20000).toNat = (p.toNat + 0x20000) % 2 ^ 32 :=
      BitVec.toNat_add p _
    have hint : BitVec.toInt (131068 : Word) = 131068 := rfl
    refine .inl ⟨by omega, ?_⟩
    rw [hfrom]
    exact hint.ge
  · have hfrom : p - 0x1FFFC - p - 4 = -0x20000 := by
      have hcomm : p - 0x1FFFC - p - 4 = p - p - 0x1FFFC - 4 := by ring
      rw [hcomm, BitVec.sub_self]
      rfl
    have hsub := toInt_sub_four (p - 0x1FFFC)
    have hdiff : (p - 0x1FFFC).toNat = (2 ^ 32 - 0x1FFFC + p.toNat) % 2 ^ 32 := rfl
    have hlt := p.isLt
    have hint : BitVec.toInt (-131072 : Word) = -131072 := rfl
    refine .inr (.inl ⟨by omega, ?_⟩)
    rw [hfrom]
    exact hint.le

/-- The word that a line makes at 0 is its instruction at `p` exactly if the line fits there. -/
theorem instructionAt_iff (h : asmAssemble str 0 = .ok w) (hp : p.toNat % 4 = 0) :
    InstructionAt str p w ↔ Fits str p := by
  obtain ⟨op, args, inst, hsplit, hfind, hfold⟩ := assembled_found h
  obtain ⟨hlength, -⟩ := @assembleOp_found op args 0 inst hfind
  obtain ⟨hmem, hname⟩ := AssembledLine.mem_of_findInst hfind
  have hword := (hfold 0).symm.trans h
  have hfound : ∀ inst' t, address str = some (inst', t) → inst' = inst :=
    fun inst' t haddr => (address_spec hsplit hfind haddr).1
  have hat : InstructionAt str p w ↔ ¬SetsFixedBits str ∧ asmAssemble str p = .ok w ∧
      ∀ t, address str = some (inst, t) → (addressKind inst).isSome = true →
        DisasmBranches w p t := by
    rw [← chosen_kept_iff h]
    constructor
    · exact fun hat => ⟨hat.named, hat.assembled, fun t haddr => hat.goes inst t haddr⟩
    · rintro ⟨hnamed, hassembled, hgoes⟩
      refine ⟨hassembled, hnamed, fun inst' t haddr => ?_⟩
      obtain rfl := hfound inst' t haddr
      exact hgoes t haddr
  have hfits : Fits str p ↔ ¬SetsFixedBits str ∧ ∀ t, address str = some (inst, t) →
      (addressKind inst = some .a16 → Reaches p t) ∧
        (addressKind inst = some .a26 → t.toNat % 4 = 0 ∧ Within .a26 p t) ∧
        (letters inst.fmt.toList = ['t', 'O'] → SameOffset p t) := by
    constructor
    · exact fun hfit => ⟨hfit.register, fun t haddr =>
        ⟨hfit.branch inst t haddr, hfit.jump inst t haddr, hfit.linked inst t haddr⟩⟩
    · rintro ⟨hregister, hall⟩
      refine ⟨hregister, fun inst' t haddr => ?_, fun inst' t haddr => ?_, fun inst' t haddr => ?_⟩
      · obtain rfl := hfound inst' t haddr
        exact (hall t haddr).1
      · obtain rfl := hfound inst' t haddr
        exact (hall t haddr).2.1
      · obtain rfl := hfound inst' t haddr
        exact (hall t haddr).2.2
  have hfree : 'O' ∉ letters inst.fmt.toList → asmAssemble str p = .ok w := by
    intro hno
    rw [hfold, operands_congr (fun x hx heq => hno (heq ▸ (List.of_mem_zip hx).1)) p 0]
    exact hword
  rw [hat, hfits]
  refine and_congr_right fun _ => ?_
  rcases address_table hmem with ⟨hkind, hno | ⟨hletters, hopcode⟩⟩ | rfl |
    ⟨hkind, front, hentry, hlinked⟩ | ⟨hkind, hletters, hopcode⟩
  · have hother : letters inst.fmt.toList ≠ ['t', 'O'] := fun heq => hno (by rw [heq]; decide)
    simp [hkind, hother, hfree hno]
  · -- `ll`
    obtain ⟨num, n, v, hlast, hnum, hlow, hall⟩ :=
      @offset_line args w inst ['t'] hletters (by decide) hlength hopcode (by decide) hword
    have haddr := address_of hsplit hfind hlast hnum
    have hsame : asmAssemble str p = .ok w ↔ SameOffset p (BitVec.ofNat 32 n) := by
      rw [hfold, hall, ← Except.ok.inj ((hall 0).symm.trans hword), Except.ok.injEq,
        offset_eq_iff hlow, pcofs_eq_iff]
    simp [hkind, hletters, haddr, hsame]
  · have hno : 'O' ∉ letters bgezal.fmt.toList := by rw [bgezal_letters]; decide
    have hnone : ∀ t, address str ≠ some (bgezal, t) := by
      intro t haddr
      obtain ⟨-, num, n, hlast, hnum, -⟩ := address_spec hsplit hfind haddr
      obtain ⟨regs, rfl⟩ := List.getLast?_eq_some_iff.mp hlast
      exact bgezal_rejected hlength.symm hnum w hword
    simp [hnone, hfree hno]
  · have hno : 'O' ∉ front := fun hmem => absurd (hentry.registers _ hmem) (by decide)
    obtain ⟨num, n, v, hlast, hnum, hlow, hall⟩ :=
      offset_line hentry.letters hno hlength hentry.opcode hentry.apart hword
    have haddr := address_of hsplit hfind hlast hnum
    have hw := Except.ok.inj ((hall 0).symm.trans hword)
    have himm := imm_offset hlow (pcofs_bounds 0 (BitVec.ofNat 32 n))
    rw [hw] at himm
    have hgoes := offset_goes_iff hentry hlength hword himm hp
    have hother : letters inst.fmt.toList ≠ ['t', 'O'] := by
      rw [hentry.letters]
      exact fun heq => hlinked (List.append_cancel_right heq)
    have hassembled : Reaches p (BitVec.ofNat 32 n) → asmAssemble str p = .ok w := by
      intro hreaches
      rw [hfold, hall, pcofs_of_reaches hreaches, hw]
    rw [forall_address haddr, forall_address haddr]
    constructor
    · rintro ⟨-, hgo⟩
      exact ⟨fun _ => hgoes.mp (hgo (by rw [hkind]; rfl)),
        fun h => absurd (hkind.symm.trans h) (by decide), fun h => absurd h hother⟩
    · rintro ⟨hreaches, -⟩
      exact ⟨hassembled (hreaches hkind), fun _ => hgoes.mpr (hreaches hkind)⟩
  · have hno : 'O' ∉ letters inst.fmt.toList := by rw [hletters]; decide
    have hother : letters inst.fmt.toList ≠ ['t', 'O'] := by rw [hletters]; decide
    rw [hletters] at hlength hword
    obtain ⟨num, rfl⟩ := List.length_eq_one_iff.mp hlength.symm
    have hset : setJump inst.opcode num = .ok w := (bind_pure (setJump inst.opcode num)).symm.trans hword
    rw [setJump] at hset
    split at hset
    · rename_i n hnum
      have haddr := address_of hsplit hfind rfl hnum
      have hgoes := @jump_goes_iff p (BitVec.ofNat 32 n) inst hopcode hp
      rw [Except.ok.inj hset] at hgoes
      rw [forall_address haddr, forall_address haddr]
      constructor
      · rintro ⟨-, hgo⟩
        exact ⟨fun h => absurd (hkind.symm.trans h) (by decide),
          fun _ => hgoes.mp (hgo (by rw [hkind]; rfl)), fun h => absurd h hother⟩
      · rintro ⟨-, hjump, -⟩
        exact ⟨hfree hno, fun _ => hgoes.mpr (hjump hkind)⟩
    · cases hset

end

end PsplinkUsb.Pspsh.PlacedLines
