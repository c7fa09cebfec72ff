import PsplinkUsb.Library.BitFields
import PsplinkUsb.Psplink.Stepping
import PsplinkUsb.Pspsh.BranchTargets

namespace PsplinkUsb.Pspsh.BranchAgreement

open PsplinkUsb.Library.BitFields
open PsplinkUsb.Psplink.ProgramMemory
open PsplinkUsb.Psplink.Stepping
open PsplinkUsb.Pspsh.InstructionTable
open PsplinkUsb.Pspsh.BranchTargets

variable {opcode pc t : Word}

/-- `step_generic` takes the word for a branch to `t` that is no register jump. -/
def StepBranches (r : Fin 32 → Word) (opcode pc t : Word) : Prop :=
  (decodeStep r pc opcode).branch = true ∧ major opcode ≠ specialOpcode ∧
    (decodeStep r pc opcode).targetpc = t

/-- `disasmIsBranch` has a type for the word, and the target `t`. -/
def DisasmBranches (opcode pc t : Word) : Prop :=
  (disasmIsBranch opcode pc).1 ≠ 0 ∧ (disasmIsBranch opcode pc).2 = some t

theorem stepBranches_iff (r : Fin 32 → Word) :
    StepBranches r opcode pc t ↔
      IsRelative opcode ∧ (Step.relative pc opcode).targetpc = t ∨
        IsAbsolute opcode ∧ (Step.absolute pc opcode).targetpc = t := by
  by_cases hrelative : IsRelative opcode
  · obtain ⟨hjump, hspecial⟩ := hrelative.major
    rw [StepBranches, decodeStep_relative hrelative]
    simp [hrelative, hjump, hspecial, Step.relative]
  by_cases habsolute : IsAbsolute opcode
  · have hspecial : major opcode ≠ specialOpcode := by
      rcases habsolute with h | h
      · rw [h]
        decide
      · rw [h]
        decide
    rw [StepBranches, decodeStep_absolute habsolute]
    simp [hrelative, habsolute, hspecial, Step.absolute]
  by_cases hregister : IsRegister opcode
  · simp [StepBranches, hrelative, habsolute, hregister.1]
  · rw [StepBranches, decodeStep_next hrelative habsolute hregister]
    simp [hrelative, habsolute, Step.next]

theorem major_and (x : Word) : x >>> 26 &&& 0x3f = major x := by
  have hsmall := x.isLt
  apply BitVec.eq_of_toNat_eq
  rw [BitVec.toNat_and]
  have hmod := Nat.and_two_pow_sub_one_eq_mod (x >>> 26).toNat 6
  simp only [major, BitVec.toNat_ushiftRight, Nat.shiftRight_eq_div_pow] at hmod ⊢
  exact hmod.trans (Nat.mod_eq_of_lt (by omega))

theorem shift_major (x : Word) : major x <<< 26 = x &&& (0xFC000000 : Word) := by
  have hmask : (0xFC000000 : Word) = (0x3f : Word) <<< 26 := rfl
  rw [hmask, and_shiftLeft, major_and]

theorem shift_copBits (x : Word) : copBits x <<< 16 = x &&& (0x03FF0000 : Word) := by
  have hmask : (0x03FF0000 : Word) = (0x3ff : Word) <<< 16 := rfl
  rw [hmask, and_shiftLeft, copBits]

theorem shift_major_shift (x : Word) : major x <<< 26 >>> 26 = major x := by
  rw [shift_major, BitVec.ushiftRight_and_distrib]
  exact major_and x

theorem shift_copBits_shift (x : Word) : copBits x <<< 16 >>> 16 = copBits x := by
  rw [shift_copBits, BitVec.ushiftRight_and_distrib]
  rfl

/-- An entry that fixes the major opcode, and bits of the coprocessor bits. -/
structure Upper (inst : Instruction) : Prop where
  mask : inst.mask = (0xFC000000 : Word) ||| copBits inst.mask <<< 16
  opcode : inst.opcode = major inst.opcode <<< 26 ||| copBits inst.opcode <<< 16
  fixed : copBits inst.opcode &&& copBits inst.mask = copBits inst.opcode

instance : DecidablePred Upper := fun inst =>
  decidable_of_iff (inst.mask = (0xFC000000 : Word) ||| copBits inst.mask <<< 16 ∧
      inst.opcode = major inst.opcode <<< 26 ||| copBits inst.opcode <<< 16 ∧
      copBits inst.opcode &&& copBits inst.mask = copBits inst.opcode)
    ⟨fun h => ⟨h.1, h.2.1, h.2.2⟩, fun h => ⟨h.1, h.2, h.3⟩⟩

theorem matches_upper {inst : Instruction} (h : Upper inst) :
    inst.Matches opcode ↔ major opcode = major inst.opcode ∧
      copBits opcode &&& copBits inst.mask = copBits inst.opcode := by
  have hcop : opcode >>> 16 &&& copBits inst.mask = copBits opcode &&& copBits inst.mask := by
    rw [copBits, copBits, BitVec.and_assoc, BitVec.and_comm 0x3ff, BitVec.and_assoc,
      BitVec.and_self]
  have hmajor : opcode &&& (0xFC000000 : Word) = major inst.opcode <<< 26 ↔
      major opcode = major inst.opcode := by
    have hmask : (0xFC000000 : Word) = (0x3f : Word) <<< 26 := rfl
    have hkeep : (0x3f : Word) <<< 26 >>> 26 = 0x3f := rfl
    rw [hmask, ← major_and opcode]
    exact and_shiftLeft_eq_iff hkeep (shift_major_shift _)
  have happart : (0xFC000000 : Word) &&& copBits inst.mask <<< 16 = 0 := by
    have hconst : (0x03FF0000 : Word) &&& (0xFC000000 : Word) = 0 := by decide
    rw [shift_copBits, BitVec.and_comm, BitVec.and_assoc, hconst]
    simp
  have hcode : major inst.opcode <<< 26 &&& (0xFC000000 : Word) = major inst.opcode <<< 26 := by
    rw [shift_major, BitVec.and_assoc, BitVec.and_self]
  have hbits : copBits inst.opcode <<< 16 &&& copBits inst.mask <<< 16 =
      copBits inst.opcode <<< 16 := by
    rw [and_shiftLeft, shift_copBits_shift, h.fixed]
  calc inst.Matches opcode ↔ opcode &&& ((0xFC000000 : Word) ||| copBits inst.mask <<< 16) =
          major inst.opcode <<< 26 ||| copBits inst.opcode <<< 16 := by
        rw [← h.mask, ← h.opcode, Instruction.Matches]
    _ ↔ opcode &&& (0xFC000000 : Word) = major inst.opcode <<< 26 ∧
          opcode &&& (copBits inst.mask <<< 16) = copBits inst.opcode <<< 16 :=
        and_or_eq_iff happart hcode hbits
    _ ↔ major opcode = major inst.opcode ∧
          copBits opcode &&& copBits inst.mask = copBits inst.opcode := by
        rw [hmajor, and_shiftLeft_eq_iff (shift_copBits_shift _) (shift_copBits_shift _), hcop]

/-- The branches of `disasmIsBranch` with an offset. -/
def DisasmRelative (opcode : Word) : Prop :=
  ∃ inst ∈ branchInst, inst.addrtype = .a16 ∧ inst.Matches opcode

def plainBranches : List Word := [beqOpcode, beqlOpcode, bneOpcode, bnelOpcode]

def zeroBranches : List Word := [bgtzOpcode, bgtzlOpcode, blezOpcode, blezlOpcode]

/-- The `REGIMM` branches in the table: all but `bgezall`. -/
def regimmEntries : List Word :=
  [bgezOpcode, bgezalOpcode, bgezlOpcode, bltzOpcode, bltzlOpcode, bltzalOpcode, bltzallOpcode]

theorem relative_entries :
    ((branchInst.filter fun inst => inst.addrtype = .a16).map
        fun inst => (major inst.opcode, copBits inst.mask, copBits inst.opcode)).Perm
      (plainBranches.map (fun c => (c, 0, 0)) ++ zeroBranches.map (fun c => (c, 0x1f, 0)) ++
        regimmEntries.map (fun c => (regimmOpcode, 0x1f, c)) ++
        copBranches.map (fun c => (cop1Opcode, 0x3ff, c)) ++
        copBranches.map (fun c => (cop2Opcode, 0x3e3, c))) := by
  decide

theorem relative_upper :
    (branchInst.all fun inst => inst.addrtype = .a16 → Upper inst) = true := by
  decide

theorem entries_kind :
    (branchInst.all fun inst => inst.mask &&& (0xFC000000 : Word) = 0xFC000000 ∧
      (inst.addrtype = .a16 ∧ major inst.opcode ≠ jalOpcode ∧ major inst.opcode ≠ jOpcode ∧
          major inst.opcode ≠ specialOpcode ∨
        inst.addrtype = .a26 ∧ (major inst.opcode = jalOpcode ∨ major inst.opcode = jOpcode) ∨
        inst.addrtype = .reg ∧ major inst.opcode = specialOpcode)) = true := by
  decide

theorem rt_eq (x : Word) : rt x = copBits x &&& 0x1f := by
  rw [rt, copBits, BitVec.and_assoc]
  rfl

theorem copBits_and (x : Word) : copBits x &&& 0x3ff = copBits x := by
  rw [copBits, BitVec.and_assoc, BitVec.and_self]

theorem disasmRelative_iff :
    DisasmRelative opcode ↔ major opcode ∈ plainBranches ∨
      major opcode ∈ zeroBranches ∧ rt opcode = 0 ∨
      major opcode = regimmOpcode ∧ rt opcode ∈ regimmEntries ∨
      major opcode = cop1Opcode ∧ copBits opcode ∈ copBranches ∨
      major opcode = cop2Opcode ∧ copBits opcode &&& 0x3e3 ∈ copBranches := by
  have hentry : DisasmRelative opcode ↔
      ∃ p ∈ (branchInst.filter fun inst => inst.addrtype = .a16).map
        (fun inst => (major inst.opcode, copBits inst.mask, copBits inst.opcode)),
        major opcode = p.1 ∧ copBits opcode &&& p.2.1 = p.2.2 := by
    constructor
    · rintro ⟨inst, hinst, htype, hmatch⟩
      have hupper := of_decide_eq_true (List.all_eq_true.mp relative_upper inst hinst) htype
      refine ⟨_, List.mem_map_of_mem (List.mem_filter.mpr ⟨hinst, decide_eq_true htype⟩), ?_⟩
      exact (matches_upper hupper).mp hmatch
    · rintro ⟨p, hp, hmatch⟩
      obtain ⟨inst, hinst, rfl⟩ := List.mem_map.mp hp
      obtain ⟨hinst, htype⟩ := List.mem_filter.mp hinst
      have htype := of_decide_eq_true htype
      have hupper := of_decide_eq_true (List.all_eq_true.mp relative_upper inst hinst) htype
      exact ⟨inst, hinst, htype, (matches_upper hupper).mpr hmatch⟩
  rw [hentry]
  simp only [relative_entries.mem_iff]
  simp only [List.mem_append, List.mem_map, rt_eq]
  constructor
  · rintro ⟨p, ((((⟨c, hc, rfl⟩ | ⟨c, hc, rfl⟩) | ⟨c, hc, rfl⟩) | ⟨c, hc, rfl⟩) | ⟨c, hc, rfl⟩),
      hmajor, hbits⟩
    · exact .inl (hmajor ▸ hc)
    · exact .inr (.inl ⟨hmajor ▸ hc, hbits⟩)
    · exact .inr (.inr (.inl ⟨hmajor, hbits ▸ hc⟩))
    · rw [copBits_and] at hbits
      exact .inr (.inr (.inr (.inl ⟨hmajor, hbits ▸ hc⟩)))
    · exact .inr (.inr (.inr (.inr ⟨hmajor, hbits ▸ hc⟩)))
  · rintro (hc | ⟨hc, hbits⟩ | ⟨hmajor, hc⟩ | ⟨hmajor, hc⟩ | ⟨hmajor, hc⟩)
    · exact ⟨_, .inl (.inl (.inl (.inl ⟨_, hc, rfl⟩))), rfl, BitVec.and_zero⟩
    · exact ⟨_, .inl (.inl (.inl (.inr ⟨_, hc, rfl⟩))), rfl, hbits⟩
    · exact ⟨_, .inl (.inl (.inr ⟨_, hc, rfl⟩)), hmajor, rfl⟩
    · exact ⟨_, .inl (.inr ⟨_, hc, rfl⟩), hmajor, copBits_and opcode⟩
    · exact ⟨_, .inr ⟨_, hc, rfl⟩, hmajor, rfl⟩

theorem addrOf_entry {inst : Instruction} (hinst : inst ∈ branchInst)
    (hmatch : inst.Matches opcode) :
    inst.addrtype = .a16 ∧ ¬IsAbsolute opcode ∧ major opcode ≠ specialOpcode ∨
      inst.addrtype = .a26 ∧ IsAbsolute opcode ∨
      inst.addrtype = .reg ∧ ¬IsAbsolute opcode ∧ major opcode = specialOpcode := by
  obtain ⟨hmask, hkind⟩ := of_decide_eq_true (List.all_eq_true.mp entries_kind inst hinst)
  have hbits : opcode &&& (0xFC000000 : Word) = inst.opcode &&& (0xFC000000 : Word) := by
    rw [← hmatch, BitVec.and_assoc, hmask]
  have hmajor : major opcode = major inst.opcode := by
    rw [← shift_major_shift opcode, ← shift_major_shift inst.opcode, shift_major, shift_major,
      hbits]
  rw [IsAbsolute, hmajor]
  rcases hkind with ⟨htype, hjal, hj, hspecial⟩ | ⟨htype, hjump⟩ | ⟨htype, hspecial⟩
  · exact .inl ⟨htype, not_or.mpr ⟨hjal, hj⟩, hspecial⟩
  · exact .inr (.inl ⟨htype, hjump⟩)
  · refine .inr (.inr ⟨htype, ?_, hspecial⟩)
    rw [hspecial]
    decide

theorem aligned_ne {addr : Word} (h : addr.toNat % 4 = 0) : addr ≠ 0xFFFFFFFF := by
  rintro rfl
  revert h
  decide

theorem addrOf_a16_ne (haligned : pc.toNat % 4 = 0) : addrOf .a16 opcode pc ≠ 0xFFFFFFFF := by
  have hfour : (4 : Word).toNat = 4 := rfl
  apply aligned_ne
  simp only [addrOf, BitVec.toNat_add, BitVec.toNat_mul, hfour]
  omega

theorem region_eq (x : Word) : x &&& (0xF0000000 : Word) = (x >>> 28 &&& (0xF : Word)) <<< 28 := by
  have hmask : (0xF0000000 : Word) = (0xF : Word) <<< 28 := rfl
  rw [hmask, and_shiftLeft]

theorem addrOf_a26_ne : addrOf .a26 opcode pc ≠ 0xFFFFFFFF := by
  apply aligned_ne
  simp only [addrOf, region_eq, BitVec.toNat_add, BitVec.toNat_shiftLeft, Nat.shiftLeft_eq]
  omega

theorem isBranch_of_mem {inst : Instruction} (hinst : inst ∈ branchInst) : inst.IsBranch :=
  of_decide_eq_true (List.mem_filter.mp hinst).2

theorem disasmIsBranch_spec {addr : Word}
    (haddr : ∀ inst ∈ branchInst, inst.Matches opcode → addrOf inst.addrtype opcode pc = addr) :
    DisasmBranches opcode pc t ↔
      addr ≠ 0xFFFFFFFF ∧ (∃ inst ∈ branchInst, inst.Matches opcode) ∧ addr = t := by
  have hloop : disasmIsBranch opcode pc = isBranchLoop opcode pc (0, none) branchInst :=
    (isBranchLoop_filter _).symm
  rw [DisasmBranches, hloop]
  rcases isBranchLoop_spec (0, none) fun inst hinst hmatch _ => haddr inst hinst hmatch with
    ⟨hjump, ⟨inst, hinst, hmatch, -⟩, type, htype, hfound⟩ | ⟨hnone, hkept⟩
  · have hne : type ≠ 0 := by
      rintro rfl
      exact htype rfl
    rw [hfound]
    constructor
    · rintro ⟨-, htarget⟩
      exact ⟨hjump, ⟨inst, hinst, hmatch⟩, Option.some.inj htarget⟩
    · rintro ⟨-, -, rfl⟩
      exact ⟨hne, rfl⟩
  · rw [hkept]
    constructor
    · rintro ⟨hzero, -⟩
      exact absurd rfl hzero
    · rintro ⟨hjump, ⟨inst, hinst, hmatch⟩, -⟩
      rcases hnone with hreg | hnone
      · exact absurd hreg hjump
      · exact absurd (isBranch_of_mem hinst) (hnone inst hinst hmatch)

theorem absolute_entry (h : IsAbsolute opcode) : ∃ inst ∈ branchInst, inst.Matches opcode := by
  have hentry : ∀ c, c = jalOpcode ∨ c = jOpcode → ∃ inst ∈ branchInst, Upper inst ∧
      major inst.opcode = c ∧ copBits inst.mask = 0 ∧ copBits inst.opcode = 0 := by
    rintro c (rfl | rfl)
    · exact ⟨⟨"jal", 0x0C000000, 0xFC000000, "%j", .a26, instrTypeJal⟩, by decide,
        by decide, rfl, rfl, rfl⟩
    · exact ⟨⟨"j", 0x08000000, 0xFC000000, "%j", .a26, instrTypeJump⟩, by decide,
        by decide, rfl, rfl, rfl⟩
  obtain ⟨inst, hinst, hupper, hmajor, hmask, hbits⟩ := hentry _ h
  refine ⟨inst, hinst, (matches_upper hupper).mpr ⟨hmajor.symm, ?_⟩⟩
  rw [hmask, hbits]
  exact BitVec.and_zero

theorem not_disasmRelative (h : IsAbsolute opcode) : ¬DisasmRelative opcode := by
  rintro ⟨inst, hinst, htype, hmatch⟩
  rcases addrOf_entry hinst hmatch with ⟨-, hno, -⟩ | ⟨htype', -⟩ | ⟨htype', -⟩
  · exact hno h
  · simp [htype] at htype'
  · simp [htype] at htype'

theorem disasmBranches_iff (haligned : pc.toNat % 4 = 0) :
    DisasmBranches opcode pc t ↔
      DisasmRelative opcode ∧ addrOf .a16 opcode pc = t ∨
        IsAbsolute opcode ∧ addrOf .a26 opcode pc = t := by
  by_cases habsolute : IsAbsolute opcode
  · have hrelative := not_disasmRelative habsolute
    have haddr : ∀ inst ∈ branchInst, inst.Matches opcode →
        addrOf inst.addrtype opcode pc = addrOf .a26 opcode pc := by
      intro inst hinst hmatch
      rcases addrOf_entry hinst hmatch with ⟨-, hno, -⟩ | ⟨htype, -⟩ | ⟨-, hno, -⟩
      · exact absurd habsolute hno
      · rw [htype]
      · exact absurd habsolute hno
    rw [disasmIsBranch_spec haddr]
    constructor
    · rintro ⟨-, -, htarget⟩
      exact .inr ⟨habsolute, htarget⟩
    · rintro (⟨hrel, -⟩ | ⟨-, htarget⟩)
      · exact absurd hrel hrelative
      · exact ⟨addrOf_a26_ne, absolute_entry habsolute, htarget⟩
  by_cases hspecial : major opcode = specialOpcode
  · have hrelative : ¬DisasmRelative opcode := by
      rintro ⟨inst, hinst, htype, hmatch⟩
      rcases addrOf_entry hinst hmatch with ⟨-, -, hno⟩ | ⟨htype', -⟩ | ⟨htype', -⟩
      · exact hno hspecial
      · simp [htype] at htype'
      · simp [htype] at htype'
    have haddr : ∀ inst ∈ branchInst, inst.Matches opcode →
        addrOf inst.addrtype opcode pc = 0xFFFFFFFF := by
      intro inst hinst hmatch
      rcases addrOf_entry hinst hmatch with ⟨-, -, hno⟩ | ⟨-, hjump⟩ | ⟨htype, -⟩
      · exact absurd hspecial hno
      · exact absurd hjump habsolute
      · rw [htype]
        rfl
    rw [disasmIsBranch_spec haddr]
    simp [habsolute, hrelative]
  · have htype : ∀ inst ∈ branchInst, inst.Matches opcode → inst.addrtype = .a16 := by
      intro inst hinst hmatch
      rcases addrOf_entry hinst hmatch with ⟨htype, -⟩ | ⟨-, hjump⟩ | ⟨-, -, hreg⟩
      · exact htype
      · exact absurd hjump habsolute
      · exact absurd hreg hspecial
    have haddr : ∀ inst ∈ branchInst, inst.Matches opcode →
        addrOf inst.addrtype opcode pc = addrOf .a16 opcode pc := by
      intro inst hinst hmatch
      rw [htype inst hinst hmatch]
    have hexists : (∃ inst ∈ branchInst, inst.Matches opcode) ↔ DisasmRelative opcode := by
      constructor
      · rintro ⟨inst, hinst, hmatch⟩
        exact ⟨inst, hinst, htype inst hinst hmatch, hmatch⟩
      · rintro ⟨inst, hinst, -, hmatch⟩
        exact ⟨inst, hinst, hmatch⟩
    rw [disasmIsBranch_spec haddr, hexists]
    constructor
    · rintro ⟨-, hrel, htarget⟩
      exact .inl ⟨hrel, htarget⟩
    · rintro (⟨hrel, htarget⟩ | ⟨hjump, -⟩)
      · exact ⟨addrOf_a16_ne haligned, hrel, htarget⟩
      · exact absurd hjump habsolute

def vcc (opcode : Word) : Word := opcode >>> 18 &&& 7

/-- The unused field of the branches that compare with zero is zero, a jump stays in the
region of its own address, and a vector branch is on condition 0. -/
structure Agreeable (opcode pc : Word) : Prop where
  zero : major opcode ∈ zeroBranches → rt opcode = 0
  region : IsAbsolute opcode → pc &&& (0xF0000000 : Word) = (pc + 4) &&& (0xF0000000 : Word)
  condition : major opcode = cop2Opcode → copBits opcode &&& 0x3e3 ∈ copBranches →
    vcc opcode = 0

theorem vcc_eq_zero_iff : vcc opcode = 0 ↔ copBits opcode &&& (0x1c : Word) = 0 := by
  have hmask : (0x1c : Word) = (7 : Word) <<< 2 := rfl
  have hzero : (0 : Word) = (0 : Word) <<< 2 := rfl
  have hbits : copBits opcode &&& (0x1c : Word) = opcode >>> 16 &&& (0x1c : Word) := by
    rw [copBits, BitVec.and_assoc]
    rfl
  rw [hbits, hmask, vcc, BitVec.shiftRight_add opcode 16 2]
  conv_rhs => rw [hzero]
  exact (and_shiftLeft_eq_iff rfl rfl).symm

theorem copBranches_iff :
    copBits opcode ∈ copBranches ↔
      copBits opcode &&& 0x3e3 ∈ copBranches ∧ copBits opcode &&& (0x1c : Word) = 0 := by
  have hall : (copBranches.all fun c => c &&& 0x3e3 = c ∧ c &&& 0x1c = 0) = true := by decide
  constructor
  · intro h
    obtain ⟨hkeep, hzero⟩ := of_decide_eq_true (List.all_eq_true.mp hall _ h)
    exact ⟨hkeep.symm ▸ h, hzero⟩
  · rintro ⟨h, hzero⟩
    have hsplit : copBits opcode = copBits opcode &&& 0x3e3 := by
      calc copBits opcode = copBits opcode &&& ((0x3e3 : Word) ||| (0x1c : Word)) :=
            (copBits_and opcode).symm
        _ = copBits opcode &&& 0x3e3 := by
            rw [BitVec.and_or_distrib_left, hzero]
            exact BitVec.or_zero
    rw [hsplit]
    exact h

theorem target_eq_iff :
    (Step.absolute pc opcode).targetpc = addrOf .a26 opcode pc ↔
      pc &&& (0xF0000000 : Word) = (pc + 4) &&& (0xF0000000 : Word) := by
  have hlow : (opcode &&& (0x03FFFFFF : Word)) <<< 2 &&& (0xF0000000 : Word) = 0 := by
    have hconst : (0x03FFFFFF : Word) <<< 2 &&& (0xF0000000 : Word) = 0 := by decide
    rw [BitVec.shiftLeft_and_distrib, BitVec.and_assoc, hconst]
    exact BitVec.and_zero
  have hpart : ∀ x : Word, x &&& (0xF0000000 : Word) &&& (0xF0000000 : Word) =
      x &&& (0xF0000000 : Word) := by
    intro x
    rw [BitVec.and_assoc, BitVec.and_self]
  have hdisjoint : (opcode &&& (0x03FFFFFF : Word)) <<< 2 &&& (pc &&& (0xF0000000 : Word)) = 0 := by
    rw [BitVec.and_comm pc, ← BitVec.and_assoc, hlow]
    exact BitVec.zero_and
  have hadd : addrOf .a26 opcode pc =
      (opcode &&& (0x03FFFFFF : Word)) <<< 2 ||| pc &&& (0xF0000000 : Word) :=
    BitVec.add_eq_or_of_and_eq_zero _ _ hdisjoint
  have habs : (Step.absolute pc opcode).targetpc =
      (opcode &&& (0x03FFFFFF : Word)) <<< 2 ||| (pc + 4) &&& (0xF0000000 : Word) := rfl
  rw [hadd, habs, or_eq_or_iff hlow (hpart _) (hpart _)]
  exact eq_comm

/-- `bgezall`, and the branches on the condition of coprocessor 0: the table has no entry for
these families. -/
def Unlisted (opcode : Word) : Prop :=
  major opcode = regimmOpcode ∧ rt opcode = bgezallOpcode ∨
    major opcode = cop0Opcode ∧ copBits opcode ∈ copBranches

theorem mem_branchOpcodes {c : Word} :
    c ∈ branchOpcodes ↔ c ∈ plainBranches ∨ c ∈ zeroBranches := by
  have hperm : branchOpcodes.Perm (plainBranches ++ zeroBranches) := by decide
  rw [hperm.mem_iff, List.mem_append]

theorem mem_regimmBranches {c : Word} :
    c ∈ regimmBranches ↔ c = bgezallOpcode ∨ c ∈ regimmEntries := by
  have hperm : regimmBranches.Perm (bgezallOpcode :: regimmEntries) := by decide
  rw [hperm.mem_iff, List.mem_cons]

theorem mem_cops {c : Word} :
    c ∈ [cop0Opcode, cop1Opcode, cop2Opcode] ↔ c = cop0Opcode ∨ c = cop1Opcode ∨ c = cop2Opcode := by
  simp

theorem zeroBranches_apart {c : Word} (h : c ∈ zeroBranches) :
    c ∉ plainBranches ∧ c ≠ regimmOpcode ∧ c ≠ cop0Opcode ∧ c ≠ cop1Opcode ∧ c ≠ cop2Opcode := by
  have hall : (zeroBranches.all fun c => c ∉ plainBranches ∧ c ≠ regimmOpcode ∧
      c ≠ cop0Opcode ∧ c ≠ cop1Opcode ∧ c ≠ cop2Opcode) = true := by
    decide
  exact of_decide_eq_true (List.all_eq_true.mp hall c h)

/-- The words only the table takes for a branch with an offset, and those only `step_generic`
does. -/
theorem relative_iff (hlisted : ¬Unlisted opcode) :
    (IsRelative opcode ↔ DisasmRelative opcode) ↔
      (major opcode ∈ zeroBranches → rt opcode = 0) ∧
        (major opcode = cop2Opcode → copBits opcode &&& 0x3e3 ∈ copBranches → vcc opcode = 0) := by
  rw [IsRelative, disasmRelative_iff, mem_branchOpcodes, mem_regimmBranches, mem_cops]
  rw [Unlisted, not_or] at hlisted
  by_cases hzero : major opcode ∈ zeroBranches
  · obtain ⟨hplain, hregimm, hcop0, hcop1, hcop2⟩ := zeroBranches_apart hzero
    simp [hzero, hplain, hregimm, hcop1, hcop2]
  by_cases hcop2 : major opcode = cop2Opcode
  · have hapart : cop2Opcode ∉ plainBranches ∧ cop2Opcode ∉ zeroBranches ∧
        cop2Opcode ≠ regimmOpcode ∧ cop2Opcode ≠ cop0Opcode ∧ cop2Opcode ≠ cop1Opcode := by
      decide
    rw [vcc_eq_zero_iff, copBranches_iff, hcop2]
    simp only [hapart, false_or, false_and, or_false, true_and, or_true, false_implies, true_implies]
    tauto
  · have hregimm : major opcode = regimmOpcode → rt opcode ≠ bgezallOpcode :=
      fun hmajor hrt => hlisted.1 ⟨hmajor, hrt⟩
    have hcop0 : major opcode = cop0Opcode → copBits opcode ∉ copBranches :=
      fun hmajor hbits => hlisted.2 ⟨hmajor, hbits⟩
    simp only [hzero, hcop2, false_and, or_false, false_or, false_implies, and_self, iff_true]
    refine or_congr_right (or_congr (and_congr_right fun hmajor => or_iff_right (hregimm hmajor)) ?_)
    rw [or_and_right, or_iff_right fun h => hcop0 h.1 h.2]

/-- Such a word is not shown as a branch. -/
theorem not_branches_of_unlisted (haligned : pc.toNat % 4 = 0) (h : Unlisted opcode) :
    ¬DisasmBranches opcode pc t := by
  have hnone : ∀ c, c = regimmOpcode ∨ c = cop0Opcode → c ∉ plainBranches ∧ c ∉ zeroBranches ∧
      c ≠ cop1Opcode ∧ c ≠ cop2Opcode ∧ c ≠ jalOpcode ∧ c ≠ jOpcode := by
    rintro c (rfl | rfl)
    · decide
    · decide
  obtain ⟨hplain, hzero, hcop1, hcop2, hjal, hj⟩ := hnone _ (h.imp And.left And.left)
  have hrelative : ¬DisasmRelative opcode := by
    rw [disasmRelative_iff]
    rintro (hc | ⟨hc, -⟩ | ⟨hmajor, hrt⟩ | ⟨hc, -⟩ | ⟨hc, -⟩)
    · exact hplain hc
    · exact hzero hc
    · rcases h with ⟨-, hall⟩ | ⟨hcop0, -⟩
      · rw [hall] at hrt
        revert hrt
        decide
      · rw [hcop0] at hmajor
        revert hmajor
        decide
    · exact hcop1 hc
    · exact hcop2 hc
  rw [disasmBranches_iff haligned]
  rintro (⟨hrel, -⟩ | ⟨hjump, -⟩)
  · exact hrelative hrel
  · exact hjump.elim hjal hj

/-- The two sides agree on a word at an address exactly when it is agreeable there. -/
theorem branches_agree_iff (r : Fin 32 → Word) (opcode pc : Word) (haligned : pc.toNat % 4 = 0)
    (hlisted : ¬Unlisted opcode) :
    (∀ t, StepBranches r opcode pc t ↔ DisasmBranches opcode pc t) ↔ Agreeable opcode pc := by
  simp only [stepBranches_iff, disasmBranches_iff haligned]
  have hsame : (Step.relative pc opcode).targetpc = addrOf .a16 opcode pc := rfl
  rw [hsame]
  by_cases habsolute : IsAbsolute opcode
  · have hrelative : ¬IsRelative opcode := fun h => h.major.1 habsolute
    have hapart : ∀ c, c = jalOpcode ∨ c = jOpcode → c ∉ zeroBranches ∧ c ≠ cop2Opcode := by
      rintro c (rfl | rfl)
      · decide
      · decide
    obtain ⟨hzero, hcop2⟩ := hapart _ habsolute
    simp only [hrelative, not_disasmRelative habsolute, habsolute, false_and, false_or, true_and]
    constructor
    · intro h
      have htarget := ((h _).mp rfl).symm
      exact ⟨fun hmem => absurd hmem hzero, fun _ => target_eq_iff.mp htarget,
        fun hmajor => absurd hmajor hcop2⟩
    · intro h t
      rw [target_eq_iff.mpr (h.region habsolute)]
  · simp only [habsolute, false_and, or_false]
    calc (∀ t, IsRelative opcode ∧ addrOf .a16 opcode pc = t ↔
            DisasmRelative opcode ∧ addrOf .a16 opcode pc = t) ↔
          (IsRelative opcode ↔ DisasmRelative opcode) := by
          constructor
          · intro h
            have htarget := h (addrOf .a16 opcode pc)
            rwa [and_iff_left rfl, and_iff_left rfl] at htarget
          · intro h t
            rw [h]
      _ ↔ Agreeable opcode pc := by
          rw [relative_iff hlisted]
          constructor
          · rintro ⟨hzero, hcondition⟩
            exact ⟨hzero, fun h => absurd h habsolute, hcondition⟩
          · rintro ⟨hzero, -, hcondition⟩
            exact ⟨hzero, hcondition⟩

theorem branches_agree_beq :
    (∀ t, StepBranches (fun _ => 0) 0x10000001 0x08900000 t ↔
      DisasmBranches 0x10000001 0x08900000 t) ↔ Agreeable 0x10000001 0x08900000 :=
  branches_agree_iff (fun _ => 0) 0x10000001 0x08900000 (by decide)
    (by simp [Unlisted, major, rt, copBits]; decide)

/-- `bvf` on condition 1 is a branch in the table only, and `j` at the end of a region goes to
two places. -/
theorem branches_disagree :
    (DisasmBranches 0x49040001 0x08900000 0x08900008 ∧
        ¬StepBranches (fun _ => 0) 0x49040001 0x08900000 0x08900008) ∧
      DisasmBranches 0x08000000 0x0FFFFFFC 0 ∧
        ¬StepBranches (fun _ => 0) 0x08000000 0x0FFFFFFC 0 := by
  refine ⟨⟨?_, ?_⟩, ?_, ?_⟩
  · exact ⟨by decide +kernel, by decide +kernel⟩
  · rintro ⟨-, -, htarget⟩
    revert htarget
    decide
  · exact ⟨by decide +kernel, by decide +kernel⟩
  · rintro ⟨-, -, htarget⟩
    revert htarget
    decide

end PsplinkUsb.Pspsh.BranchAgreement
