import PsplinkUsb.Library.BitFields
import PsplinkUsb.Psplink.BreakpointConsistency
import PsplinkUsb.Psplink.Stepping
import PsplinkUsb.Pspsh.BranchAgreement

namespace PsplinkUsb.Psplink.StepArming

open PsplinkUsb.Library
open PsplinkUsb.Psplink.ProgramMemory
open PsplinkUsb.Psplink.BreakpointTable
open PsplinkUsb.Psplink.BreakpointConsistency
open PsplinkUsb.Psplink.Stepping
open PsplinkUsb.Pspsh.BranchAgreement

variable {s s' : DebugState} {a t u : Word} {i : Slot}

/-- A breakpoint at the address stops the program. -/
def Armed (s : DebugState) (a : Word) : Prop :=
  ∃ i, findBp s a = some i ∧ (s.bps i).disabled = false

def Free (s : DebugState) : Prop := ∃ i, (s.bps i).active = false

def TwoFree (s : DebugState) : Prop :=
  ∃ i j, i ≠ j ∧ (s.bps i).active = false ∧ (s.bps j).active = false

theorem findBp_congr (h : cell a = cell t) : findBp s a = findBp s t := by
  rw [findBp, findBp, h]

theorem findBp_eq (h : ∀ i, (s'.bps i).active = (s.bps i).active ∧
    (s'.bps i).addr = (s.bps i).addr) : findBp s' a = findBp s a := by
  rw [findBp, findBp]
  congr 1
  funext i
  rw [(h i).1, (h i).2]

theorem armed_setStep (bp other : Option Slot) : Armed (setStep bp other s) a ↔ Armed s a := by
  cases bp with
  | none => rfl
  | some i =>
      have hsame : ∀ j, ((setStep (some i) other s).bps j).flags = (s.bps j).flags ∧
          ((setStep (some i) other s).bps j).addr = (s.bps j).addr := by
        intro j
        rw [setStep, DebugState.setBp_bps]
        rcases eq_or_ne j i with rfl | hj
        · rw [Function.update_self]
          exact ⟨rfl, rfl⟩
        · rw [Function.update_of_ne hj]
          exact ⟨rfl, rfl⟩
      have hfind : findBp (setStep (some i) other s) a = findBp s a := by
        apply findBp_eq
        intro j
        exact ⟨congrArg (has · debugBpActive) (hsame j).1, (hsame j).2⟩
      have hdisabled : ∀ j, ((setStep (some i) other s).bps j).disabled = (s.bps j).disabled :=
        fun j => congrArg (has · debugBpDisabled) (hsame j).1
      simp only [Armed, hfind, hdisabled]

theorem findFreebp_none_iff : findFreebp s = none ↔ ¬Free s := by
  rw [findFreebp, firstSlot_eq_none, Free, not_exists]
  simp

/-- The entry `debugSetBP` makes for a step. -/
def stepBreakpoint (t inst : Word) (thid : Int) : Breakpoint :=
  { addr := t, inst := inst, flags := debugBpActive ||| (debugBpOneshot ||| debugBpStep)
    thid := thid, step := none }

theorem stepBreakpoint_active (inst : Word) (thid : Int) :
    (stepBreakpoint t inst thid).active = true := by
  have hflags : has (debugBpActive ||| (debugBpOneshot ||| debugBpStep)) debugBpActive = true := by
    decide
  exact hflags

theorem stepBreakpoint_disabled (inst : Word) (thid : Int) :
    (stepBreakpoint t inst thid).disabled = false := by
  have hflags : has (debugBpActive ||| (debugBpOneshot ||| debugBpStep)) debugBpDisabled =
      false := by
    decide
  exact hflags

theorem armStep_cases (t : Word) (thid : Int) (s : DebugState) :
    (∃ i, findBp s t = some i ∧ armStep t thid s = (none, s)) ∨
      (findBp s t = none ∧ ¬Free s ∧ armStep t thid s = (none, s)) ∨
      ∃ i, findBp s t = none ∧ findFreebp s = some i ∧
        (armStep t thid s).2.bps =
          Function.update s.bps i (stepBreakpoint t (lw s.mem t) thid) := by
  have hflags : has (debugBpOneshot ||| debugBpStep) debugBpHardware = false := by decide
  rcases Option.eq_none_or_eq_some (findBp s t) with hfind | ⟨i, hfind⟩
  · rcases Option.eq_none_or_eq_some (findFreebp s) with hfree | ⟨i, hfree⟩
    · refine .inr (.inl ⟨hfind, findFreebp_none_iff.mp hfree, ?_⟩)
      simp [armStep, debugSetBP, hfind, hflags, hfree]
    · refine .inr (.inr ⟨i, hfind, hfree, ?_⟩)
      simp [armStep, debugSetBP, stepBreakpoint, hfind, hflags, hfree]
  · refine .inl ⟨i, hfind, ?_⟩
    rw [armStep, debugSetBP, hfind]

theorem findBp_update {b : Breakpoint} (hfree : (s.bps i).active = false)
    (hactive : b.active = true) (hbps : s'.bps = Function.update s.bps i b) (a : Word) :
    (cell a ≠ cell b.addr → findBp s' a = findBp s a) ∧
      (cell a = cell b.addr → findBp s b.addr = none → findBp s' a = some i) := by
  constructor
  · intro hcell
    rw [findBp, findBp]
    congr 1
    funext j
    rcases eq_or_ne j i with rfl | hj
    · have hother : (cell b.addr == cell a) = false := beq_eq_false_iff_ne.mpr hcell.symm
      rw [hbps, Function.update_self, hother, hfree, Bool.and_false, Bool.false_and]
    · rw [hbps, Function.update_of_ne hj]
  · intro hcell hnone
    have hnew : s'.bps i = b := by rw [hbps, Function.update_self]
    rcases Option.eq_none_or_eq_some (findBp s' a) with hfind | ⟨j, hfind⟩
    · exact absurd (hnew ▸ hcell.symm) (findBp_none hfind (hnew ▸ hactive))
    · obtain ⟨hj, hat⟩ := findBp_some hfind
      rcases eq_or_ne j i with rfl | hne
      · exact hfind
      · rw [hbps, Function.update_of_ne hne] at hj hat
        exact absurd (hat.trans hcell) (findBp_none hnone hj)

theorem armed_armStep (thid : Int) :
    Armed (armStep t thid s).2 a ↔
      Armed s a ∨ findBp s t = none ∧ Free s ∧ cell a = cell t := by
  rcases armStep_cases t thid s with ⟨i, hfind, harm⟩ | ⟨hfind, hfull, harm⟩ |
    ⟨i, hfind, hfree, hbps⟩
  · rw [harm]
    simp [hfind]
  · rw [harm]
    simp [hfull]
  · have hslot := findFreebp_some hfree
    have hfreed : Free s := ⟨i, hslot⟩
    generalize (armStep t thid s).2 = s' at hbps
    obtain ⟨hother, hself⟩ := findBp_update hslot (stepBreakpoint_active _ thid) hbps a
    rcases eq_or_ne (cell a) (cell t) with hcell | hcell
    · have harmed : Armed s' a := by
        refine ⟨i, hself hcell hfind, ?_⟩
        rw [hbps, Function.update_self]
        exact stepBreakpoint_disabled _ thid
      exact ⟨fun _ => .inr ⟨hfind, hfreed, hcell⟩, fun _ => harmed⟩
    · have hsame : Armed s' a ↔ Armed s a := by
        rw [Armed, Armed, hother hcell]
        refine exists_congr fun j => and_congr_right fun hj => ?_
        have hne : j ≠ i := by
          rintro rfl
          exact absurd (findBp_some hj).1 (by simp [hslot])
        rw [hbps, Function.update_of_ne hne]
      rw [hsame]
      simp [hcell]

theorem findBp_armStep (thid : Int) (hcell : cell u ≠ cell t) :
    findBp (armStep t thid s).2 u = findBp s u := by
  rcases armStep_cases t thid s with ⟨i, -, harm⟩ | ⟨-, -, harm⟩ | ⟨i, -, hfree, hbps⟩
  · rw [harm]
  · rw [harm]
  · exact (findBp_update (findFreebp_some hfree) (stepBreakpoint_active _ thid) hbps u).1 hcell

theorem free_armStep (thid : Int) :
    Free (armStep t thid s).2 ↔ if findBp s t = none then TwoFree s else Free s := by
  rcases armStep_cases t thid s with ⟨i, hfind, harm⟩ | ⟨hfind, hfull, harm⟩ |
    ⟨i, hfind, hfree, hbps⟩
  · rw [harm, if_neg (by simp [hfind])]
  · rw [harm, if_pos hfind]
    constructor
    · intro h
      exact absurd h hfull
    · rintro ⟨j, -, -, hj, -⟩
      exact absurd ⟨j, hj⟩ hfull
  · have hslot := findFreebp_some hfree
    rw [if_pos hfind]
    generalize (armStep t thid s).2 = s' at hbps
    constructor
    · rintro ⟨j, hj⟩
      have hne : j ≠ i := by
        rintro rfl
        rw [hbps, Function.update_self, stepBreakpoint_active] at hj
        exact Bool.noConfusion hj
      rw [hbps, Function.update_of_ne hne] at hj
      exact ⟨i, j, hne.symm, hslot, hj⟩
    · rintro ⟨j, k, hne, hj, hk⟩
      have hother : ∃ l, l ≠ i ∧ (s.bps l).active = false := by
        rcases eq_or_ne j i with rfl | hji
        · exact ⟨k, hne.symm, hk⟩
        · exact ⟨j, hji, hj⟩
      obtain ⟨l, hli, hl⟩ := hother
      exact ⟨l, by rwa [hbps, Function.update_of_ne hli]⟩

section

variable {succ : List Word}

/-- The entries there are for the addresses stop the program. -/
def Enabled (s : DebugState) (succ : List Word) : Prop :=
  ∀ a ∈ succ, ∀ i, findBp s a = some i → (s.bps i).disabled = false

theorem all_armed_one (thid : Int) :
    (∀ a ∈ succ, Armed (armStep t thid s).2 a) ↔
      Enabled s succ ∧ ∀ a ∈ succ, findBp s a = none → cell a = cell t ∧ Free s := by
  simp only [armed_armStep]
  constructor
  · intro h
    refine ⟨?_, ?_⟩
    · intro a ha i hfind
      rcases h a ha with ⟨j, hj, henabled⟩ | ⟨hnone, -, hcell⟩
      · rw [hfind] at hj
        exact Option.some.inj hj ▸ henabled
      · simp [findBp_congr hcell, hnone] at hfind
    · intro a ha hfind
      rcases h a ha with ⟨j, hj, -⟩ | ⟨-, hfree, hcell⟩
      · simp [hfind] at hj
      · exact ⟨hcell, hfree⟩
  · rintro ⟨henabled, hroom⟩ a ha
    rcases Option.eq_none_or_eq_some (findBp s a) with hfind | ⟨i, hfind⟩
    · obtain ⟨hcell, hfree⟩ := hroom a ha hfind
      exact .inr ⟨findBp_congr hcell ▸ hfind, hfree, hcell⟩
    · exact .inl ⟨i, hfind, henabled a ha i hfind⟩

theorem all_armed_two (thid : Int) (hcell : cell u ≠ cell t) :
    (∀ a ∈ [t, u], Armed (armStep u thid (armStep t thid s).2).2 a) ↔
      Enabled s [t, u] ∧ (∀ a ∈ [t, u], findBp s a = none → Free s) ∧
        (findBp s t = none → findBp s u = none → TwoFree s) := by
  have ht : Armed (armStep u thid (armStep t thid s).2).2 t ↔
      (∀ i, findBp s t = some i → (s.bps i).disabled = false) ∧ (findBp s t = none → Free s) := by
    rw [armed_armStep, armed_armStep]
    rcases Option.eq_none_or_eq_some (findBp s t) with hfind | ⟨i, hfind⟩
    · simp [Armed, hfind, hcell.symm]
    · simp [Armed, hfind, hcell.symm]
  have hu : Armed (armStep u thid (armStep t thid s).2).2 u ↔
      (∀ i, findBp s u = some i → (s.bps i).disabled = false) ∧
        (findBp s u = none → if findBp s t = none then TwoFree s else Free s) := by
    rw [armed_armStep, armed_armStep, findBp_armStep thid hcell, free_armStep]
    rcases Option.eq_none_or_eq_some (findBp s u) with hfind | ⟨i, hfind⟩
    · simp [Armed, hfind, hcell]
    · simp [Armed, hfind, hcell]
  have htwo : TwoFree s → Free s := by
    rintro ⟨i, -, -, hi, -⟩
    exact ⟨i, hi⟩
  simp only [Enabled, List.forall_mem_cons, List.not_mem_nil, false_implies, implies_true, and_true,
    ht, hu]
  constructor
  · rintro ⟨⟨het, hft⟩, heu, hfu⟩
    refine ⟨⟨het, heu⟩, ⟨hft, ?_⟩, ?_⟩
    · intro hnone
      have hroom := hfu hnone
      split at hroom
      · exact htwo hroom
      · exact hroom
    · intro hnone hnone'
      have hroom := hfu hnone'
      rwa [if_pos hnone] at hroom
  · rintro ⟨⟨het, heu⟩, ⟨hft, hfu⟩, hboth⟩
    refine ⟨⟨het, hft⟩, heu, ?_⟩
    intro hnone
    split
    · rename_i hnone'
      exact hboth hnone' hnone
    · exact hfu hnone

end

/-- The branches on a condition code of the vector unit. -/
def VectorBranch (opcode : Word) : Prop :=
  major opcode = cop2Opcode ∧ copBits opcode &&& 0x3e3 ∈ copBranches

instance : DecidablePred VectorBranch := fun opcode =>
  inferInstanceAs (Decidable (major opcode = cop2Opcode ∧ copBits opcode &&& 0x3e3 ∈ copBranches))

instance : DecidablePred IsRelative := fun opcode =>
  inferInstanceAs (Decidable (major opcode ∈ branchOpcodes ∨
    major opcode = regimmOpcode ∧ rt opcode ∈ regimmBranches ∨
    major opcode ∈ [cop0Opcode, cop1Opcode, cop2Opcode] ∧ copBits opcode ∈ copBranches))

instance : DecidablePred IsAbsolute := fun opcode =>
  inferInstanceAs (Decidable (major opcode = jalOpcode ∨ major opcode = jOpcode))

instance : DecidablePred IsRegister := fun opcode =>
  inferInstanceAs (Decidable (major opcode = specialOpcode ∧
    (funct opcode = jalrOpcode ∨ funct opcode = jrOpcode)))

/-- The addresses an instruction can transfer control to, its delay slot done. -/
def successors (r : Fin 32 → Word) (epc opcode : Word) : List Word :=
  if IsRelative opcode ∨ VectorBranch opcode then [epc + 4 + ofs opcode * 4, epc + 8]
  else if IsAbsolute opcode then [(opcode &&& 0x3ffffff) <<< 2 ||| (epc + 4) &&& 0xf0000000]
  else if IsRegister opcode then [r (opcode.extractLsb' 21 5).toFin]
  else [epc + 4]

/-- A break word planted at the address. -/
def Planted (s : DebugState) (a : Word) : Prop :=
  ∃ i, findBp s a = some i ∧ (s.bps i).hardware = false ∧ (s.bps i).disabled = false

/-- `step_generic` does not see the branch: a break word stands in its place, or it is one of
the vector unit on another condition code than 0. -/
def Hidden (s : DebugState) (epc opcode : Word) : Prop :=
  Planted s epc ∨ VectorBranch opcode ∧ vcc opcode ≠ 0

/-- The table has room for the breakpoints of the step, and those it has are enabled. -/
structure Ready (s : DebugState) (r : Fin 32 → Word) (epc opcode : Word) : Prop where
  enabled : Enabled s (successors r epc opcode)
  visible : Hidden s epc opcode → ∀ a ∈ successors r epc opcode, findBp s a = none →
    cell a = cell (epc + 4)
  room : ∀ a ∈ successors r epc opcode, findBp s a = none → Free s
  roomForTwo : ∀ a ∈ successors r epc opcode, ∀ b ∈ successors r epc opcode,
    findBp s a = none → findBp s b = none → cell a ≠ cell b → TwoFree s

theorem lw_epc {program : Memory} (h : Consistent program s) (epc : Word) :
    (Planted s epc ∧ lw s.mem epc = swBreakInst) ∨
      (¬Planted s epc ∧ lw s.mem epc = lw program epc) := by
  rcases Option.eq_none_or_eq_some (findBp s epc) with hfind | ⟨i, hfind⟩
  · refine .inr ⟨by simp [Planted, hfind], ?_⟩
    exact h.untouched _ fun i hi => findBp_none hfind hi
  · obtain ⟨hactive, hcell⟩ := findBp_some hfind
    have hword := h.word i hactive
    have hsaved := h.saved i hactive
    rw [hcell] at hword hsaved
    rw [lw, lw, hword, ← hsaved, expectedWord]
    have hplanted : Planted s epc ↔
        (s.bps i).hardware = false ∧ (s.bps i).disabled = false := by
      simp [Planted, hfind]
    rw [hplanted]
    cases (s.bps i).hardware <;> cases (s.bps i).disabled <;> simp

theorem swBreakInst_next : ¬IsRelative swBreakInst ∧ ¬IsAbsolute swBreakInst ∧
    ¬IsRegister swBreakInst := by
  decide

theorem cell_target_ne {epc opcode : Word} (h : epc + 4 + ofs opcode * 4 ≠ epc + 8) :
    cell (epc + 8) ≠ cell (epc + 4 + ofs opcode * 4) := by
  rw [Ne, cell_eq_iff]
  rw [Ne, ← BitVec.toNat_inj] at h
  have hfour : (4 : Word).toNat = 4 := rfl
  have height : (8 : Word).toNat = 8 := rfl
  have hofs : (ofs opcode).toNat < 2 ^ 15 ∨ 2 ^ 32 - 2 ^ 15 ≤ (ofs opcode).toNat := by
    rw [ofs]
    generalize opcode.setWidth 16 = low
    have hlow := low.isLt
    rw [BitVec.toNat_signExtend, BitVec.toNat_setWidth_of_le (by decide)]
    cases hmsb : low.msb with
    | true =>
        have hbig := BitVec.le_toNat_of_msb_true hmsb
        rw [if_pos rfl]
        omega
    | false =>
        have hsmall := BitVec.toNat_lt_of_msb_false hmsb
        rw [if_neg Bool.false_ne_true]
        omega
  have hepc := epc.isLt
  simp only [BitVec.toNat_add, BitVec.toNat_mul, hfour, height] at h ⊢
  omega

section

variable {ctx : PsplinkContext} {opcode : Word}

theorem stepGeneric_next (h : decodeStep ctx.r ctx.epc (lw s.mem ctx.epc) = .next ctx.epc) :
    stepGeneric ctx false s = (armStep (ctx.epc + 4) ctx.thid s).2 := by
  simp [stepGeneric, h, Step.next]

theorem stepGeneric_jump {step : Step}
    (h : decodeStep ctx.r ctx.epc (lw s.mem ctx.epc) = step) (hbranch : step.branch = true)
    (hcond : step.cond = false) :
    stepGeneric ctx false s = (armStep step.targetpc ctx.thid s).2 := by
  simp [stepGeneric, h, hbranch, hcond]

theorem stepGeneric_relative
    (h : decodeStep ctx.r ctx.epc (lw s.mem ctx.epc) = .relative ctx.epc opcode)
    (hsame : ctx.epc + 4 + ofs opcode * 4 = ctx.epc + 8) :
    stepGeneric ctx false s = (armStep (ctx.epc + 8) ctx.thid s).2 := by
  simp only [stepGeneric, h, Step.relative, hsame, Bool.false_eq_true, and_false, if_false,
    if_true, ne_eq, not_true_eq_false]

theorem armed_relative
    (h : decodeStep ctx.r ctx.epc (lw s.mem ctx.epc) = .relative ctx.epc opcode)
    (hother : ctx.epc + 4 + ofs opcode * 4 ≠ ctx.epc + 8) :
    Armed (stepGeneric ctx false s) a ↔
      Armed (armStep (ctx.epc + 8) ctx.thid
        (armStep (ctx.epc + 4 + ofs opcode * 4) ctx.thid s).2).2 a := by
  have hstep : stepGeneric ctx false s =
      let first := armStep (ctx.epc + 4 + ofs opcode * 4) ctx.thid s
      let second := armStep (ctx.epc + 8) ctx.thid first.2
      setStep second.1 first.1 (setStep first.1 second.1 second.2) := by
    simp only [stepGeneric, h, Step.relative, hother, Bool.false_eq_true, and_false, if_false,
      if_true, ne_eq, not_false_eq_true, true_and]
  rw [hstep, armed_setStep, armed_setStep]

/-- Where the branch is not seen, one breakpoint is set behind the instruction. -/
theorem hidden_arms_iff (hhidden : Hidden s ctx.epc opcode)
    (h : decodeStep ctx.r ctx.epc (lw s.mem ctx.epc) = .next ctx.epc) :
    (∀ a ∈ successors ctx.r ctx.epc opcode, Armed (stepGeneric ctx false s) a) ↔
      Ready s ctx.r ctx.epc opcode := by
  rw [stepGeneric_next h, all_armed_one]
  constructor
  · rintro ⟨henabled, hroom⟩
    refine ⟨henabled, ?_, ?_, ?_⟩
    · exact fun _ a ha hnone => (hroom a ha hnone).1
    · exact fun a ha hnone => (hroom a ha hnone).2
    · intro a ha b hb hnone hnone' hcell
      exact absurd ((hroom a ha hnone).1.trans (hroom b hb hnone').1.symm) hcell
  · intro hready
    refine ⟨hready.enabled, ?_⟩
    intro a ha hnone
    exact ⟨hready.visible hhidden a ha hnone, hready.room a ha hnone⟩

theorem single_arms_iff (hseen : ¬Hidden s ctx.epc opcode)
    (hsucc : ∀ a ∈ successors ctx.r ctx.epc opcode, a = t)
    (h : stepGeneric ctx false s = (armStep t ctx.thid s).2) :
    (∀ a ∈ successors ctx.r ctx.epc opcode, Armed (stepGeneric ctx false s) a) ↔
      Ready s ctx.r ctx.epc opcode := by
  rw [h, all_armed_one]
  constructor
  · rintro ⟨henabled, hroom⟩
    refine ⟨henabled, fun hhidden => absurd hhidden hseen, ?_, ?_⟩
    · exact fun a ha hnone => (hroom a ha hnone).2
    · intro a ha b hb _ _ hcell
      exact absurd (by rw [hsucc a ha, hsucc b hb]) hcell
  · intro hready
    refine ⟨hready.enabled, ?_⟩
    intro a ha hnone
    exact ⟨by rw [hsucc a ha], hready.room a ha hnone⟩

theorem relative_arms_iff (hseen : ¬Hidden s ctx.epc opcode) (hrelative : IsRelative opcode)
    (h : decodeStep ctx.r ctx.epc (lw s.mem ctx.epc) = .relative ctx.epc opcode) :
    (∀ a ∈ successors ctx.r ctx.epc opcode, Armed (stepGeneric ctx false s) a) ↔
      Ready s ctx.r ctx.epc opcode := by
  have hsucc : successors ctx.r ctx.epc opcode =
      [ctx.epc + 4 + ofs opcode * 4, ctx.epc + 8] := if_pos (.inl hrelative)
  by_cases hsame : ctx.epc + 4 + ofs opcode * 4 = ctx.epc + 8
  · apply single_arms_iff hseen ?_ (stepGeneric_relative h hsame)
    rw [hsucc, hsame]
    simp
  · simp only [armed_relative h hsame]
    rw [hsucc, all_armed_two ctx.thid (cell_target_ne hsame)]
    constructor
    · rintro ⟨henabled, hroom, hboth⟩
      refine ⟨hsucc ▸ henabled, fun hhidden => absurd hhidden hseen, hsucc ▸ hroom, ?_⟩
      rw [hsucc]
      intro a ha b hb hnone hnone' hcell
      rcases List.mem_pair.mp ha with rfl | rfl
      · rcases List.mem_pair.mp hb with rfl | rfl
        · exact absurd rfl hcell
        · exact hboth hnone hnone'
      · rcases List.mem_pair.mp hb with rfl | rfl
        · exact hboth hnone' hnone
        · exact absurd rfl hcell
    · intro hready
      refine ⟨hsucc ▸ hready.enabled, hsucc ▸ hready.room, ?_⟩
      intro hnone hnone'
      have hmem := hready.roomForTwo
      rw [hsucc] at hmem
      exact hmem _ List.mem_cons_self _ (List.mem_cons_of_mem _ List.mem_cons_self) hnone hnone'
        (cell_target_ne hsame).symm

theorem VectorBranch.isRelative (h : VectorBranch opcode) (hvcc : vcc opcode = 0) :
    IsRelative opcode := by
  obtain ⟨hmajor, hbits⟩ := h
  refine .inr (.inr ⟨?_, copBranches_iff.mpr ⟨hbits, vcc_eq_zero_iff.mp hvcc⟩⟩)
  rw [hmajor]
  decide

theorem VectorBranch.hidden (h : VectorBranch opcode) (hvcc : vcc opcode ≠ 0) :
    ¬IsRelative opcode ∧ ¬IsAbsolute opcode ∧ ¬IsRegister opcode := by
  have hapart : cop2Opcode ∉ branchOpcodes ∧ cop2Opcode ≠ regimmOpcode ∧
      cop2Opcode ≠ jalOpcode ∧ cop2Opcode ≠ jOpcode ∧ cop2Opcode ≠ specialOpcode := by
    decide
  obtain ⟨hbranch, hregimm, hjal, hj, hspecial⟩ := hapart
  rw [IsRelative, IsAbsolute, IsRegister, h.1]
  refine ⟨?_, not_or.mpr ⟨hjal, hj⟩, fun hreg => hspecial hreg.1⟩
  rintro (hmem | ⟨hmem, -⟩ | ⟨-, hbits⟩)
  · exact hbranch hmem
  · exact hregimm hmem
  · exact hvcc (vcc_eq_zero_iff.mpr (copBranches_iff.mp hbits).2)

/-- What the step reads decides which of the kinds of instructions it takes it for. -/
theorem seen_arms_iff (hseen : ¬Hidden s ctx.epc opcode) (hword : lw s.mem ctx.epc = opcode) :
    (∀ a ∈ successors ctx.r ctx.epc opcode, Armed (stepGeneric ctx false s) a) ↔
      Ready s ctx.r ctx.epc opcode := by
  have hdecode := congrArg (decodeStep ctx.r ctx.epc) hword
  have hvcc : VectorBranch opcode → vcc opcode = 0 := by
    intro h
    by_contra hne
    exact hseen (.inr ⟨h, hne⟩)
  by_cases hrelative : IsRelative opcode
  · exact relative_arms_iff hseen hrelative (hdecode.trans (decodeStep_relative hrelative))
  have hbranch : ¬(IsRelative opcode ∨ VectorBranch opcode) := by
    rintro (h | h)
    · exact hrelative h
    · exact hrelative (h.isRelative (hvcc h))
  by_cases habsolute : IsAbsolute opcode
  · apply single_arms_iff hseen ?_
      (stepGeneric_jump (hdecode.trans (decodeStep_absolute habsolute)) rfl rfl)
    rw [successors, if_neg hbranch, if_pos habsolute]
    exact fun a ha => List.mem_singleton.mp ha
  by_cases hregister : IsRegister opcode
  · apply single_arms_iff hseen ?_
      (stepGeneric_jump (hdecode.trans (decodeStep_register hregister)) rfl rfl)
    rw [successors, if_neg hbranch, if_neg habsolute, if_pos hregister]
    exact fun a ha => List.mem_singleton.mp ha
  · apply single_arms_iff hseen ?_
      (stepGeneric_next (hdecode.trans (decodeStep_next hrelative habsolute hregister)))
    rw [successors, if_neg hbranch, if_neg habsolute, if_neg hregister]
    exact fun a ha => List.mem_singleton.mp ha

/-- After any sequence of breakpoint calls, the step arms every successor of the instruction
exactly when the table is ready for it. -/
theorem step_arms_iff (program : Memory) (hw : HwDebugEnv) (ops : List DebugOp)
    (ctx : PsplinkContext) :
    let s := ops.foldl applyOp (initial program hw)
    let opcode := lw (Patch.applyAll (restorePatches s) s.mem) ctx.epc
    (∀ a ∈ successors ctx.r ctx.epc opcode, Armed (stepGeneric ctx false s) a) ↔
      Ready s ctx.r ctx.epc opcode := by
  intro s opcode
  have hs : Consistent program s := run_consistent (initial_consistent program hw) ops
  have hopcode : opcode = lw program ctx.epc := congrArg (lw · ctx.epc) hs.restored
  clear_value opcode s
  rcases lw_epc hs ctx.epc with ⟨hplanted, hword⟩ | ⟨hplain, hword⟩
  · obtain ⟨hrelative, habsolute, hregister⟩ := swBreakInst_next
    apply hidden_arms_iff (.inl hplanted)
    rw [hword]
    exact decodeStep_next hrelative habsolute hregister
  · rw [← hopcode] at hword
    by_cases hvector : VectorBranch opcode ∧ vcc opcode ≠ 0
    · obtain ⟨hrelative, habsolute, hregister⟩ := hvector.1.hidden hvector.2
      apply hidden_arms_iff (.inr hvector)
      rw [hword]
      exact decodeStep_next hrelative habsolute hregister
    · exact seen_arms_iff (not_or.mpr ⟨hplain, hvector⟩) hword

end

/-- A return with a breakpoint set on it: the break word is read in its place, and the step sets
a breakpoint behind it only. -/
theorem step_misses_return :
    let program : Memory := fun _ => 0x03E00008
    let s := applyOp (initial program ⟨0, 0, 0, 0⟩) (.setBP 0x08900000 ⟨0, by decide⟩ 0)
    let ctx : PsplinkContext := ⟨0x08900000, 0, 0, fun _ => 0x08800000, 0, 0, 0⟩
    lw (Patch.applyAll (restorePatches s) s.mem) ctx.epc = 0x03E00008 ∧
      0x08800000 ∈ successors ctx.r ctx.epc 0x03E00008 ∧
      ¬Armed (stepGeneric ctx false s) 0x08800000 := by
  intro program s ctx
  have hs : Consistent program s :=
    run_consistent (initial_consistent program ⟨0, 0, 0, 0⟩)
      [.setBP 0x08900000 ⟨0, by decide⟩ 0]
  refine ⟨congrArg (lw · ctx.epc) hs.restored, by decide, ?_⟩
  have hnone : findBp (stepGeneric ctx false s) 0x08800000 = none := by decide
  rintro ⟨i, hfind, -⟩
  exact absurd (hfind.symm.trans hnone) (Option.some_ne_none i)

end PsplinkUsb.Psplink.StepArming
