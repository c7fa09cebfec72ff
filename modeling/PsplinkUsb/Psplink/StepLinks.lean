import PsplinkUsb.Psplink.StepArming

namespace PsplinkUsb.Psplink.StepLinks

open PsplinkUsb.Psplink.ProgramMemory
open PsplinkUsb.Psplink.BreakpointTable
open PsplinkUsb.Psplink.BreakpointConsistency
open PsplinkUsb.Psplink.Stepping
open PsplinkUsb.Psplink.StepArming

/-- The calls that work on the table. -/
inductive Call where
  | setBP (address flags : Word) (thid : Int)
  | deleteBP (addr : Word)
  | disableBP (addr : Word)
  | enableBP (addr : Word)
  | step (ctx : PsplinkContext) (skip : Bool)
  | clearException (ctx : PsplinkContext)

def applyCall (s : DebugState) : Call → DebugState
  | .setBP address flags thid => (debugSetBP address flags thid s).2
  | .deleteBP addr => (debugDeleteBP addr s).2
  | .disableBP addr => (debugDisableBP addr s).2
  | .enableBP addr => (debugEnableBP addr s).2
  | .step ctx skip => stepGeneric ctx skip s
  | .clearException ctx => (debugClearException ctx s).2

def Call.isStep : Call → Bool
  | .step _ _ => true
  | _ => false

def isStepBp (b : Breakpoint) : Bool := has b.flags debugBpStep

/-- The entry of slot `i` was armed on the way from `s` to `s'`. -/
def New (s s' : DebugState) (i : Slot) : Prop :=
  (s'.bps i).active = true ∧ (s.bps i).active = false

instance (s s' : DebugState) : DecidablePred (New s s') := fun _ => instDecidableAnd

/-- The debugger with a record of its calls, which are numbered: `owner` is the call that armed
the entry of a slot last, `armed` has the addresses that a call of `step_generic` armed. -/
structure Ledger where
  debug : DebugState
  calls : ℕ
  owner : Slot → ℕ
  armed : ℕ → Word → Prop

namespace Ledger

def empty (program : Memory) (hw : HwDebugEnv) : Ledger :=
  { debug := initial program hw, calls := 0, owner := fun _ => 0, armed := fun _ _ => False }

def call (l : Ledger) (c : Call) : Ledger :=
  let s' := applyCall l.debug c
  { debug := s'
    calls := l.calls + 1
    owner := fun i => if New l.debug s' i then l.calls else l.owner i
    armed := fun n a =>
      if n = l.calls then c.isStep = true ∧ ∃ i, New l.debug s' i ∧ (s'.bps i).addr = a
      else l.armed n a }

def active (l : Ledger) (i : Slot) : Prop := (l.debug.bps i).active = true

end Ledger

/-- What no call changes of an entry it leaves in the table. -/
structure SameEntry (b b' : Breakpoint) : Prop where
  addr : b'.addr = b.addr
  step : b'.step = b.step
  oneshot : b'.oneshot = b.oneshot
  isStep : isStepBp b' = isStepBp b

theorem SameEntry.refl (b : Breakpoint) : SameEntry b b := ⟨rfl, rfl, rfl, rfl⟩

/-- What a call does to the table: entries that stay are the ones they were, new ones are at
words without an entry, and those armed together are linked. -/
structure Effect (s s' : DebugState) : Prop where
  kept : ∀ i, (s'.bps i).active = true → (s.bps i).active = true →
    SameEntry (s.bps i) (s'.bps i)
  fresh : ∀ i j, New s s' i → (s'.bps j).active = true →
    cell (s'.bps i).addr = cell (s'.bps j).addr → i = j
  links : ∀ i j, New s s' i → (s'.bps i).step = some j → j ≠ i ∧ New s s' j
  partners : ∀ i j, New s s' i → New s s' j → i ≠ j → (s'.bps i).step = some j

variable {s s' s'' : DebugState} {a : Word} {i j : Slot} {b c : Breakpoint}

/-- No entry is armed. -/
def Shrinks (s s' : DebugState) : Prop :=
  ∀ i, (s'.bps i).active = true → (s.bps i).active = true ∧ SameEntry (s.bps i) (s'.bps i)

theorem Shrinks.refl (s : DebugState) : Shrinks s s := fun _ h => ⟨h, .refl _⟩

theorem Shrinks.trans (h : Shrinks s s') (h' : Shrinks s' s'') : Shrinks s s'' := by
  intro i hi
  obtain ⟨hi', hsame'⟩ := h' i hi
  obtain ⟨hi, hsame⟩ := h i hi'
  exact ⟨hi, hsame'.addr.trans hsame.addr, hsame'.step.trans hsame.step,
    hsame'.oneshot.trans hsame.oneshot, hsame'.isStep.trans hsame.isStep⟩

theorem Shrinks.not_new (h : Shrinks s s') : ¬New s s' i := by
  rintro ⟨hi, hfree⟩
  rw [(h i hi).1] at hfree
  cases hfree

theorem Shrinks.effect (h : Shrinks s s') : Effect s s' where
  kept i hi _ := (h i hi).2
  fresh _ _ hnew := absurd hnew h.not_new
  links _ _ hnew := absurd hnew h.not_new
  partners _ _ hnew := absurd hnew h.not_new

theorem Shrinks.of_update (hactive : (s.bps i).active = true)
    (hsame : b.active = true → SameEntry (s.bps i) b)
    (hbps : s'.bps = Function.update s.bps i b) : Shrinks s s' := by
  intro j hj
  rw [hbps] at hj ⊢
  rcases eq_or_ne j i with rfl | hne
  · rw [Function.update_self] at hj ⊢
    exact ⟨hactive, hsame hj⟩
  · rw [Function.update_of_ne hne] at hj ⊢
    exact ⟨hj, .refl _⟩

theorem debugDeleteBP_shrinks (addr : Word) (s : DebugState) :
    Shrinks s (debugDeleteBP addr s).2 := by
  rw [debugDeleteBP]
  rcases Option.eq_none_or_eq_some (findBp s addr) with hfind | ⟨i, hfind⟩
  · rw [hfind]
    exact .refl s
  · rw [hfind]
    refine .of_update (b := { s.bps i with flags := 0 }) (findBp_some hfind).1 ?_ (by simp)
    intro hzero
    exact absurd ((has_zero debugBpActive).symm.trans hzero) Bool.false_ne_true

theorem debugDisableBP_shrinks (addr : Word) (s : DebugState) :
    Shrinks s (debugDisableBP addr s).2 := by
  rw [debugDisableBP]
  rcases Option.eq_none_or_eq_some (findBp s addr) with hfind | ⟨i, hfind⟩
  · rw [hfind]
    exact .refl s
  · rw [hfind]
    refine .of_update (b := { s.bps i with flags := (s.bps i).flags ||| debugBpDisabled })
      (findBp_some hfind).1 ?_ (by simp)
    intro _
    refine ⟨rfl, rfl, ?_, ?_⟩
    · exact (has_or _ _ _).trans (Bool.or_false _)
    · exact (has_or _ _ _).trans (Bool.or_false _)

theorem debugEnableBP_shrinks (addr : Word) (s : DebugState) :
    Shrinks s (debugEnableBP addr s).2 := by
  rw [debugEnableBP]
  rcases Option.eq_none_or_eq_some (findBp s addr) with hfind | ⟨i, hfind⟩
  · rw [hfind]
    exact .refl s
  · rw [hfind]
    refine .of_update (b := { s.bps i with
        flags := (s.bps i).flags &&& ~~~(debugBpDisabled ||| debugBpNextReenable) })
      (findBp_some hfind).1 ?_ (by simp)
    intro _
    exact ⟨rfl, rfl, has_and _ _ _, has_and _ _ _⟩

theorem debugClearException_shrinks (ctx : PsplinkContext) (s : DebugState) :
    Shrinks s (debugClearException ctx s).2 := by
  rw [debugClearException]
  dsimp only
  split
  · exact .refl s
  · split
    · exact .refl s
    · split
      · split
        · exact debugDeleteBP_shrinks _ s
        · exact (debugDeleteBP_shrinks _ s).trans (debugDeleteBP_shrinks _ _)
      · exact .refl s

/-- One entry is armed. -/
structure Arms (s s' : DebugState) (i : Slot) (b : Breakpoint) : Prop where
  free : (s.bps i).active = false
  fresh : findBp s b.addr = none
  active : b.active = true
  bps : s'.bps = Function.update s.bps i b

theorem debugSetBP_cases (address flags : Word) (thid : Int) (s : DebugState) :
    debugSetBP address flags thid s = (none, s) ∨
      ∃ i, (debugSetBP address flags thid s).1 = some i ∧
        Arms s (debugSetBP address flags thid s).2 i
          { addr := address, inst := lw s.mem address,
            flags := debugBpActive ||| flags, thid := thid, step := none } := by
  rcases Option.eq_none_or_eq_some (findBp s address) with hfind | ⟨i, hfind⟩
  · rcases Bool.eq_false_or_eq_true (has flags debugBpHardware && (findHwbp s).isSome) with
      hhw | hhw
    · left
      rw [debugSetBP, hfind]
      exact if_pos hhw
    · rcases Option.eq_none_or_eq_some (findFreebp s) with hfree | ⟨i, hfree⟩
      · left
        simp [debugSetBP, hfind, hhw, hfree]
      · right
        refine ⟨i, by simp [debugSetBP, hfind, hhw, hfree], findFreebp_some hfree, hfind, ?_, ?_⟩
        · exact (has_or _ _ _).trans (Bool.true_or _)
        · simp [debugSetBP, hfind, hhw, hfree]
  · left
    rw [debugSetBP, hfind]

theorem Arms.self (h : Arms s s' i b) : s'.bps i = b := by
  rw [h.bps, Function.update_self]

theorem Arms.other (h : Arms s s' i b) (hj : j ≠ i) : s'.bps j = s.bps j := by
  rw [h.bps, Function.update_of_ne hj]

theorem Arms.new_iff (h : Arms s s' i b) : New s s' j ↔ j = i := by
  constructor
  · rintro ⟨hj, hfree⟩
    by_contra hne
    rw [h.other hne, hfree] at hj
    cases hj
  · rintro rfl
    exact ⟨h.self ▸ h.active, h.free⟩

theorem Arms.ne_of_active (h : Arms s s' i b) (hj : (s.bps j).active = true) : j ≠ i := by
  rintro rfl
  rw [h.free] at hj
  cases hj

theorem Arms.cell_ne (h : Arms s s' i b) (hj : (s.bps j).active = true) :
    cell (s'.bps i).addr ≠ cell (s'.bps j).addr := by
  rw [h.self, h.other (h.ne_of_active hj)]
  exact (findBp_none h.fresh hj).symm

theorem Arms.effect (h : Arms s s' i b) (hstep : b.step = none) : Effect s s' where
  kept j _ hj := by
    rw [h.other (h.ne_of_active hj)]
    exact .refl _
  fresh j k hnew hk hcell := by
    rw [h.new_iff] at hnew
    subst hnew
    by_contra hne
    exact h.cell_ne (h.other (Ne.symm hne) ▸ hk) hcell
  links j k hnew hlink := by
    rw [h.new_iff.mp hnew, h.self, hstep] at hlink
    cases hlink
  partners j k hnew hnew' hne :=
    absurd ((h.new_iff.mp hnew).trans (h.new_iff.mp hnew').symm) hne

theorem Arms.setStep_none (h : Arms s s' i b) (hstep : b.step = none) :
    Arms s (setStep (some i) none s') i b where
  free := h.free
  fresh := h.fresh
  active := h.active
  bps := by
    have hself : { b with step := none } = b := by rw [← hstep]
    rw [setStep, DebugState.setBp_bps, h.self, hself, h.bps, Function.update_idem]

/-- Two entries are armed that are linked to each other. -/
structure ArmsPair (s t : DebugState) (i j : Slot) (b c : Breakpoint) : Prop where
  left : Arms s { s with bps := Function.update s.bps i b } i b
  right : Arms s { s with bps := Function.update s.bps j c } j c
  ne : i ≠ j
  cells : cell b.addr ≠ cell c.addr
  stepLeft : b.step = some j
  stepRight : c.step = some i
  bps : t.bps = Function.update (Function.update s.bps i b) j c

theorem Arms.pair (h : Arms s s' i b) (h' : Arms s' s'' j c) :
    ArmsPair s (setStep (some j) (some i) (setStep (some i) (some j) s'')) i j
      { b with step := some j } { c with step := some i } := by
  have hne : i ≠ j := h'.ne_of_active (h.self ▸ h.active)
  have hfresh : findBp s c.addr = none := by
    have hother := (findBp_update h.free h.active h.bps c.addr).1
    rw [← hother, h'.fresh]
    have hcell := findBp_none h'.fresh (h.self ▸ h.active)
    rw [h.self] at hcell
    exact hcell.symm
  refine ⟨⟨h.free, h.fresh, h.active, rfl⟩, ⟨?_, hfresh, h'.active, rfl⟩, hne, ?_, rfl, rfl, ?_⟩
  · rw [← h.other hne.symm]
    exact h'.free
  · have hcell := h'.cell_ne (h.self ▸ h.active)
    rw [h'.self, h'.other hne, h.self] at hcell
    exact hcell.symm
  · funext k
    simp only [setStep, DebugState.setBp_bps, h'.bps, h.bps, Function.update_apply, hne, hne.symm,
      if_true, if_false]
    split <;> [rfl; split <;> rfl]

namespace ArmsPair

theorem bps_left (h : ArmsPair s s' i j b c) : s'.bps i = b := by
  rw [h.bps, Function.update_of_ne h.ne, Function.update_self]

theorem bps_right (h : ArmsPair s s' i j b c) : s'.bps j = c := by
  rw [h.bps, Function.update_self]

theorem bps_other (h : ArmsPair s s' i j b c) {k : Slot} (hk : k ≠ i ∧ k ≠ j) :
    s'.bps k = s.bps k := by
  rw [h.bps, Function.update_of_ne hk.2, Function.update_of_ne hk.1]

theorem ne_of_active (h : ArmsPair s s' i j b c) {k : Slot} (hk : (s.bps k).active = true) :
    k ≠ i ∧ k ≠ j :=
  ⟨h.left.ne_of_active hk, h.right.ne_of_active hk⟩

theorem new_iff (h : ArmsPair s s' i j b c) {k : Slot} : New s s' k ↔ k = i ∨ k = j := by
  constructor
  · rintro ⟨hactive, hfree⟩
    by_contra hk
    rw [h.bps_other (not_or.mp hk), hfree] at hactive
    cases hactive
  · rintro (rfl | rfl)
    · exact ⟨h.bps_left ▸ h.left.active, h.left.free⟩
    · exact ⟨h.bps_right ▸ h.right.active, h.right.free⟩

theorem symm (h : ArmsPair s s' i j b c) : ArmsPair s s' j i c b where
  left := h.right
  right := h.left
  ne := h.ne.symm
  cells := h.cells.symm
  stepLeft := h.stepRight
  stepRight := h.stepLeft
  bps := h.bps.trans (Function.update_comm h.ne _ _ _)

theorem fresh_left (h : ArmsPair s s' i j b c) {k : Slot} (hk : (s'.bps k).active = true)
    (hcell : cell (s'.bps i).addr = cell (s'.bps k).addr) : i = k := by
  by_contra hne
  rw [h.bps_left] at hcell
  rcases eq_or_ne k j with rfl | hkj
  · exact h.cells (h.bps_right ▸ hcell)
  · rw [h.bps_other ⟨Ne.symm hne, hkj⟩] at hk hcell
    exact findBp_none h.left.fresh hk hcell.symm

theorem effect (h : ArmsPair s s' i j b c) : Effect s s' where
  kept k _ hk := by
    rw [h.bps_other (h.ne_of_active hk)]
    exact .refl _
  fresh k l hk hl hcell := by
    rcases h.new_iff.mp hk with rfl | rfl
    · exact h.fresh_left hl hcell
    · exact h.symm.fresh_left hl hcell
  links k l hk hlink := by
    rcases h.new_iff.mp hk with rfl | rfl
    · rw [h.bps_left, h.stepLeft] at hlink
      rw [← Option.some.inj hlink]
      exact ⟨h.ne.symm, h.new_iff.mpr (.inr rfl)⟩
    · rw [h.bps_right, h.stepRight] at hlink
      rw [← Option.some.inj hlink]
      exact ⟨h.ne, h.new_iff.mpr (.inl rfl)⟩
  partners k l hk hl hkl := by
    rcases h.new_iff.mp hk with rfl | rfl
    · rw [h.bps_left, h.stepLeft, (h.new_iff.mp hl).resolve_left (Ne.symm hkl)]
    · rw [h.bps_right, h.stepRight, (h.new_iff.mp hl).resolve_right (Ne.symm hkl)]

end ArmsPair

/-- The flags `step_generic` arms its entries with. -/
def StepFlags (b : Breakpoint) : Prop := b.oneshot = true ∧ isStepBp b = true

theorem stepBreakpoint_flags (t inst : Word) (thid : Int) :
    StepFlags (stepBreakpoint t inst thid) := by
  have hflags :
      has (debugBpActive ||| (debugBpOneshot ||| debugBpStep)) debugBpOneshot = true ∧
        has (debugBpActive ||| (debugBpOneshot ||| debugBpStep)) debugBpStep = true := by
    decide
  exact hflags

/-- What a step does to the table. -/
structure StepEffect (s s' : DebugState) : Prop extends Effect s s' where
  flags : ∀ i, New s s' i → StepFlags (s'.bps i)

theorem Shrinks.stepEffect (h : Shrinks s s') : StepEffect s s' :=
  ⟨h.effect, fun _ hnew => absurd hnew h.not_new⟩

theorem Arms.stepEffect (h : Arms s s' i b) (hstep : b.step = none) (hflags : StepFlags b) :
    StepEffect s s' := by
  refine ⟨h.effect hstep, ?_⟩
  intro j hj
  rw [h.new_iff.mp hj, h.self]
  exact hflags

theorem ArmsPair.stepEffect (h : ArmsPair s s' i j b c) (hb : StepFlags b) (hc : StepFlags c) :
    StepEffect s s' := by
  refine ⟨h.effect, ?_⟩
  intro k hk
  rcases h.new_iff.mp hk with rfl | rfl
  · exact h.bps_left ▸ hb
  · exact h.bps_right ▸ hc

theorem armStep_arms (t : Word) (thid : Int) (s : DebugState) :
    armStep t thid s = (none, s) ∨
      ∃ i inst, (armStep t thid s).1 = some i ∧
        Arms s (armStep t thid s).2 i (stepBreakpoint t inst thid) := by
  rcases debugSetBP_cases t (debugBpOneshot ||| debugBpStep) thid s with hnone | ⟨i, hi, harms⟩
  · exact .inl hnone
  · exact .inr ⟨i, lw s.mem t, hi, harms⟩

theorem armStep_effect (t : Word) (thid : Int) (s : DebugState) :
    StepEffect s (armStep t thid s).2 := by
  rcases armStep_arms t thid s with hnone | ⟨i, inst, -, harms⟩
  · rw [hnone]
    exact (Shrinks.refl s).stepEffect
  · exact harms.stepEffect rfl (stepBreakpoint_flags t inst thid)

theorem armBoth_effect (t u : Word) (thid : Int) (s : DebugState) :
    StepEffect s
      (setStep (armStep u thid (armStep t thid s).2).1 (armStep t thid s).1
        (setStep (armStep t thid s).1 (armStep u thid (armStep t thid s).2).1
          (armStep u thid (armStep t thid s).2).2)) := by
  rcases armStep_arms t thid s with hfirst | ⟨i, inst, hi, hfirst⟩
  · rw [hfirst]
    rcases armStep_arms u thid s with hsecond | ⟨j, inst, hj, hsecond⟩
    · rw [hsecond]
      exact (Shrinks.refl s).stepEffect
    · rw [hj]
      exact (hsecond.setStep_none rfl).stepEffect rfl (stepBreakpoint_flags u inst thid)
  · rw [hi]
    rcases armStep_arms u thid (armStep t thid s).2 with hsecond | ⟨j, inst', hj, hsecond⟩
    · rw [hsecond]
      exact (hfirst.setStep_none rfl).stepEffect rfl (stepBreakpoint_flags t inst thid)
    · rw [hj]
      exact (hfirst.pair hsecond).stepEffect (stepBreakpoint_flags t inst thid)
        (stepBreakpoint_flags u inst' thid)

theorem stepGeneric_effect (ctx : PsplinkContext) (skip : Bool) (s : DebugState) :
    StepEffect s (stepGeneric ctx skip s) := by
  rw [stepGeneric]
  dsimp only
  split
  · exact armStep_effect _ _ s
  · split
    · split
      · exact armBoth_effect _ _ _ s
      · exact armStep_effect _ _ s
    · exact armStep_effect _ _ s

theorem applyCall_effect (s : DebugState) (c : Call) : Effect s (applyCall s c) := by
  cases c with
  | setBP address flags thid =>
      rcases debugSetBP_cases address flags thid s with hnone | ⟨i, -, harms⟩
      · rw [applyCall, hnone]
        exact (Shrinks.refl s).effect
      · exact harms.effect rfl
  | deleteBP addr => exact (debugDeleteBP_shrinks addr s).effect
  | disableBP addr => exact (debugDisableBP_shrinks addr s).effect
  | enableBP addr => exact (debugEnableBP_shrinks addr s).effect
  | step ctx skip => exact (stepGeneric_effect ctx skip s).toEffect
  | clearException ctx => exact (debugClearException_shrinks ctx s).effect

/-- What the links of the entries say about the calls that armed them. -/
structure Linked (l : Ledger) : Prop where
  cells : ∀ i j, l.active i → l.active j →
    cell (l.debug.bps i).addr = cell (l.debug.bps j).addr → i = j
  past : ∀ i, l.active i → l.owner i < l.calls
  links : ∀ i j, l.active i → (l.debug.bps i).step = some j →
    j ≠ i ∧ l.owner i ≤ l.owner j ∧ l.owner j < l.calls
  partners : ∀ i j, l.active i → l.active j → l.owner i = l.owner j → i ≠ j →
    (l.debug.bps i).step = some j
  flags : ∀ i a, l.active i → l.armed (l.owner i) a → StepFlags (l.debug.bps i)
  armedPast : ∀ n a, l.armed n a → n < l.calls

theorem Linked.owner_eq {l : Ledger} (h : Linked l) (hi : l.active i) (hj : l.active j)
    (hlink : (l.debug.bps i).step = some j) (hback : (l.debug.bps j).step = some i) :
    l.owner i = l.owner j :=
  le_antisymm (h.links i j hi hlink).2.1 (h.links j i hj hback).2.1

theorem empty_linked (program : Memory) (hw : HwDebugEnv) : Linked (.empty program hw) := by
  have hfree : ∀ i, ¬(Ledger.empty program hw).active i := by
    intro i
    simp [Ledger.active, Ledger.empty, initial]
  constructor
  · exact fun i _ hi => absurd hi (hfree i)
  · exact fun i hi => absurd hi (hfree i)
  · exact fun i _ hi => absurd hi (hfree i)
  · exact fun i _ hi => absurd hi (hfree i)
  · exact fun i _ hi => absurd hi (hfree i)
  · exact fun _ _ harmed => harmed.elim

section

variable {l : Ledger} {c : Call} {n : ℕ}

theorem owner_new (hnew : New l.debug (applyCall l.debug c) i) :
    (l.call c).owner i = l.calls := if_pos hnew

theorem owner_old (hold : ¬New l.debug (applyCall l.debug c) i) :
    (l.call c).owner i = l.owner i := if_neg hold

theorem new_or_old (hi : (l.call c).active i) :
    New l.debug (applyCall l.debug c) i ∧ (l.call c).owner i = l.calls ∨
      l.active i ∧ (l.call c).owner i = l.owner i ∧
        SameEntry (l.debug.bps i) ((l.call c).debug.bps i) := by
  rcases Bool.eq_false_or_eq_true (l.debug.bps i).active with hactive | hfree
  · right
    refine ⟨hactive, owner_old ?_, (applyCall_effect l.debug c).kept i hi hactive⟩
    exact fun hnew => absurd (hactive.symm.trans hnew.2) (by decide)
  · exact .inl ⟨⟨hi, hfree⟩, owner_new ⟨hi, hfree⟩⟩

theorem owner_le (h : Linked l) (hi : (l.call c).active i) : (l.call c).owner i ≤ l.calls := by
  rcases new_or_old hi with ⟨-, howner⟩ | ⟨hactive, howner, -⟩
  · exact howner.le
  · exact howner ▸ (h.past i hactive).le

theorem Linked.call (h : Linked l) (c : Call) : Linked (l.call c) := by
  have heffect := applyCall_effect l.debug c
  constructor
  · intro i j hi hj hcell
    rcases new_or_old hi with ⟨hnew, -⟩ | ⟨hi', -, hsame⟩
    · exact heffect.fresh i j hnew hj hcell
    · rcases new_or_old hj with ⟨hnew, -⟩ | ⟨hj', -, hsame'⟩
      · exact (heffect.fresh j i hnew hi hcell.symm).symm
      · rw [hsame.addr, hsame'.addr] at hcell
        exact h.cells i j hi' hj' hcell
  · exact fun i hi => Nat.lt_succ_of_le (owner_le h hi)
  · intro i j hi hlink
    rcases new_or_old hi with ⟨hnew, howner⟩ | ⟨hi', howner, hsame⟩
    · obtain ⟨hne, hnew'⟩ := heffect.links i j hnew hlink
      rw [howner, owner_new hnew']
      exact ⟨hne, le_rfl, Nat.lt_succ_self _⟩
    · rw [hsame.step] at hlink
      obtain ⟨hne, hle, hlt⟩ := h.links i j hi' hlink
      rw [howner]
      rcases Decidable.em (New l.debug (applyCall l.debug c) j) with hnew | hold
      · rw [owner_new hnew]
        exact ⟨hne, (h.past i hi').le, Nat.lt_succ_self _⟩
      · rw [owner_old hold]
        exact ⟨hne, hle, Nat.lt_succ_of_lt hlt⟩
  · intro i j hi hj hsame hne
    rcases new_or_old hi with ⟨hnew, howner⟩ | ⟨hi', howner, hi''⟩
    · rcases new_or_old hj with ⟨hnew', -⟩ | ⟨hj', howner', -⟩
      · exact heffect.partners i j hnew hnew' hne
      · rw [howner, howner'] at hsame
        exact absurd hsame (h.past j hj').ne'
    · rcases new_or_old hj with ⟨-, howner'⟩ | ⟨hj', howner', -⟩
      · rw [howner, howner'] at hsame
        exact absurd hsame (h.past i hi').ne
      · rw [howner, howner'] at hsame
        rw [hi''.step]
        exact h.partners i j hi' hj' hsame hne
  · intro i a hi harmed
    rcases new_or_old hi with ⟨hnew, howner⟩ | ⟨hi', howner, hsame⟩
    · rw [howner] at harmed
      obtain ⟨hstep, -⟩ : c.isStep = true ∧ _ := by simpa [Ledger.call] using harmed
      cases c with
      | step ctx skip => exact (stepGeneric_effect ctx skip l.debug).flags i hnew
      | _ => cases hstep
    · rw [howner] at harmed
      have harmed : l.armed (l.owner i) a := by
        simpa [Ledger.call, (h.past i hi').ne] using harmed
      obtain ⟨honeshot, hstep⟩ := h.flags i a hi' harmed
      exact ⟨hsame.oneshot.trans honeshot, hsame.isStep.trans hstep⟩
  · intro n a harmed
    rcases eq_or_ne n l.calls with rfl | hne
    · exact Nat.lt_succ_self _
    · have harmed : l.armed n a := by simpa [Ledger.call, hne] using harmed
      exact Nat.lt_succ_of_lt (h.armedPast n a harmed)

theorem run_linked (h : Linked l) (calls : List Call) : Linked (calls.foldl Ledger.call l) := by
  induction calls generalizing l with
  | nil => exact h
  | cons c calls ih => exact ih (h.call c)

end

end PsplinkUsb.Psplink.StepLinks
