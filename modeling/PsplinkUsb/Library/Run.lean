import Mathlib.Data.List.Basic

/-!
Finite runs of a machine whose actions may be refused. A run records the
actions taken; a guard restricts the steps a run may take, so that a result
about guarded runs says under which discipline of the callers it holds.
-/

namespace PsplinkUsb.Library.Run

universe u v

variable {State : Type u} {Action : Type v}

/-- `Reaches step guard start actions s`: taking `actions` in order from
`start`, every one of them enabled and meeting `guard`, ends in `s`. -/
inductive Reaches (step : State → Action → Option State)
    (guard : State → Action → Prop) (start : State) :
    List Action → State → Prop
  | start : Reaches step guard start [] start
  | step {actions : List Action} {s s' : State} {a : Action}
      (hrun : Reaches step guard start actions s) (hguard : guard s a)
      (hstep : step s a = some s') :
      Reaches step guard start (actions ++ [a]) s'

def anyStep (_ : State) (_ : Action) : Prop := True

instance (s : State) (a : Action) : Decidable (anyStep s a) := .isTrue trivial

variable {step : State → Action → Option State}
  {guard guard' : State → Action → Prop} {start s : State}
  {actions : List Action}

/-- What holds at the start and is preserved by every guarded step holds in
every state a guarded run reaches. -/
theorem Reaches.invariant {Inv : State → Prop}
    (hrun : Reaches step guard start actions s) (hstart : Inv start)
    (hpreserved : ∀ s a s', Inv s → guard s a → step s a = some s' → Inv s') :
    Inv s := by
  induction hrun with
  | start => exact hstart
  | step _ hguard hstep ih => exact hpreserved _ _ _ ih hguard hstep

theorem Reaches.mono (hrun : Reaches step guard start actions s)
    (hweaker : ∀ s a, guard s a → guard' s a) :
    Reaches step guard' start actions s := by
  induction hrun with
  | start => exact .start
  | step _ hguard hstep ih => exact .step ih (hweaker _ _ hguard) hstep

/-- Take `actions` in order, checking the guard: a concrete guarded run is
found by evaluation. -/
def runGuarded (step : State → Action → Option State)
    (guard : State → Action → Prop) [∀ s a, Decidable (guard s a)] :
    State → List Action → Option State
  | s, [] => some s
  | s, a :: rest =>
      if guard s a then (step s a).bind fun s' => runGuarded step guard s' rest
      else none

theorem Reaches.trans {middle finish : State} {rest : List Action}
    (hfirst : Reaches step guard start actions middle)
    (hsecond : Reaches step guard middle rest finish) :
    Reaches step guard start (actions ++ rest) finish := by
  induction hsecond with
  | start => simpa using hfirst
  | step _ hguard hstep ih =>
      rw [← List.append_assoc]
      exact .step ih hguard hstep

theorem reaches_of_runGuarded [∀ s a, Decidable (guard s a)]
    (hrun : runGuarded step guard start actions = some s) :
    Reaches step guard start actions s := by
  induction actions generalizing start with
  | nil =>
      obtain rfl : start = s := by simpa [runGuarded] using hrun
      exact .start
  | cons a rest ih =>
      rw [runGuarded] at hrun
      split at hrun
      · rename_i hguard
        obtain ⟨middle, hstep, hrest⟩ := Option.bind_eq_some_iff.mp hrun
        exact (Reaches.step .start hguard hstep).trans (ih hrest)
      · simp at hrun

/-- A guarded run found by evaluation, with a test of the state it ends in. -/
theorem exists_reaches [∀ s a, Decidable (guard s a)] {test : State → Bool}
    (hrun : (runGuarded step guard start actions).any test = true) :
    ∃ s, Reaches step guard start actions s ∧ test s = true := by
  obtain ⟨s, hs, htest⟩ := (Option.any_eq_true _ _).mp hrun
  exact ⟨s, reaches_of_runGuarded hs, htest⟩

end PsplinkUsb.Library.Run
