import Mathlib.Data.Nat.Notation

namespace PsplinkUsb.Library.Routines

/-- `C` are the calls, `R` what they answer, `S` the values of the register. -/
inductive Routine (C : Type) (R : C → Type) (S A : Type) where
  | done (a : A)
  | fault
  | call (c : C) (next : R c → Routine C R S A)
  | exchange (s : S) (next : S → Routine C R S A)

/-- What the system says to a call, if it is the call of that number. -/
abbrev Answers (C : Type) (R : C → Type) : Type := ℕ → (c : C) → R c

namespace Routine

variable {C : Type} {R : C → Type} {S A A' : Type}

def bind : Routine C R S A → (A → Routine C R S A') → Routine C R S A'
  | .done a, f => f a
  | .fault, _ => .fault
  | .call c next, f => .call c fun r => (next r).bind f
  | .exchange s next, f => .exchange s fun old => (next old).bind f

instance : Monad (Routine C R S) where
  pure := .done
  bind := .bind

/-- What a routine returns, the number of its next call and the register then; `none` after a
fault. -/
def run (answers : Answers C R) : Routine C R S A → ℕ → S → Option (A × ℕ × S)
  | .done a, n, s => some (a, n, s)
  | .fault, _, _ => none
  | .call c next, n, s => (next (answers n c)).run answers (n + 1) s
  | .exchange s' next, n, s => (next s).run answers n s'

/-- Whatever the system answers, the register is as before when the routine returns. -/
def Restores (p : Routine C R S A) : Prop :=
  ∀ (answers : Answers C R) (n : ℕ) (s : S), ∀ r ∈ p.run answers n s, r.2.2 = s

/-- A routine with the register at `s`, and the old value put back. -/
def within (s : S) (p : Routine C R S A) : Routine C R S A :=
  .exchange s fun old => p.bind fun a => .exchange old fun _ => .done a

theorem run_bind (answers : Answers C R) (p : Routine C R S A) (f : A → Routine C R S A') (n : ℕ)
    (s : S) :
    (p.bind f).run answers n s =
      (p.run answers n s).bind fun r => (f r.1).run answers r.2.1 r.2.2 := by
  induction p generalizing n s with
  | done a => rfl
  | fault => rfl
  | call c next ih => exact ih _ (n + 1) s
  | exchange s' next ih => exact ih s n s'

theorem run_within (answers : Answers C R) (s' : S) (p : Routine C R S A) (n : ℕ) (s : S) :
    (within s' p).run answers n s =
      (p.run answers n s').map fun r => (r.1, r.2.1, s) := by
  rw [within, run, run_bind]
  cases p.run answers n s' <;> rfl

theorem restores_within (s' : S) (p : Routine C R S A) : (within s' p).Restores := by
  intro answers n s r hr
  rw [run_within] at hr
  obtain ⟨r', -, rfl⟩ := Option.map_eq_some_iff.mp hr
  rfl

end Routine

end PsplinkUsb.Library.Routines
