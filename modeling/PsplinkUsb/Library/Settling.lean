import Mathlib.Data.Nat.Notation

namespace PsplinkUsb.Library.Settling

universe u

variable {C : Type u} {step : C → C → Prop}

/-- `Steps step n c d`: `n` steps lead from `c` to `d`. -/
inductive Steps (step : C → C → Prop) : ℕ → C → C → Prop
  | refl (c : C) : Steps step 0 c c
  | head {n : ℕ} {c d e : C} (hstep : step c d) (hrest : Steps step n d e) :
      Steps step (n + 1) c e

theorem Steps.single {c d : C} (h : step c d) : Steps step 1 c d := .head h (.refl d)

theorem Steps.trans {n m : ℕ} {c d e : C} (h₁ : Steps step n c d) (h₂ : Steps step m d e) :
    Steps step (n + m) c e := by
  induction h₁ with
  | refl c => simpa using h₂
  | head hstep _ ih =>
      rw [Nat.add_right_comm]
      exact .head hstep (ih h₂)

/-- Two steps from one state can be completed to the same state. -/
def Diamond (step : C → C → Prop) : Prop :=
  ∀ c a b, step c a → step c b → a = b ∨ ∃ d, step a d ∧ step b d

def Terminal (step : C → C → Prop) (d : C) : Prop := ∀ e, ¬ step d e

/-- Every run from `c` comes to `d`, after a fixed number of steps, and stops. -/
def Settles (step : C → C → Prop) (c d : C) : Prop :=
  Terminal step d ∧ ∃ N, ∀ k e, Steps step k c e → k ≤ N ∧ Steps step (N - k) e d

theorem Settles.unique {c d d' : C} (h : Settles step c d) (h' : Settles step c d') : d = d' := by
  obtain ⟨hterminal, N, hN⟩ := h
  obtain ⟨-, M, hM⟩ := h'
  obtain ⟨-, hrest⟩ := hM N d (hN 0 c (.refl c)).2
  generalize M - N = k at hrest
  cases hrest with
  | refl => rfl
  | head hstep _ => exact absurd hstep (hterminal _)

/-- In a commuting system one finished run decides all others: take the first
step of another run and let the finished one follow. -/
theorem settles_of_steps {N : ℕ} {c d : C} (hdiamond : Diamond step)
    (hrun : Steps step N c d) (hterminal : Terminal step d) : Settles step c d := by
  refine ⟨hterminal, N, ?_⟩
  have hfollow : ∀ {N : ℕ} {c a : C}, Steps step (N + 1) c d → step c a → Steps step N a d := by
    intro N
    induction N with
    | zero =>
        rintro c a hrun hstep
        obtain _ | ⟨hfirst, hrest⟩ := hrun
        obtain _ | _ := hrest
        rcases hdiamond c d a hfirst hstep with rfl | ⟨e, hde, -⟩
        · exact .refl _
        · exact absurd hde (hterminal e)
    | succ N ih =>
        rintro c a hrun hstep
        obtain _ | ⟨hfirst, hrest⟩ := hrun
        rcases hdiamond c _ a hfirst hstep with rfl | ⟨e, hde, hae⟩
        · exact hrest
        · exact .head hae (ih hrest hde)
  intro k
  induction k generalizing N c with
  | zero =>
      intro e he
      obtain _ | _ := he
      exact ⟨Nat.zero_le N, hrun⟩
  | succ k ih =>
      intro e he
      obtain _ | ⟨hfirst, hrest⟩ := he
      cases N with
      | zero =>
          obtain _ | _ := hrun
          exact absurd hfirst (hterminal _)
      | succ N =>
          obtain ⟨hle, hend⟩ := ih (hfollow hrun hfirst) e hrest
          exact ⟨Nat.succ_le_succ hle, by simpa using hend⟩

end PsplinkUsb.Library.Settling
