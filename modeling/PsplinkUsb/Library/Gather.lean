import Mathlib.Data.List.Range
import Mathlib.Logic.Function.Basic

namespace PsplinkUsb.Library.Gather

variable {α : Type*} {mem : ℕ → α} {source : ℕ → ℕ} {k : ℕ}

/-- The memory after the first `k` cells got theirs. -/
def gathered (source : ℕ → ℕ) (mem : ℕ → α) (k : ℕ) : ℕ → α :=
  fun i => if i < k then mem (source i) else mem i

@[simp] theorem gathered_zero (source : ℕ → ℕ) (mem : ℕ → α) : gathered source mem 0 = mem := rfl

theorem gathered_of_lt {i : ℕ} (h : i < k) : gathered source mem k i = mem (source i) := if_pos h

theorem update_gathered (h : k ≤ source k) :
    Function.update (gathered source mem k) k (gathered source mem k (source k)) =
      gathered source mem (k + 1) := by
  have hread : gathered source mem k (source k) = mem (source k) := if_neg (Nat.not_lt.mpr h)
  funext i
  rw [hread]
  rcases Nat.lt_trichotomy i k with hi | rfl | hi
  · rw [Function.update_of_ne (Nat.ne_of_lt hi), gathered_of_lt hi,
      gathered_of_lt (Nat.lt_succ_of_lt hi)]
  · rw [Function.update_self, gathered_of_lt (Nat.lt_succ_self i)]
  · rw [Function.update_of_ne (Nat.ne_of_gt hi), gathered, gathered, if_neg (by omega),
      if_neg (by omega)]

theorem pairwise_range (h : ∀ i, i ≤ source i) (n : ℕ) :
    ((List.range n).map fun i => (source i, i)).Pairwise fun earlier later =>
      earlier.2 ≠ later.1 := by
  rw [List.pairwise_map]
  apply List.Pairwise.imp _ List.pairwise_lt_range
  intro i j hij
  exact Nat.ne_of_lt (Nat.lt_of_lt_of_le hij (h j))

end PsplinkUsb.Library.Gather
