import Mathlib.Data.List.Range

namespace PsplinkUsb.Library.Occurrences

variable (p : ℕ → Prop) [DecidablePred p]

/-- The places with the property, of `count` from `i` on. -/
def occurrences (i count : ℕ) : List ℕ := (List.range' i count).filter fun j => p j

/-- The first of them. -/
def first : ℕ → ℕ → Option ℕ
  | _, 0 => none
  | i, count + 1 => if p i then some i else first (i + 1) count

variable {p} {i j k count : ℕ}

theorem mem_occurrences : j ∈ occurrences p i count ↔ (i ≤ j ∧ j < i + count) ∧ p j := by
  rw [occurrences, List.mem_filter, List.mem_range'_1, decide_eq_true_iff]

theorem pairwise_occurrences : (occurrences p i count).Pairwise (· < ·) :=
  List.Pairwise.filter _ List.pairwise_lt_range'

theorem occurrences_succ :
    occurrences p i (count + 1) =
      if p i then i :: occurrences p (i + 1) count else occurrences p (i + 1) count := by
  rw [occurrences, List.range'_succ, List.filter_cons]
  exact if_congr decide_eq_true_iff rfl rfl

theorem occurrences_of_first_none (h : first p i count = none) : occurrences p i count = [] := by
  induction count generalizing i with
  | zero => rfl
  | succ count ih =>
      rw [first] at h
      split at h
      · cases h
      · rename_i hp
        rw [occurrences_succ, if_neg hp, ih h]

theorem first_lt (h : first p i count = some j) : i ≤ j ∧ j < i + count := by
  induction count generalizing i with
  | zero => cases h
  | succ count ih =>
      rw [first] at h
      split at h
      · cases h
        omega
      · have hlt := ih h
        omega

theorem occurrences_of_first (h : first p i count = some j) :
    occurrences p i count = j :: occurrences p (j + 1) (i + count - (j + 1)) := by
  induction count generalizing i with
  | zero => cases h
  | succ count ih =>
      rw [first] at h
      split at h
      · rename_i hp
        have hcount : i + (count + 1) - (i + 1) = count := by omega
        rw [← Option.some.inj h, occurrences_succ, if_pos hp, hcount]
      · rename_i hp
        have hcount : i + 1 + count - (j + 1) = i + (count + 1) - (j + 1) := by omega
        rw [occurrences_succ, if_neg hp, ih h, hcount]

end PsplinkUsb.Library.Occurrences
