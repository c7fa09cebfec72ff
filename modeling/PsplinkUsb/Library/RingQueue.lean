import Mathlib.Data.List.Basic
import Mathlib.Logic.Function.Basic
import Mathlib.Tactic.Ring
import Mathlib.Tactic.Linarith

namespace PsplinkUsb.Library.RingQueue

universe u

variable {α : Type u} {N : ℕ} {buffer : ℤ → α}

/-- The `n` elements queued from position `r` on. -/
def contents (N : ℕ) (buffer : ℤ → α) (r : ℤ) (n : ℕ) : List α :=
  (List.range n).map fun i : ℕ => buffer ((r + i) % N)

@[simp] theorem length_contents (r : ℤ) (n : ℕ) : (contents N buffer r n).length = n := by
  simp [contents]

@[simp] theorem contents_zero (r : ℤ) : contents N buffer r 0 = [] := rfl

theorem contents_emod (r : ℤ) (n : ℕ) :
    contents N buffer (r % N) n = contents N buffer r n := by
  simp [contents]

theorem contents_succ (r : ℤ) (n : ℕ) :
    contents N buffer r (n + 1) = buffer (r % N) :: contents N buffer (r + 1) n := by
  simp only [contents, List.range_succ_eq_map, List.map_cons, List.map_map]
  congr 1
  · simp
  · refine List.map_congr_left fun i _ => ?_
    simp only [Function.comp_apply, Nat.cast_succ]
    congr 2
    ring

theorem emod_ne {r : ℤ} {i n : ℕ} (hi : i < n) (hn : n < N) :
    (r + i) % N ≠ (r + n) % N := by
  intro heq
  have hdvd : (N : ℤ) ∣ (n : ℤ) - i := by
    have hsub : ((r + n) - (r + i)) % N = 0 :=
      Int.emod_eq_emod_iff_emod_sub_eq_zero.mp heq.symm
    have hring : (r + n) - (r + i) = (n : ℤ) - i := by ring
    rw [hring] at hsub
    exact Int.dvd_of_emod_eq_zero hsub
  have hle := Int.le_of_dvd (by omega) hdvd
  omega

theorem contents_push (r : ℤ) {n : ℕ} (hn : n < N) (x : α) :
    contents N (Function.update buffer ((r + n) % N) x) r (n + 1) =
      contents N buffer r n ++ [x] := by
  simp only [contents, List.range_succ, List.map_append, List.map_cons, List.map_nil,
    Function.update_self]
  congr 1
  refine List.map_congr_left fun i hi => ?_
  rw [Function.update_of_ne (emod_ne (List.mem_range.mp hi) hn)]

end PsplinkUsb.Library.RingQueue
