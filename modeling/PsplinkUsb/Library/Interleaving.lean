import Mathlib.Data.List.Basic
import Mathlib.Logic.Function.Basic

namespace PsplinkUsb.Library.Interleaving

variable {ι α β : Type*} [DecidableEq ι]

/-- What party `i` contributed, in order. -/
def track (i : ι) (s : List (ι × α)) : List α := (s.filter fun p => p.1 = i).map Prod.snd

/-- The sequence is an interleaving of what the parties contribute. -/
def Interleaves (s : List (ι × α)) (runs : ι → List α) : Prop := ∀ i, track i s = runs i

variable {s t : List (ι × α)} {runs : ι → List α} {i j : ι} {x : α}

theorem track_cons_self (i : ι) (x : α) (s : List (ι × α)) :
    track i ((i, x) :: s) = x :: track i s := by
  rw [track, List.filter_cons_of_pos (by simp), List.map_cons, track]

theorem track_cons_of_ne (h : j ≠ i) (x : α) (s : List (ι × α)) :
    track i ((j, x) :: s) = track i s := by
  rw [track, List.filter_cons_of_neg (by simpa using h), track]

theorem track_filterMap (i : ι) (f : α → Option β) (s : List (ι × α)) :
    track i (s.filterMap fun p => (f p.2).map fun y => (p.1, y)) = (track i s).filterMap f := by
  induction s with
  | nil => rfl
  | cons p s ih =>
      obtain ⟨j, x⟩ := p
      rcases eq_or_ne j i with rfl | hne
      · rw [track_cons_self, List.filterMap_cons, List.filterMap_cons]
        cases f x with
        | none => exact ih
        | some y => exact (track_cons_self j y _).trans (congrArg (y :: ·) ih)
      · rw [track_cons_of_ne hne, List.filterMap_cons]
        cases f x with
        | none => exact ih
        | some y => exact (track_cons_of_ne hne y _).trans ih

/-- The entries of a party in an interleaving are what it contributes. -/
theorem Interleaves.mem_iff (h : Interleaves s runs) : (i, x) ∈ s ↔ x ∈ runs i := by
  rw [← h i, track, List.mem_map]
  constructor
  · intro hx
    exact ⟨(i, x), List.mem_filter.mpr ⟨hx, by simp⟩, rfl⟩
  · rintro ⟨⟨j, y⟩, hy, rfl⟩
    obtain ⟨hmem, hj⟩ := List.mem_filter.mp hy
    obtain rfl : j = i := of_decide_eq_true hj
    exact hmem

theorem interleaves_cons :
    Interleaves ((i, x) :: s) runs ↔
      ∃ run, runs i = x :: run ∧ Interleaves s (Function.update runs i run) := by
  constructor
  · intro h
    refine ⟨track i s, by rw [← h i, track_cons_self], ?_⟩
    intro j
    rcases eq_or_ne j i with rfl | hne
    · rw [Function.update_self]
    · rw [Function.update_of_ne hne, ← h j, track_cons_of_ne hne.symm]
  · rintro ⟨run, hrun, h⟩ j
    rcases eq_or_ne j i with rfl | hne
    · rw [track_cons_self, h j, Function.update_self, hrun]
    · rw [track_cons_of_ne hne.symm, h j, Function.update_of_ne hne]

theorem Interleaves.of_map {f : α → β} {s : List (ι × β)}
    (h : Interleaves s fun i => (runs i).map f) :
    ∃ s' : List (ι × α), Interleaves s' runs ∧ s = s'.map fun p => (p.1, f p.2) := by
  induction s generalizing runs with
  | nil =>
      refine ⟨[], ?_, rfl⟩
      intro i
      have hnil : (runs i).map f = [] := (h i).symm
      exact (List.map_eq_nil_iff.mp hnil).symm
  | cons p s ih =>
      obtain ⟨i, y⟩ := p
      obtain ⟨run, hrun, hrest⟩ := interleaves_cons.mp h
      obtain ⟨x, run, hruns, rfl, rfl⟩ := List.map_eq_cons_iff.mp hrun
      have hupdate : Function.update (fun i => (runs i).map f) i (run.map f) =
          fun j => (Function.update runs i run j).map f := by
        funext j
        rcases eq_or_ne j i with rfl | hne
        · rw [Function.update_self, Function.update_self]
        · rw [Function.update_of_ne hne, Function.update_of_ne hne]
      rw [hupdate] at hrest
      obtain ⟨s', hs', rfl⟩ := ih hrest
      exact ⟨(i, x) :: s', interleaves_cons.mpr ⟨run, hruns, hs'⟩, rfl⟩

end PsplinkUsb.Library.Interleaving
