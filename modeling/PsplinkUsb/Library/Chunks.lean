import Mathlib.Data.List.Basic

namespace PsplinkUsb.Library.Chunks

variable {α : Type*} {n : ℕ} {s c : List α}

/-- Chunks of `n` elements; there are none of size 0. -/
def chunks (n : ℕ) (s : List α) : List (List α) :=
  if n = 0 ∨ s = [] then [] else s.take n :: chunks n (s.drop n)
termination_by s.length
decreasing_by
  rename_i h
  have hpos := List.length_pos_iff.mpr (not_or.mp h).2
  rw [List.length_drop]
  omega

@[simp] theorem chunks_nil : chunks n ([] : List α) = [] := by
  rw [chunks, if_pos (.inr rfl)]

theorem chunks_of_ne_nil (hn : n ≠ 0) (hs : s ≠ []) :
    chunks n s = s.take n :: chunks n (s.drop n) := by
  rw [chunks, if_neg (not_or.mpr ⟨hn, hs⟩)]

theorem chunks_of_le (hn : n ≠ 0) (hs : s ≠ []) (hle : s.length ≤ n) : chunks n s = [s] := by
  rw [chunks_of_ne_nil hn hs, List.take_of_length_le hle, List.drop_eq_nil_of_le hle, chunks_nil]

theorem flatten_chunks (hn : n ≠ 0) (s : List α) : (chunks n s).flatten = s := by
  induction s using chunks.induct n with
  | case1 s h =>
      obtain rfl := h.resolve_left hn
      rw [chunks_nil, List.flatten_nil]
  | case2 s h ih =>
      rw [chunks_of_ne_nil hn (not_or.mp h).2, List.flatten_cons, ih, List.take_append_drop]

theorem mem_chunks (hc : c ∈ chunks n s) : c ≠ [] ∧ c.length ≤ n := by
  induction s using chunks.induct n with
  | case1 s h =>
      rw [chunks, if_pos h] at hc
      exact absurd hc List.not_mem_nil
  | case2 s h ih =>
      obtain ⟨hn, hs⟩ := not_or.mp h
      rw [chunks_of_ne_nil hn hs] at hc
      rcases List.mem_cons.mp hc with rfl | hc
      · refine ⟨?_, List.length_take_le n s⟩
        simp [hn, hs]
      · exact ih hc

end PsplinkUsb.Library.Chunks
