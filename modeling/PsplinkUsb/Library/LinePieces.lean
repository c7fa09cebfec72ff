import PsplinkUsb.Library.Lines

namespace PsplinkUsb.Library.LinePieces

open PsplinkUsb.Library.Lines

variable {α : Type*} [DecidableEq α] {eof stop : α} {room : ℕ} {s : List α}

theorem length_piece_lt (h : (piece eof stop room s).1 ≠ []) :
    (piece eof stop room s).2.length < s.length := by
  have hlength := length_piece eof stop room s
  have hpos := List.length_pos_of_ne_nil h
  omega

def pieces (eof stop : α) (room : ℕ) (s : List α) : List (List α) :=
  if _ : (piece eof stop room s).1 = [] then []
  else (piece eof stop room s).1 :: pieces eof stop room (piece eof stop room s).2
termination_by s.length
decreasing_by exact length_piece_lt ‹_›

theorem pieces_of_nil (h : (piece eof stop room s).1 = []) : pieces eof stop room s = [] := by
  rw [pieces, dif_pos h]

theorem pieces_of_ne_nil (h : (piece eof stop room s).1 ≠ []) : pieces eof stop room s =
    (piece eof stop room s).1 :: pieces eof stop room (piece eof stop room s).2 := by
  rw [pieces, dif_neg h]

theorem length_flatten_pieces (eof stop : α) (room : ℕ) (s : List α) :
    (pieces eof stop room s).flatten.length ≤ s.length := by
  induction s using pieces.induct eof stop room with
  | case1 s h =>
      rw [pieces_of_nil h]
      exact Nat.zero_le _
  | case2 s h ih =>
      have hlength := length_piece eof stop room s
      rw [pieces_of_ne_nil h, List.flatten_cons, List.length_append]
      omega

theorem eof_notMem_flatten_pieces (hstop : stop ≠ eof) (room : ℕ) (s : List α) :
    eof ∉ (pieces eof stop room s).flatten := by
  induction s using pieces.induct eof stop room with
  | case1 s h =>
      rw [pieces_of_nil h]
      exact List.not_mem_nil
  | case2 s h ih =>
      obtain ⟨a, hclean, hpiece⟩ := piece_clean eof stop room s
      rw [pieces_of_ne_nil h, List.flatten_cons, List.mem_append]
      rintro (hmem | hmem)
      · rcases hpiece with hpiece | hpiece
        · rw [hpiece] at hmem
          exact (hclean _ hmem).1 rfl
        · rw [hpiece, List.mem_append, List.mem_singleton] at hmem
          rcases hmem with hmem | hmem
          · exact (hclean _ hmem).1 rfl
          · exact hstop hmem.symm
      · exact ih hmem

theorem piece_of_notMem (stop : α) (h : eof ∉ s) (room : ℕ) :
    (piece eof stop room s).1 ++ (piece eof stop room s).2 = s ∧
      ((piece eof stop room s).1.getLast? = some stop ∨
        (piece eof stop room s).1.length = room ∨ (piece eof stop room s).2 = []) := by
  induction s generalizing room with
  | nil =>
      rw [piece_nil]
      exact ⟨rfl, .inr (.inr rfl)⟩
  | cons c s ih =>
      cases room with
      | zero =>
          rw [piece_zero]
          exact ⟨rfl, .inr (.inl rfl)⟩
      | succ room =>
          obtain ⟨hwhole, hends⟩ := ih (List.not_mem_of_not_mem_cons h) room
          rw [piece, if_neg (List.ne_of_not_mem_cons h).symm]
          split
          · rename_i hc
            exact ⟨rfl, .inl (congrArg some hc)⟩
          · refine ⟨congrArg (c :: ·) hwhole, ?_⟩
            rcases hends with hends | hends | hends
            · rw [List.getLast?_cons, hends]
              exact .inl rfl
            · exact .inr (.inl (congrArg (· + 1) hends))
            · exact .inr (.inr hends)

theorem flatten_pieces (h : eof ∉ s) (room : ℕ) :
    (pieces eof stop (room + 1) s).flatten = s := by
  induction s using pieces.induct eof stop (room + 1) with
  | case1 s hnil =>
      cases s with
      | nil => rw [pieces_of_nil hnil, List.flatten_nil]
      | cons c s =>
          rw [piece, if_neg (List.ne_of_not_mem_cons h).symm] at hnil
          split at hnil
          · cases hnil
          · cases hnil
  | case2 s hne ih =>
      have hwhole := (piece_of_notMem stop h (room + 1)).1
      have hrest : eof ∉ (piece eof stop (room + 1) s).2 := by
        intro hmem
        exact h (hwhole ▸ List.mem_append_right _ hmem)
      rw [pieces_of_ne_nil hne, List.flatten_cons, ih hrest, hwhole]

theorem flatten_pieces_iff (hstop : stop ≠ eof) :
    (pieces eof stop (room + 1) s).flatten = s ↔ eof ∉ s := by
  constructor
  · intro h
    have hnone := eof_notMem_flatten_pieces hstop (room + 1) s
    rwa [h] at hnone
  · exact fun h => flatten_pieces h room

/-- Only the last piece ends before `stop` and before there is no more room. -/
theorem ends_of_mem_dropLast (h : eof ∉ s) :
    ∀ l ∈ (pieces eof stop room s).dropLast, l.getLast? = some stop ∨ l.length = room := by
  induction s using pieces.induct eof stop room with
  | case1 s hnil =>
      rw [pieces_of_nil hnil]
      exact fun l hl => absurd hl List.not_mem_nil
  | case2 s hne ih =>
      obtain ⟨hwhole, hends⟩ := piece_of_notMem stop h room
      have hrest : eof ∉ (piece eof stop room s).2 := by
        intro hmem
        exact h (hwhole ▸ List.mem_append_right _ hmem)
      rw [pieces_of_ne_nil hne]
      intro l hl
      rcases hbehind : pieces eof stop room (piece eof stop room s).2 with _ | ⟨l', ls⟩
      · rw [hbehind] at hl
        exact absurd hl List.not_mem_nil
      · have hmore : (piece eof stop room s).2 ≠ [] := by
          intro hnil
          rw [hnil, pieces_of_nil (by rw [piece_nil])] at hbehind
          cases hbehind
        rw [hbehind, List.dropLast_cons_cons] at hl
        rcases List.mem_cons.mp hl with rfl | hl
        · rcases hends with hends | hends | hends
          · exact .inl hends
          · exact .inr hends
          · exact absurd hends hmore
        · rw [← hbehind] at hl
          exact ih hrest l hl

theorem stop_notMem_dropLast (eof stop : α) (room : ℕ) (s : List α) :
    ∀ l ∈ pieces eof stop room s, stop ∉ l.dropLast := by
  induction s using pieces.induct eof stop room with
  | case1 s hnil =>
      rw [pieces_of_nil hnil]
      exact fun l hl => absurd hl List.not_mem_nil
  | case2 s hne ih =>
      rw [pieces_of_ne_nil hne]
      intro l hl hmem
      rcases List.mem_cons.mp hl with rfl | hl
      · obtain ⟨a, hclean, hpiece⟩ := piece_clean eof stop room s
        have hstop : stop ∉ a := fun hmem => (hclean _ hmem).2 rfl
        rcases hpiece with hpiece | hpiece
        · rw [hpiece] at hmem
          exact hstop (a.dropLast_subset hmem)
        · rw [hpiece, List.dropLast_concat] at hmem
          exact hstop hmem
      · exact ih l hl hmem

end PsplinkUsb.Library.LinePieces
