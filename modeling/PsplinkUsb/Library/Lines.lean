import Mathlib.Data.List.DropRight

namespace PsplinkUsb.Library.Lines

variable {α : Type*} [DecidableEq α] {a b s rest : List α} {c eof stop : α} {room : ℕ}

/-- What stands before the first `c`, and what behind it. -/
def cut (c : α) : List α → Option (List α × List α)
  | [] => none
  | x :: s => if x = c then some ([], s) else (cut c s).map fun p => (x :: p.1, p.2)

theorem cut_eq_none : cut c s = none ↔ c ∉ s := by
  induction s with
  | nil => simp [cut]
  | cons x s ih =>
      rw [cut]
      split
      · rename_i hx
        simp [hx]
      · rename_i hx
        simp [ih, Ne.symm hx]

theorem cut_append (h : c ∉ a) : cut c (a ++ c :: b) = some (a, b) := by
  induction a with
  | nil => simp [cut]
  | cons x a ih =>
      rw [List.cons_append, cut, if_neg (List.ne_of_not_mem_cons h).symm,
        ih (List.not_mem_of_not_mem_cons h), Option.map_some]

theorem cut_eq_some : cut c s = some (a, b) ↔ c ∉ a ∧ s = a ++ c :: b := by
  constructor
  · induction s generalizing a b with
    | nil => simp [cut]
    | cons x s ih =>
        rw [cut]
        split
        · rename_i hx
          rintro h
          cases h
          exact ⟨List.not_mem_nil, by rw [hx, List.nil_append]⟩
        · rename_i hx
          intro h
          obtain ⟨⟨a', b'⟩, hcut, heq⟩ := Option.map_eq_some_iff.mp h
          obtain ⟨hmem, hs⟩ := ih hcut
          cases heq
          exact ⟨List.not_mem_cons_of_ne_of_not_mem (Ne.symm hx) hmem, by rw [hs, List.cons_append]⟩
  · rintro ⟨hmem, rfl⟩
    exact cut_append hmem

omit [DecidableEq α] in
theorem rdropWhile_append_cons {p : α → Bool} (h : p c = false) :
    (a ++ c :: b).rdropWhile p = a ++ c :: b.rdropWhile p := by
  induction b using List.reverseRecOn with
  | nil =>
      rw [List.rdropWhile_concat_neg _ _ _ (by simp [h]), List.rdropWhile_nil]
  | append_singleton b x ih =>
      have hassoc : a ++ c :: (b ++ [x]) = a ++ c :: b ++ [x] := by simp
      rw [hassoc, List.rdropWhile_concat, List.rdropWhile_concat, ih]
      split
      · rfl
      · simp

/-- The next token between symbols of `sep`, as `strtok` finds it, and what stands behind the
symbol that ends it. -/
def strtok (sep : α → Bool) (s : List α) : Option (List α × List α) :=
  match s.dropWhile sep with
  | [] => none
  | x :: s => some (x :: s.takeWhile fun y => !sep y, (s.dropWhile fun y => !sep y).drop 1)

omit [DecidableEq α] in
theorem strtok_append {sep : α → Bool} (hne : a ≠ []) (ha : ∀ x ∈ a, sep x = false)
    (hc : sep c = true) : strtok sep (a ++ c :: b) = some (a, b) := by
  cases a with
  | nil => exact absurd rfl hne
  | cons x a =>
      have hx := ha x List.mem_cons_self
      have htail : ∀ y ∈ a, (!sep y) = true := by
        intro y hy
        rw [ha y (List.mem_cons_of_mem _ hy), Bool.not_false]
      have hstop : (!sep c) = false := by rw [hc, Bool.not_true]
      rw [strtok, List.cons_append, List.dropWhile_cons_of_neg (by simp [hx])]
      simp only [List.takeWhile_append_of_pos htail, List.dropWhile_append_of_pos htail]
      rw [List.takeWhile_cons_of_neg (by simp [hstop]), List.dropWhile_cons_of_neg (by simp [hstop]),
        List.append_nil, List.drop_one, List.tail_cons]

omit [DecidableEq α] in
theorem strtok_last {sep : α → Bool} (hne : a ≠ []) (ha : ∀ x ∈ a, sep x = false) :
    strtok sep a = some (a, []) := by
  cases a with
  | nil => exact absurd rfl hne
  | cons x a =>
      have hx := ha x List.mem_cons_self
      have htail : ∀ y ∈ a, (!sep y) = true := by
        intro y hy
        rw [ha y (List.mem_cons_of_mem _ hy), Bool.not_false]
      rw [strtok, List.dropWhile_cons_of_neg (by simp [hx])]
      simp only [List.takeWhile_eq_self_iff.mpr htail, List.dropWhile_eq_nil_iff.mpr htail,
        List.drop_nil]

/-- The next piece a reader with `room` symbols hands out, and what it leaves: the piece ends
with `stop`, and before `eof`, which is gone. -/
def piece (eof stop : α) : ℕ → List α → List α × List α
  | 0, s => ([], s)
  | _ + 1, [] => ([], [])
  | room + 1, c :: s =>
      if c = eof then ([], s)
      else if c = stop then ([c], s)
      else (c :: (piece eof stop room s).1, (piece eof stop room s).2)

@[simp] theorem piece_zero : piece eof stop 0 s = ([], s) := by
  rw [piece]

@[simp] theorem piece_nil : piece eof stop room [] = ([], []) := by
  cases room with
  | zero => rw [piece]
  | succ room => rw [piece]

theorem piece_stop (h : stop ≠ eof) :
    piece eof stop (room + 1) (stop :: s) = ([stop], s) := by
  rw [piece, if_neg h, if_pos rfl]

theorem piece_append (h : ∀ x ∈ a, x ≠ eof ∧ x ≠ stop) (hroom : a.length ≤ room) :
    piece eof stop room (a ++ b) =
      (a ++ (piece eof stop (room - a.length) b).1, (piece eof stop (room - a.length) b).2) := by
  induction a generalizing room with
  | nil => simp
  | cons x a ih =>
      obtain ⟨room, rfl⟩ := Nat.exists_eq_succ_of_ne_zero (Nat.ne_of_gt (Nat.lt_of_lt_of_le
        (Nat.succ_pos _) hroom))
      obtain ⟨heof, hstop⟩ := h x List.mem_cons_self
      have htail := ih (fun y hy => h y (List.mem_cons_of_mem _ hy)) (Nat.le_of_succ_le_succ hroom)
      rw [List.cons_append, piece, if_neg heof, if_neg hstop, htail]
      simp

theorem length_piece (eof stop : α) (room : ℕ) (s : List α) :
    (piece eof stop room s).1.length + (piece eof stop room s).2.length ≤ s.length := by
  induction s generalizing room with
  | nil => simp
  | cons c s ih =>
      cases room with
      | zero => simp
      | succ room =>
          have htail := ih room
          rw [piece]
          split_ifs
          · simp
          · simp only [List.length_cons, List.length_nil]
            omega
          · simp only [List.length_cons]
            omega

theorem piece_clean (eof stop : α) (room : ℕ) (s : List α) : ∃ a, (∀ x ∈ a, x ≠ eof ∧ x ≠ stop) ∧
    ((piece eof stop room s).1 = a ∨ (piece eof stop room s).1 = a ++ [stop]) := by
  induction s generalizing room with
  | nil => exact ⟨[], by simp, .inl (by simp)⟩
  | cons c s ih =>
      cases room with
      | zero => exact ⟨[], by simp, .inl (by simp)⟩
      | succ room =>
          rw [piece]
          split_ifs with heof hstop
          · exact ⟨[], by simp, .inl rfl⟩
          · exact ⟨[], by simp, .inr (by rw [hstop, List.nil_append])⟩
          · obtain ⟨a, hclean, hpiece⟩ := ih room
            refine ⟨c :: a, ?_, ?_⟩
            · intro x hx
              rcases List.mem_cons.mp hx with rfl | hx
              · exact ⟨heof, hstop⟩
              · exact hclean x hx
            · rcases hpiece with hpiece | hpiece
              · exact .inl (by rw [hpiece])
              · exact .inr (by rw [hpiece, List.cons_append])

/-- The line that a text starts with, up to `stop` or as far as there is room, and what is behind
it. -/
def firstLine (stop : α) : ℕ → List α → List α × List α
  | 0, s => ([], s)
  | _ + 1, [] => ([], [])
  | room + 1, c :: s =>
      if c = stop then ([c], s) else (c :: (firstLine stop room s).1, (firstLine stop room s).2)

theorem length_firstLine_le (stop : α) (room : ℕ) (s : List α) :
    (firstLine stop room s).2.length ≤ s.length := by
  induction s generalizing room with
  | nil =>
      cases room with
      | zero => exact le_rfl
      | succ room => exact le_rfl
  | cons c s ih =>
      cases room with
      | zero => exact le_rfl
      | succ room =>
          rw [firstLine]
          split
          · exact Nat.le_succ _
          · exact Nat.le_succ_of_le (ih room)

theorem length_firstLine_lt (stop : α) (room : ℕ) (hs : s ≠ []) :
    (firstLine stop (room + 1) s).2.length < s.length := by
  cases s with
  | nil => exact absurd rfl hs
  | cons c s =>
      rw [firstLine]
      split
      · exact Nat.lt_succ_self _
      · exact Nat.lt_succ_of_le (length_firstLine_le stop room s)

theorem firstLine_append (ha : stop ∉ a) (hroom : a.length < room) :
    firstLine stop room (a ++ stop :: b) = (a ++ [stop], b) := by
  induction a generalizing room with
  | nil =>
      cases room with
      | zero => exact absurd hroom (Nat.lt_irrefl 0)
      | succ room => rw [List.nil_append, firstLine, if_pos rfl, List.nil_append]
  | cons c a ih =>
      cases room with
      | zero => exact absurd hroom (Nat.not_lt_zero _)
      | succ room =>
          rw [List.cons_append, firstLine, if_neg (List.ne_of_not_mem_cons ha).symm,
            ih (List.not_mem_of_not_mem_cons ha) (Nat.lt_of_succ_lt_succ hroom), List.cons_append]

/-- The lines of a text, none of them longer than there is room for. -/
def lines (stop : α) (room : ℕ) (s : List α) : List (List α) :=
  if h : s = [] then []
  else (firstLine stop (room + 1) s).1 :: lines stop room (firstLine stop (room + 1) s).2
termination_by s.length
decreasing_by exact length_firstLine_lt stop room h

theorem lines_flatMap {ls : List (List α)} (hstop : ∀ l ∈ ls, stop ∉ l)
    (hroom : ∀ l ∈ ls, l.length ≤ room) :
    lines stop room (ls.flatMap fun l => l ++ [stop]) = ls.map fun l => l ++ [stop] := by
  induction ls with
  | nil => rw [List.flatMap_nil, List.map_nil, lines, dif_pos rfl]
  | cons l ls ih =>
      obtain ⟨hl, hls⟩ := List.forall_mem_cons.mp hstop
      obtain ⟨hlength, hlengths⟩ := List.forall_mem_cons.mp hroom
      have hsplit : (l :: ls).flatMap (fun l => l ++ [stop]) =
          l ++ stop :: ls.flatMap fun l => l ++ [stop] := by
        rw [List.flatMap_cons, List.append_assoc, List.singleton_append]
      rw [hsplit, lines, dif_neg (by simp), firstLine_append hl (Nat.lt_succ_of_le hlength),
        ih hls hlengths, List.map_cons]

end PsplinkUsb.Library.Lines
