import Mathlib.Data.List.DropRight
import Mathlib.Data.List.TakeWhile

namespace PsplinkUsb.Library.Frames

variable {α : Type*} [DecidableEq α] (b e : α)

/-- No delimiter, neither the opening `b` nor the closing `e`. -/
def Plain (w : List α) : Prop := b ∉ w ∧ e ∉ w

/-- What stands before the first delimiter, when there is something and the delimiter closes. -/
def closedRun (s : List α) : Option (List α) :=
  let w := s.takeWhile fun x => x ≠ b ∧ x ≠ e
  if w ≠ [] ∧ (s.drop w.length).head? = some e then some w else none

/-- The contents of the frames that are not empty, one after the other. -/
def frames : List α → List (List α)
  | [] => []
  | c :: s => if c = b then (closedRun b e s).toList ++ frames s else frames s

/-- An opening delimiter, `n` closing ones right behind it, then nothing but `w`. -/
structure Opened (s : List α) (n : ℕ) (w : List α) : Prop where
  plain : Plain b e w
  split : ∃ before, s = before ++ b :: (List.replicate n e ++ w)

variable {b e} {w s t : List α} {c : α} {n : ℕ}

omit [DecidableEq α] in
theorem plain_nil : Plain b e [] := ⟨List.not_mem_nil, List.not_mem_nil⟩

omit [DecidableEq α] in
theorem plain_append : Plain b e (s ++ t) ↔ Plain b e s ∧ Plain b e t := by
  simp only [Plain, List.mem_append, not_or]
  exact and_and_and_comm

omit [DecidableEq α] in
theorem plain_singleton : Plain b e [c] ↔ c ≠ b ∧ c ≠ e := by
  simp [Plain, eq_comm]

omit [DecidableEq α] in
theorem plain_or_first (b e : α) (s : List α) :
    Plain b e s ∨ ∃ w t, Plain b e w ∧ (s = w ++ b :: t ∨ s = w ++ e :: t) := by
  induction s with
  | nil => exact .inl plain_nil
  | cons x s ih =>
      rcases eq_or_ne x b with rfl | hb
      · exact .inr ⟨[], s, plain_nil, .inl rfl⟩
      · rcases eq_or_ne x e with rfl | he
        · exact .inr ⟨[], s, plain_nil, .inr rfl⟩
        · have hx : Plain b e [x] := plain_singleton.mpr ⟨hb, he⟩
          rcases ih with hs | ⟨w, t, hw, hsplit⟩
          · exact .inl (plain_append (s := [x]).mpr ⟨hx, hs⟩)
          · refine .inr ⟨x :: w, t, plain_append (s := [x]).mpr ⟨hx, hw⟩, ?_⟩
            rcases hsplit with rfl | rfl
            · exact .inl rfl
            · exact .inr rfl

omit [DecidableEq α] in
theorem plain_or_last (b e : α) (s : List α) :
    Plain b e s ∨ ∃ t w, Plain b e w ∧ (s = t ++ b :: w ∨ s = t ++ e :: w) := by
  induction s using List.reverseRecOn with
  | nil => exact .inl plain_nil
  | append_singleton s x ih =>
      rcases eq_or_ne x b with rfl | hb
      · exact .inr ⟨s, [], plain_nil, .inl rfl⟩
      · rcases eq_or_ne x e with rfl | he
        · exact .inr ⟨s, [], plain_nil, .inr rfl⟩
        · have hx : Plain b e [x] := plain_singleton.mpr ⟨hb, he⟩
          rcases ih with hs | ⟨t, w, hw, hsplit⟩
          · exact .inl (plain_append.mpr ⟨hs, hx⟩)
          · refine .inr ⟨t, w ++ [x], plain_append.mpr ⟨hw, hx⟩, ?_⟩
            rcases hsplit with rfl | rfl
            · exact .inl (by rw [List.append_assoc, List.cons_append])
            · exact .inr (by rw [List.append_assoc, List.cons_append])

omit [DecidableEq α] in
theorem opened_nil : ¬Opened b e [] n w := by
  rintro ⟨-, before, hsplit⟩
  simp at hsplit

omit [DecidableEq α] in
theorem Opened.last (h : Opened b e (s ++ [c]) n w) :
    n = 0 ∧ w = [] ∧ c = b ∨ (∃ m, n = m + 1 ∧ w = [] ∧ c = e ∧ Opened b e s m []) ∨
      ∃ w', w = w' ++ [c] ∧ Opened b e s n w' := by
  obtain ⟨hplain, before, hsplit⟩ := h
  rcases List.eq_nil_or_concat' w with rfl | ⟨w', x, rfl⟩
  · cases n with
    | zero =>
        have hlast := List.append_inj_right' hsplit rfl
        exact .inl ⟨rfl, rfl, List.singleton_inj.mp hlast⟩
    | succ n =>
        rw [List.append_nil, List.replicate_succ', ← List.cons_append, ← List.append_assoc]
          at hsplit
        obtain ⟨hinit, hlast⟩ := List.append_inj' hsplit rfl
        refine .inr (.inl ⟨n, rfl, rfl, List.singleton_inj.mp hlast, plain_nil, before, ?_⟩)
        rw [List.append_nil]
        exact hinit
  · rw [← List.append_assoc, ← List.cons_append, ← List.append_assoc] at hsplit
    obtain ⟨hinit, hlast⟩ := List.append_inj' hsplit rfl
    obtain rfl := List.singleton_inj.mp hlast
    exact .inr (.inr ⟨w', rfl, (plain_append.mp hplain).1, before, hinit⟩)

omit [DecidableEq α] in
theorem opened_open (hne : b ≠ e) : Opened b e (s ++ [b]) n w ↔ n = 0 ∧ w = [] := by
  constructor
  · intro h
    rcases h.last with ⟨hn, hw, -⟩ | ⟨-, -, -, hlast, -⟩ | ⟨w', rfl, -⟩
    · exact ⟨hn, hw⟩
    · exact absurd hlast hne
    · exact absurd List.mem_concat_self h.plain.1
  · rintro ⟨rfl, rfl⟩
    exact ⟨plain_nil, s, rfl⟩

omit [DecidableEq α] in
theorem opened_close (hne : b ≠ e) :
    Opened b e (s ++ [e]) n w ↔ w = [] ∧ ∃ m, n = m + 1 ∧ Opened b e s m [] := by
  constructor
  · intro h
    rcases h.last with ⟨-, -, hlast⟩ | ⟨m, hn, hw, -, hm⟩ | ⟨w', rfl, -⟩
    · exact absurd hlast hne.symm
    · exact ⟨hw, m, hn, hm⟩
    · exact absurd List.mem_concat_self h.plain.2
  · rintro ⟨rfl, m, rfl, -, before, hsplit⟩
    refine ⟨plain_nil, before, ?_⟩
    rw [hsplit, List.append_nil, List.append_nil, List.replicate_succ', List.append_assoc,
      List.cons_append]

omit [DecidableEq α] in
theorem opened_concat (hb : c ≠ b) (he : c ≠ e) :
    Opened b e (s ++ [c]) n w ↔ ∃ w', w = w' ++ [c] ∧ Opened b e s n w' := by
  constructor
  · intro h
    rcases h.last with ⟨-, -, hlast⟩ | ⟨-, -, -, hlast, -⟩ | hmore
    · exact absurd hlast hb
    · exact absurd hlast he
    · exact hmore
  · rintro ⟨w', rfl, hplain, before, rfl⟩
    refine ⟨plain_append.mpr ⟨hplain, plain_singleton.mpr ⟨hb, he⟩⟩, before, ?_⟩
    rw [List.append_assoc, List.cons_append, List.append_assoc]

omit [DecidableEq α] in
theorem Opened.unique (hne : b ≠ e) {n' : ℕ} {w' : List α} (h : Opened b e s n w)
    (h' : Opened b e s n' w') : n = n' ∧ w = w' := by
  induction s using List.reverseRecOn generalizing n w n' w' with
  | nil => exact absurd h opened_nil
  | append_singleton s c ih =>
      rcases eq_or_ne c b with rfl | hb
      · obtain ⟨rfl, rfl⟩ := (opened_open hne).mp h
        obtain ⟨rfl, rfl⟩ := (opened_open hne).mp h'
        exact ⟨rfl, rfl⟩
      · rcases eq_or_ne c e with rfl | he
        · obtain ⟨rfl, m, rfl, hm⟩ := (opened_close hne).mp h
          obtain ⟨rfl, m', rfl, hm'⟩ := (opened_close hne).mp h'
          exact ⟨congrArg (· + 1) (ih hm hm').1, rfl⟩
        · obtain ⟨v, rfl, hv⟩ := (opened_concat hb he).mp h
          obtain ⟨v', rfl, hv'⟩ := (opened_concat hb he).mp h'
          obtain ⟨rfl, rfl⟩ := ih hv hv'
          exact ⟨rfl, rfl⟩

theorem takeWhile_plain (hw : Plain b e w) (s : List α) :
    (w ++ s).takeWhile (fun x => x ≠ b ∧ x ≠ e) = w ++ s.takeWhile fun x => x ≠ b ∧ x ≠ e := by
  apply List.takeWhile_append_of_pos
  intro x hx
  rw [decide_eq_true_eq]
  exact ⟨fun h => hw.1 (h ▸ hx), fun h => hw.2 (h ▸ hx)⟩

theorem closedRun_plain (hw : Plain b e w) : closedRun b e w = none := by
  have htake := takeWhile_plain hw []
  rw [List.append_nil, List.takeWhile_nil, List.append_nil] at htake
  simp only [closedRun, htake]
  simp

theorem closedRun_open (hne : b ≠ e) (hw : Plain b e w) (s : List α) :
    closedRun b e (w ++ b :: s) = none := by
  have htake : (w ++ b :: s).takeWhile (fun x => x ≠ b ∧ x ≠ e) = w := by
    rw [takeWhile_plain hw, List.takeWhile_cons_of_neg (by simp), List.append_nil]
  simp only [closedRun, htake]
  simp [hne]

theorem closedRun_close (hw : Plain b e w) (s : List α) :
    closedRun b e (w ++ e :: s) = if w = [] then none else some w := by
  have htake : (w ++ e :: s).takeWhile (fun x => x ≠ b ∧ x ≠ e) = w := by
    rw [takeWhile_plain hw, List.takeWhile_cons_of_neg (by simp), List.append_nil]
  simp only [closedRun, htake]
  simp

theorem frames_cons_of_ne (h : c ≠ b) : frames b e (c :: s) = frames b e s := if_neg h

theorem frames_open : frames b e (b :: s) = (closedRun b e s).toList ++ frames b e s := if_pos rfl

theorem frames_of_not_mem (h : b ∉ s) : frames b e s = [] := by
  induction s with
  | nil => rfl
  | cons x s ih =>
      rw [frames_cons_of_ne (List.ne_of_not_mem_cons h).symm]
      exact ih (List.not_mem_of_not_mem_cons h)

theorem frames_append_open (hne : b ≠ e) (s t : List α) :
    frames b e (s ++ b :: t) = frames b e s ++ frames b e (b :: t) := by
  induction s with
  | nil => rfl
  | cons x s ih =>
      rcases eq_or_ne x b with rfl | hx
      · rw [List.cons_append, frames_open, frames_open, ih, List.append_assoc]
        congr 2
        rcases plain_or_first x e s with hs | ⟨w, u, hw, rfl | rfl⟩
        · rw [closedRun_open hne hs, closedRun_plain hs]
        · rw [List.append_assoc, List.cons_append, closedRun_open hne hw, closedRun_open hne hw]
        · rw [List.append_assoc, List.cons_append, closedRun_close hw, closedRun_close hw]
      · rw [List.cons_append, frames_cons_of_ne hx, frames_cons_of_ne hx, ih]

theorem frames_append_close (hne : b ≠ e) (s t : List α) :
    frames b e (s ++ e :: t) = frames b e (s ++ [e]) ++ frames b e t := by
  induction s with
  | nil => rw [List.nil_append, List.nil_append, frames_cons_of_ne hne.symm,
      frames_cons_of_ne hne.symm, frames, List.nil_append]
  | cons x s ih =>
      rcases eq_or_ne x b with rfl | hx
      · rw [List.cons_append, List.cons_append, frames_open, frames_open, ih, List.append_assoc]
        congr 2
        rcases plain_or_first x e s with hs | ⟨w, u, hw, rfl | rfl⟩
        · rw [closedRun_close hs, closedRun_close hs]
        · simp only [List.append_assoc, List.cons_append, closedRun_open hne hw]
        · simp only [List.append_assoc, List.cons_append, closedRun_close hw]
      · rw [List.cons_append, List.cons_append, frames_cons_of_ne hx, frames_cons_of_ne hx, ih]

theorem frames_sublist_append (s t : List α) : (frames b e t).Sublist (frames b e (s ++ t)) := by
  induction s with
  | nil => exact .refl _
  | cons x s ih =>
      rcases eq_or_ne x b with rfl | hx
      · rw [List.cons_append, frames_open]
        exact ih.trans (List.sublist_append_right _ _)
      · rwa [List.cons_append, frames_cons_of_ne hx]

theorem frames_frame (hne : b ≠ e) (hw : Plain b e w) (hsome : w ≠ []) (t : List α) :
    frames b e (b :: (w ++ e :: t)) = w :: frames b e t := by
  have hrest := frames_append_close hne w t
  rw [frames_of_not_mem (s := w ++ [e]) (by simp [hw.1, hne])] at hrest
  rw [frames_open, closedRun_close hw, if_neg hsome, hrest]
  rfl

theorem frames_concat (hne : b ≠ e) (hc : c ≠ e) : frames b e (s ++ [c]) = frames b e s := by
  rcases eq_or_ne c b with rfl | hb
  · rw [frames_append_open hne, frames_open, closedRun_plain plain_nil]
    simp [frames]
  · have hplain : Plain b e [c] := plain_singleton.mpr ⟨hb, hc⟩
    rcases plain_or_last b e s with hs | ⟨t, w, hw, rfl | rfl⟩
    · have hs' : b ∉ s ++ [c] := (plain_append.mpr ⟨hs, hplain⟩).1
      rw [frames_of_not_mem hs.1, frames_of_not_mem hs']
    · have hw' : Plain b e (w ++ [c]) := plain_append.mpr ⟨hw, hplain⟩
      rw [List.append_assoc, List.cons_append, frames_append_open hne, frames_append_open hne,
        frames_open, frames_open, closedRun_plain hw, closedRun_plain hw',
        frames_of_not_mem hw.1, frames_of_not_mem hw'.1]
    · have hw' : Plain b e (w ++ [c]) := plain_append.mpr ⟨hw, hplain⟩
      rw [List.append_assoc, List.cons_append, frames_append_close hne, frames_append_close hne t w,
        frames_of_not_mem hw.1, frames_of_not_mem hw'.1]

theorem frames_concat_close (hne : b ≠ e) (h : Opened b e s 0 w) (hsome : w ≠ []) :
    frames b e (s ++ [e]) = frames b e s ++ [w] := by
  obtain ⟨before, rfl⟩ := h.split
  rw [List.replicate_zero, List.nil_append, List.append_assoc, List.cons_append,
    frames_append_open hne, frames_append_open hne, frames_frame hne h.plain hsome, frames_open,
    closedRun_plain h.plain, frames_of_not_mem h.plain.1]
  simp [frames]

theorem frames_concat_stray (hne : b ≠ e) (h : ∀ w, Opened b e s 0 w → w = []) :
    frames b e (s ++ [e]) = frames b e s := by
  rcases plain_or_last b e s with hs | ⟨t, w, hw, rfl | rfl⟩
  · rw [frames_of_not_mem hs.1, frames_of_not_mem (by simp [hs.1, hne])]
  · obtain rfl := h w ⟨hw, t, rfl⟩
    have hclosed : b ∉ [] ++ [e] := by simp [hne]
    rw [List.append_assoc, List.cons_append, frames_append_open hne, frames_append_open hne t,
      frames_open, frames_open, closedRun_plain hw, closedRun_close hw, if_pos rfl,
      frames_of_not_mem hw.1, frames_of_not_mem hclosed]
  · have hclosed : b ∉ w ++ [e] := by simp [hw.1, hne]
    rw [List.append_assoc, List.cons_append, frames_append_close hne, frames_append_close hne t w,
      frames_of_not_mem hw.1, frames_of_not_mem hclosed]

end PsplinkUsb.Library.Frames
