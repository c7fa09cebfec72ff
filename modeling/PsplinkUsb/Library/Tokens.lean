import Mathlib.Data.List.Basic

namespace PsplinkUsb.Library.Tokens

universe u

variable {α : Type u} [DecidableEq α] {sep : α} {text : List α} {ts : List (List α)}

/-- The non-empty pieces of `text` between separators. -/
def tokens (sep : α) (text : List α) : List (List α) :=
  (text.splitOn sep).filter fun t => t ≠ []

/-- The tokens with a separator between neighbours, and one after the last when
`closed`. -/
def joined (sep : α) (closed : Bool) : List (List α) → List α
  | [] => []
  | [t] => if closed then t ++ [sep] else t
  | t :: u :: rest => t ++ sep :: joined sep closed (u :: rest)

theorem not_mem_of_mem_splitOn {t : List α} (ht : t ∈ text.splitOn sep) : sep ∉ t := by
  induction text generalizing t with
  | nil =>
      obtain rfl : t = [] := by simpa using ht
      simp
  | cons x xs ih =>
      rw [List.splitOn_cons_eq_if_modifyHead] at ht
      obtain ⟨p, ps, hsplit⟩ := List.exists_cons_of_ne_nil (List.splitOn_ne_nil sep xs)
      rw [hsplit] at ht ih
      split at ht
      · rcases List.mem_cons.mp ht with rfl | ht
        · simp
        · exact ih ht
      · rename_i hx
        rcases List.mem_cons.mp ht with rfl | ht
        · have hp : sep ∉ p := ih (List.mem_cons_self ..)
          have hne : sep ≠ x := fun h => hx (by simp [h])
          simp [hne, hp]
        · exact ih (List.mem_cons_of_mem _ ht)

theorem mem_tokens {t : List α} (ht : t ∈ tokens sep text) : t ≠ [] ∧ sep ∉ t := by
  obtain ⟨hmem, hne⟩ := List.mem_filter.mp ht
  exact ⟨by simpa using hne, not_mem_of_mem_splitOn hmem⟩

theorem tokens_append_sep (a b : List α) :
    tokens sep (a ++ sep :: b) = tokens sep a ++ tokens sep b := by
  simp only [tokens, List.splitOn_append_cons_self, List.filter_append]

theorem tokens_cons_sep (b : List α) : tokens sep (sep :: b) = tokens sep b := by
  simpa [tokens] using @tokens_append_sep _ _ sep [] b

@[simp] theorem tokens_nil : tokens sep ([] : List α) = [] := by
  simp [tokens]

theorem tokens_append_of_head {a b : List α} (hb : b = [] ∨ b.head? = some sep) :
    tokens sep (a ++ b) = tokens sep a ++ tokens sep b := by
  rcases hb with rfl | hb
  · rw [tokens_nil, List.append_nil, List.append_nil]
  · obtain ⟨rest, rfl⟩ := List.head?_eq_some_iff.mp hb
    rw [tokens_append_sep, tokens_cons_sep]

theorem tokens_append_of_getLast {a b : List α} (ha : a = [] ∨ a.getLast? = some sep) :
    tokens sep (a ++ b) = tokens sep a ++ tokens sep b := by
  rcases ha with rfl | ha
  · rw [tokens_nil, List.nil_append, List.nil_append]
  · obtain ⟨front, rfl⟩ := List.getLast?_eq_some_iff.mp ha
    rw [List.append_assoc, List.singleton_append, tokens_append_sep, tokens_append_sep,
      tokens_nil, List.append_nil]

theorem splitOn_joined {closed : Bool} (hts : ∀ t ∈ ts, sep ∉ t) :
    (joined sep closed ts).splitOn sep =
      ts ++ if closed = true ∨ ts = [] then [[]] else [] := by
  induction ts with
  | nil => simp [joined]
  | cons t rest ih =>
      have ht : sep ∉ t := hts t (List.mem_cons_self ..)
      cases rest with
      | nil =>
          cases closed with
          | false => simpa [joined] using List.splitOn_eq_singleton ht
          | true => simpa [joined] using List.splitOn_append_cons_self_of_not_mem ht []
      | cons u rest =>
          have hrest := ih fun v hv => hts v (List.mem_cons_of_mem _ hv)
          rw [joined, List.splitOn_append_cons_self_of_not_mem ht, hrest]
          simp

theorem tokens_joined {closed : Bool} (hts : ∀ t ∈ ts, t ≠ [] ∧ sep ∉ t) :
    tokens sep (joined sep closed ts) = ts := by
  have hkeep : ts.filter (fun t => t ≠ []) = ts :=
    List.filter_eq_self.mpr fun t ht => by simpa using (hts t ht).1
  have hdrop : (if closed = true ∨ ts = [] then [[]] else ([] : List (List α))).filter
      (fun t => t ≠ []) = [] := by
    split <;> simp
  rw [tokens, splitOn_joined fun t ht => (hts t ht).2, List.filter_append, hkeep, hdrop,
    List.append_nil]

/-- The places that texts take with a separator behind each. -/
def weight (ts : List (List α)) : Nat := ts.foldr (fun t n => t.length + 1 + n) 0

omit [DecidableEq α] in
@[simp] theorem weight_nil : weight ([] : List (List α)) = 0 := rfl

omit [DecidableEq α] in
@[simp] theorem weight_cons (t : List α) (ts : List (List α)) :
    weight (t :: ts) = t.length + 1 + weight ts := rfl

omit [DecidableEq α] in
@[simp] theorem weight_append (ts us : List (List α)) :
    weight (ts ++ us) = weight ts + weight us := by
  induction ts with
  | nil => rw [List.nil_append, weight_nil, Nat.zero_add]
  | cons t ts ih => rw [List.cons_append, weight_cons, weight_cons, ih, ← Nat.add_assoc]

theorem weight_splitOn (text : List α) : weight (text.splitOn sep) = text.length + 1 := by
  induction text with
  | nil => rfl
  | cons x xs ih =>
      obtain ⟨p, ps, hsplit⟩ := List.exists_cons_of_ne_nil (List.splitOn_ne_nil sep xs)
      rw [hsplit, weight_cons] at ih
      rw [List.splitOn_cons_eq_if_modifyHead, hsplit]
      split
      · rw [weight_cons, weight_cons, List.length_nil, List.length_cons]
        omega
      · rw [List.modifyHead_cons, weight_cons, List.length_cons, List.length_cons]
        omega

theorem weight_tokens (text : List α) :
    weight (tokens sep text) + (text.splitOn sep).count [] = text.length + 1 := by
  have hfilter (pieces : List (List α)) :
      weight (pieces.filter fun t => t ≠ []) + pieces.count [] = weight pieces := by
    induction pieces with
    | nil => rfl
    | cons p pieces ih =>
        cases p with
        | nil =>
            simp only [ne_eq, decide_not] at ih
            simp
            omega
        | cons x p =>
            simp only [ne_eq, decide_not] at ih
            simp
            omega
  rw [tokens, hfilter, weight_splitOn]

omit [DecidableEq α] in
theorem length_joined (closed : Bool) (h : ts ≠ []) :
    (joined sep closed ts).length + (if closed then 0 else 1) = weight ts := by
  induction ts with
  | nil => exact absurd rfl h
  | cons t rest ih =>
      cases rest with
      | nil =>
          cases closed with
          | false => simp [joined]
          | true => simp [joined]
      | cons u rest =>
          have hrest := ih (List.cons_ne_nil _ _)
          rw [joined, weight_cons, ← hrest, List.length_append, List.length_cons]
          omega

end PsplinkUsb.Library.Tokens
