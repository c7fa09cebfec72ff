import Mathlib.Data.List.Basic
import Mathlib.Data.List.Flatten

namespace PsplinkUsb.Library.PathText

variable {α : Type*} {sep : α} {first c : List α} {cs ds : List (List α)}

/-- The text with the components `cs` behind `first`. -/
def spelled (sep : α) (first : List α) (cs : List (List α)) : List α :=
  first ++ cs.flatMap fun c => sep :: c

@[simp] theorem spelled_nil : spelled sep first [] = first := List.append_nil first

theorem spelled_append : spelled sep first (cs ++ ds) = spelled sep (spelled sep first cs) ds := by
  rw [spelled, spelled, spelled, List.flatMap_append, List.append_assoc]

theorem spelled_concat : spelled sep first (cs ++ [c]) = spelled sep first cs ++ sep :: c := by
  rw [spelled_append, spelled, List.flatMap_singleton]

theorem spelled_cons : spelled sep first (c :: cs) = first ++ sep :: spelled sep c cs := rfl

theorem length_le_length_spelled (sep : α) (first : List α) (cs : List (List α)) :
    cs.length ≤ (spelled sep first cs).length := by
  induction cs generalizing first with
  | nil => exact Nat.zero_le _
  | cons c cs ih =>
      rw [spelled_cons, List.length_append, List.length_cons, List.length_cons]
      exact Nat.le_add_left_of_le (Nat.succ_le_succ (ih c))

theorem spelled_sublist (sep : α) (first : List α) (h : cs.Sublist ds) :
    (spelled sep first cs).Sublist (spelled sep first ds) :=
  (h.flatMap _).append_left first

theorem intercalate_cons (sep : α) (c : List α) (cs : List (List α)) :
    [sep].intercalate (c :: cs) = spelled sep c cs := by
  induction cs generalizing c with
  | nil => rw [List.intercalate_singleton, spelled_nil]
  | cons d cs ih => rw [List.intercalate_cons_cons, ih, spelled_cons, List.append_assoc,
      List.singleton_append]

theorem of_mem_getLast?_spelled {p : α → Prop} (hfirst : ∀ x ∈ first.getLast?, p x)
    (hcs : ∀ c ∈ cs, c ≠ [] ∧ ∀ x ∈ c.getLast?, p x) : ∀ x ∈ (spelled sep first cs).getLast?, p x := by
  rcases cs.eq_nil_or_concat with rfl | ⟨cs, c, rfl⟩
  · rwa [spelled_nil]
  · rw [List.concat_eq_append] at hcs ⊢
    obtain ⟨hne, hc⟩ := hcs c (List.mem_append_right _ List.mem_cons_self)
    rwa [spelled_concat, List.getLast?_append_of_ne_nil _ (List.cons_ne_nil _ _),
      List.getLast?_cons_of_ne_nil hne]

variable [DecidableEq α]

theorem splitOn_spelled (hfirst : sep ∉ first) (hcs : ∀ c ∈ cs, sep ∉ c) :
    (spelled sep first cs).splitOn sep = first :: cs := by
  induction cs generalizing first with
  | nil =>
      rw [spelled_nil]
      exact List.splitOn_eq_singleton hfirst
  | cons c cs ih =>
      obtain ⟨hc, hcs⟩ := List.forall_mem_cons.mp hcs
      rw [spelled_cons, List.splitOn_append_cons_self_of_not_mem hfirst, ih hc hcs]

theorem spelled_inj (hfirst : sep ∉ first) (hcs : ∀ c ∈ cs, sep ∉ c) (hds : ∀ c ∈ ds, sep ∉ c) :
    spelled sep first cs = spelled sep first ds ↔ cs = ds := by
  constructor
  · intro h
    have hsplit := splitOn_spelled hfirst hcs
    rw [h, splitOn_spelled hfirst hds] at hsplit
    exact (List.cons.inj hsplit).2.symm
  · exact fun h => congrArg (spelled sep first) h

/-- Every text is spelled by what stands between its separators. -/
theorem exists_spelled (sep : α) (s : List α) :
    ∃ first cs, s = spelled sep first cs ∧ sep ∉ first ∧ ∀ c ∈ cs, sep ∉ c := by
  induction s with
  | nil => exact ⟨[], [], rfl, List.not_mem_nil, fun c hc => absurd hc List.not_mem_nil⟩
  | cons x s ih =>
      obtain ⟨first, cs, rfl, hfirst, hcs⟩ := ih
      by_cases hx : x = sep
      · subst hx
        exact ⟨[], first :: cs, rfl, List.not_mem_nil, List.forall_mem_cons.mpr ⟨hfirst, hcs⟩⟩
      · exact ⟨x :: first, cs, rfl, List.not_mem_cons_of_ne_of_not_mem (Ne.symm hx) hfirst, hcs⟩

end PsplinkUsb.Library.PathText
