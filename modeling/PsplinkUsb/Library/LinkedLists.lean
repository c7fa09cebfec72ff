import Mathlib.Data.List.AList

namespace PsplinkUsb.Library.LinkedLists

structure Node (α : Type*) where
  next : ℕ
  data : α

abbrev Cells (α : Type*) := AList fun _ : ℕ => Node α

/-- The cells from an address on, with what they hold, up to the one without a next. -/
inductive Linked {α : Type*} (cells : Cells α) : ℕ → List (ℕ × α) → Prop where
  | nil : Linked cells 0 []
  | cons {p : ℕ} {node : Node α} {l : List (ℕ × α)} (hp : p ≠ 0)
      (hnode : cells.lookup p = some node) (hl : Linked cells node.next l) :
      Linked cells p ((p, node.data) :: l)

variable {α : Type*} {cells : Cells α} {p q : ℕ} {a : α} {l m : List (ℕ × α)}

theorem Linked.head (h : Linked cells p ((q, a) :: l)) :
    q = p ∧ p ≠ 0 ∧ ∃ next, cells.lookup p = some ⟨next, a⟩ ∧ Linked cells next l := by
  cases h with
  | cons hp hnode hl => exact ⟨rfl, hp, _, hnode, hl⟩

theorem Linked.eq_zero_iff (h : Linked cells p l) : p = 0 ↔ l = [] := by
  cases h with
  | nil => exact iff_of_true rfl rfl
  | cons hp hnode hl => exact iff_of_false hp (List.cons_ne_nil _ _)

theorem Linked.unique (h : Linked cells p l) (h' : Linked cells p m) : l = m := by
  induction h generalizing m with
  | nil => exact (h'.eq_zero_iff.mp rfl).symm
  | cons hp hnode hl ih =>
      cases h' with
      | nil => exact absurd rfl hp
      | cons hp' hnode' hl' =>
          cases hnode.symm.trans hnode'
          rw [ih hl']

theorem Linked.of_mem (h : Linked cells p l) (hq : q ∈ l.map Prod.fst) :
    ∃ m, Linked cells q m ∧ m.length ≤ l.length := by
  induction h with
  | nil => cases hq
  | @cons p node l hp hnode hl ih =>
      rcases List.mem_cons.mp hq with rfl | hq
      · exact ⟨_, .cons hp hnode hl, le_refl _⟩
      · obtain ⟨m, hm, hlength⟩ := ih hq
        exact ⟨m, hm, Nat.le_succ_of_le hlength⟩

/-- The list does not come back to a cell: from there it would be as long as before. -/
theorem Linked.nodup (h : Linked cells p l) : (l.map Prod.fst).Nodup := by
  induction h with
  | nil => exact List.nodup_nil
  | @cons p node l hp hnode hl ih =>
      refine List.nodup_cons.mpr ⟨fun hmem => ?_, ih⟩
      obtain ⟨m, hm, hlength⟩ := hl.of_mem hmem
      rw [hm.unique (.cons hp hnode hl)] at hlength
      exact absurd hlength (Nat.not_succ_le_self _)

theorem Linked.erase (h : Linked cells p l) (hq : q ∉ l.map Prod.fst) :
    Linked (cells.erase q) p l := by
  induction h with
  | nil => exact .nil
  | cons hp hnode hl ih =>
      simp only [List.map_cons, List.mem_cons, not_or] at hq
      refine .cons hp ?_ (ih hq.2)
      rw [AList.lookup_erase_ne (Ne.symm hq.1)]
      exact hnode

end PsplinkUsb.Library.LinkedLists
