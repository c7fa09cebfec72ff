import Mathlib.Data.List.Basic
import Mathlib.Logic.Basic

namespace PsplinkUsb.Library.RecordTable

universe u v

/-- `record` is what stands at a place, whether or not one gets there. -/
structure Table (R : Type u) where
  size : ℕ
  record : ℕ → R

variable {R : Type u} {ε : Type v}

/-- The place of the first record that passes a test, or nothing at the end of the table. There is
no result when the rounds are not enough. -/
def find (length : R → ℕ) (t : Table R) (test : R → Except ε Bool) :
    ℕ → ℕ → Option (Except ε (Option ℕ))
  | 0, _ => none
  | rounds + 1, i =>
      if i < t.size then
        match test (t.record i) with
        | .error e => some (.error e)
        | .ok true => some (.ok (some i))
        | .ok false => find length t test rounds (i + length (t.record i))
      else some (.ok none)

/-- What a pass over the whole table collects. -/
def collect {α : Type v} (length : R → ℕ) (t : Table R) (f : R → List α) : ℕ → ℕ → Option (List α)
  | 0, _ => none
  | rounds + 1, i =>
      if i < t.size then
        (collect length t f rounds (i + length (t.record i))).map (f (t.record i) ++ ·)
      else some []

variable {length : R → ℕ} {t : Table R} {test : R → Except ε Bool} {i j : ℕ} {js : List ℕ}

/-- The records from `i` on stand at `js`, none of them without a length. -/
inductive Laid (length : R → ℕ) (t : Table R) : ℕ → List ℕ → Prop where
  | nil {i : ℕ} (hend : t.size ≤ i) : Laid length t i []
  | cons {i : ℕ} {js : List ℕ} (hlt : i < t.size) (hpos : 0 < length (t.record i))
      (hrest : Laid length t (i + length (t.record i)) js) : Laid length t i (i :: js)

/-- Where a walk gets to that goes on behind every record for which `passes` does not hold. -/
inductive Reached (length : R → ℕ) (t : Table R) (passes : R → Prop) : ℕ → Prop where
  | start (hlt : 0 < t.size) : Reached length t passes 0
  | next {i : ℕ} (h : Reached length t passes i) (hnot : ¬passes (t.record i))
      (hlt : i + length (t.record i) < t.size) : Reached length t passes (i + length (t.record i))

theorem Laid.size_pos (h : Laid length t i js) (hj : j ∈ js) : 0 < length (t.record j) := by
  induction h with
  | nil => exact absurd hj List.not_mem_nil
  | cons hlt hpos _ ih =>
      rcases List.mem_cons.mp hj with rfl | hj
      · exact hpos
      · exact ih hj

theorem Laid.mem_start (h : Laid length t i js) (hlt : i < t.size) : i ∈ js := by
  cases h with
  | nil hend => exact absurd hlt (Nat.not_lt.mpr hend)
  | cons => exact List.mem_cons_self

theorem Laid.mem_next (h : Laid length t i js) (hj : j ∈ js)
    (hlt : j + length (t.record j) < t.size) : j + length (t.record j) ∈ js := by
  induction h with
  | nil => exact absurd hj List.not_mem_nil
  | cons _ _ hrest ih =>
      refine List.mem_cons_of_mem _ ?_
      rcases List.mem_cons.mp hj with rfl | hj
      · exact hrest.mem_start hlt
      · exact ih hj

theorem Laid.lt_of_mem (h : Laid length t i js) (hj : j ∈ js) : i ≤ j ∧ j < t.size := by
  induction h with
  | nil => exact absurd hj List.not_mem_nil
  | cons hlt _ _ ih =>
      rcases List.mem_cons.mp hj with rfl | hj
      · exact ⟨Nat.le_refl _, hlt⟩
      · have hle := (ih hj).1
        exact ⟨by omega, (ih hj).2⟩

theorem Laid.mem_of_reached (h : Laid length t 0 js) {passes : R → Prop}
    (hreached : Reached length t passes i) : i ∈ js := by
  induction hreached with
  | start hlt => exact h.mem_start hlt
  | next _ _ hlt ih => exact h.mem_next ih hlt

/-- A search of a table that is laid out finds the first of its records that passes. -/
theorem Laid.found (h : Laid length t i js) {p : R → Bool} {rounds : ℕ} {found : Option ℕ}
    (htest : ∀ r b, test r = .ok b → b = p r)
    (hfind : find length t test rounds i = some (.ok found)) :
    found = js.find? fun j => p (t.record j) := by
  induction h generalizing rounds with
  | nil hend =>
      cases rounds with
      | zero => exact absurd hfind.symm (Option.some_ne_none _)
      | succ rounds =>
          rw [find, if_neg (Nat.not_lt.mpr hend)] at hfind
          exact (Except.ok.inj (Option.some.inj hfind)).symm
  | @cons i js hlt hpos hrest ih =>
      cases rounds with
      | zero => exact absurd hfind.symm (Option.some_ne_none _)
      | succ rounds =>
          rw [find, if_pos hlt] at hfind
          split at hfind
          · exact absurd (Option.some.inj hfind) (by simp)
          · rename_i heq
            rw [List.find?_cons_of_pos (p := fun j => p (t.record j)) (htest _ _ heq).symm]
            exact (Except.ok.inj (Option.some.inj hfind)).symm
          · rename_i heq
            have hneg : ¬p (t.record i) = true := by
              rw [← htest _ _ heq]
              exact Bool.false_ne_true
            rw [List.find?_cons_of_neg (p := fun j => p (t.record j)) hneg]
            exact ih hfind

theorem Laid.collect_eq {α : Type v} {f : R → List α} (h : Laid length t i js) (rounds : ℕ) :
    collect length t f rounds i =
      if js.length < rounds then some (js.flatMap fun j => f (t.record j)) else none := by
  induction h generalizing rounds with
  | nil hend =>
      cases rounds with
      | zero => rfl
      | succ rounds =>
          rw [collect, if_neg (Nat.not_lt.mpr hend)]
          exact (if_pos (Nat.zero_lt_succ rounds)).symm
  | @cons i js hlt hpos hrest ih =>
      cases rounds with
      | zero => rfl
      | succ rounds =>
          rw [collect, if_pos hlt, ih, List.length_cons]
          simp only [Nat.add_lt_add_iff_right]
          split
          · rw [Option.map_some, List.flatMap_cons]
          · rfl

/-- A walk ends without a fault just when no record that it gets to is a fault for the test, and
none stays where it is. -/
theorem find_ends_iff {passes : R → Prop} (hpasses : ∀ r, test r = .ok true ↔ passes r) :
    (∃ rounds found, find length t test rounds 0 = some (.ok found)) ↔
      ∀ i, Reached length t passes i →
        passes (t.record i) ∨ test (t.record i) = .ok false ∧ 0 < length (t.record i) := by
  constructor
  · rintro ⟨rounds, found, hfind⟩ i hreached
    -- From every place that is reached, the walk ends in fewer rounds.
    have hends : ∃ rounds found, find length t test rounds i = some (.ok found) := by
      induction hreached with
      | start => exact ⟨rounds, found, hfind⟩
      | @next i hreached hnot hlt ih =>
          obtain ⟨rounds, found, hfind⟩ := ih
          cases rounds with
          | zero => exact absurd hfind.symm (Option.some_ne_none _)
          | succ rounds =>
              rw [find, if_pos (by omega)] at hfind
              split at hfind
              · exact absurd (Option.some.inj hfind) (by simp)
              · rename_i htest
                exact absurd ((hpasses _).mp htest) hnot
              · exact ⟨rounds, found, hfind⟩
    have hlt : i < t.size := by
      cases hreached with
      | start hlt => exact hlt
      | next _ _ hlt => exact hlt
    obtain ⟨rounds, found, hfind⟩ := hends
    by_cases hpass : passes (t.record i)
    · exact .inl hpass
    · refine .inr ?_
      have htest : test (t.record i) = .ok false := by
        cases rounds with
        | zero => exact absurd hfind.symm (Option.some_ne_none _)
        | succ rounds =>
            rw [find, if_pos hlt] at hfind
            split at hfind
            · exact absurd (Option.some.inj hfind) (by simp)
            · rename_i htest
              exact absurd ((hpasses _).mp htest) hpass
            · assumption
      refine ⟨htest, Nat.pos_of_ne_zero fun hzero => ?_⟩
      -- A record without a length is read again in every round.
      induction rounds with
      | zero => exact absurd hfind.symm (Option.some_ne_none _)
      | succ rounds ih =>
          rw [find, if_pos hlt, htest, hzero, Nat.add_zero] at hfind
          exact ih hfind
  · intro h
    have hgoes : ∀ n i, t.size - i ≤ n → (i < t.size → Reached length t passes i) →
        ∃ found, find length t test (n + 1) i = some (.ok found) := by
      intro n
      induction n with
      | zero =>
          intro i hle _
          exact ⟨none, by rw [find, if_neg (by omega)]⟩
      | succ n ih =>
          intro i hle hi
          by_cases hlt : i < t.size
          · rcases h i (hi hlt) with hpass | ⟨htest, hpos⟩
            · exact ⟨some i, by rw [find, if_pos hlt, (hpasses _).mpr hpass]⟩
            · have hnot : ¬passes (t.record i) := fun hpass => by
                have := htest.symm.trans ((hpasses _).mpr hpass)
                simp at this
              obtain ⟨found, hfound⟩ := ih (i + length (t.record i)) (by omega)
                fun hnext => (hi hlt).next hnot hnext
              exact ⟨found, by rw [find, if_pos hlt, htest]; exact hfound⟩
          · exact ⟨none, by rw [find, if_neg hlt]⟩
    exact ⟨t.size + 1, hgoes t.size 0 (Nat.le_refl _) .start⟩

end PsplinkUsb.Library.RecordTable
