import Mathlib.Data.List.Basic
import Mathlib.Logic.Basic

namespace PsplinkUsb.Library.TableSearch

variable {ε α : Type*} {fault : ε} {table : List α} {i start count : ℕ}

def entry (fault : ε) (table : List α) (i : ℕ) : Except ε α :=
  match table[i]? with
  | some a => .ok a
  | none => .error fault

/-- The first of `count` places from `start` on that passes a test. -/
def search (test : ℕ → Except ε Bool) : ℕ → ℕ → Except ε (Option ℕ)
  | _, 0 => .ok none
  | start, count + 1 => do
      if ← test start then .ok (some start) else search test (start + 1) count

theorem entry_of_lt (h : i < table.length) : entry fault table i = .ok table[i] := by
  rw [entry, List.getElem?_eq_getElem h]

theorem search_drop {test : ℕ → Except ε Bool} {p : α → Bool}
    (h : ∀ i, ∀ hi : i < table.length, test i = .ok (p table[i]))
    (hcount : start + count = table.length) :
    search test start count = .ok (((table.drop start).findIdx? p).map (· + start)) := by
  induction count generalizing start with
  | zero =>
      rw [Nat.add_zero] at hcount
      rw [hcount, List.drop_length]
      rfl
  | succ count ih =>
      have hlt : start < table.length := by omega
      rw [search, h start hlt, List.drop_eq_getElem_cons hlt, List.findIdx?_cons]
      cases hp : p table[start] with
      | true => simp [bind, Except.bind]
      | false =>
          have hrest := @ih (start + 1) (by omega)
          simp [bind, Except.bind, hrest, Function.comp_def, Nat.add_assoc, Nat.add_comm 1]

theorem search_eq {test : ℕ → Except ε Bool} {p : α → Bool}
    (h : ∀ i, ∀ hi : i < table.length, test i = .ok (p table[i])) :
    search test 0 table.length = .ok (table.findIdx? p) := by
  have hsearch := @search_drop _ _ table 0 _ _ _ h (Nat.zero_add _)
  rw [hsearch, List.drop_zero]
  cases table.findIdx? p with
  | none => rfl
  | some i => rfl

end PsplinkUsb.Library.TableSearch
