import Mathlib.Data.List.Basic
import Mathlib.Tactic.Ring

namespace PsplinkUsb.Library.Records

variable {R α : Type*} {encode : R → List α} {n : ℕ}

def FixedWidth (encode : R → List α) (n : ℕ) : Prop := ∀ r, (encode r).length = n

theorem FixedWidth.length_flatMap (h : FixedWidth encode n) (rs : List R) :
    (rs.flatMap encode).length = n * rs.length := by
  induction rs with
  | nil => rfl
  | cons r rs ih =>
      rw [List.flatMap_cons, List.length_append, h r, ih, List.length_cons]
      ring

theorem FixedWidth.flatMap_eq_nil (h : FixedWidth encode n) (hn : 0 < n) {rs : List R}
    (hnil : rs.flatMap encode = []) : rs = [] := by
  have hlength := h.length_flatMap rs
  rw [hnil, List.length_nil, eq_comm, Nat.mul_eq_zero] at hlength
  exact List.length_eq_zero_iff.mp (hlength.resolve_left hn.ne')

theorem FixedWidth.front (h : FixedWidth encode n) (hn : 0 < n) {front back : List α}
    {rs : List R} (hfront : front.length = n) (hsplit : front ++ back = rs.flatMap encode) :
    ∃ r rest, rs = r :: rest ∧ front = encode r ∧ back = rest.flatMap encode := by
  cases rs with
  | nil =>
      have hnil := (List.append_eq_nil_iff.mp hsplit).1
      rw [hnil, List.length_nil] at hfront
      exact absurd hfront hn.ne
  | cons r rest =>
      rw [List.flatMap_cons] at hsplit
      obtain ⟨hr, hrest⟩ := List.append_inj hsplit (hfront.trans (h r).symm)
      exact ⟨r, rest, rfl, hr, hrest⟩

end PsplinkUsb.Library.Records
