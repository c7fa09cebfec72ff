import PsplinkUsb.Library.Numerals

namespace PsplinkUsb.Library.ShownText

open PsplinkUsb.Library.Ascii
open PsplinkUsb.Library.Numerals

structure Shown (n : ℕ) (t : List UInt8) : Prop where
  length_le : t.length ≤ n
  chars : ∀ c ∈ t, isCntrl c = false

instance (n : ℕ) (t : List UInt8) : Decidable (Shown n t) :=
  decidable_of_iff (t.length ≤ n ∧ ∀ c ∈ t, isCntrl c = false)
    ⟨fun h => ⟨h.1, h.2⟩, fun h => ⟨h.1, h.2⟩⟩

variable {m n : ℕ} {s t : List UInt8} {c : UInt8} {i : ℤ}

theorem shown_nil : Shown 0 [] := ⟨Nat.le_refl 0, fun _ h => absurd h List.not_mem_nil⟩

theorem Shown.mono (h : Shown m t) (hle : m ≤ n) : Shown n t := ⟨h.length_le.trans hle, h.chars⟩

theorem Shown.append (hs : Shown m s) (ht : Shown n t) : Shown (m + n) (s ++ t) where
  length_le := by
    rw [List.length_append]
    exact Nat.add_le_add hs.length_le ht.length_le
  chars := by
    intro c hc
    rcases List.mem_append.mp hc with hc | hc
    · exact hs.chars c hc
    · exact ht.chars c hc

theorem shown_singleton (hc : isCntrl c = false) : Shown 1 [c] where
  length_le := Nat.le_refl 1
  chars := by
    intro x hx
    rw [List.mem_singleton.mp hx]
    exact hc

theorem Shown.cons (hc : isCntrl c = false) (h : Shown n t) : Shown (1 + n) (c :: t) :=
  (shown_singleton hc).append h

theorem Shown.of_sublist (h : Shown n t) (hsub : s.Sublist t) : Shown n s :=
  ⟨hsub.length_le.trans h.length_le, fun c hc => h.chars c (hsub.subset hc)⟩

theorem shown_replicate (hc : isCntrl c = false) (n : ℕ) : Shown n (List.replicate n c) where
  length_le := (List.length_replicate ..).le
  chars := by
    intro x hx
    rw [List.eq_of_mem_replicate hx]
    exact hc

theorem shown_padded {base width k : ℕ} (hbase : 1 < base) (hle : base ≤ 16) (hk : 0 < k)
    (hwidth : width ≤ k) (h : n < base ^ k) : Shown k (padded width base n) where
  length_le := (length_padded_le hbase hk h).trans (Nat.max_le.mpr ⟨hwidth, Nat.le_refl k⟩)
  chars := fun _ hc => not_isCntrl_of_isAlnum (isAlnum_of_mem_padded hbase hle width hc)

theorem shown_numeral {base k : ℕ} (hbase : 1 < base) (hle : base ≤ 16) (hk : 0 < k)
    (h : n < base ^ k) : Shown k (numeral base n) where
  length_le := length_numeral_le hbase hk h
  chars := fun _ hc => not_isCntrl_of_isAlnum (isAlnum_of_mem_numeral hbase hle hc)

theorem shown_decimalInt {k : ℕ} (hk : 0 < k) (h : i.natAbs < 10 ^ k) :
    Shown (1 + k) (decimalInt i) := by
  have hnumeral := shown_numeral (by decide) (by decide) hk h
  rw [decimalInt]
  split
  · exact hnumeral.cons (by decide)
  · exact hnumeral.mono (Nat.le_add_left k 1)

theorem shown_hex {k : ℕ} (hk : 0 < k) (h : n < 16 ^ k) : Shown (1 + (1 + k)) (hex n) :=
  ((shown_numeral (by decide) (by decide) hk h).cons (by decide)).cons (by decide)

end PsplinkUsb.Library.ShownText
