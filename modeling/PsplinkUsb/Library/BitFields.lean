import Mathlib.Data.BitVec

namespace PsplinkUsb.Library.BitFields

variable {w : ℕ} {x y a b m n : BitVec w}

theorem and_or_eq_iff (hmn : m &&& n = 0) (ha : a &&& m = a) (hb : b &&& n = b) :
    x &&& (m ||| n) = a ||| b ↔ x &&& m = a ∧ x &&& n = b := by
  constructor
  · intro h
    have hbm : b &&& m = 0 := by
      rw [← hb, BitVec.and_assoc, BitVec.and_comm n, hmn]
      exact BitVec.and_zero
    have han : a &&& n = 0 := by
      rw [← ha, BitVec.and_assoc, hmn]
      exact BitVec.and_zero
    refine ⟨?_, ?_⟩
    · calc x &&& m = x &&& (m ||| n) &&& m := by
            rw [BitVec.and_assoc, BitVec.and_comm (m ||| n), BitVec.and_or_distrib_left,
              BitVec.and_self, hmn]
            simp
        _ = a := by
            rw [h, BitVec.and_or_distrib_right, ha, hbm]
            simp
    · calc x &&& n = x &&& (m ||| n) &&& n := by
            rw [BitVec.and_assoc, BitVec.and_comm (m ||| n), BitVec.and_or_distrib_left,
              BitVec.and_self, BitVec.and_comm n, hmn]
            simp
        _ = b := by
            rw [h, BitVec.and_or_distrib_right, hb, han]
            simp
  · rintro ⟨hx, hy⟩
    rw [BitVec.and_or_distrib_left, hx, hy]

theorem and_shiftLeft (x m : BitVec w) (k : ℕ) : x &&& (m <<< k) = (x >>> k &&& m) <<< k := by
  ext i hi
  simp only [BitVec.getElem_and, BitVec.getElem_shiftLeft, BitVec.getElem_ushiftRight]
  by_cases h : i < k
  · simp [h]
  · rw [decide_eq_false h, Nat.add_sub_cancel' (Nat.le_of_not_lt h)]
    simp [hi]

theorem and_and_of_subset (h : n &&& m = n) : x &&& m &&& n = x &&& n := by
  rw [BitVec.and_assoc, BitVec.and_comm m, h]

theorem subset_or_left (h : n &&& a = n) : n &&& (a ||| b) = n := by
  rw [BitVec.and_or_distrib_left, h]
  ext i hi
  rw [BitVec.getElem_or, BitVec.getElem_and]
  cases n[i]
  · simp
  · simp

theorem subset_or_right (h : n &&& b = n) : n &&& (a ||| b) = n := by
  rw [BitVec.or_comm, subset_or_left h]

theorem and_shiftLeft_shiftRight {k : ℕ} (hm : m <<< k >>> k = m) :
    (x &&& m) <<< k >>> k = x &&& m := by
  ext i hi
  have hbit := congrArg (·.getLsbD i) hm
  simp only [BitVec.getLsbD_ushiftRight, BitVec.getLsbD_shiftLeft] at hbit
  rw [← BitVec.getLsbD_eq_getElem, ← BitVec.getLsbD_eq_getElem, BitVec.getLsbD_ushiftRight,
    BitVec.getLsbD_shiftLeft, Nat.add_sub_cancel_left, BitVec.getLsbD_and, ← hbit,
    Nat.add_sub_cancel_left]
  cases x.getLsbD i
  · simp
  · simp

theorem and_shiftLeft_eq_iff {k : ℕ} (hm : m <<< k >>> k = m) (ha : a <<< k >>> k = a) :
    x &&& (m <<< k) = a <<< k ↔ x >>> k &&& m = a := by
  rw [and_shiftLeft]
  constructor
  · intro h
    have hkeep : (x >>> k &&& m) <<< k >>> k = x >>> k &&& m := by
      rw [← and_shiftLeft, BitVec.ushiftRight_and_distrib, hm]
    rw [← hkeep, h, ha]
  · intro h
    rw [h]

theorem or_eq_or_iff (hx : x &&& m = 0) (ha : a &&& m = a) (hb : b &&& m = b) :
    x ||| a = x ||| b ↔ a = b := by
  constructor
  · intro h
    have hmask := congrArg (· &&& m) h
    simpa [BitVec.and_or_distrib_right, hx, ha, hb] using hmask
  · rintro rfl
    rfl

end PsplinkUsb.Library.BitFields
