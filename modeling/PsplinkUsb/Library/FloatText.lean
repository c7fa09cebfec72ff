import Mathlib.Data.List.DropRight
import Mathlib.Data.Nat.Log
import PsplinkUsb.Library.ShownText

namespace PsplinkUsb.Library.FloatText

open PsplinkUsb.Library.Ascii
open PsplinkUsb.Library.Numerals
open PsplinkUsb.Library.ShownText

def point : UInt8 := 0x2E
def lowerE : UInt8 := 0x65

/-- The whole number next to `num / den`, of two as near the even one. -/
def roundHalfEven (num den : ℕ) : ℕ :=
  let q := num / den
  let r := num % den
  if 2 * r < den then q else if den < 2 * r then q + 1 else q + q % 2

/-- The power of ten that the first digit of `num / den` stands for. -/
def decimalExponent (num den : ℕ) : ℤ :=
  if den ≤ num then Nat.log 10 (num / den) else -Nat.clog 10 ((den + num - 1) / num)

/-- The first six digits of `num / den` rounded, and the power of ten of the first of them. -/
def sixDigits (num den : ℕ) : ℕ × ℤ :=
  let x := decimalExponent num den
  let n := roundHalfEven (num * 10 ^ (5 - x).toNat) (den * 10 ^ (x - 5).toNat)
  if n = 10 ^ 6 then (10 ^ 5, x + 1) else (n, x)

/-- The digits behind the point, without the zeros at their end. -/
def fractionText (digits : List UInt8) : List UInt8 :=
  let digits := digits.rdropWhile fun c => c = zero
  if digits = [] then [] else point :: digits

/-- `%g` of `num / den`. -/
def generalText (num den : ℕ) : List UInt8 :=
  let (n, x) := sixDigits num den
  let digits := padded 6 10 n
  if -4 ≤ x ∧ x < 0 then zero :: fractionText (List.replicate (-x - 1).toNat zero ++ digits)
  else if 0 ≤ x ∧ x < 6 then
    digits.take (x + 1).toNat ++ fractionText (digits.drop (x + 1).toNat)
  else
    digits.take 1 ++ fractionText (digits.drop 1) ++
      lowerE :: (if x < 0 then minus else plus) :: padded 2 10 x.natAbs

/-- `%g` of the single precision number with the bits given. -/
def formatG (bits : BitVec 32) : List UInt8 :=
  let exponent := (bits >>> 23 &&& 0xFF).toNat
  let fraction := (bits &&& 0x7FFFFF).toNat
  (if bits.msb then [minus] else []) ++
    if exponent = 0xFF then
      if fraction = 0 then [0x69, 0x6E, 0x66] else [0x6E, 0x61, 0x6E]
    else if exponent = 0 then
      if fraction = 0 then [zero] else generalText fraction (2 ^ 149)
    else generalText ((2 ^ 23 + fraction) * 2 ^ (exponent - 150)) (2 ^ (150 - exponent))

example : formatG 0x33800000 =
    [0x35, 0x2E, 0x39, 0x36, 0x30, 0x34, 0x36, 0x65, 0x2D, 0x30, 0x38] := by decide

variable {num den n : ℕ} {digits : List UInt8}

theorem roundHalfEven_le (h : num < n * den) : roundHalfEven num den ≤ n := by
  have hquot : num / den < n := Nat.div_lt_of_lt_mul (by rwa [Nat.mul_comm])
  simp only [roundHalfEven]
  split
  · omega
  · split
    · omega
    · omega

theorem lt_decimalExponent (hnum : 0 < num) (hden : 0 < den) :
    num * 10 ^ (5 - decimalExponent num den).toNat <
      10 ^ 6 * (den * 10 ^ (decimalExponent num den - 5).toNat) := by
  rw [decimalExponent]
  split
  · rename_i hle
    have hlog : num / den < 10 ^ (Nat.log 10 (num / den) + 1) :=
      Nat.lt_pow_succ_log_self (by decide) _
    have hmul : num < 10 ^ (Nat.log 10 (num / den) + 1) * den := (Nat.div_lt_iff_lt_mul hden).mp hlog
    generalize Nat.log 10 (num / den) = k at *
    rcases Nat.le_total k 5 with hk | hk
    · have hup : (5 - (k : ℤ)).toNat = 5 - k := by omega
      have hdown : ((k : ℤ) - 5).toNat = 0 := by omega
      rw [hup, hdown, Nat.pow_zero, Nat.mul_one]
      calc num * 10 ^ (5 - k) < 10 ^ (k + 1) * den * 10 ^ (5 - k) :=
            Nat.mul_lt_mul_of_pos_right hmul (by positivity)
        _ = 10 ^ (k + 1 + (5 - k)) * den := by ring
        _ = 10 ^ 6 * den := by rw [(by omega : k + 1 + (5 - k) = 6)]
    · have hup : (5 - (k : ℤ)).toNat = 0 := by omega
      have hdown : ((k : ℤ) - 5).toNat = k - 5 := by omega
      rw [hup, hdown, Nat.pow_zero, Nat.mul_one]
      calc num < 10 ^ (k + 1) * den := hmul
        _ = 10 ^ (6 + (k - 5)) * den := by rw [(by omega : 6 + (k - 5) = k + 1)]
        _ = 10 ^ 6 * (den * 10 ^ (k - 5)) := by ring
  · rename_i hlt
    have hone : 1 < (den + num - 1) / num := by
      rw [← Nat.succ_le_iff, Nat.le_div_iff_mul_le hnum]
      omega
    have hpred := Nat.pow_pred_clog_lt_self (by decide : 1 < 10) hone
    have hpos : 0 < Nat.clog 10 ((den + num - 1) / num) := Nat.clog_pos (by decide) hone
    generalize Nat.clog 10 ((den + num - 1) / num) = k at *
    have hmul : num * 10 ^ (k - 1) < den := by
      have hbelow := (Nat.le_div_iff_mul_le hnum).mp (Nat.succ_le_of_lt hpred)
      rw [Nat.succ_mul, Nat.mul_comm, Nat.pred_eq_sub_one] at hbelow
      omega
    have hup : (5 - -(k : ℤ)).toNat = 6 + (k - 1) := by omega
    have hdown : (-(k : ℤ) - 5).toNat = 0 := by omega
    rw [hup, hdown, Nat.pow_zero, Nat.mul_one]
    calc num * 10 ^ (6 + (k - 1)) = 10 ^ 6 * (num * 10 ^ (k - 1)) := by ring
      _ < 10 ^ 6 * den := Nat.mul_lt_mul_of_pos_left hmul (by positivity)

theorem natAbs_decimalExponent_le {k : ℕ} (hnum : num < 10 ^ k)
    (hden' : den ≤ 10 ^ k) : (decimalExponent num den).natAbs ≤ k := by
  rw [decimalExponent]
  split
  · have hquot : num / den < 10 ^ k := (Nat.div_le_self num den).trans_lt hnum
    have hlog : Nat.log 10 (num / den) ≤ k := by
      rw [← Nat.lt_succ_iff]
      exact Nat.log_lt_of_lt_pow' (Nat.succ_ne_zero k) (hquot.trans (Nat.pow_lt_pow_succ (by decide)))
    omega
  · rename_i hlt
    have hceil : (den + num - 1) / num ≤ den := by
      rcases Nat.eq_zero_or_pos num with rfl | hpos
      · rw [Nat.div_zero]
        exact Nat.zero_le den
      · rw [Nat.div_le_iff_le_mul_add_pred hpos]
        have hle : den * 1 ≤ den * num := Nat.mul_le_mul_left den hpos
        rw [Nat.mul_comm num den]
        omega
    have hclog : Nat.clog 10 ((den + num - 1) / num) ≤ k :=
      Nat.clog_le_of_le_pow (hceil.trans hden')
    omega

theorem sixDigits_bounds {k : ℕ} (hpos : 0 < num) (hden : 0 < den) (hnum : num < 10 ^ k)
    (hden' : den ≤ 10 ^ k) :
    (sixDigits num den).1 < 10 ^ 6 ∧ (sixDigits num den).2.natAbs ≤ k + 1 := by
  have hround := roundHalfEven_le (lt_decimalExponent hpos hden)
  have hexponent := natAbs_decimalExponent_le hnum hden'
  simp only [sixDigits]
  split
  · exact ⟨by norm_num, by omega⟩
  · rename_i hne
    exact ⟨Nat.lt_of_le_of_ne hround hne, by omega⟩

theorem shown_fractionText (h : Shown n digits) : Shown (1 + n) (fractionText digits) := by
  have hrest := h.of_sublist (List.rdropWhile_prefix (fun c => c = zero) digits).sublist
  simp only [fractionText]
  split
  · exact shown_nil.mono (Nat.zero_le _)
  · exact hrest.cons (by decide)

theorem shown_generalText (hpos : 0 < num) (hden : 0 < den) (hnum : num < 10 ^ 98)
    (hden' : den ≤ 10 ^ 98) : Shown 17 (generalText num den) := by
  obtain ⟨hn, hx⟩ := sixDigits_bounds hpos hden hnum hden'
  simp only [generalText]
  generalize (sixDigits num den).1 = n at *
  generalize (sixDigits num den).2 = x at *
  have hdigits : Shown 6 (padded 6 10 n) := shown_padded (by decide) (by decide) (by decide) (by decide) hn
  have htake (k : ℕ) : Shown 6 ((padded 6 10 n).take k) :=
    hdigits.of_sublist (List.take_sublist _ _)
  have hdrop (k : ℕ) : Shown 7 (fractionText ((padded 6 10 n).drop k)) :=
    shown_fractionText (hdigits.of_sublist (List.drop_sublist _ _))
  split
  · have hzeros : Shown 3 (List.replicate (-x - 1).toNat zero) :=
      (shown_replicate (by decide) _).mono (by omega)
    exact ((shown_fractionText (hzeros.append hdigits)).cons (by decide)).mono (by decide)
  · split
    · exact ((htake _).append (hdrop _)).mono (by decide)
    · have hexponent : Shown 2 (padded 2 10 x.natAbs) :=
        shown_padded (by decide) (by decide) (by decide) (by decide) (by omega : x.natAbs < 10 ^ 2)
      have hsign : isCntrl (if x < 0 then minus else plus) = false := by
        split
        · decide
        · decide
      exact ((htake 1).append (hdrop 1)).append ((hexponent.cons hsign).cons (by decide))

theorem shown_formatG (bits : BitVec 32) : Shown 18 (formatG bits) := by
  have hexponent : (bits >>> 23 &&& 0xFF).toNat ≤ 0xFF :=
    Nat.and_le_right
  have hfraction : (bits &&& 0x7FFFFF).toNat ≤ 0x7FFFFF :=
    Nat.and_le_right
  have hsign : Shown 1 (if bits.msb then [minus] else []) := by
    split
    · decide
    · decide
  refine hsign.append (?_ : Shown 17 _)
  generalize (bits >>> 23 &&& 0xFF).toNat = exponent at *
  generalize (bits &&& 0x7FFFFF).toNat = fraction at *
  split
  · split
    · decide
    · decide
  · split
    · split
      · decide
      · rename_i hne
        exact shown_generalText (Nat.pos_of_ne_zero hne) (by positivity)
          (hfraction.trans_lt (by norm_num)) (by norm_num)
    · refine shown_generalText (by positivity) (by positivity) ?_ ?_
      · calc (2 ^ 23 + fraction) * 2 ^ (exponent - 150) ≤ 2 ^ 24 * 2 ^ 105 :=
              Nat.mul_le_mul (by omega) (Nat.pow_le_pow_right (by decide) (by omega))
          _ < 10 ^ 98 := by norm_num
      · calc 2 ^ (150 - exponent) ≤ 2 ^ 150 := Nat.pow_le_pow_right (by decide) (by omega)
          _ ≤ 10 ^ 98 := by norm_num

end PsplinkUsb.Library.FloatText
