import PsplinkUsb.Library.Filling
import PsplinkUsb.Psplink.MemorySearch

namespace PsplinkUsb.Psplink.HexPatterns

open PsplinkUsb.Library.Ascii (isXDigit)
open PsplinkUsb.Library.Filling
open PsplinkUsb.Library.Numerals (digitValue)
open PsplinkUsb.Psplink.DecodeAddr (Bytes text)
open PsplinkUsb.Psplink.MemorySearch (hexPairs)

def upcase (ch : UInt8) : UInt8 := if 0x61 ≤ ch ∧ ch ≤ 0x7A then ch ^^^ 0x20 else ch

def isHex (ch : UInt8) : Bool :=
  let ch := upcase ch
  0x30 ≤ ch ∧ ch ≤ 0x39 ∨ 0x41 ≤ ch ∧ ch ≤ 0x46

def hexToInt (ch : UInt8) : UInt8 :=
  if 0x30 ≤ ch ∧ ch ≤ 0x39 then ch - 0x30
  else
    let ch := upcase ch
    if 0x41 ≤ ch ∧ ch ≤ 0x46 then ch - 0x41 + 10 else 0

/-- What `decode_hexstr` returns and leaves at `data`, and the indexes that it stored at. -/
structure Decoded where
  ret : ℕ
  data : ℕ → UInt8
  stores : List ℕ

/-- The loop from `i` on, with so many bytes left. -/
def decodeLoop (str : Bytes) : ℕ → ℕ → (ℕ → UInt8) → List ℕ → Decoded
  | 0, _, data, stores => { ret := str.length / 2, data := data, stores := stores }
  | left + 1, i, data, stores =>
      let hi := str.getD (i * 2) 0
      let lo := str.getD (i * 2 + 1) 0
      if !isHex hi || !isHex lo then { ret := 0, data := data, stores := stores }
      else
        decodeLoop str left (i + 1) (Function.update data i (hexToInt hi <<< 4 ||| hexToInt lo))
          (stores ++ [i])

def decodeHexstr (str : Bytes) (data : ℕ → UInt8) (max : ℤ) : Decoded :=
  let hexlen := str.length
  if hexlen % 2 = 1 then { ret := 0, data := data, stores := [] }
  else if (hexlen / 2 : ℕ) > max then { ret := 0, data := data, stores := [] }
  else decodeLoop str (hexlen / 2) 0 data []

def digits : Bool → Bytes
  | false => text "0123456789abcdef"
  | true => text "0123456789ABCDEF"

/-- A digit of either case. -/
def Digit (ch : UInt8) (d : ℕ) : Prop := ∃ upper, (digits upper)[d]? = some ch

/-- Two digits for each byte. -/
inductive Spells : Bytes → Bytes → Prop
  | nil : Spells [] []
  | cons {hi lo b : UInt8} {str bytes : Bytes} (hhi : Digit hi (b.toNat / 16))
      (hlo : Digit lo (b.toNat % 16)) (h : Spells str bytes) : Spells (hi :: lo :: str) (b :: bytes)

variable {ch hi lo b : UInt8} {d i j left : ℕ} {max : ℤ} {str bytes : Bytes} {data : ℕ → UInt8}
  {stores : List ℕ}

theorem digit_iff_mem : (∃ d, Digit ch d) ↔ ch ∈ digits false ++ digits true := by
  rw [List.mem_append, List.mem_iff_getElem?, List.mem_iff_getElem?]
  constructor
  · rintro ⟨d, upper, h⟩
    cases upper with
    | false => exact .inl ⟨d, h⟩
    | true => exact .inr ⟨d, h⟩
  · rintro (⟨d, h⟩ | ⟨d, h⟩)
    · exact ⟨d, false, h⟩
    · exact ⟨d, true, h⟩

theorem isHex_iff : isHex ch = true ↔ ∃ d, Digit ch d := by
  have hmem : ∀ n : Fin 256, isHex (UInt8.ofFin n) = true →
      UInt8.ofFin n ∈ digits false ++ digits true := by
    decide +kernel
  have hhex : ∀ c ∈ digits false ++ digits true, isHex c = true := by decide
  rw [digit_iff_mem]
  exact ⟨hmem ch.toFin, hhex ch⟩

theorem Digit.lt (h : Digit ch d) : d < 16 := by
  obtain ⟨upper, h⟩ := h
  cases upper with
  | false => exact (List.getElem?_eq_some_iff.mp h).1
  | true => exact (List.getElem?_eq_some_iff.mp h).1

theorem hexToInt_digit (h : Digit ch d) : hexToInt ch = UInt8.ofNat d := by
  have hall : ∀ upper, ∀ d : Fin 16, ∀ c ∈ (digits upper)[d.val]?,
      hexToInt c = UInt8.ofNat d.val := by
    decide +kernel
  obtain ⟨upper, hch⟩ := h
  exact hall upper ⟨d, Digit.lt ⟨upper, hch⟩⟩ ch hch

theorem hexToInt_pair (hhi : Digit hi (b.toNat / 16)) (hlo : Digit lo (b.toNat % 16)) :
    hexToInt hi <<< 4 ||| hexToInt lo = b := by
  have hall : ∀ n : Fin 256, UInt8.ofNat (n.val / 16) <<< 4 ||| UInt8.ofNat (n.val % 16) =
      UInt8.ofFin n := by
    decide +kernel
  rw [hexToInt_digit hhi, hexToInt_digit hlo]
  exact hall b.toFin

theorem Spells.length (h : Spells str bytes) : str.length = 2 * bytes.length := by
  induction h with
  | nil => rfl
  | cons _ _ _ ih =>
      rw [List.length_cons, List.length_cons, List.length_cons, ih]
      omega

theorem decodeLoop_spells (h : Spells (str.drop (i * 2)) bytes) :
    decodeLoop str bytes.length i data stores =
      { ret := str.length / 2, data := store data i bytes,
        stores := stores ++ List.range' i bytes.length } := by
  induction bytes generalizing i data stores with
  | nil => rw [List.length_nil, decodeLoop, store, List.range'_zero, List.append_nil]
  | cons b bytes ih =>
      generalize hdrop : str.drop (i * 2) = rest at h
      cases h with
      | cons hhi hlo h =>
          rename_i hi lo rest
          have hhere : str[i * 2]? = some hi := by
            rw [← Nat.add_zero (i * 2), ← List.getElem?_drop, hdrop, List.getElem?_cons_zero]
          have hnext : str[i * 2 + 1]? = some lo := by
            rw [← List.getElem?_drop, hdrop, List.getElem?_cons_succ, List.getElem?_cons_zero]
          have hrest : str.drop ((i + 1) * 2) = rest := by
            rw [Nat.succ_mul, ← List.drop_drop, hdrop, List.drop_succ_cons, List.drop_succ_cons,
              List.drop_zero]
          rw [List.length_cons, decodeLoop, List.getD_eq_getElem?_getD, List.getD_eq_getElem?_getD,
            hhere, hnext, Option.getD_some, Option.getD_some, isHex_iff.mpr ⟨_, hhi⟩,
            isHex_iff.mpr ⟨_, hlo⟩, hexToInt_pair hhi hlo]
          rw [← hrest] at h
          simp only [Bool.not_true, Bool.or_self, Bool.false_eq_true, if_false]
          rw [ih h, List.append_assoc, store]
          rfl

theorem decodeLoop_stores (hstores : ∀ j ∈ stores, j < i + left) :
    ∀ j ∈ (decodeLoop str left i data stores).stores, j < i + left := by
  induction left generalizing i data stores with
  | zero => exact hstores
  | succ left ih =>
      rw [decodeLoop]
      split
      · exact hstores
      · rw [← Nat.add_assoc, Nat.add_right_comm]
        apply ih
        intro j hj
        rw [List.mem_append, List.mem_singleton] at hj
        rcases hj with hj | rfl
        · have := hstores j hj
          omega
        · omega

theorem decodeLoop_elsewhere (hj : i + left ≤ j) :
    (decodeLoop str left i data stores).data j = data j := by
  induction left generalizing i data stores with
  | zero => rfl
  | succ left ih =>
      rw [decodeLoop]
      split
      · rfl
      · rw [ih (by omega), Function.update_of_ne (by omega)]

theorem decodeLoop_refuses (hi : i * 2 ≤ j) (hj : j < (i + left) * 2)
    (hbad : isHex (str.getD j 0) = false) : (decodeLoop str left i data stores).ret = 0 := by
  induction left generalizing i data stores with
  | zero => omega
  | succ left ih =>
      rw [decodeLoop]
      split
      · rfl
      · rename_i hpair
        rw [Bool.or_eq_true, Bool.not_eq_true', Bool.not_eq_true', not_or] at hpair
        have hhi : j ≠ i * 2 := fun h => hpair.1 (h ▸ hbad)
        have hlo : j ≠ i * 2 + 1 := fun h => hpair.2 (h ▸ hbad)
        exact ih (by omega) (by omega)

theorem decodeHexstr_spells (h : Spells str bytes) (hmax : bytes.length ≤ max) :
    decodeHexstr str data max =
      { ret := bytes.length, data := store data 0 bytes, stores := List.range bytes.length } := by
  have hlength := h.length
  have hhalf : str.length / 2 = bytes.length := by omega
  rw [decodeHexstr, if_neg (by omega), hhalf, if_neg (by omega)]
  rw [decodeLoop_spells (by simpa using h), hhalf, List.range_eq_range']
  rfl

/-- No byte is stored from `max` on, whatever the text is. -/
theorem decodeHexstr_within (hj : max ≤ (j : ℤ)) :
    j ∉ (decodeHexstr str data max).stores ∧ (decodeHexstr str data max).data j = data j := by
  rw [decodeHexstr]
  split
  · exact ⟨List.not_mem_nil, rfl⟩
  · split
    · exact ⟨List.not_mem_nil, rfl⟩
    · rename_i hmax
      have hhalf : 0 + str.length / 2 ≤ j := by omega
      refine ⟨fun hmem => ?_, decodeLoop_elsewhere hhalf⟩
      have := decodeLoop_stores (fun _ h => absurd h List.not_mem_nil) j hmem
      omega

theorem decodeHexstr_refuses
    (h : str.length % 2 = 1 ∨ 2 * max < str.length ∨ ∃ ch ∈ str, ¬∃ d, Digit ch d) :
    (decodeHexstr str data max).ret = 0 := by
  rw [decodeHexstr]
  split
  · rfl
  · split
    · rfl
    · rename_i hodd hmax
      rcases h with h | h | ⟨ch, hmem, hbad⟩
      · exact absurd h hodd
      · omega
      · obtain ⟨j, hj, rfl⟩ := List.mem_iff_getElem.mp hmem
        apply decodeLoop_refuses (j := j) (by omega) (by omega)
        rw [List.getD_eq_getElem?_getD, List.getElem?_eq_getElem hj, Option.getD_some,
          ← Bool.not_eq_true]
        exact fun h => hbad (isHex_iff.mp h)

theorem isXDigit_iff : isXDigit ch = true ↔ ∃ d, Digit ch d := by
  have hall : ∀ n : Fin 256, isXDigit (UInt8.ofFin n) = isHex (UInt8.ofFin n) := by
    decide +kernel
  have hch : isXDigit ch = isHex ch := hall ch.toFin
  rw [hch, isHex_iff]

theorem searched_digit (h : Digit ch d) : MemorySearch.hexToInt ch = d := by
  have hall : ∀ upper, ∀ d : Fin 16, ∀ c ∈ (digits upper)[d.val]?,
      (digitValue c).getD 0 = d.val := by
    decide +kernel
  obtain ⟨upper, hch⟩ := h
  exact hall upper ⟨d, Digit.lt ⟨upper, hch⟩⟩ ch hch

theorem hexPairs_spells (heven : str.length % 2 = 0) :
    (∃ bytes, hexPairs str = some bytes ∧ Spells str bytes) ∨
      hexPairs str = none ∧ ∃ ch ∈ str, ¬∃ d, Digit ch d := by
  induction str using MemorySearch.hexPairs.induct with
  | case1 hi lo str hdigits ih =>
      rw [hexPairs, if_pos hdigits]
      rw [isXDigit_iff, isXDigit_iff] at hdigits
      obtain ⟨⟨high, hhigh⟩, low, hlow⟩ := hdigits
      rw [searched_digit hhigh, searched_digit hlow]
      rw [List.length_cons, List.length_cons] at heven
      rcases ih (by omega) with ⟨bytes, hbytes, hspells⟩ | ⟨hnone, ch, hmem, hbad⟩
      · have hlt := hhigh.lt
        have hlt' := hlow.lt
        have hval : (UInt8.ofNat (16 * high + low)).toNat = 16 * high + low :=
          UInt8.toNat_ofNat_of_lt' (show 16 * high + low < 256 by omega)
        have hdiv : (16 * high + low) / 16 = high := by omega
        have hmod : (16 * high + low) % 16 = low := by omega
        refine .inl ⟨_, by rw [hbytes, Option.map_some], .cons ?_ ?_ hspells⟩
        · rwa [hval, hdiv]
        · rwa [hval, hmod]
      · exact .inr ⟨by rw [hnone, Option.map_none],
          ch, List.mem_cons_of_mem _ (List.mem_cons_of_mem _ hmem), hbad⟩
  | case2 hi lo str hdigits =>
      right
      rw [hexPairs, if_neg hdigits]
      rw [isXDigit_iff, isXDigit_iff, not_and_or] at hdigits
      refine ⟨rfl, ?_⟩
      rcases hdigits with hbad | hbad
      · exact ⟨hi, List.mem_cons_self, hbad⟩
      · exact ⟨lo, List.mem_cons_of_mem _ List.mem_cons_self, hbad⟩
  | case3 str hshort =>
      rcases str with _ | ⟨ch, _ | ⟨ch', str⟩⟩
      · exact .inl ⟨[], rfl, .nil⟩
      · exact absurd heven (by simp)
      · exact absurd rfl (hshort ch ch' str)

/-- The bytes that `findhex` looks for are those that are left behind. -/
theorem decodeHexstr_searched (max : ℕ) :
    (decodeHexstr str data max).ret = (MemorySearch.decodeHexstr str max).length ∧
      (0 < (decodeHexstr str data max).ret →
        Filled data (decodeHexstr str data max).data 0 (MemorySearch.decodeHexstr str max)) := by
  rw [MemorySearch.decodeHexstr]
  by_cases hlength : str.length % 2 = 1 ∨ max < str.length / 2
  · have hret : (decodeHexstr str data max).ret = 0 := decodeHexstr_refuses (by omega)
    rw [if_pos hlength, hret]
    exact ⟨rfl, fun h => absurd h (lt_irrefl 0)⟩
  · rw [if_neg hlength]
    rcases hexPairs_spells (show str.length % 2 = 0 by omega) with
      ⟨bytes, hbytes, hspells⟩ | ⟨hnone, hbad⟩
    · have hmax : (bytes.length : ℤ) ≤ max := by
        have := hspells.length
        omega
      rw [decodeHexstr_spells hspells hmax, hbytes]
      exact ⟨rfl, fun _ => filled_store data 0 bytes⟩
    · rw [decodeHexstr_refuses (.inr (.inr hbad)), hnone]
      exact ⟨rfl, fun h => absurd h (lt_irrefl 0)⟩

/-- The digits of bytes give the bytes, and everything else is refused. -/
theorem decodeHexstr_spec (data : ℕ → UInt8) (max : ℤ) (str : Bytes) :
    (∀ bytes, Spells str bytes → bytes.length ≤ max →
      (decodeHexstr str data max).ret = bytes.length ∧
      (decodeHexstr str data max).stores = List.range bytes.length ∧
      Filled data (decodeHexstr str data max).data 0 bytes) ∧
    (str.length % 2 = 1 ∨ 2 * max < str.length ∨ (∃ ch ∈ str, ¬∃ d, Digit ch d) →
      (decodeHexstr str data max).ret = 0 ∧
      ∀ j : ℕ, max ≤ j → j ∉ (decodeHexstr str data max).stores ∧
        (decodeHexstr str data max).data j = data j) := by
  constructor
  · intro bytes h hmax
    rw [decodeHexstr_spells h hmax]
    exact ⟨rfl, rfl, filled_store data 0 bytes⟩
  · intro h
    exact ⟨decodeHexstr_refuses h, fun j hj => decodeHexstr_within hj⟩

theorem spells_mixed : Spells (text "aB0f") [0xAB, 0x0F] :=
  .cons ⟨false, rfl⟩ ⟨true, rfl⟩ (.cons ⟨false, rfl⟩ ⟨false, rfl⟩ .nil)

theorem decodeHexstr_mixed (data : ℕ → UInt8) :
    (decodeHexstr (text "aB0f") data 2).ret = 2 ∧ (decodeHexstr (text "aB0g") data 2).ret = 0 :=
  ⟨((decodeHexstr_spec data 2 _).1 _ spells_mixed (by decide)).1,
    ((decodeHexstr_spec data 2 _).2 (.inr (.inr ⟨0x67, by decide, by
      rw [digit_iff_mem]
      decide⟩))).1⟩

end PsplinkUsb.Psplink.HexPatterns
