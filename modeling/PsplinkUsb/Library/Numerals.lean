import Mathlib.Data.Nat.Digits.Lemmas
import PsplinkUsb.Library.Ascii

namespace PsplinkUsb.Library.Numerals

open PsplinkUsb.Library.Ascii

def zero : UInt8 := 0x30
def plus : UInt8 := 0x2B
def minus : UInt8 := 0x2D
def lowerX : UInt8 := 0x78
def upperX : UInt8 := 0x58

def digitChar (d : ℕ) : UInt8 := if d < 10 then UInt8.ofNat (0x30 + d) else UInt8.ofNat (0x37 + d)

/-- The digits of a number, the highest first, and a zero for 0. -/
def numeral (base n : ℕ) : List UInt8 :=
  if n = 0 then [zero] else (Nat.digits base n).reverse.map digitChar

/-- A numeral with zeros before it up to a width. -/
def padded (width base n : ℕ) : List UInt8 :=
  List.replicate (width - (numeral base n).length) zero ++ numeral base n

/-- `%d`. -/
def decimalInt (i : ℤ) : List UInt8 :=
  if i < 0 then minus :: numeral 10 i.natAbs else numeral 10 i.natAbs

/-- `0x%X`. -/
def hex (n : ℕ) : List UInt8 := zero :: lowerX :: numeral 16 n

/-- The number that digits make, the highest first. -/
def value (base : ℕ) (ds : List ℕ) : ℕ := ds.foldl (fun n d => base * n + d) 0

def digitValue (c : UInt8) : Option ℕ :=
  if isDigit c then some (c.toNat - 0x30)
  else if isLower c then some (c.toNat - 0x57)
  else if isUpper c then some (c.toNat - 0x37)
  else none

def isBaseDigit (base : ℕ) (c : UInt8) : Bool :=
  match digitValue c with
  | some d => d < base
  | none => false

/-- Read digits behind those that make `n`, up to the first character that is none. -/
def readDigits (base : ℕ) : ℕ → List UInt8 → ℕ × List UInt8
  | n, [] => (n, [])
  | n, c :: s =>
      match digitValue c with
      | some d => if d < base then readDigits base (base * n + d) s else (n, c :: s)
      | none => (n, c :: s)

def readSign : List UInt8 → Bool × List UInt8
  | [] => (false, [])
  | c :: s => if c = minus then (true, s) else (false, if c = plus then s else c :: s)

/-- The base of a numeral: base 0 leaves it to the text. -/
def readBase (base : ℕ) (s : List UInt8) : ℕ × List UInt8 :=
  match s with
  | z :: x :: c :: rest =>
      if (base = 0 ∨ base = 16) ∧ z = zero ∧ (x = lowerX ∨ x = upperX) ∧ isBaseDigit 16 c then
        (16, c :: rest)
      else (if base = 0 then if z = zero then 8 else 10 else base, s)
  | z :: _ => (if base = 0 then if z = zero then 8 else 10 else base, s)
  | [] => (base, [])

/-- The number `strtol` and `strtoul` read before they fit it into their type, and what stands
behind it; nothing when there is no number. -/
def readInt (base : ℕ) (s : List UInt8) : Option (ℤ × List UInt8) :=
  let (negative, s) := readSign (s.dropWhile isSpace)
  let (base, s) := readBase base s
  match s with
  | [] => none
  | c :: _ =>
      if isBaseDigit base c then
        let (n, rest) := readDigits base 0 s
        some (if negative then -n else n, rest)
      else none

/-- `strtol`, with a `long` of 64 bits. -/
def strtol (base : ℕ) (s : List UInt8) : Option (ℤ × List UInt8) :=
  (readInt base s).map fun p => (max (-2 ^ 63) (min (2 ^ 63 - 1) p.1), p.2)

/-- `strtoul`: a number with a minus sign is negated in the unsigned type. -/
def strtoul (base : ℕ) (s : List UInt8) : Option (ℕ × List UInt8) :=
  (readInt base s).map fun p =>
    (if p.1.natAbs < 2 ^ 64 then (p.1 % 2 ^ 64).toNat else 2 ^ 64 - 1, p.2)

/-- `strtoul`, with a `long` of 32 bits. -/
def strtoul32 (base : ℕ) (s : List UInt8) : Option (ℕ × List UInt8) :=
  (readInt base s).map fun p =>
    (if p.1.natAbs < 2 ^ 32 then (p.1 % 2 ^ 32).toNat else 2 ^ 32 - 1, p.2)

section

variable {base n d : ℕ} {c : UInt8} {s : List UInt8} {ds : List ℕ}

theorem digitValue_digitChar (h : d < 16) : digitValue (digitChar d) = some d := by
  have hall : ∀ d : Fin 16, digitValue (digitChar d) = some d.val := by decide
  exact hall ⟨d, h⟩

theorem isBaseDigit_digitChar (hbase : base ≤ 16) (h : d < base) :
    isBaseDigit base (digitChar d) = true := by
  rw [isBaseDigit, digitValue_digitChar (Nat.lt_of_lt_of_le h hbase)]
  exact decide_eq_true h

theorem readDigits_append (hbase : base ≤ 16) (hds : ∀ d ∈ ds, d < base)
    (hs : ∀ c ∈ s.head?, isBaseDigit base c = false) :
    readDigits base n (ds.map digitChar ++ s) = (ds.foldl (fun n d => base * n + d) n, s) := by
  induction ds generalizing n with
  | nil =>
      cases s with
      | nil => rfl
      | cons c s =>
          have hc := hs c rfl
          rw [isBaseDigit] at hc
          rw [List.map_nil, List.nil_append, readDigits, List.foldl_nil]
          cases hvalue : digitValue c with
          | none => rfl
          | some d =>
              rw [hvalue] at hc
              exact if_neg (of_decide_eq_false hc)
  | cons d ds ih =>
      have hd := hds d List.mem_cons_self
      rw [List.map_cons, List.cons_append, readDigits,
        digitValue_digitChar (Nat.lt_of_lt_of_le hd hbase)]
      simp only [hd, if_true]
      rw [ih fun d hd => hds d (List.mem_cons_of_mem _ hd), List.foldl_cons]

theorem value_digits (base n : ℕ) : value base (Nat.digits base n).reverse = n := by
  have hofDigits := Nat.ofDigits_digits base n
  rw [Nat.ofDigits_eq_foldr] at hofDigits
  rw [value, List.foldl_reverse]
  calc (Nat.digits base n).foldr (fun d n => base * n + d) 0 =
        (Nat.digits base n).foldr (fun d n => ((d : ℕ) : ℕ) + base * n) 0 := by
        congr 1
        funext d n
        exact Nat.add_comm _ _
    _ = n := hofDigits

theorem numeral_eq_map (base n : ℕ) : ∃ ds : List ℕ, numeral base n = ds.map digitChar ∧
    (1 < base → ∀ d ∈ ds, d < base) ∧ value base ds = n ∧ ds ≠ [] := by
  rw [numeral]
  split
  · rename_i hn
    refine ⟨[0], rfl, ?_, ?_, List.cons_ne_nil _ _⟩
    · intro hbase d hd
      rw [List.mem_singleton.mp hd]
      omega
    · simp [value, hn]
  · rename_i hn
    refine ⟨_, rfl, ?_, value_digits base n, ?_⟩
    · intro hbase d hd
      exact Nat.digits_lt_base hbase (List.mem_reverse.mp hd)
    · rw [ne_eq, List.reverse_eq_nil_iff]
      exact Nat.digits_ne_nil_iff_ne_zero.mpr hn

theorem readDigits_digits (hbase : base ≤ 16) (hds : ∀ d ∈ ds, d < base) :
    readDigits base 0 (ds.map digitChar) = (value base ds, []) := by
  have happend := readDigits_append (n := 0) (s := []) hbase hds (by simp)
  rwa [List.append_nil] at happend

theorem digitChar_plain (h : d < 16) : isSpace (digitChar d) = false ∧ digitChar d ≠ minus ∧
    digitChar d ≠ plus ∧ (d ≠ 0 → digitChar d ≠ zero) := by
  have hall : ∀ d : Fin 16, isSpace (digitChar d) = false ∧ digitChar d ≠ minus ∧
      digitChar d ≠ plus ∧ (d.val ≠ 0 → digitChar d ≠ zero) := by
    decide
  exact hall ⟨d, h⟩

theorem digitChar_zero : digitChar 0 = zero := rfl

theorem readInt_of_readBase {negative : Bool} {s' : List UInt8}
    (hsign : readSign (s.dropWhile isSpace) = (negative, s'))
    (hreadBase : readBase n s' = (base, ds.map digitChar)) (hbase : base ≤ 16)
    (hds : ∀ d ∈ ds, d < base) (hne : ds ≠ []) :
    readInt n s = some (if negative then -(value base ds : ℤ) else value base ds, []) := by
  have hdigits := readDigits_digits hbase hds
  simp only [readInt, hsign, hreadBase]
  cases ds with
  | nil => exact absurd rfl hne
  | cons d ds =>
      have hd := isBaseDigit_digitChar hbase (hds d List.mem_cons_self)
      rw [List.map_cons] at hdigits ⊢
      simp only [hd, if_true, hdigits]

theorem readSign_digits (hds : ∀ d ∈ ds, d < 16) :
    readSign ((ds.map digitChar).dropWhile isSpace) = (false, ds.map digitChar) := by
  cases ds with
  | nil => rfl
  | cons d ds =>
      obtain ⟨hspace, hminus, hplus, -⟩ := digitChar_plain (hds d List.mem_cons_self)
      rw [List.map_cons, List.dropWhile_cons_of_neg (by simp [hspace]), readSign, if_neg hminus,
        if_neg hplus]

theorem readSign_minus (s : List UInt8) :
    readSign ((minus :: s).dropWhile isSpace) = (true, s) := by
  rw [List.dropWhile_cons_of_neg (by decide), readSign, if_pos rfl]

theorem readBase_ten (s : List UInt8) : readBase 10 s = (10, s) := by
  rcases s with _ | ⟨z, _ | ⟨x, _ | ⟨c, s⟩⟩⟩
  · rfl
  · rfl
  · rfl
  · simp [readBase]

theorem readBase_zero (hds : ∀ d ∈ ds.head?, d < 16 ∧ d ≠ 0) (hne : ds ≠ []) :
    readBase 0 (ds.map digitChar) = (10, ds.map digitChar) := by
  rcases ds with _ | ⟨d, ds⟩
  · exact absurd rfl hne
  obtain ⟨hlt, hd⟩ := hds d rfl
  have hzero := (digitChar_plain hlt).2.2.2 hd
  rcases ds with _ | ⟨x, _ | ⟨c, ds⟩⟩
  · simp [readBase, hzero]
  · simp [readBase, hzero]
  · simp [readBase, hzero]

theorem readBase_hex (hds : ∀ d ∈ ds, d < 16) (hne : ds ≠ []) :
    readBase 0 (zero :: lowerX :: ds.map digitChar) = (16, ds.map digitChar) := by
  cases ds with
  | nil => exact absurd rfl hne
  | cons d ds =>
      have hd := isBaseDigit_digitChar (Nat.le_refl 16) (hds d List.mem_cons_self)
      simp [readBase, hd]

theorem head_digits (hbase : 1 < base) (hn : n ≠ 0) :
    ∀ d ∈ (Nat.digits base n).reverse.head?, d < base ∧ d ≠ 0 := by
  intro d hd
  rw [List.head?_reverse] at hd
  have hmem := List.mem_of_getLast? hd
  have hne : Nat.digits base n ≠ [] := Nat.digits_ne_nil_iff_ne_zero.mpr hn
  refine ⟨Nat.digits_lt_base hbase hmem, ?_⟩
  have hlast := Nat.getLast_digit_ne_zero base hn
  rw [List.getLast?_eq_getLast_of_ne_nil hne, Option.mem_some_iff] at hd
  exact hd ▸ hlast

theorem readInt_decimalInt (i : ℤ) (hbase : base = 0 ∨ base = 10) :
    readInt base (decimalInt i) = some (i, []) := by
  rcases eq_or_ne i 0 with rfl | hi
  · rcases hbase with rfl | rfl
    · decide
    · decide
  have hn : i.natAbs ≠ 0 := Int.natAbs_ne_zero.mpr hi
  have hds : ∀ d ∈ (Nat.digits 10 i.natAbs).reverse, d < 10 :=
    fun d hd => Nat.digits_lt_base (by decide) (List.mem_reverse.mp hd)
  have hds' : ∀ d ∈ (Nat.digits 10 i.natAbs).reverse, d < 16 :=
    fun d hd => Nat.lt_trans (hds d hd) (by decide)
  have hne : (Nat.digits 10 i.natAbs).reverse ≠ [] := by
    rw [ne_eq, List.reverse_eq_nil_iff]
    exact Nat.digits_ne_nil_iff_ne_zero.mpr hn
  have hnumeral : numeral 10 i.natAbs = (Nat.digits 10 i.natAbs).reverse.map digitChar :=
    if_neg hn
  have hreadBase : readBase base ((Nat.digits 10 i.natAbs).reverse.map digitChar) =
      (10, (Nat.digits 10 i.natAbs).reverse.map digitChar) := by
    rcases hbase with rfl | rfl
    · apply readBase_zero _ hne
      intro d hd
      obtain ⟨hlt, hzero⟩ := head_digits (by decide) hn d hd
      exact ⟨Nat.lt_trans hlt (by decide), hzero⟩
    · exact readBase_ten _
  rw [decimalInt, hnumeral]
  split
  · rename_i hneg
    rw [readInt_of_readBase (readSign_minus _) hreadBase (by decide) hds hne, value_digits,
      if_pos rfl, Int.ofNat_natAbs_of_nonpos (Int.le_of_lt hneg), Int.neg_neg]
  · rename_i hpos
    rw [readInt_of_readBase (readSign_digits hds') hreadBase (by decide) hds hne, value_digits,
      if_neg Bool.false_ne_true, Int.natAbs_of_nonneg (Int.not_lt.mp hpos)]

theorem readInt_numeral_append (n : ℕ) (hs : ∀ c ∈ s.head?, isBaseDigit 10 c = false) :
    readInt 10 (numeral 10 n ++ s) = some ((n : ℤ), s) := by
  obtain ⟨ds, hnumeral, hds, hvalue, hne⟩ := numeral_eq_map 10 n
  have hlt := hds (by decide)
  have hdigits := @readDigits_append 10 0 s ds (by decide) hlt hs
  cases ds with
  | nil => exact absurd rfl hne
  | cons d ds =>
      have hd : d < 10 := hlt d List.mem_cons_self
      obtain ⟨hspace, hminus, hplus, -⟩ := digitChar_plain (Nat.lt_trans hd (by decide))
      have hdigit := isBaseDigit_digitChar (by decide : 10 ≤ 16) hd
      rw [List.map_cons, List.cons_append] at hdigits
      have hsign : readSign ((digitChar d :: (ds.map digitChar ++ s)).dropWhile isSpace) =
          (false, digitChar d :: (ds.map digitChar ++ s)) := by
        rw [List.dropWhile_cons_of_neg (by simp [hspace]), readSign, if_neg hminus, if_neg hplus]
      rw [hnumeral, List.map_cons, List.cons_append, readInt, hsign]
      simp only [readBase_ten, hdigit, if_true, hdigits]
      rw [← value, hvalue]
      rfl

theorem strtoul_numeral_append {n : ℕ} (hn : n < 2 ^ 64)
    (hs : ∀ c ∈ s.head?, isBaseDigit 10 c = false) :
    strtoul 10 (numeral 10 n ++ s) = some (n, s) := by
  rw [strtoul, readInt_numeral_append n hs, Option.map_some, Int.natAbs_natCast, if_pos hn]
  congr 2
  omega

theorem decimalInt_injective : Function.Injective decimalInt := by
  intro i j h
  have hread := congrArg (readInt 10) h
  rw [readInt_decimalInt i (.inr rfl), readInt_decimalInt j (.inr rfl)] at hread
  exact (Prod.mk.inj (Option.some.inj hread)).1

theorem value_replicate (k : ℕ) : value base (List.replicate k 0 ++ ds) = value base ds := by
  induction k with
  | zero => rfl
  | succ k ih =>
      rw [List.replicate_succ, List.cons_append, ← ih]
      simp [value]

theorem padded_eq_map (hbase : 1 < base) (width n : ℕ) : ∃ ds : List ℕ,
    padded width base n = ds.map digitChar ∧ (∀ d ∈ ds, d < base) ∧ value base ds = n ∧ ds ≠ [] := by
  obtain ⟨ds, hnumeral, hds, hvalue, hne⟩ := numeral_eq_map base n
  refine ⟨List.replicate (width - (numeral base n).length) 0 ++ ds, ?_, ?_, ?_, ?_⟩
  · rw [padded, List.map_append, List.map_replicate, ← hnumeral, digitChar_zero]
  · intro d hd
    rcases List.mem_append.mp hd with hd | hd
    · rw [List.eq_of_mem_replicate hd]
      omega
    · exact hds hbase d hd
  · rw [value_replicate, hvalue]
  · exact List.append_ne_nil_of_right_ne_nil _ hne

theorem readInt_hex (width n : ℕ) :
    readInt 0 (zero :: lowerX :: padded width 16 n) = some ((n : ℤ), []) := by
  obtain ⟨ds, hpadded, hds, hvalue, hne⟩ := padded_eq_map (by decide : 1 < 16) width n
  have hsign : readSign ((zero :: lowerX :: padded width 16 n).dropWhile isSpace) =
      (false, zero :: lowerX :: padded width 16 n) := by
    rw [List.dropWhile_cons_of_neg (by decide), readSign, if_neg (by decide), if_neg (by decide)]
  have hreadBase := readBase_hex hds hne
  rw [← hpadded] at hreadBase
  rw [readInt_of_readBase hsign (hpadded ▸ hreadBase) (by decide) hds hne, hvalue,
    if_neg Bool.false_ne_true]

theorem hex_eq_padded (n : ℕ) : hex n = zero :: lowerX :: padded 0 16 n := by
  rw [hex, padded, Nat.zero_sub, List.replicate_zero, List.nil_append]

theorem isAlnum_digitChar (h : d < 16) : isAlnum (digitChar d) = true := by
  have hall : ∀ d : Fin 16, isAlnum (digitChar d) = true := by decide
  exact hall ⟨d, h⟩

theorem isAlnum_of_mem_padded (hbase : 1 < base) (hle : base ≤ 16) (width : ℕ)
    (h : c ∈ padded width base n) : isAlnum c = true := by
  obtain ⟨ds, hpadded, hds, -⟩ := padded_eq_map hbase width n
  rw [hpadded] at h
  obtain ⟨d, hd, rfl⟩ := List.mem_map.mp h
  exact isAlnum_digitChar (Nat.lt_of_lt_of_le (hds d hd) hle)

theorem isAlnum_of_mem_numeral (hbase : 1 < base) (hle : base ≤ 16) (h : c ∈ numeral base n) :
    isAlnum c = true :=
  isAlnum_of_mem_padded hbase hle 0 (List.mem_append_right _ h)

theorem mem_decimalInt {i : ℤ} (h : c ∈ decimalInt i) : c = minus ∨ isAlnum c = true := by
  rw [decimalInt] at h
  split at h
  · rcases List.mem_cons.mp h with rfl | h
    · exact .inl rfl
    · exact .inr (isAlnum_of_mem_numeral (by decide) (by decide) h)
  · exact .inr (isAlnum_of_mem_numeral (by decide) (by decide) h)

theorem readDigits_suffix (base n : ℕ) (s : List UInt8) : (readDigits base n s).2 <:+ s := by
  induction s generalizing n with
  | nil => exact List.suffix_refl _
  | cons c s ih =>
      rw [readDigits]
      split
      · split
        · exact (ih _).trans (List.suffix_cons c s)
        · exact List.suffix_refl _
      · exact List.suffix_refl _

theorem readSign_suffix (s : List UInt8) : (readSign s).2 <:+ s := by
  cases s with
  | nil => exact List.suffix_refl _
  | cons c s =>
      rw [readSign]
      split_ifs
      · exact List.suffix_cons c s
      · exact List.suffix_cons c s
      · exact List.suffix_refl _

theorem readBase_suffix (base : ℕ) (s : List UInt8) : (readBase base s).2 <:+ s := by
  unfold readBase
  split
  · rename_i z x c rest
    split
    · exact List.suffix_append [z, x] (c :: rest)
    · exact List.suffix_refl _
  · exact List.suffix_refl _
  · exact List.suffix_refl _

theorem readInt_suffix {p : ℤ × List UInt8} (h : readInt base s = some p) : p.2 <:+ s := by
  have hbehind := (readBase_suffix base (readSign (s.dropWhile isSpace)).2).trans
    ((readSign_suffix _).trans (List.dropWhile_suffix _))
  rw [readInt] at h
  dsimp only at h
  split at h
  · cases h
  · split at h
    · rw [← Option.some.inj h]
      exact (readDigits_suffix _ _ _).trans hbehind
    · cases h

theorem length_readInt_lt {p : ℤ × List UInt8} (h : readInt base s = some p) :
    p.2.length < s.length := by
  have hbase := ((readBase_suffix base (readSign (s.dropWhile isSpace)).2).trans
    ((readSign_suffix _).trans (List.dropWhile_suffix _))).length_le
  rw [readInt] at h
  dsimp only at h
  split at h
  · cases h
  · rename_i c digits hdigits
    split at h
    · rename_i hc
      obtain ⟨d, hd, hlt⟩ : ∃ d, digitValue c = some d ∧
          d < (readBase base (readSign (s.dropWhile isSpace)).2).1 := by
        rw [isBaseDigit] at hc
        split at hc
        · rename_i d hd
          exact ⟨d, hd, of_decide_eq_true hc⟩
        · cases hc
      have hread (b : ℕ) (hb : d < b) :
          (readDigits b 0 (c :: digits)).2.length ≤ digits.length := by
        rw [readDigits, hd]
        dsimp only
        rw [if_pos hb]
        exact (readDigits_suffix b _ digits).length_le
      rw [hdigits, List.length_cons] at hbase
      rw [← Option.some.inj h, hdigits]
      exact (hread _ hlt).trans_lt (by omega)
    · cases h

theorem length_readInt_le {p : ℤ × List UInt8} (h : readInt base s = some p) :
    p.2.length ≤ s.length :=
  (length_readInt_lt h).le

theorem length_numeral_le {k : ℕ} (hbase : 1 < base) (hk : 0 < k) (h : n < base ^ k) :
    (numeral base n).length ≤ k := by
  rw [numeral]
  split
  · exact hk
  · rw [List.length_map, List.length_reverse]
    exact (Nat.digits_length_le_iff hbase n).mpr h

theorem length_padded_le {k width : ℕ} (hbase : 1 < base) (hk : 0 < k) (h : n < base ^ k) :
    (padded width base n).length ≤ max width k := by
  have hlength := length_numeral_le hbase hk h
  rw [padded, List.length_append, List.length_replicate]
  omega

theorem length_padded {width : ℕ} (hbase : 1 < base) (hwidth : 0 < width) (h : n < base ^ width) :
    (padded width base n).length = width := by
  have hlength := length_numeral_le hbase hwidth h
  rw [padded, List.length_append, List.length_replicate]
  omega

theorem isBaseDigit_of_not_isAlnum (base : ℕ) (h : isAlnum c = false) : isBaseDigit base c = false := by
  simp only [isAlnum, Bool.decide_or, Bool.decide_eq_true, Bool.or_eq_false_iff] at h
  rw [isBaseDigit, digitValue, h.1, h.2.1, h.2.2]
  rfl

theorem readDigits_of_full {m : ℕ} {rest : List UInt8} (h : readDigits base n s = (m, []))
    (hrest : ∀ x ∈ rest.head?, isAlnum x = false) :
    readDigits base n (s ++ rest) = (m, rest) ∧ ∀ x ∈ s, isAlnum x = true := by
  induction s generalizing n with
  | nil =>
      refine ⟨?_, fun x hx => absurd hx List.not_mem_nil⟩
      obtain rfl : n = m := congrArg Prod.fst h
      rw [List.nil_append]
      cases rest with
      | nil => rfl
      | cons x rest =>
          have hx := isBaseDigit_of_not_isAlnum base (hrest x rfl)
          rw [isBaseDigit] at hx
          rw [readDigits]
          cases hvalue : digitValue x with
          | none => rfl
          | some d =>
              rw [hvalue] at hx
              exact if_neg (of_decide_eq_false hx)
  | cons c s ih =>
      rw [readDigits] at h
      rw [List.cons_append, readDigits]
      cases hvalue : digitValue c with
      | none =>
          rw [hvalue] at h
          cases h
      | some d =>
          rw [hvalue] at h
          dsimp only at h ⊢
          split at h
          · rename_i hd
            obtain ⟨hread, hall⟩ := ih h
            rw [if_pos hd]
            refine ⟨hread, List.forall_mem_cons.mpr ⟨?_, hall⟩⟩
            by_contra hno
            have hnone := isBaseDigit_of_not_isAlnum base (Bool.eq_false_iff.mpr hno)
            rw [isBaseDigit, hvalue] at hnone
            exact of_decide_eq_false hnone hd
          · cases h

theorem readBase_append {rest : List UInt8} (hne : s ≠ [])
    (hrest : ∀ x ∈ rest.head?, isAlnum x = false) :
    readBase 0 (s ++ rest) = ((readBase 0 s).1, (readBase 0 s).2 ++ rest) := by
  have hplain : ∀ x t, rest = x :: t → x ≠ lowerX ∧ x ≠ upperX ∧ isBaseDigit 16 x = false := by
    rintro x t rfl
    have hno := hrest x rfl
    refine ⟨?_, ?_, isBaseDigit_of_not_isAlnum 16 hno⟩
    · rintro rfl
      revert hno
      decide
    · rintro rfl
      revert hno
      decide
  rcases s with _ | ⟨z, _ | ⟨x, _ | ⟨c, s⟩⟩⟩
  · exact absurd rfl hne
  · rcases rest with _ | ⟨x, _ | ⟨c, rest⟩⟩
    · simp [readBase]
    · simp [readBase]
    · obtain ⟨hlower, hupper, -⟩ := hplain x _ rfl
      simp [readBase, hlower, hupper]
  · rcases rest with _ | ⟨c, rest⟩
    · simp [readBase]
    · obtain ⟨-, -, hdigit⟩ := hplain c _ rfl
      simp [readBase, hdigit]
  · by_cases hhex : z = zero ∧ (x = lowerX ∨ x = upperX) ∧ isBaseDigit 16 c = true
    · simp [readBase, hhex]
    · simp [readBase, hhex]

theorem mem_readBase (h : c ∈ s) :
    c ∈ (readBase 0 s).2 ∨ c = zero ∨ c = lowerX ∨ c = upperX := by
  unfold readBase
  split
  · rename_i z x d rest
    split
    · rename_i hhex
      rcases List.mem_cons.mp h with rfl | h
      · exact .inr (.inl hhex.2.1)
      · rcases List.mem_cons.mp h with rfl | h
        · exact .inr (.inr hhex.2.2.1)
        · exact .inl h
    · exact .inl h
  · exact .inl h
  · exact .inl h

theorem readInt_append {i : ℤ} {rest : List UInt8} (hdigit : isDigit c = true)
    (h : readInt 0 (c :: s) = some (i, [])) (hrest : ∀ x ∈ rest.head?, isAlnum x = false) :
    readInt 0 (c :: s ++ rest) = some (i, rest) ∧ ∀ x ∈ c :: s, isAlnum x = true := by
  have hsign : ∀ t, readSign ((c :: t).dropWhile isSpace) = (false, c :: t) := by
    have hplain : isSpace c = false ∧ c ≠ minus ∧ c ≠ plus := by
      grind [isDigit, isSpace, minus, plus]
    obtain ⟨hspace, hminus, hplus⟩ := hplain
    intro t
    rw [List.dropWhile_cons_of_neg (Bool.eq_false_iff.mp hspace), readSign, if_neg hminus, if_neg hplus]
  have hbase := readBase_append (List.cons_ne_nil c s) hrest
  rw [readInt, hsign] at h
  rw [List.cons_append, readInt, hsign, ← List.cons_append]
  dsimp only at h ⊢
  rw [hbase]
  cases hread : (readBase 0 (c :: s)).2 with
  | nil =>
      rw [hread] at h
      cases h
  | cons d t =>
      rw [hread] at h
      dsimp only at h ⊢
      rw [List.cons_append]
      dsimp only
      split at h
      · rename_i hfirst
        rw [if_pos hfirst]
        obtain ⟨hvalue, hend⟩ := Prod.mk.inj (Option.some.inj h)
        have hdigits : readDigits (readBase 0 (c :: s)).1 0 (d :: t) =
            ((readDigits (readBase 0 (c :: s)).1 0 (d :: t)).1, []) :=
          Prod.ext rfl hend
        obtain ⟨hread', hall⟩ := readDigits_of_full hdigits hrest
        rw [List.cons_append] at hread'
        rw [hread', ← hvalue]
        refine ⟨rfl, fun x hx => ?_⟩
        rcases mem_readBase hx with hx | rfl | rfl | rfl
        · exact hall x (hread ▸ hx)
        · decide
        · decide
        · decide
      · cases h

end

end PsplinkUsb.Library.Numerals
