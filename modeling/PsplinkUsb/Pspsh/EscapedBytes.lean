import PsplinkUsb.Pspsh.Tokens

namespace PsplinkUsb.Pspsh.EscapedBytes

open PsplinkUsb.Library.Ascii
open PsplinkUsb.Pspsh.ParseArgs
open PsplinkUsb.Pspsh.Tokens

/-- A byte in hexadecimal, with either case for each of its digits, or in octal. -/
inductive Escape where
  | hex (byte : UInt8) (upperHigh upperLow : Bool)
  | octal (byte : UInt8)

def hexDigit (upper : Bool) (digit : UInt8) : UInt8 :=
  let letter : UInt8 := if upper then 0x41 else 0x61
  if digit < 10 then 0x30 + digit else letter + (digit - 10)

def octalDigits (byte : UInt8) : Bytes :=
  let digit (d : UInt8) : UInt8 := 0x30 + d
  [digit (byte >>> 6), digit (byte >>> 3 &&& 7), digit (byte &&& 7)]

namespace Escape

def value : Escape → UInt8
  | hex byte _ _ => byte
  | octal byte => byte

/-- What stands behind the backslash. -/
def digits : Escape → Bytes
  | hex byte upperHigh upperLow =>
      [0x78, hexDigit upperHigh (byte >>> 4), hexDigit upperLow (byte &&& 0xF)]
  | octal byte => 0x30 :: octalDigits byte

def text (e : Escape) : Bytes := backslash :: e.digits

/-- No digit is a letter. -/
def Decimal : Escape → Prop
  | hex byte _ _ => byte >>> 4 < 10 ∧ byte &&& 0xF < 10
  | octal _ => True

/-- The byte that is read. `hex_to_int` takes the letters from `A` on as 0 and up. -/
def read : Escape → UInt8
  | hex byte _ _ =>
      let digit (d : UInt8) : UInt8 := if d < 10 then d else d - 10
      digit (byte >>> 4) <<< 4 ||| digit (byte &&& 0xF)
  | octal byte => byte

theorem read_eq_value_iff (e : Escape) : e.read = e.value ↔ e.Decimal := by
  cases e with
  | hex byte upperHigh upperLow =>
      have hall : ∀ n : Fin 256, (hex (UInt8.ofFin n) false false).read = UInt8.ofFin n ↔
          UInt8.ofFin n >>> 4 < 10 ∧ UInt8.ofFin n &&& 0xF < 10 := by
        decide +kernel
      exact hall byte.toFin
  | octal byte => exact iff_of_true rfl trivial

example : (hex 0x1F true true).read = 0x15 := by decide +kernel

end Escape

theorem nibble_lt (byte : UInt8) : byte >>> 4 < 16 ∧ byte &&& 0xF < 16 := by
  constructor
  · rw [UInt8.lt_iff_toNat_lt, UInt8.toNat_shiftRight, Nat.shiftRight_eq_div_pow]
    exact Nat.div_lt_of_lt_mul byte.toNat_lt
  · rw [UInt8.lt_iff_toNat_lt, UInt8.toNat_and]
    exact Nat.lt_succ_of_le Nat.and_le_right

theorem hexToInt_hexDigit (upper : Bool) {d : UInt8} (hd : d < 16) :
    isXDigit (hexDigit upper d) = true ∧
      hexToInt (hexDigit upper d) = if d < 10 then d else d - 10 := by
  have hall : ∀ (upper : Bool) (n : Fin 16),
      isXDigit (hexDigit upper (UInt8.ofNat n)) = true ∧
        hexToInt (hexDigit upper (UInt8.ofNat n)) =
          if UInt8.ofNat n < 10 then UInt8.ofNat n else UInt8.ofNat n - 10 := by
    decide
  have hdigit := hall upper ⟨d.toNat, UInt8.lt_iff_toNat_lt.mp hd⟩
  rwa [UInt8.ofNat_toNat] at hdigit

theorem decodeHex_hexDigits (byte : UInt8) (upperHigh upperLow : Bool) (rest : Bytes) :
    decodeHex (hexDigit upperHigh (byte >>> 4) :: hexDigit upperLow (byte &&& 0xF) :: rest) =
      notNul (2, (Escape.hex byte upperHigh upperLow).read) := by
  obtain ⟨hhigh, hhighValue⟩ := hexToInt_hexDigit upperHigh (nibble_lt byte).1
  obtain ⟨hlow, hlowValue⟩ := hexToInt_hexDigit upperLow (nibble_lt byte).2
  have hvalue : ((0 : UInt8) <<< 4 ||| hexToInt (hexDigit upperHigh (byte >>> 4))) <<< 4 |||
      hexToInt (hexDigit upperLow (byte &&& 0xF)) =
        (Escape.hex byte upperHigh upperLow).read := by
    rw [hhighValue, hlowValue, UInt8.zero_shiftLeft, UInt8.zero_or]
    rfl
  rw [decodeHex]
  simp only [digits, hhigh, hlow, if_true, hvalue]

theorem octToInt_digit {d : UInt8} (hd : d < 8) :
    isODigit (0x30 + d) = true ∧ octToInt (0x30 + d) = d := by
  have hall : ∀ n : Fin 8, isODigit (0x30 + UInt8.ofNat n) = true ∧
      octToInt (0x30 + UInt8.ofNat n) = UInt8.ofNat n := by
    decide
  have hdigit := hall ⟨d.toNat, UInt8.lt_iff_toNat_lt.mp hd⟩
  rwa [UInt8.ofNat_toNat] at hdigit

theorem decodeOct_octalDigits (byte : UInt8) {rest : Bytes}
    (hrest : ∀ ch ∈ rest.head?, isODigit ch = false) :
    decodeOct (octalDigits byte ++ rest) = notNul (3, byte) := by
  have htop : byte >>> 6 < 8 := by
    rw [UInt8.lt_iff_toNat_lt, UInt8.toNat_shiftRight, Nat.shiftRight_eq_div_pow]
    exact Nat.div_lt_of_lt_mul (byte.toNat_lt.trans (by decide))
  have hlow : ∀ d : UInt8, d &&& 7 < 8 := by
    intro d
    rw [UInt8.lt_iff_toNat_lt, UInt8.toNat_and]
    exact Nat.lt_succ_of_le Nat.and_le_right
  obtain ⟨hfirst, hfirstValue⟩ := octToInt_digit htop
  obtain ⟨hsecond, hsecondValue⟩ := octToInt_digit (hlow (byte >>> 3))
  obtain ⟨hthird, hthirdValue⟩ := octToInt_digit (hlow byte)
  have hall : ∀ n : Fin 256, (((0 : UInt8) <<< 3 ||| UInt8.ofFin n >>> 6) <<< 3 |||
      UInt8.ofFin n >>> 3 &&& 7) <<< 3 ||| UInt8.ofFin n &&& 7 = UInt8.ofFin n := by
    decide +kernel
  have hvalue := hall byte.toFin
  have hbyte : UInt8.ofFin byte.toFin = byte := rfl
  rw [hbyte] at hvalue
  have hlast : ∀ ch, digits isODigit 3 octToInt 1 ch rest = (0, ch) := by
    intro ch
    cases rest with
    | nil => rfl
    | cons c rest => rw [digits, hrest c rfl, if_neg Bool.false_ne_true]
  simp only [decodeOct, octalDigits, List.cons_append, List.nil_append, digits, hfirst, hsecond,
    hthird, hfirstValue, hsecondValue, hthirdValue, if_true, hvalue, hlast]

variable {env : Env} {rest : Bytes} {es : List Escape}

theorem ofDigits_notNul {count : ℕ} (hcount : 2 ≤ count) (byte : UInt8) (input : Bytes) :
    Turn.ofDigits 0 input (notNul (count, byte)) =
      if byte = 0 then .error input else .more [byte] 0 (input.drop count) := by
  have hmany : ¬(count = 0 ∨ count = 1) := by omega
  rw [notNul]
  split
  · rename_i hnul
    rw [if_pos (hnul.resolve_left (by omega))]
    rfl
  · rename_i hsome
    rw [if_neg fun hnul => hsome (.inr hnul), Turn.ofDigits, if_neg hmany]

theorem turn_text (e : Escape) (hrest : ∀ ch ∈ rest.head?, isODigit ch = false) :
    turn env 0 backslash (e.digits ++ rest) =
      if e.read = 0 then .error ((e.digits ++ rest).drop 1) else .more [e.read] 0 rest := by
  cases e with
  | hex byte upperHigh upperLow =>
      have hturn : turn env 0 backslash ((Escape.hex byte upperHigh upperLow).digits ++ rest) =
          .ofDigits 0 (hexDigit upperHigh (byte >>> 4) :: hexDigit upperLow (byte &&& 0xF) :: rest)
            (decodeHex (hexDigit upperHigh (byte >>> 4) :: hexDigit upperLow (byte &&& 0xF) ::
              rest)) := rfl
      rw [hturn, decodeHex_hexDigits, ofDigits_notNul le_rfl]
      rfl
  | octal byte =>
      have hturn : turn env 0 backslash ((Escape.octal byte).digits ++ rest) =
          .ofDigits 0 (octalDigits byte ++ rest) (decodeOct (octalDigits byte ++ rest)) := rfl
      rw [hturn, decodeOct_octalDigits byte hrest, ofDigits_notNul (by decide)]
      rfl

theorem head_texts (hrest : Ends rest) (es : List Escape) :
    ∀ ch ∈ (es.flatMap Escape.text ++ rest).head?, isODigit ch = false := by
  have hspace : ∀ ch, isSpace ch = true → isODigit ch = false := by
    intro ch hch
    grind [isSpace, isODigit]
  cases es with
  | nil =>
      intro ch hch
      rcases hrest ch hch with hch | rfl
      · exact hspace ch hch
      · rfl
  | cons e es =>
      intro ch hch
      cases Option.mem_some.mp hch
      rfl

theorem readChars_texts (hnul : ∀ e ∈ es, e.value ≠ 0) (hdecimal : ∀ e ∈ es, e.Decimal)
    (hrest : Ends rest) :
    readChars env 0 (es.flatMap Escape.text ++ rest) =
      { readChars env 0 rest with
        out := es.map Escape.value ++ (readChars env 0 rest).out } := by
  induction es with
  | nil => rfl
  | cons e es ih =>
      have hread := e.read_eq_value_iff.mpr (hdecimal e List.mem_cons_self)
      have hturn := @turn_text env _ e (head_texts hrest es)
      rw [hread, if_neg (hnul e List.mem_cons_self)] at hturn
      rw [List.flatMap_cons, List.append_assoc, Escape.text, List.cons_append,
        readChars_of_more hturn, ih (fun e he => hnul e (List.mem_cons_of_mem _ he))
          fun e he => hdecimal e (List.mem_cons_of_mem _ he)]
      rfl

/-- The bytes before one with a letter among its digits are right, and that one is not. -/
theorem decimal_of_readChars (hrest : Ends rest)
    (herror : (readChars env 0 (es.flatMap Escape.text ++ rest)).error = false)
    (hout : (readChars env 0 (es.flatMap Escape.text ++ rest)).out = es.map Escape.value) :
    ∀ e ∈ es, e.Decimal := by
  induction es with
  | nil => exact fun e he => absurd he List.not_mem_nil
  | cons e es ih =>
      have hturn := @turn_text env _ e (head_texts hrest es)
      rw [List.flatMap_cons, List.append_assoc, Escape.text, List.cons_append] at herror hout
      split at hturn
      · rw [readChars_of_error hturn] at herror
        cases herror
      · rw [readChars_of_more hturn] at herror hout
        obtain ⟨hread, hout⟩ := List.cons.inj hout
        intro f hf
        rcases List.mem_cons.mp hf with rfl | hf
        · exact f.read_eq_value_iff.mp hread
        · exact ih herror hout f hf

theorem token_texts (env : Env) (hsome : es ≠ []) (hnul : ∀ e ∈ es, e.value ≠ 0)
    (hdecimal : ∀ e ∈ es, e.Decimal) :
    Token env (es.flatMap Escape.text) (es.map Escape.value) where
  start := by
    obtain ⟨e, es, rfl⟩ := List.exists_cons_of_ne_nil hsome
    exact ⟨backslash, e.digits ++ es.flatMap Escape.text, rfl, by decide, by decide⟩
  chars := fun rest hrest => readChars_texts hnul hdecimal hrest

/-- A token of escapes is read as its bytes exactly when no hexadecimal digit is a letter. -/
theorem read_string_escaped_iff (env : Env) (es : List Escape) (hsome : es ≠ [])
    (hnul : ∀ e ∈ es, e.value ≠ 0) (rest : Bytes) (hrest : Ends rest) :
    readString env (es.flatMap Escape.text ++ rest) =
        { len := es.length + 1, out := es.map Escape.value ++ [0],
          rest := rest.dropWhile isSpace } ↔
      ∀ e ∈ es, e.Decimal := by
  constructor
  · intro hread
    obtain ⟨e, es, rfl⟩ := List.exists_cons_of_ne_nil hsome
    have hstart : (e :: es).flatMap Escape.text ++ rest =
        backslash :: (e.digits ++ es.flatMap Escape.text ++ rest) := rfl
    rw [hstart, readString_start (by decide)] at hread
    dsimp only at hread
    split at hread
    · cases congrArg ReadString.len hread
    · rename_i hgood
      rw [not_or] at hgood
      have hout := List.append_cancel_right (congrArg ReadString.out hread)
      exact decimal_of_readChars hrest (Bool.eq_false_of_not_eq_true hgood.2) hout
  · intro hdecimal
    rw [(token_texts env hsome hnul hdecimal).readString hrest, List.length_map]

/-- The token `\x01\0002`. -/
theorem read_string_escaped_iff_two :
    readString { getenv := fun _ => none, sargc := 0, sargv := none }
        ([Escape.hex 1 false false, .octal 2].flatMap Escape.text ++ []) =
        { len := 3, out := [1, 2, 0], rest := [] } ↔
      ∀ e ∈ [Escape.hex 1 false false, .octal 2], e.Decimal := by
  have hnul : ∀ e ∈ [Escape.hex 1 false false, .octal 2], e.value ≠ 0 := by
    intro e he
    rcases List.mem_cons.mp he with rfl | he
    · decide
    · rw [List.mem_singleton.mp he]
      decide
  exact read_string_escaped_iff _ _ (List.cons_ne_nil _ _) hnul [] ends_nil

/-- The token `\x1F` is read as the byte 0x15. -/
theorem letter_misread :
    let env : Env := { getenv := fun _ => none, sargc := 0, sargv := none }
    let es : List Escape := [.hex 0x1F true true]
    es.flatMap Escape.text = [0x5C, 0x78, 0x31, 0x46] ∧
      (readString env (es.flatMap Escape.text)).out = [0x15, 0] ∧
      readString env (es.flatMap Escape.text) ≠
        { len := es.length + 1, out := es.map Escape.value ++ [0], rest := [] } := by
  intro env es
  have hout : (readString env (es.flatMap Escape.text)).out = [0x15, 0] := by
    decide +kernel
  refine ⟨rfl, hout, fun hread => ?_⟩
  rw [hread] at hout
  cases hout

end PsplinkUsb.Pspsh.EscapedBytes
