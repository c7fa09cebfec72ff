import PsplinkUsb.Library.Ascii
import PsplinkUsb.UsbGdb.Stub

namespace PsplinkUsb.UsbGdb.PacketData

open PsplinkUsb.Library.Ascii
open PsplinkUsb.Psplink.ProgramMemory
open PsplinkUsb.UsbGdb.Packets hiding plus minus
open PsplinkUsb.UsbGdb.PacketExchange
open PsplinkUsb.UsbGdb.StubMemory
open PsplinkUsb.UsbGdb.Stub

/-- Two hex digits for each byte, of either case. -/
inductive HexOf : Bytes → Bytes → Prop
  | nil : HexOf [] []
  | cons {hi lo b : UInt8} {digits data : Bytes} (hhi : 0 ≤ hex hi) (hlo : 0 ≤ hex lo)
      (hvalue : (b.toNat : ℤ) = 16 * hex hi + hex lo) (h : HexOf digits data) :
      HexOf (hi :: lo :: digits) (b :: data)

/-- `#`, `$` and `}` are sent as `}` and the byte with one bit turned over. -/
def escapeByte (b : UInt8) : Bytes :=
  if b = sharp ∨ b = dollar ∨ b = closeBrace then [closeBrace, b ^^^ 0x20] else [b]

def escaped (data : Bytes) : Bytes := data.flatMap escapeByte

/-- The encodings of so many bytes: two digits each, or one byte with a `}` before it or not. -/
inductive Encodes : Bool → Bytes → ℕ → Prop
  | nil (binary : Bool) : Encodes binary [] 0
  | digits {hi lo : UInt8} {data : Bytes} {n : ℕ} (hhi : 0 ≤ hex hi) (hlo : 0 ≤ hex lo)
      (h : Encodes false data n) : Encodes false (hi :: lo :: data) (n + 1)
  | plain {ch : UInt8} {data : Bytes} {n : ℕ} (hch : ch ≠ closeBrace)
      (h : Encodes true data n) : Encodes true (ch :: data) (n + 1)
  | brace {ch : UInt8} {data : Bytes} {n : ℕ} (h : Encodes true data n) :
      Encodes true (closeBrace :: ch :: data) (n + 1)

/-- The number that hex digits make, the highest first. -/
def hexValue (digits : Bytes) : ℕ := digits.foldl (fun n ch => 16 * n + (hex ch).toNat) 0

/-- Hex digits for a number: at least one, of either case. -/
structure HexNumber (digits : Bytes) (n : ℕ) : Prop where
  nonempty : digits ≠ []
  are_hex : ∀ ch ∈ digits, 0 ≤ hex ch
  value : hexValue digits = n

variable {digits data rest more : Bytes} {n : ℕ}

theorem hexOf_hexText (data : Bytes) : HexOf (hexText data) data := by
  induction data with
  | nil => exact .nil
  | cons b data ih =>
      obtain ⟨hhi, hlo, hvalue⟩ := hexchar_digits b
      exact .cons hhi hlo hvalue.symm ih

theorem HexOf.length (h : HexOf digits data) : digits.length = 2 * data.length := by
  induction h with
  | nil => rfl
  | cons hhi hlo hvalue h ih =>
      simp only [List.length_cons, ih]
      omega

theorem hexchar_hex (ch : UInt8) (h : 0 ≤ hex ch) :
    hexchar (UInt8.ofInt (hex ch)) = toLower ch := by
  have hall : ∀ n : Fin 256, 0 ≤ hex (UInt8.ofFin n) →
      hexchar (UInt8.ofInt (hex (UInt8.ofFin n))) = toLower (UInt8.ofFin n) := by
    decide +kernel
  exact hall ch.toFin h

theorem hexchar_nibbles (hi lo : Fin 16) :
    hexchar ((UInt8.ofInt hi.val <<< 4 ||| UInt8.ofInt lo.val) >>> 4) =
        hexchar (UInt8.ofInt hi.val) ∧
      hexchar (UInt8.ofInt hi.val <<< 4 ||| UInt8.ofInt lo.val) =
        hexchar (UInt8.ofInt lo.val) := by
  revert hi lo
  decide

theorem nibble_of_hex {ch : UInt8} (h : 0 ≤ hex ch) : ∃ d : Fin 16, hex ch = d.val := by
  obtain ⟨d, hd⟩ := Int.eq_ofNat_of_zero_le h
  have hlt := (hex_cases ch).1
  exact ⟨⟨d, by omega⟩, hd⟩

theorem unitByte_digits {hi lo b : UInt8} (hhi : 0 ≤ hex hi) (hlo : 0 ≤ hex lo)
    (hvalue : (b.toNat : ℤ) = 16 * hex hi + hex lo) (rest : Bytes) :
    unitByte false (hi :: lo :: rest) = b := by
  obtain ⟨d₁, hd₁⟩ := nibble_of_hex hhi
  obtain ⟨d₂, hd₂⟩ := nibble_of_hex hlo
  rw [hd₁, hd₂] at hvalue
  show UInt8.ofInt (hex hi) <<< 4 ||| UInt8.ofInt (hex lo) = b
  rw [hd₁, hd₂]
  apply UInt8.toNat_inj.mp
  rw [nibbles_toNat]
  exact_mod_cast hvalue.symm

theorem decode_hexOf (h : HexOf digits data) (rest : Bytes) :
    decode false (digits ++ rest) data.length = data := by
  induction h with
  | nil => rfl
  | cons hhi hlo hvalue h ih =>
      rw [List.length_cons, decode, List.cons_append, List.cons_append,
        unitByte_digits hhi hlo hvalue]
      exact congrArg _ ih

theorem hexText_of_hexOf (h : HexOf digits data) : hexText data = digits.map toLower := by
  induction h with
  | nil => rfl
  | @cons hi lo b digits data hhi hlo hvalue h ih =>
      obtain ⟨d₁, hd₁⟩ := nibble_of_hex hhi
      obtain ⟨d₂, hd₂⟩ := nibble_of_hex hlo
      have hbyte := unitByte_digits hhi hlo hvalue []
      have hb : UInt8.ofInt d₁.val <<< 4 ||| UInt8.ofInt d₂.val = b := by
        rw [← hd₁, ← hd₂]
        exact hbyte
      obtain ⟨hhigh, hlow⟩ := hexchar_nibbles d₁ d₂
      rw [hb, ← hd₁, hexchar_hex hi hhi] at hhigh
      rw [hb, ← hd₂, hexchar_hex lo hlo] at hlow
      show hexchar (b >>> 4) :: hexchar b :: hexText data = _
      rw [hhigh, hlow, ih]
      rfl

theorem hexText_injective : Function.Injective hexText := by
  intro data data' h
  have hdecode := decode_hexOf (hexOf_hexText data) []
  have hdecode' := decode_hexOf (hexOf_hexText data') []
  have hlength := congrArg List.length h
  rw [length_hexText, length_hexText] at hlength
  rw [← hdecode, ← hdecode', h, Nat.eq_of_mul_eq_mul_left Nat.two_pos hlength]

theorem escapeByte_unit (b : UInt8) (rest : Bytes) :
    unitByte true (escapeByte b ++ rest) = b ∧
      unitLength true (escapeByte b ++ rest) = (escapeByte b).length := by
  rw [escapeByte]
  split
  · refine ⟨?_, by simp [unitLength]⟩
    show 0x20 ^^^ (b ^^^ 0x20) = b
    rw [UInt8.xor_comm, UInt8.xor_assoc, UInt8.xor_self, UInt8.xor_zero]
  · rename_i hplain
    have hb : b ≠ closeBrace := fun h => hplain (.inr (.inr h))
    exact ⟨by simp [unitByte, hb], by simp [unitLength, hb]⟩

theorem decode_escaped (data rest : Bytes) :
    decode true (escaped data ++ rest) data.length = data := by
  induction data with
  | nil => rfl
  | cons b data ih =>
      obtain ⟨hbyte, hlength⟩ := escapeByte_unit b (escaped data ++ rest)
      have hsplit : escaped (b :: data) ++ rest = escapeByte b ++ (escaped data ++ rest) := by
        simp [escaped]
      rw [List.length_cons, decode, hsplit, hbyte, hlength, List.drop_left, ih]

theorem hex_zero : hex 0 = -1 := by decide

theorem shiftLeft_or_digit (d : Fin 16) (n : ℕ) :
    BitVec.ofNat 32 n <<< 4 ||| BitVec.ofInt 32 d.val = BitVec.ofNat 32 (16 * n + d.val) := by
  have hsmall : d.val < 2 ^ 4 := d.isLt
  have hmod : d.val % 2 ^ 32 = d.val := Nat.mod_eq_of_lt (by omega)
  apply BitVec.eq_of_toNat_eq
  rw [BitVec.ofInt_natCast, BitVec.toNat_or, BitVec.toNat_shiftLeft, BitVec.toNat_ofNat,
    BitVec.toNat_ofNat, BitVec.toNat_ofNat, hmod, Nat.shiftLeft_eq]
  have hdigit : n % 2 ^ 32 * 2 ^ 4 % 2 ^ 32 = 2 ^ 4 * (n % 2 ^ 28) := by omega
  rw [hdigit, ← Nat.two_pow_add_eq_or_of_lt hsmall]
  omega

theorem hexToIntFrom_append (hdigits : ∀ ch ∈ digits, 0 ≤ hex ch)
    (hrest : ∀ ch ∈ rest.head?, hex ch < 0) (k v : ℕ) :
    hexToIntFrom k (BitVec.ofNat 32 v) (digits ++ rest) =
      { numChars := k + digits.length
        intValue := BitVec.ofNat 32 (digits.foldl (fun n ch => 16 * n + (hex ch).toNat) v)
        ptr := rest } := by
  induction digits generalizing k v with
  | nil =>
      cases rest with
      | nil => rfl
      | cons ch rest =>
          have hneg := hrest ch rfl
          rw [List.nil_append, hexToIntFrom, if_pos (.inr hneg)]
          rfl
  | cons ch digits ih =>
      obtain ⟨hch, hdigits⟩ := List.forall_mem_cons.mp hdigits
      obtain ⟨d, hd⟩ := nibble_of_hex hch
      have hnot : ¬(ch = 0 ∨ hex ch < 0) := by
        rintro (rfl | hneg)
        · rw [hex_zero] at hch
          omega
        · omega
      rw [List.cons_append, hexToIntFrom, if_neg hnot, hd, shiftLeft_or_digit, ih hdigits,
        List.length_cons, List.foldl_cons, hd, Int.toNat_natCast, Nat.add_assoc,
        Nat.add_comm 1]

theorem hexToInt_number (h : HexNumber digits n) (hrest : ∀ ch ∈ rest.head?, hex ch < 0) :
    hexToInt (digits ++ rest) =
      { numChars := digits.length, intValue := BitVec.ofNat 32 n, ptr := rest } := by
  have hall := hexToIntFrom_append h.are_hex hrest 0 0
  rw [Nat.zero_add] at hall
  rw [← h.value]
  exact hall

theorem hexNumber_of_check
    (h : (!digits.isEmpty && digits.all (fun ch => 0 ≤ hex ch) && hexValue digits == n) = true) :
    HexNumber digits n := by
  rw [Bool.and_eq_true, Bool.and_eq_true, List.all_eq_true] at h
  obtain ⟨⟨hne, hall⟩, hvalue⟩ := h
  refine ⟨?_, fun ch hch => of_decide_eq_true (hall ch hch), eq_of_beq hvalue⟩
  rintro rfl
  exact absurd hne (by decide)

theorem twoNumbers_numbers {as ls : Bytes} {a : ℕ} (ha : HexNumber as a) (hl : HexNumber ls n)
    (hrest : ∀ ch ∈ rest.head?, hex ch < 0) :
    twoNumbers (as ++ comma :: (ls ++ rest)) =
      (some { addr := BitVec.ofNat 32 a, length := BitVec.ofNat 32 n, ptr := rest },
        as.length + 1 + (ls.length + 1)) := by
  have hcomma : ∀ ch ∈ (comma :: (ls ++ rest)).head?, hex ch < 0 := by
    intro ch hch
    obtain rfl := Option.some.inj hch
    decide
  have has : as.length ≠ 0 := fun h => ha.nonempty (List.eq_nil_of_length_eq_zero h)
  have hls : ls.length ≠ 0 := fun h => hl.nonempty (List.eq_nil_of_length_eq_zero h)
  rw [twoNumbers, hexToInt_number ha hcomma]
  simp only [if_neg has, List.getD_cons_zero, ne_eq, not_true_eq_false, if_false,
    List.drop_succ_cons, List.drop_zero, hexToInt_number hl hrest, if_neg hls]

theorem hexToIntFrom_zero (k : ℕ) (v : Word) (ptr more : Bytes) :
    hexToIntFrom k v (ptr ++ 0 :: more) =
        { hexToIntFrom k v ptr with ptr := (hexToIntFrom k v ptr).ptr ++ 0 :: more } ∧
      k + ptr.length = (hexToIntFrom k v ptr).numChars + (hexToIntFrom k v ptr).ptr.length := by
  induction ptr generalizing k v with
  | nil => exact ⟨by simp [hexToIntFrom], rfl⟩
  | cons ch ptr ih =>
      rw [List.cons_append, hexToIntFrom, hexToIntFrom]
      split
      · exact ⟨rfl, rfl⟩
      · obtain ⟨heq, hlength⟩ := ih (k + 1) (v <<< 4 ||| BitVec.ofInt 32 (hex ch))
        refine ⟨heq, ?_⟩
        rw [List.length_cons, ← hlength]
        omega

theorem hexToInt_zero (ptr more : Bytes) :
    hexToInt (ptr ++ 0 :: more) =
      { hexToInt ptr with ptr := (hexToInt ptr).ptr ++ 0 :: more } :=
  (hexToIntFrom_zero 0 0 ptr more).1

theorem length_hexToInt (ptr : Bytes) :
    ptr.length = (hexToInt ptr).numChars + (hexToInt ptr).ptr.length := by
  have hlength := (hexToIntFrom_zero 0 0 ptr []).2
  rwa [Nat.zero_add] at hlength

theorem getD_append_zero (ptr more : Bytes) : (ptr ++ 0 :: more).getD 0 0 = ptr.getD 0 0 := by
  cases ptr with
  | nil => rfl
  | cons ch ptr => rfl

theorem drop_append_zero {ptr : Bytes} {c : UInt8} (hc : c ≠ 0) (h : ptr.getD 0 0 = c)
    (more : Bytes) : (ptr ++ 0 :: more).drop 1 = ptr.drop 1 ++ 0 :: more ∧
      ptr.length = (ptr.drop 1).length + 1 := by
  cases ptr with
  | nil => exact absurd h.symm hc
  | cons ch ptr => exact ⟨rfl, rfl⟩

/-- The header is found without looking further than the zero behind the packet, and what
it leaves is the rest of the packet. -/
theorem twoNumbers_zero (ptr more : Bytes) :
    twoNumbers (ptr ++ 0 :: more) =
        ((twoNumbers ptr).1.map fun numbers => { numbers with ptr := numbers.ptr ++ 0 :: more },
          (twoNumbers ptr).2) ∧
      match (twoNumbers ptr).1 with
      | some numbers => (twoNumbers ptr).2 + numbers.ptr.length = ptr.length + 1
      | none => (twoNumbers ptr).2 ≤ ptr.length + 1 := by
  have hlength := length_hexToInt ptr
  rw [twoNumbers, twoNumbers, hexToInt_zero]
  dsimp only
  rw [getD_append_zero]
  by_cases hzero : (hexToInt ptr).numChars = 0
  · rw [if_pos hzero, if_pos hzero]
    exact ⟨rfl, Nat.le_add_left 1 _⟩
  rw [if_neg hzero, if_neg hzero]
  by_cases hcomma : (hexToInt ptr).ptr.getD 0 0 = comma
  · obtain ⟨hdrop, hrest⟩ := drop_append_zero (by decide) hcomma more
    have hlength' := length_hexToInt ((hexToInt ptr).ptr.drop 1)
    rw [if_neg (not_not_intro hcomma), if_neg (not_not_intro hcomma), hdrop, hexToInt_zero]
    dsimp only
    by_cases hzero' : (hexToInt ((hexToInt ptr).ptr.drop 1)).numChars = 0
    · rw [if_pos hzero', if_pos hzero']
      refine ⟨rfl, ?_⟩
      dsimp only
      omega
    · rw [if_neg hzero', if_neg hzero']
      refine ⟨rfl, ?_⟩
      dsimp only
      omega
  · rw [if_pos hcomma, if_pos hcomma]
    refine ⟨rfl, ?_⟩
    dsimp only
    omega

end PsplinkUsb.UsbGdb.PacketData
