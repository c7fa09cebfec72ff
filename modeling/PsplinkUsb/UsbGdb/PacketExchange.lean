import PsplinkUsb.UsbGdb.PacketLaws

namespace PsplinkUsb.UsbGdb.PacketExchange

open PsplinkUsb.Library.CString
open PsplinkUsb.UsbGdb.Packets
open PsplinkUsb.UsbGdb.PacketLaws

/-- Whether the characters of the frame are taken with their eighth bit. -/
inductive Reading where
  | sevenBit
  | eightBit

def Reading.char : Reading → UInt8 → UInt8
  | .sevenBit, ch => ch &&& 0x7F
  | .eightBit, ch => ch

variable (r : Reading)

/-- A `$` at the beginning and two hex digits at the end. -/
def Proper (a : Attempt) : Prop :=
  r.char a.start = dollar ∧
    ∃ d₁ d₂, a.digits = some (d₁, d₂) ∧ 0 ≤ hex (r.char d₁) ∧ 0 ≤ hex (r.char d₂)

def byteSum : Bytes → ℕ
  | [] => 0
  | ch :: payload => ch.toNat + byteSum payload

/-- A packet as the protocol has it. -/
def WellFramed (a : Attempt) : Prop :=
  r.char a.start = dollar ∧ sharp ∉ a.payload ∧ a.payload.length < maxBuf ∧
    ∃ d₁ d₂, a.digits = some (d₁, d₂) ∧ 0 ≤ hex (r.char d₁) ∧ 0 ≤ hex (r.char d₂) ∧
      16 * hex (r.char d₁) + hex (r.char d₂) = (byteSum a.payload % 256 : ℕ)

/-- The last thing read is a well-framed packet, and it is in the buffer. -/
def Accepted (input : Bytes) (result : GetResult) : Prop :=
  ∃ before a, Scans input (before ++ [a]) result.rest ∧ WellFramed r a ∧
    HoldsPacket result.buffer a.payload

/-- The first attempt on the line at which the checksums of the code agree is neither
over-long nor has it a digit that is none. -/
def FirstCloses (input : Bytes) : Prop :=
  ∀ before a rest, Scans input (before ++ [a]) rest → (∀ b ∈ before, ¬b.Closes) →
    a.Closes → Proper r a

theorem toNat_checksumOf (payload : Bytes) :
    (checksumOf payload).toNat = byteSum payload % 256 := by
  have hfold : ∀ (data : Bytes) (sum : UInt8),
      (data.foldl (fun sum ch => sum + ch) sum).toNat = (sum.toNat + byteSum data) % 256 := by
    intro data
    induction data with
    | nil =>
        intro sum
        have := sum.toNat_lt
        simp only [List.foldl_nil, byteSum]
        omega
    | cons ch data ih =>
        intro sum
        rw [List.foldl_cons, ih, UInt8.toNat_add]
        simp only [byteSum]
        omega
  rw [checksumOf, hfold]
  simp

theorem hex_cases (ch : UInt8) :
    hex ch < 16 ∧ -1 ≤ hex ch ∧ (0 ≤ hex ch → ch &&& 0x7F = ch) := by
  have hall : ∀ n : Fin 256, hex (UInt8.ofFin n) < 16 ∧ -1 ≤ hex (UInt8.ofFin n) ∧
      (0 ≤ hex (UInt8.ofFin n) → UInt8.ofFin n &&& 0x7F = UInt8.ofFin n) := by
    decide +kernel
  exact hall ch.toFin

theorem nibbles_toNat (hi lo : Fin 16) :
    (UInt8.ofInt hi.val <<< 4 ||| UInt8.ofInt lo.val).toNat = 16 * hi.val + lo.val := by
  revert hi lo
  decide

theorem xmitcsum_toNat {d₁ d₂ : UInt8} (h₁ : 0 ≤ hex (d₁ &&& 0x7F))
    (h₂ : 0 ≤ hex (d₂ &&& 0x7F)) :
    ((xmitcsum d₁ d₂).toNat : ℤ) = 16 * hex (d₁ &&& 0x7F) + hex (d₂ &&& 0x7F) := by
  obtain ⟨hi, hhi⟩ := Int.eq_ofNat_of_zero_le h₁
  obtain ⟨lo, hlo⟩ := Int.eq_ofNat_of_zero_le h₂
  have hhi_lt := (hex_cases (d₁ &&& 0x7F)).1
  have hlo_lt := (hex_cases (d₂ &&& 0x7F)).1
  have hvalue := nibbles_toNat ⟨hi, by omega⟩ ⟨lo, by omega⟩
  rw [xmitcsum, hhi, hlo]
  exact_mod_cast hvalue

variable {r : Reading}

theorem hex_char {ch : UInt8} (h : 0 ≤ hex (r.char ch)) : ch &&& 0x7F = r.char ch := by
  cases r with
  | sevenBit => rfl
  | eightBit => exact (hex_cases ch).2.2 h

theorem wellFramed_of_closes {a : Attempt} (hvalid : a.Valid) (hcloses : a.Closes)
    (hproper : Proper r a) : WellFramed r a := by
  obtain ⟨start, payload, digits⟩ := a
  obtain ⟨hstart, d₁, d₂, rfl, h₁, h₂⟩ := hproper
  refine ⟨hstart, hvalid.no_hash, by simpa using hvalid.length, d₁, d₂, rfl, h₁, h₂, ?_⟩
  have hsum : checksumOf payload = xmitcsum d₁ d₂ := hcloses
  have hchar₁ := hex_char h₁
  have hchar₂ := hex_char h₂
  have hvalue := xmitcsum_toNat (hchar₁ ▸ h₁) (hchar₂ ▸ h₂)
  rw [hchar₁, hchar₂, ← hsum, toNat_checksumOf] at hvalue
  exact hvalue.symm

/-- `getpacket` returns 1 only after a well-framed packet, which it leaves in the buffer,
exactly when the first attempt that closes is a proper one. -/
theorem accepts_packets_iff (r : Reading) (buffer : Buffer) (input : Bytes) :
    ((getpacket buffer input).ret = true → Accepted r input (getpacket buffer input)) ↔
      FirstCloses r input := by
  constructor
  · intro haccepts before a rest hscans hbefore hcloses
    obtain ⟨hret, hrest⟩ := ret_of_scans hscans hbefore hcloses buffer
    obtain ⟨before', a', hscans', hframed, -⟩ := haccepts hret
    rw [hrest] at hscans'
    obtain ⟨-, heq⟩ := List.append_inj' (hscans.unique hscans') rfl
    obtain rfl := List.singleton_inj.mp heq
    obtain ⟨hstart, -, -, d₁, d₂, hdigits, h₁, h₂, -⟩ := hframed
    exact ⟨hstart, d₁, d₂, hdigits, h₁, h₂⟩
  · intro hfirst hret
    obtain ⟨before, a, hscans, hbefore, hcloses, hvalid, hholds⟩ := scans_of_ret hret
    have hproper := hfirst before a _ hscans hbefore hcloses
    obtain ⟨-, d₁, d₂, hdigits, -⟩ := id hproper
    exact ⟨before, a, hscans, wellFramed_of_closes hvalid hcloses hproper,
      hholds (by simp [hdigits])⟩

/-- An attempt that closes without being proper, alone on a line. -/
theorem not_accepted {a : Attempt} (hvalid : a.Valid) (hcloses : a.Closes)
    (himproper : ¬Proper r a) (buffer : Buffer) :
    (getpacket buffer a.bytes).ret = true ∧ ¬Accepted r a.bytes (getpacket buffer a.bytes) := by
  have hline : a.bytes = [] ++ (a.bytes ++ []) := by simp
  have hscans : Scans a.bytes ([] ++ [a]) [] := by
    rw [hline]
    exact .cons (by simp [Quiet]) hvalid (.nil [])
  obtain ⟨hret, hrest⟩ := ret_of_scans hscans (by simp) hcloses buffer
  refine ⟨hret, ?_⟩
  rintro ⟨before, a', hscans', ⟨hstart, -, -, d₁, d₂, hdigits, h₁, h₂, -⟩, -⟩
  rw [hrest] at hscans'
  obtain ⟨-, heq⟩ := List.append_inj' (hscans.unique hscans') rfl
  obtain rfl := List.singleton_inj.mp heq
  exact himproper ⟨hstart, d₁, d₂, hdigits, h₁, h₂⟩

/-- 2048 characters without a `#` whose sum is 0xFF. -/
def overlong : Attempt where
  start := dollar
  payload := List.replicate 2047 1 ++ [0]
  digits := none

/-- A payload of sum 0xFF with the digits `zz`. -/
def badDigits : Attempt where
  start := dollar
  payload := [0xFF]
  digits := some (0x7A, 0x7A)

theorem accepts_malformed :
    ((getpacket (fun _ => 0) overlong.bytes).ret = true ∧
        ¬Accepted .sevenBit overlong.bytes (getpacket (fun _ => 0) overlong.bytes)) ∧
      (getpacket (fun _ => 0) badDigits.bytes).ret = true ∧
        ¬Accepted .sevenBit badDigits.bytes (getpacket (fun _ => 0) badDigits.bytes) := by
  refine ⟨not_accepted ⟨rfl, ?_, ?_⟩ ?_ ?_ _, not_accepted ⟨rfl, ?_, ?_⟩ ?_ ?_ _⟩
  · decide +kernel
  · decide +kernel
  · have hsum : checksumOf (List.replicate 2047 1 ++ [0]) = 0xFF := by decide +kernel
    exact hsum
  · rintro ⟨-, d₁, d₂, hdigits, -⟩
    exact Option.some_ne_none _ hdigits.symm
  · decide
  · decide
  · have hsum : checksumOf [0xFF] = xmitcsum 0x7A 0x7A := by decide
    exact hsum
  · rintro ⟨-, d₁, d₂, hdigits, h₁, -⟩
    obtain ⟨rfl, -⟩ := Prod.mk.inj (Option.some.inj hdigits)
    exact absurd h₁ (by decide)

/-- Every transmission of `putpacket` ends with the framed payload, the first is that. -/
theorem putpacket_written (payload answers : Bytes) :
    (putpacket payload [] answers).written.head? = some (framed payload) := by
  cases answers with
  | nil => rfl
  | cons ch answers =>
      rw [putpacket]
      split
      · rfl
      · rfl

theorem hexchar_digits (sum : UInt8) :
    0 ≤ hex (hexchar (sum >>> 4)) ∧ 0 ≤ hex (hexchar sum) ∧
      16 * hex (hexchar (sum >>> 4)) + hex (hexchar sum) = (sum.toNat : ℤ) := by
  have hall : ∀ n : Fin 256,
      0 ≤ hex (hexchar (UInt8.ofFin n >>> 4)) ∧ 0 ≤ hex (hexchar (UInt8.ofFin n)) ∧
        16 * hex (hexchar (UInt8.ofFin n >>> 4)) + hex (hexchar (UInt8.ofFin n)) =
          ((UInt8.ofFin n).toNat : ℤ) := by
    decide +kernel
  exact hall sum.toFin

theorem xmitcsum_hexchar (sum : UInt8) : xmitcsum (hexchar (sum >>> 4)) (hexchar sum) = sum := by
  have hall : ∀ n : Fin 256,
      xmitcsum (hexchar (UInt8.ofFin n >>> 4)) (hexchar (UInt8.ofFin n)) = UInt8.ofFin n := by
    decide +kernel
  exact hall sum.toFin

/-- A packet of `putpacket` arrives. Its payload is in the buffer, and the answer starts with
`+`; with two other digits of another value it is `-`, and `getpacket` reads on. -/
theorem packet_round_trip {payload noise : Bytes} (hnul : 0 ∉ payload) (hhash : sharp ∉ payload)
    (hcolon : payload[2]? ≠ some colon) (hshort : payload.length < maxBuf)
    (hnoise : Quiet noise) (buffer : Buffer) (rest : Bytes) :
    (∃ r, getpacket buffer (noise ++ (framed payload ++ rest)) = r ∧ r.ret = true ∧
        HoldsString r.buffer 0 payload ∧ r.sent.head? = some plus ∧
        (2 ≤ payload.length ∨ buffer 2 ≠ colon → r.sent = [plus]) ∧ r.rest = rest) ∧
      ∀ d₁ d₂, 0 ≤ hex d₁ → 0 ≤ hex d₂ →
        16 * hex d₁ + hex d₂ ≠ (checksumOf payload).toNat →
        ∃ stored, getpacket buffer (noise ++ (dollar :: payload ++ [sharp, d₁, d₂] ++ rest)) =
          (getpacket stored rest).after minus := by
  have hdollar : dollar &&& 0x7F = dollar := rfl
  constructor
  · obtain ⟨stored, hstored, hkept, hget⟩ := getpacket_packet hnoise hdollar hhash hshort buffer
      (hexchar (checksumOf payload >>> 4)) (hexchar (checksumOf payload)) rest
    have hbytes : framed payload ++ rest = dollar :: (payload ++ sharp ::
        hexchar (checksumOf payload >>> 4) :: hexchar (checksumOf payload) :: rest) := by
      simp [framed]
    rw [hbytes, hget, if_pos (xmitcsum_hexchar _).symm]
    have hholds := dropSequence_holds hstored hshort
    rw [HoldsPacket, cstr_of_not_mem hnul, if_neg hcolon] at hholds
    refine ⟨_, rfl, rfl, ⟨hnul, hholds⟩, rfl, fun hclean => ?_, rfl⟩
    have hnot : stored 2 ≠ colon := by
      rcases Nat.lt_trichotomy payload.length 2 with hlt | heq | hgt
      · rw [hkept 2 hlt]
        exact hclean.resolve_left (by omega)
      · have hend := (holds_cons.mp (holds_append.mp hstored).2).1
        rw [Nat.zero_add, heq] at hend
        rw [hend]
        decide
      · have hthird := hstored 2 (by simp only [List.length_append]; omega)
        rw [Nat.zero_add, List.getElem_append_left hgt] at hthird
        rw [hthird]
        intro heq
        exact hcolon ((List.getElem?_eq_getElem hgt).trans (congrArg some heq))
    rw [dropSequence, if_neg hnot]
  · intro d₁ d₂ h₁ h₂ hvalue
    obtain ⟨stored, -, -, hget⟩ := getpacket_packet hnoise hdollar hhash hshort buffer d₁ d₂ rest
    have hbytes : dollar :: payload ++ [sharp, d₁, d₂] ++ rest =
        dollar :: (payload ++ sharp :: d₁ :: d₂ :: rest) := by
      simp
    have hdiffer : checksumOf payload ≠ xmitcsum d₁ d₂ := by
      intro heq
      have hsum := xmitcsum_toNat ((hex_cases d₁).2.2 h₁ ▸ h₁) ((hex_cases d₂).2.2 h₂ ▸ h₂)
      rw [(hex_cases d₁).2.2 h₁, (hex_cases d₂).2.2 h₂, ← heq] at hsum
      exact hvalue hsum.symm
    exact ⟨stored, by rw [hbytes, hget, if_neg hdiffer]⟩

theorem packet_round_trip_ok :
    (∃ r, getpacket (fun _ => 0) ([0x2B] ++ (framed [0x4F, 0x4B] ++ [])) = r ∧ r.ret = true ∧
        HoldsString r.buffer 0 [0x4F, 0x4B] ∧ r.sent.head? = some plus ∧
        (2 ≤ [0x4F, 0x4B].length ∨ (0 : UInt8) ≠ colon → r.sent = [plus]) ∧ r.rest = []) ∧
      ∀ d₁ d₂, 0 ≤ hex d₁ → 0 ≤ hex d₂ →
        16 * hex d₁ + hex d₂ ≠ (checksumOf [0x4F, 0x4B]).toNat →
        ∃ stored, getpacket (fun _ => 0)
            ([0x2B] ++ (dollar :: [0x4F, 0x4B] ++ [sharp, d₁, d₂] ++ [])) =
          (getpacket stored []).after minus :=
  packet_round_trip (by simp) (by simp [sharp]) (by simp) (by simp [maxBuf])
    (by intro ch hch; obtain rfl := List.mem_singleton.mp hch; decide) (fun _ => 0) []

/-- The digits of the payload `j` are `6a`; the other digits `6A` are accepted. -/
theorem uppercase_accepted :
    framed [0x6A] = dollar :: [0x6A] ++ [sharp, 0x36, 0x61] ∧
      (getpacket (fun _ => 0) (dollar :: [0x6A] ++ [sharp, 0x36, 0x41])).ret = true := by
  have hcloses : Attempt.Closes ⟨dollar, [0x6A], some (0x36, 0x41)⟩ := by
    have hsum : checksumOf [0x6A] = xmitcsum 0x36 0x41 := by decide
    exact hsum
  have hvalid : Attempt.Valid ⟨dollar, [0x6A], some (0x36, 0x41)⟩ :=
    ⟨rfl, by simp [sharp], by simp [maxBuf]⟩
  have hquiet : Quiet [] := by simp [Quiet]
  exact ⟨rfl, (getpacket_closes hquiet hvalid hcloses (fun _ => 0) []).1⟩

end PsplinkUsb.UsbGdb.PacketExchange
