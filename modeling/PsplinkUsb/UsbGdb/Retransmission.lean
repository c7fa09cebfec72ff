import PsplinkUsb.UsbGdb.PacketExchange

namespace PsplinkUsb.UsbGdb.Retransmission

open PsplinkUsb.Library.CString
open PsplinkUsb.UsbGdb.Packets
open PsplinkUsb.UsbGdb.PacketExchange

def outputSize : ℕ := 4096

/-- Answers that are no `+`, before the first that is one. -/
def refusals (answers : Bytes) : ℕ := (answers.takeWhile fun ch => ch &&& 0x7F ≠ plus).length

def copies (k : ℕ) (packet : Bytes) : Bytes := (List.replicate k packet).flatten

theorem copies_succ (k : ℕ) (packet : Bytes) :
    copies (k + 1) packet = packet ++ copies k packet := by
  rw [copies, List.replicate_succ, List.flatten_cons, copies]

theorem length_copies (k : ℕ) (packet : Bytes) :
    (copies k packet).length = k * packet.length := by
  induction k with
  | zero => simp [copies]
  | succ k ih => rw [copies_succ, List.length_append, ih, Nat.succ_mul, Nat.add_comm]

theorem written_eq (payload outputbuffer answers : Bytes) :
    (putpacket payload outputbuffer answers).written =
      (List.range (refusals answers + 1)).map fun k =>
        outputbuffer ++ copies (k + 1) (framed payload) := by
  induction answers generalizing outputbuffer with
  | nil => simp [putpacket, refusals, copies]
  | cons ch answers ih =>
      rw [putpacket]
      by_cases hplus : ch &&& 0x7F = plus
      · rw [if_pos hplus]
        simp [refusals, hplus, copies]
      · have hrefusals : refusals (ch :: answers) = refusals answers + 1 := by
          simp [refusals, hplus]
        rw [if_neg hplus, hrefusals, List.range_succ_eq_map, List.map_cons, List.map_map]
        show _ :: (putpacket payload (outputbuffer ++ framed payload) answers).written = _
        rw [ih]
        congr 1
        · simp [copies]
        · apply List.map_congr_left
          intro k _
          show _ = outputbuffer ++ copies (k + 1 + 1) (framed payload)
          rw [List.append_assoc, ← copies_succ]

theorem mem_written_iff {payload answers t : Bytes} :
    t ∈ (putpacket payload [] answers).written ↔
      ∃ k ≤ refusals answers, t = copies (k + 1) (framed payload) := by
  rw [written_eq, List.mem_map]
  constructor
  · rintro ⟨k, hk, rfl⟩
    exact ⟨k, Nat.lt_succ_iff.mp (List.mem_range.mp hk), rfl⟩
  · rintro ⟨k, hk, rfl⟩
    exact ⟨k, List.mem_range.mpr (Nat.lt_succ_of_le hk), rfl⟩

theorem length_framed (payload : Bytes) : (framed payload).length = payload.length + 4 := by
  simp [framed]

/-- One packet: `$`, the reply, `#` and the two digits of its checksum. -/
def IsPacketOf (payload t : Bytes) : Prop :=
  ∃ d₁ d₂, t = dollar :: payload ++ [sharp, d₁, d₂] ∧ 0 ≤ hex d₁ ∧ 0 ≤ hex d₂ ∧
    16 * hex d₁ + hex d₂ = (byteSum payload % 256 : ℕ)

theorem IsPacketOf.length {payload t : Bytes} (h : IsPacketOf payload t) :
    t.length = payload.length + 4 := by
  obtain ⟨d₁, d₂, rfl, -⟩ := h
  simp

theorem isPacketOf_framed (payload : Bytes) : IsPacketOf payload (framed payload) := by
  obtain ⟨h₁, h₂, hvalue⟩ := hexchar_digits (checksumOf payload)
  refine ⟨_, _, rfl, h₁, h₂, hvalue.trans ?_⟩
  rw [toNat_checksumOf]

/-- What retransmitting is for: every transmission is the packet and nothing else, and the
buffer holds it. -/
structure SendsPackets (payload : Bytes) (written : List Bytes) : Prop where
  packets : ∀ t ∈ written, IsPacketOf payload t
  identical : ∀ t ∈ written, ∀ t' ∈ written, t = t'
  bounds : ∀ t ∈ written, t.length ≤ outputSize

theorem sends_of_accepted {payload answers : Bytes} (hlength : payload.length ≤ 2047)
    (hfirst : refusals answers = 0) :
    SendsPackets payload (putpacket payload [] answers).written := by
  have honly : ∀ t ∈ (putpacket payload [] answers).written, t = framed payload := by
    intro t ht
    obtain ⟨k, hk, rfl⟩ := mem_written_iff.mp ht
    rw [hfirst, Nat.le_zero] at hk
    simp [hk, copies]
  refine ⟨fun t ht => ?_, fun t ht t' ht' => ?_, fun t ht => ?_⟩
  · rw [honly t ht]
    exact isPacketOf_framed payload
  · rw [honly t ht, honly t' ht']
  · rw [honly t ht, length_framed, outputSize]
    omega

theorem not_sends_of_refused {payload answers : Bytes} (hrefused : refusals answers ≠ 0) :
    ¬SendsPackets payload (putpacket payload [] answers).written := by
  intro hsends
  have hsecond : copies 2 (framed payload) ∈ (putpacket payload [] answers).written :=
    mem_written_iff.mpr ⟨1, Nat.one_le_iff_ne_zero.mpr hrefused, rfl⟩
  have hlength := (hsends.packets _ hsecond).length
  rw [length_copies, length_framed] at hlength
  omega

theorem refusals_eq_zero {answers : Bytes} :
    refusals answers = 0 ↔ ∀ ch ∈ answers.head?, ch &&& 0x7F = plus := by
  cases answers with
  | nil => simp [refusals]
  | cons ch answers =>
      by_cases hplus : ch &&& 0x7F = plus
      · simp [refusals, hplus]
      · simp [refusals, hplus]

/-- The transmissions are the packet each time exactly if the first answer accepts it. -/
theorem putpacket_sends_packets_iff (reply : CStr) (hlength : reply.1.length ≤ 2047)
    (answers : Bytes) :
    SendsPackets reply.1 (putpacket reply.1 [] answers).written ↔
      ∀ ch ∈ answers.head?, ch &&& 0x7F = plus := by
  rw [← refusals_eq_zero]
  constructor
  · intro hsends
    by_contra hrefused
    exact not_sends_of_refused hrefused hsends
  · exact sends_of_accepted hlength

/-- `OK` accepted at once, and after two refusals. -/
theorem putpacket_sends_ok :
    SendsPackets [0x4F, 0x4B] (putpacket [0x4F, 0x4B] [] [plus, minus]).written ∧
      ¬SendsPackets [0x4F, 0x4B] (putpacket [0x4F, 0x4B] [] [minus, 0x24, plus]).written := by
  have hiff := putpacket_sends_packets_iff ⟨[0x4F, 0x4B], by simp⟩ (by simp)
  refine ⟨(hiff [plus, minus]).mpr fun ch hch => ?_, fun hsends => ?_⟩
  · obtain rfl := Option.some.inj hch
    rfl
  · exact absurd ((hiff [minus, 0x24, plus]).mp hsends minus rfl) (by decide)

/-- `OK` refused once goes out twice in the second transmission. -/
theorem refused_twice :
    (putpacket [0x4F, 0x4B] [] [minus, plus]).written =
        [framed [0x4F, 0x4B], framed [0x4F, 0x4B] ++ framed [0x4F, 0x4B]] ∧
      ¬SendsPackets [0x4F, 0x4B] (putpacket [0x4F, 0x4B] [] [minus, plus]).written := by
  refine ⟨by decide, not_sends_of_refused ?_⟩
  decide

end PsplinkUsb.UsbGdb.Retransmission
