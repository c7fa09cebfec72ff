import PsplinkUsb.UsbGdb.PacketData
import PsplinkUsb.UsbGdb.ReplyBounds

namespace PsplinkUsb.UsbGdb.ThreadNames

open PsplinkUsb.UsbGdb.Packets
open PsplinkUsb.UsbGdb.StubMemory
open PsplinkUsb.UsbGdb.Stub
open PsplinkUsb.UsbGdb.PacketData
open PsplinkUsb.UsbGdb.ReplyBounds

variable {k : Kernel} {str : Bytes} {ch : UInt8}

/-- `*str >> 4`, of a `char` with a sign, and `*str & 0xf`. -/
def indexes (ch : UInt8) : List ℤ := [ch.toBitVec.toInt >>> (4 : ℕ), (ch &&& 0xF).toNat]

/-- The character at an index into `hexchars`, which may be one in front of it. -/
def hexcharAt (k : Kernel) (i : ℤ) : UInt8 :=
  if 0 ≤ i then hexchars.getD i.toNat 0 else k.beforeHexchars (-i).toNat

theorem shifted_of_ascii (h : ch < 0x80) : ch.toBitVec.toInt >>> (4 : ℕ) = (ch >>> 4).toNat := by
  have hlow : ch.toNat < 128 := h
  rw [Int.shiftRight_eq_div_pow, BitVec.toInt_eq_toNat_cond, UInt8.toNat_toBitVec, if_pos (by omega),
    UInt8.toNat_shiftRight, Nat.shiftRight_eq_div_pow]
  rfl

theorem shifted_of_not_ascii (h : ¬ch < 0x80) :
    ch.toBitVec.toInt >>> (4 : ℕ) = (ch >>> 4).toNat - 16 ∧ (ch >>> 4).toNat < 16 := by
  have hhigh : ¬ch.toNat < 128 := h
  have hbyte := ch.toNat_lt
  have hshift : (ch >>> 4).toNat = ch.toNat / 2 ^ 4 := by
    rw [UInt8.toNat_shiftRight, Nat.shiftRight_eq_div_pow]
    rfl
  rw [Int.shiftRight_eq_div_pow, BitVec.toInt_eq_toNat_cond, UInt8.toNat_toBitVec,
    if_neg (by omega), hshift]
  omega

/-- The digits that are written are those at the indexes. -/
theorem hexcharShifted_eq (k : Kernel) (ch : UInt8) :
    [hexcharShifted k ch, hexchar ch] = (indexes ch).map (hexcharAt k) := by
  have hlow : hexchar ch = hexcharAt k (ch &&& 0xF).toNat := by
    rw [hexchar, hexcharAt, if_pos (Int.natCast_nonneg _), Int.toNat_natCast]
  have hhigh : hexcharShifted k ch = hexcharAt k (ch.toBitVec.toInt >>> (4 : ℕ)) := by
    rw [hexcharShifted]
    split
    · rename_i h
      have hmask : (ch >>> 4 &&& 0xF : UInt8) = ch >>> 4 := by
        have hlt : (ch >>> 4).toNat < 2 ^ 4 := by
          rw [UInt8.toNat_shiftRight, Nat.shiftRight_eq_div_pow]
          exact Nat.div_lt_of_lt_mul ch.toNat_lt
        rw [← UInt8.toNat_inj, UInt8.toNat_and]
        exact (Nat.and_two_pow_sub_one_eq_mod _ 4).trans (Nat.mod_eq_of_lt hlt)
      rw [shifted_of_ascii h, hexcharAt, if_pos (Int.natCast_nonneg _), Int.toNat_natCast, hexchar,
        hmask]
    · rename_i h
      obtain ⟨hshift, hlt⟩ := shifted_of_not_ascii h
      have hplace : (-(((ch >>> 4).toNat : ℤ) - 16)).toNat = 16 - (ch >>> 4).toNat := by omega
      rw [hshift, hexcharAt, if_neg (by omega), hplace]
  rw [hlow, hhigh]
  rfl

theorem indexes_inside_iff : (∀ i ∈ indexes ch, 0 ≤ i ∧ i ≤ 15) ↔ ch < 0x80 := by
  have hmask : (ch &&& 0xF).toNat ≤ 15 := by
    rw [UInt8.toNat_and]
    exact Nat.and_le_right
  constructor
  · intro h
    by_contra hhigh
    obtain ⟨hshift, hlt⟩ := shifted_of_not_ascii hhigh
    have hinside := h _ List.mem_cons_self
    omega
  · intro h i hi
    have hlow : ch.toNat < 128 := h
    rcases List.mem_cons.mp hi with rfl | hi
    · rw [shifted_of_ascii h, UInt8.toNat_shiftRight, Nat.shiftRight_eq_div_pow]
      have hfour : (4 : UInt8).toNat % 8 = 4 := rfl
      rw [hfour]
      omega
    · rw [List.mem_singleton.mp hi]
      omega

/-- The indexes into `hexchars` are inside of it, and the text is read back, two digits at a time. -/
structure RoundTrips (k : Kernel) (str : Bytes) : Prop where
  inside : ∀ ch ∈ str, ∀ i ∈ indexes ch, 0 ≤ i ∧ i ≤ 15
  decodes : HexOf (strtohex k str).text str

theorem text_strtohex (h : ∀ ch ∈ str, ch < 0x80) : (strtohex k str).text = hexText str := by
  have hdigits : (str.flatMap fun ch => [hexcharShifted k ch, hexchar ch]) = hexText str := by
    rw [hexText, List.flatMap_def, List.flatMap_def]
    refine congrArg List.flatten (List.map_congr_left fun ch hch => ?_)
    rw [hexcharShifted, if_pos (h ch hch)]
  rw [strtohex, hdigits]
  exact text_ofText (not_mem_hexText str)

/-- A string comes back exactly if all of it is ASCII. -/
theorem strtohex_roundTrips_iff (k : Kernel) (str : Bytes) :
    RoundTrips k str ↔ ∀ ch ∈ str, ch < 0x80 := by
  constructor
  · exact fun h ch hch => indexes_inside_iff.mp (h.inside ch hch)
  · intro h
    refine ⟨fun ch hch => indexes_inside_iff.mpr (h ch hch), ?_⟩
    rw [text_strtohex h]
    exact hexOf_hexText str

/-- The name `é` in Latin-1: its first index is -2. -/
theorem accent_not_inside : 0 ∉ ([0xE9] : Bytes) ∧ ¬RoundTrips plainKernel [0xE9] := by
  refine ⟨by decide, fun h => ?_⟩
  exact absurd (h.inside 0xE9 List.mem_cons_self (-2) (by decide)) (by decide)

end PsplinkUsb.UsbGdb.ThreadNames
