import PsplinkUsb.UsbGdb.PacketData

namespace PsplinkUsb.UsbGdb.MemoryPackets

open PsplinkUsb.Library.Patch
open PsplinkUsb.Psplink.ProgramMemory
open PsplinkUsb.UsbGdb.Packets hiding plus minus
open PsplinkUsb.UsbGdb.StubMemory
open PsplinkUsb.UsbGdb.Stub
open PsplinkUsb.UsbGdb.PacketData

section

variable {env : Env} {k : Kernel} {s : State} {user : Partition} {addr : Word}
  {data as ls rest : Bytes} {n : ℕ}

/-- The packet behind an address, a comma, a length and a character that is no hex digit. -/
def header (as ls rest : Bytes) : Bytes := as ++ comma :: (ls ++ rest)

/-- The packets that write bytes, in hex digits of either case or as they are. -/
inductive Writes (as ls data : Bytes) : Bytes → Prop
  | hex {digits : Bytes} (h : HexOf digits data) (more : Bytes) :
      Writes as ls data (0x4D :: header as ls (colon :: (digits ++ 0 :: more)))
  | binary (more : Bytes) :
      Writes as ls data (0x58 :: header as ls (colon :: (escaped data ++ 0 :: more)))

theorem ofNat_toInt_toNat (h : n < 2 ^ 31) : (BitVec.ofNat 32 n).toInt.toNat = n := by
  have htoNat : (BitVec.ofNat 32 n).toNat = n := by
    rw [BitVec.toNat_ofNat]
    exact Nat.mod_eq_of_lt (by omega)
  rw [BitVec.toInt_eq_toNat_of_lt (by omega), htoNat, Int.toNat_natCast]

theorem end_ne_zero (hpos : 0 < n)
    (hvalid : ∀ a ∈ addresses addr n, valid user a = true) :
    addr + BitVec.ofNat 32 n ≠ 0 := by
  intro hzero
  have hlast := nibble_of_valid (hvalid _ (mem_addresses.mpr ⟨n - 1, by omega, rfl⟩))
  have hwrap : (addr + BitVec.ofNat 32 n).toNat = 0 := congrArg BitVec.toNat hzero
  have htop : (addr + BitVec.ofNat 32 (n - 1)).toNat = 0xFFFFFFFF := by
    rw [BitVec.toNat_add, BitVec.toNat_ofNat] at hwrap ⊢
    omega
  rw [htop] at hlast
  exact absurd hlast (by decide)

theorem hex2mem_of_valid (hpos : 0 < n)
    (hvalid : ∀ a ∈ addresses addr n, valid user a = true) (binary : Bool) (buf : Bytes)
    (m : ByteMemory) :
    (hex2mem user binary buf addr n m).ret ≠ 0 ∧
      (hex2mem user binary buf addr n m).mem =
        applyAll (((addresses addr n).map cell).zip (decode binary buf n)) m := by
  rw [hex2mem_eq, reach_eq_addresses hvalid, length_addresses]
  exact ⟨by simpa using end_ne_zero hpos hvalid, rfl⟩

theorem not_hex_of_eq {c : UInt8} (hc : hex c < 0) (rest : Bytes) :
    ∀ ch ∈ (c :: rest).head?, hex ch < 0 := by
  intro ch hch
  rwa [← Option.some.inj hch]

theorem twoNumbers_header (ha : HexNumber as addr.toNat) (hl : HexNumber ls n)
    (hrest : ∀ ch ∈ rest.head?, hex ch < 0) :
    ∃ reads, twoNumbers (header as ls rest) =
      (some { addr := addr, length := BitVec.ofNat 32 n, ptr := rest }, reads) := by
  have hnumbers := twoNumbers_numbers ha hl hrest
  rw [BitVec.ofNat_toNat, BitVec.setWidth_eq] at hnumbers
  exact ⟨_, hnumbers⟩

theorem writeMemory_header (hpos : 0 < n) (hsmall : n < 2 ^ 31)
    (hvalid : ∀ a ∈ addresses addr n, valid user a = true) (ha : HexNumber as addr.toNat)
    (hl : HexNumber ls n) (binary : Bool) (buf : Bytes) (m : ByteMemory) :
    (writeMemory user binary (header as ls (colon :: buf)) m).reply = .ofText (ascii "OK") ∧
      (writeMemory user binary (header as ls (colon :: buf)) m).mem =
        applyAll (((addresses addr n).map cell).zip (decode binary buf n)) m := by
  obtain ⟨reads, hnumbers⟩ := twoNumbers_header ha hl (not_hex_of_eq (c := colon) (by decide) buf)
  obtain ⟨hret, hmem⟩ := hex2mem_of_valid hpos hvalid binary buf m
  rw [writeMemory, hnumbers]
  simp only [List.getD_cons_zero, if_true, List.drop_succ_cons, List.drop_zero,
    ofNat_toInt_toNat hsmall, hmem, if_pos hret, and_self]

theorem handlePacket_M (ptr : Bytes) : handlePacket env k s (0x4D :: ptr) =
    answered ((writeMemory env.user false ptr s.mem).reply,
      { s with mem := (writeMemory env.user false ptr s.mem).mem }) := rfl

theorem handlePacket_X (ptr : Bytes) : handlePacket env k s (0x58 :: ptr) =
    answered ((writeMemory env.user true ptr s.mem).reply,
      { s with mem := (writeMemory env.user true ptr s.mem).mem }) := rfl

theorem handlePacket_m (ptr : Bytes) : handlePacket env k s (0x6D :: ptr) =
    answered (readMemory env.user s.mem ptr, s) := rfl

theorem writes_reply (hpos : 0 < data.length) (hsmall : data.length < 2 ^ 31)
    (hvalid : ∀ a ∈ addresses addr data.length, valid env.user a = true)
    (ha : HexNumber as addr.toNat) (hl : HexNumber ls data.length) {input : Bytes}
    (hwrites : Writes as ls data input) :
    handlePacket env k s input = .reply (Reply.ofText (ascii "OK")).opened
      { s with mem := applyAll (((addresses addr data.length).map cell).zip data) s.mem } := by
  cases hwrites with
  | @hex digits hdigits more =>
      obtain ⟨hreply, hmem⟩ := writeMemory_header hpos hsmall hvalid ha hl false
        (digits ++ 0 :: more) s.mem
      rw [decode_hexOf hdigits] at hmem
      rw [handlePacket_M, answered, hreply, hmem]
  | binary more =>
      obtain ⟨hreply, hmem⟩ := writeMemory_header hpos hsmall hvalid ha hl true
        (escaped data ++ 0 :: more) s.mem
      rw [decode_escaped] at hmem
      rw [handlePacket_X, answered, hreply, hmem]

theorem reads_reply (hsmall : n < 2 ^ 31)
    (hvalid : ∀ a ∈ addresses addr n, valid env.user a = true)
    (ha : HexNumber as addr.toNat) (hl : HexNumber ls n) (more : Bytes) :
    handlePacket env k s (0x6D :: header as ls (0 :: more)) =
      .reply (Reply.ofText (hexText (load s.mem (addresses addr n)))).opened s := by
  obtain ⟨reads, hnumbers⟩ := twoNumbers_header ha hl (not_hex_of_eq (c := 0) (by decide) more)
  rw [handlePacket_m, readMemory, hnumbers]
  simp only [ofNat_toInt_toNat hsmall, mem2hex_of_valid hvalid, if_true, answered]

theorem nodup_addresses (hvalid : ∀ a ∈ addresses addr n, valid user a = true) :
    ((addresses addr n).map cell).Nodup := by
  have hnodup := nodup_reach user addr n
  rwa [reach_eq_addresses hvalid] at hnodup

theorem load_applyAll (hvalid : ∀ a ∈ addresses addr data.length, valid user a = true)
    (m : ByteMemory) :
    load (applyAll (((addresses addr data.length).map cell).zip data) m)
      (addresses addr data.length) = data := by
  have hlength : ((addresses addr data.length).map cell).length = data.length := by
    rw [List.length_map, length_addresses]
  have hmap := map_applyAll_zip (nodup_addresses hvalid) hlength m
  rwa [List.map_map] at hmap

end

/-- Bytes written with `M` or `X` to addresses that are accepted are acknowledged, nothing
else changes, and an `m` of the same range replies with their digits. -/
theorem memory_write_read (env : Env) (k : Kernel) (s : State) {addr : Word} {data : Bytes}
    (hpos : 1 ≤ data.length) (hlength : data.length ≤ 1000)
    (hvalid : ∀ a ∈ addresses addr data.length, valid env.user a = true) {as ls input : Bytes}
    (ha : HexNumber as addr.toNat) (hl : HexNumber ls data.length)
    (hwrites : Writes as ls data input) :
    ∃ r s', handlePacket env k s input = .reply r s' ∧ r.text = ascii "OK" ∧
      (∀ c, c ∉ (addresses addr data.length).map cell → s'.mem c = s.mem c) ∧
      ∀ k' as' ls' more, HexNumber as' addr.toNat → HexNumber ls' data.length →
        ∃ r', handlePacket env k' s' (0x6D :: header as' ls' (0 :: more)) = .reply r' s' ∧
          r'.text = hexText data := by
  have hsmall : data.length < 2 ^ 31 := by omega
  refine ⟨_, _, writes_reply hpos hsmall hvalid ha hl hwrites, ?_, ?_, ?_⟩
  · apply text_ofText
    decide
  · intro c hc
    apply applyAll_of_ne
    rintro p hp rfl
    exact hc (List.of_mem_zip hp).1
  · intro k' as' ls' more ha' hl'
    refine ⟨_, reads_reply hsmall hvalid ha' hl' more, ?_⟩
    rw [load_applyAll hvalid]
    exact text_ofText (not_mem_hexText data)

theorem memory_write_read_ok :
    ∃ r s', handlePacket plainEnv plainKernel plainState (0x58 :: header (ascii "8900000")
        (ascii "2") (colon :: (escaped [0x12, 0x23] ++ 0 :: []))) = .reply r s' ∧
      r.text = ascii "OK" ∧
      (∀ c, c ∉ (addresses 0x08900000 2).map cell → s'.mem c = plainState.mem c) ∧
      ∀ k' as' ls' more, HexNumber as' (0x08900000 : Word).toNat → HexNumber ls' 2 →
        ∃ r', handlePacket plainEnv k' s' (0x6D :: header as' ls' (0 :: more)) = .reply r' s' ∧
          r'.text = hexText [0x12, 0x23] :=
  memory_write_read plainEnv plainKernel plainState (by decide) (by decide)
    (List.all_eq_true.mp (by decide)) (hexNumber_of_check (by decide))
    (hexNumber_of_check (by decide)) (.binary [])

end PsplinkUsb.UsbGdb.MemoryPackets
