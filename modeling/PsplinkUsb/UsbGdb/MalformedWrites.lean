import PsplinkUsb.UsbGdb.MemoryPackets

namespace PsplinkUsb.UsbGdb.MalformedWrites

open PsplinkUsb.Library.Patch
open PsplinkUsb.Psplink.ProgramMemory
open PsplinkUsb.UsbGdb.Packets hiding plus minus
open PsplinkUsb.UsbGdb.StubMemory
open PsplinkUsb.UsbGdb.Stub
open PsplinkUsb.UsbGdb.PacketData
open PsplinkUsb.UsbGdb.MemoryPackets

/-- The address and the length of a packet that has both and a colon, and its data. -/
def writeHeader (payload : Bytes) : Option Numbers :=
  (twoNumbers payload).1.bind fun numbers =>
    if numbers.ptr.getD 0 0 = colon then some { numbers with ptr := numbers.ptr.drop 1 } else none

section

variable {user : Partition} {binary : Bool} {payload more data : Bytes} {numbers : Numbers}
  {m : ByteMemory} {n : ℕ}

theorem writeMemory_of_none (h : writeHeader payload = none) (more : Bytes) :
    (writeMemory user binary (payload ++ 0 :: more) m).reply = .ofText (ascii "E02") ∧
      (writeMemory user binary (payload ++ 0 :: more) m).mem = m ∧
      (writeMemory user binary (payload ++ 0 :: more) m).reads ≤ payload.length + 1 := by
  obtain ⟨hzero, hreads⟩ := twoNumbers_zero payload more
  rw [writeMemory, hzero]
  rw [writeHeader] at h
  cases hnumbers : (twoNumbers payload).1 with
  | none =>
      rw [hnumbers] at hreads
      exact ⟨rfl, rfl, hreads⟩
  | some numbers =>
      rw [hnumbers] at hreads h
      have hcolon : numbers.ptr.getD 0 0 ≠ colon := by
        intro hcolon
        rw [Option.bind_some, if_pos hcolon] at h
        exact Option.some_ne_none _ h
      simp only [Option.map_some, getD_append_zero, if_neg hcolon, true_and]
      dsimp only at hreads
      omega

theorem writeMemory_of_some (h : writeHeader payload = some numbers) (more : Bytes) :
    let stored := hex2mem user binary (numbers.ptr ++ 0 :: more) numbers.addr
      numbers.length.toInt.toNat m
    (writeMemory user binary (payload ++ 0 :: more) m).reply =
        .ofText (ascii (if stored.ret ≠ 0 then "OK" else "E03")) ∧
      (writeMemory user binary (payload ++ 0 :: more) m).mem = stored.mem ∧
      (writeMemory user binary (payload ++ 0 :: more) m).reads + numbers.ptr.length =
        payload.length + stored.reads := by
  obtain ⟨hzero, hreads⟩ := twoNumbers_zero payload more
  rw [writeMemory, hzero]
  rw [writeHeader] at h
  cases hnumbers : (twoNumbers payload).1 with
  | none =>
      rw [hnumbers] at h
      exact absurd h (Option.some_ne_none _).symm
  | some parsed =>
      rw [hnumbers, Option.bind_some] at h
      rw [hnumbers] at hreads
      split at h
      · rename_i hcolon
        obtain rfl := Option.some.inj h
        obtain ⟨hdrop, hlength⟩ := drop_append_zero (by decide) hcolon more
        simp only [Option.map_some, getD_append_zero, hcolon, if_true, hdrop, true_and]
        dsimp only at hreads
        omega
      · exact absurd h (Option.some_ne_none _).symm

theorem span_encodes (h : Encodes binary data n) (rest : Bytes) :
    StubMemory.span binary (data ++ rest) n = data.length := by
  induction h with
  | nil binary => rfl
  | digits hhi hlo h ih =>
      show 2 + StubMemory.span false (_ ++ rest) _ = _
      rw [ih, List.length_cons, List.length_cons]
      omega
  | @plain ch data n hch h ih =>
      have hlength : unitLength true (ch :: (data ++ rest)) = 1 := by
        simp [unitLength, hch]
      rw [List.cons_append, StubMemory.span, hlength, List.drop_succ_cons, List.drop_zero, ih,
        List.length_cons, Nat.add_comm]
  | @brace ch data n h ih =>
      show 2 + StubMemory.span true (data ++ rest) n = _
      rw [ih, List.length_cons, List.length_cons]
      omega

/-- What writing refuses by right: a reply `OK` only for the encoding of as many bytes as the
packet says, nothing read behind the zero at its end, and on an error nothing written. -/
structure RefusesMalformed (binary : Bool) (payload : Bytes) (m : ByteMemory)
    (result : WriteResult) : Prop where
  ok : result.reply.opened.text = ascii "OK" →
    ∃ numbers, writeHeader payload = some numbers ∧
      Encodes binary numbers.ptr numbers.length.toNat
  reads : result.reads ≤ payload.length + 1
  error : result.reply.opened.text ≠ ascii "OK" → result.mem = m

/-- The data is as long as the packet says; or the write stops early, having only read from
the packet and only written what was there. -/
def HarmlessData (user : Partition) (binary : Bool) (more : Bytes) (m : ByteMemory)
    (numbers : Numbers) : Prop :=
  let count := numbers.length.toInt.toNat
  let accepted := reach user numbers.addr count
  if accepted.length = count then
    count = 0 ∧ numbers.addr = 0 ∨ Encodes binary numbers.ptr numbers.length.toNat
  else
    span binary (numbers.ptr ++ 0 :: more) (accepted.length + 1) ≤ numbers.ptr.length + 1 ∧
      decode binary (numbers.ptr ++ 0 :: more) accepted.length = load m accepted

theorem text_literal {s : String} (h : (ascii s).contains 0 = false) :
    (Reply.ofText (ascii s)).opened.text = ascii s :=
  text_ofText fun hmem => by rw [List.contains_iff_mem.mpr hmem] at h; cases h

theorem zip_decode {α : Type} (keys : List α) (binary : Bool) (buf : Bytes) {count : ℕ}
    (h : keys.length ≤ count) :
    keys.zip (decode binary buf count) = keys.zip (decode binary buf keys.length) := by
  induction keys generalizing buf count with
  | nil => rfl
  | cons key keys ih =>
      obtain ⟨p, rfl⟩ : ∃ p, count = p + 1 := ⟨count - 1, by rw [List.length_cons] at h; omega⟩
      rw [decode, List.length_cons, decode, List.zip_cons_cons, List.zip_cons_cons,
        ih _ (Nat.le_of_succ_le_succ h)]

theorem forall_zip_iff {α : Type} {keys : List α} {values : Bytes} {f : α → UInt8}
    (hlength : keys.length = values.length) :
    (∀ p ∈ keys.zip values, p.2 = f p.1) ↔ values = keys.map f := by
  induction keys generalizing values with
  | nil => simp [List.eq_nil_of_length_eq_zero hlength.symm]
  | cons key keys ih =>
      cases values with
      | nil => cases hlength
      | cons value values =>
          rw [List.zip_cons_cons, List.forall_mem_cons, ih (Nat.succ.inj hlength), List.map_cons,
            List.cons.injEq]

/-- Decoded bytes put to the first addresses of a range change nothing exactly if they are
there already. -/
theorem stored_eq_self_iff (user : Partition) (binary : Bool) (buf : Bytes) (addr : Word)
    (count : ℕ) (m : ByteMemory) :
    (hex2mem user binary buf addr count m).mem = m ↔
      decode binary buf (reach user addr count).length = load m (reach user addr count) := by
  have hle := length_reach_le user addr count
  rw [← List.length_map cell] at hle
  have hlength : ((reach user addr count).map cell).length =
      (decode binary buf ((reach user addr count).map cell).length).length :=
    (length_decode ..).symm
  have hkeys : ((((reach user addr count).map cell).zip
      (decode binary buf ((reach user addr count).map cell).length)).map Prod.fst).Nodup := by
    rw [List.map_fst_zip hlength.le]
    exact nodup_reach user addr count
  rw [hex2mem_eq, zip_decode _ _ _ hle, applyAll_eq_self_iff hkeys, forall_zip_iff hlength,
    List.length_map, List.map_map]
  rfl

theorem stored_of_accepted {addr : Word} {count : ℕ}
    (haccepted : (reach user addr count).length = count) (buf : Bytes) :
    (hex2mem user binary buf addr count m).ret = 0 ↔ count = 0 ∧ addr = 0 := by
  rw [hex2mem_eq, if_pos haccepted]
  dsimp only
  rcases Nat.eq_zero_or_pos count with rfl | hpos
  · simp
  · have hend := end_ne_zero hpos (length_reach_eq_iff.mp haccepted)
    exact iff_of_false hend fun h => hpos.ne' h.1

theorem stored_reads (user : Partition) (binary : Bool) (buf : Bytes) (addr : Word) (count : ℕ)
    (m : ByteMemory) : (hex2mem user binary buf addr count m).reads =
      span binary buf (min ((reach user addr count).length + 1) count) := by
  rw [hex2mem_eq]

theorem toInt_toNat_cases (w : Word) : w.toInt.toNat = w.toNat ∨ w.toInt.toNat = 0 := by
  rw [BitVec.toInt_eq_toNat_cond]
  have hlt := w.isLt
  split
  · exact .inl (Int.toNat_natCast _)
  · right
    omega

theorem refuses_of_none (h : writeHeader payload = none) (user : Partition) (binary : Bool)
    (more : Bytes) (m : ByteMemory) :
    RefusesMalformed binary payload m (writeMemory user binary (payload ++ 0 :: more) m) := by
  obtain ⟨hreply, hmem, hreads⟩ := @writeMemory_of_none user binary payload m h more
  refine ⟨fun hok => ?_, hreads, fun _ => hmem⟩
  rw [hreply, text_literal (by decide)] at hok
  exact absurd hok (by decide)

theorem refuses_of_accepted (h : writeHeader payload = some numbers)
    (haccepted : (reach user numbers.addr numbers.length.toInt.toNat).length =
      numbers.length.toInt.toNat) :
    RefusesMalformed binary payload m (writeMemory user binary (payload ++ 0 :: more) m) ↔
      (numbers.length.toInt.toNat = 0 ∧ numbers.addr = 0) ∨
        Encodes binary numbers.ptr numbers.length.toNat := by
  obtain ⟨hreply, hmem, hreads⟩ := @writeMemory_of_some user binary payload numbers m h more
  have hret := @stored_of_accepted user binary m _ _ haccepted (numbers.ptr ++ 0 :: more)
  rw [stored_reads, haccepted, Nat.min_eq_right (Nat.le_succ _)] at hreads
  by_cases hnothing : numbers.length.toInt.toNat = 0 ∧ numbers.addr = 0
  · rw [hret.mpr hnothing, if_neg (not_not_intro rfl)] at hreply
    refine iff_of_true ⟨fun hok => ?_, ?_, fun _ => ?_⟩ (.inl hnothing)
    · rw [hreply, text_literal (by decide)] at hok
      exact absurd hok (by decide)
    · rw [hnothing.1, span] at hreads
      omega
    · rw [hmem, hnothing.1]
      rfl
  · rw [if_pos (hret.not.mpr hnothing)] at hreply
    have htext : (writeMemory user binary (payload ++ 0 :: more) m).reply.opened.text =
        ascii "OK" := by
      rw [hreply, text_literal (by decide)]
    constructor
    · intro hrefuses
      obtain ⟨numbers', heq, hencodes⟩ := hrefuses.ok htext
      obtain rfl := Option.some.inj (h.symm.trans heq)
      exact .inr hencodes
    · intro hright
      have hencodes := hright.resolve_left hnothing
      refine ⟨fun _ => ⟨numbers, h, hencodes⟩, ?_, fun hne => absurd htext hne⟩
      rcases toInt_toNat_cases numbers.length with hcount | hcount
      · rw [hcount, span_encodes hencodes] at hreads
        omega
      · rw [hcount, span] at hreads
        omega

theorem refuses_of_stopped (h : writeHeader payload = some numbers)
    (hstopped : (reach user numbers.addr numbers.length.toInt.toNat).length ≠
      numbers.length.toInt.toNat) :
    RefusesMalformed binary payload m (writeMemory user binary (payload ++ 0 :: more) m) ↔
      span binary (numbers.ptr ++ 0 :: more)
          ((reach user numbers.addr numbers.length.toInt.toNat).length + 1) ≤
        numbers.ptr.length + 1 ∧
      decode binary (numbers.ptr ++ 0 :: more)
          (reach user numbers.addr numbers.length.toInt.toNat).length =
        load m (reach user numbers.addr numbers.length.toInt.toNat) := by
  obtain ⟨hreply, hmem, hreads⟩ := @writeMemory_of_some user binary payload numbers m h more
  have hle := length_reach_le user numbers.addr numbers.length.toInt.toNat
  have hret : (hex2mem user binary (numbers.ptr ++ 0 :: more) numbers.addr
      numbers.length.toInt.toNat m).ret = 0 := by
    rw [hex2mem_eq, if_neg hstopped]
  rw [hret, if_neg (not_not_intro rfl)] at hreply
  rw [stored_reads, Nat.min_eq_left (by omega)] at hreads
  have htext : (writeMemory user binary (payload ++ 0 :: more) m).reply.opened.text ≠
      ascii "OK" := by
    rw [hreply, text_literal (by decide)]
    decide
  rw [← stored_eq_self_iff, ← hmem]
  constructor
  · intro hrefuses
    have hread := hrefuses.reads
    exact ⟨by omega, hrefuses.error htext⟩
  · rintro ⟨hread, hkept⟩
    exact ⟨fun hok => absurd hok htext, by omega, fun _ => hkept⟩

end

def letter (binary : Bool) : UInt8 := if binary then 0x58 else 0x4D

/-- A packet `M` or `X` is replied to as a write of its payload, which refuses what is
malformed exactly if its data is harmless, should it have a header at all. -/
theorem write_refuses_malformed_iff (env : Env) (k : Kernel) (s : State) (binary : Bool)
    (payload more : Bytes) :
    let result := writeMemory env.user binary (payload ++ 0 :: more) s.mem
    handlePacket env k s (letter binary :: (payload ++ 0 :: more)) =
        .reply result.reply.opened { s with mem := result.mem } ∧
      (RefusesMalformed binary payload s.mem result ↔
        ∀ numbers ∈ writeHeader payload, HarmlessData env.user binary more s.mem numbers) := by
  refine ⟨?_, ?_⟩
  · cases binary with
    | false => rfl
    | true => rfl
  · cases h : writeHeader payload with
    | none => exact iff_of_true (refuses_of_none h env.user binary more s.mem) (by simp)
    | some numbers =>
        have hall : (∀ numbers' ∈ some numbers,
            HarmlessData env.user binary more s.mem numbers') ↔
            HarmlessData env.user binary more s.mem numbers := by simp
        rw [hall, HarmlessData]
        split
        · rename_i haccepted
          exact refuses_of_accepted h haccepted
        · rename_i hstopped
          exact refuses_of_stopped h hstopped

/-- One byte is to be written and there are no digits: the reply is `OK`. -/
theorem missing_data_accepted :
    (writeMemory plainEnv.user false (ascii "08900000,1:" ++ [0]) plainState.mem).reply.opened.text =
        ascii "OK" ∧
      ¬RefusesMalformed false (ascii "08900000,1:") plainState.mem
        (writeMemory plainEnv.user false (ascii "08900000,1:" ++ [0]) plainState.mem) := by
  have htext : (writeMemory plainEnv.user false (ascii "08900000,1:" ++ [0])
      plainState.mem).reply.opened.text = ascii "OK" := by decide
  refine ⟨htext, fun hrefuses => ?_⟩
  have hreads : (writeMemory plainEnv.user false (ascii "08900000,1:" ++ [0])
      plainState.mem).reads = 13 := by decide
  have hle := hrefuses.reads
  rw [hreads] at hle
  exact absurd hle (by decide)

end PsplinkUsb.UsbGdb.MalformedWrites
