import PsplinkUsb.Library.Patch
import PsplinkUsb.Psplink.ProgramMemory
import PsplinkUsb.UsbGdb.PacketExchange

/-!
How the stub reads and writes memory: `GdbReadByte` and `GdbWriteByte` of `usbgdb/main.c`,
and `mem2hex`, `hex2mem` and `hexToInt` of `usbgdb/gdb-stub.c`. A pointer into a packet is
the list of the bytes from there on; behind the list there are zeros.
-/

namespace PsplinkUsb.UsbGdb.StubMemory

open PsplinkUsb.Library.Patch
open PsplinkUsb.Psplink.ProgramMemory
open PsplinkUsb.UsbGdb.Packets

/-- The bytes of the memory by their cell. -/
abbrev ByteMemory := Word → UInt8

/-- `userbase` and `usertop`. -/
structure Partition where
  userbase : Word
  usertop : Word

def validNibbles : List Word := [0, 4, 8, 10]
def kernelNibbles : List Word := [8, 10]

/-- The two tests of an address that `GdbReadByte` and `GdbWriteByte` make. -/
def valid (user : Partition) (address : Word) : Bool :=
  let addr := cell address
  let nibble := address >>> 28
  (user.userbase ≤ addr && addr < user.usertop && validNibbles.contains nibble) ||
    (0x08000000 ≤ addr && addr < 0x08400000 && kernelNibbles.contains nibble)

def gdbReadByte (user : Partition) (m : ByteMemory) (address : Word) : Option UInt8 :=
  if valid user address then some (m (cell address)) else none

def gdbWriteByte (user : Partition) (val : UInt8) (dest : Word) (m : ByteMemory) :
    Option ByteMemory :=
  if valid user dest then some (Function.update m (cell dest) val) else none

/-- What `mem2hex` stores at `buf`, less the zero at its end, and whether it returns
anything but `NULL`. -/
structure Hexed where
  text : Bytes
  done : Bool

def mem2hex (user : Partition) (m : ByteMemory) : Word → ℕ → Hexed
  | _, 0 => { text := [], done := true }
  | address, count + 1 =>
      match gdbReadByte user m address with
      | none => { text := [], done := false }
      | some ch =>
          let rest := mem2hex user m (address + 1) count
          { rest with text := hexchar (ch >>> 4) :: hexchar ch :: rest.text }

def closeBrace : UInt8 := 0x7D

/-- The byte that `hex2mem` takes from its running pointer in one turn. -/
def unitByte (binary : Bool) (buf : Bytes) : UInt8 :=
  if binary then
    if buf.getD 0 0 = closeBrace then 0x20 ^^^ buf.getD 1 0 else buf.getD 0 0
  else UInt8.ofInt (hex (buf.getD 0 0)) <<< 4 ||| UInt8.ofInt (hex (buf.getD 1 0))

/-- How far one turn moves the pointer. -/
def unitLength (binary : Bool) (buf : Bytes) : ℕ :=
  if binary ∧ buf.getD 0 0 ≠ closeBrace then 1 else 2

/-- The memory after `hex2mem`, what it returns, and how many bytes it read. -/
structure Stored where
  mem : ByteMemory
  ret : Word
  reads : ℕ

def hex2mem (user : Partition) (binary : Bool) : Bytes → Word → ℕ → ByteMemory → Stored
  | _, address, 0, m => { mem := m, ret := address, reads := 0 }
  | buf, address, count + 1, m =>
      match gdbWriteByte user (unitByte binary buf) address m with
      | none => { mem := m, ret := 0, reads := unitLength binary buf }
      | some m =>
          let rest := hex2mem user binary (buf.drop (unitLength binary buf)) (address + 1) count m
          { rest with reads := unitLength binary buf + rest.reads }

/-- What `hexToInt` returns, the number and the pointer it leaves. -/
structure Scanned where
  numChars : ℕ
  intValue : Word
  ptr : Bytes

def hexToIntFrom (numChars : ℕ) (intValue : Word) : Bytes → Scanned
  | [] => { numChars := numChars, intValue := intValue, ptr := [] }
  | ch :: ptr =>
      if ch = 0 ∨ hex ch < 0 then
        { numChars := numChars, intValue := intValue, ptr := ch :: ptr }
      else hexToIntFrom (numChars + 1) (intValue <<< 4 ||| BitVec.ofInt 32 (hex ch)) ptr

def hexToInt (ptr : Bytes) : Scanned := hexToIntFrom 0 0 ptr

/-- Addresses one behind the other. -/
def addresses (address : Word) : ℕ → List Word
  | 0 => []
  | count + 1 => address :: addresses (address + 1) count

/-- The addresses before the first that is not valid. -/
def reach (user : Partition) (address : Word) (count : ℕ) : List Word :=
  (addresses address count).takeWhile (valid user)

def load (m : ByteMemory) (as : List Word) : Bytes := as.map fun a => m (cell a)

/-- Two digits for each byte. -/
def hexText (data : Bytes) : Bytes := data.flatMap fun ch : UInt8 => [hexchar (ch >>> 4), hexchar ch]

/-- The bytes that the first turns of `hex2mem` take from its pointer. -/
def decode (binary : Bool) : Bytes → ℕ → Bytes
  | _, 0 => []
  | buf, count + 1 =>
      unitByte binary buf :: decode binary (buf.drop (unitLength binary buf)) count

/-- How many bytes these turns read. -/
def span (binary : Bool) : Bytes → ℕ → ℕ
  | _, 0 => 0
  | buf, count + 1 =>
      unitLength binary buf + span binary (buf.drop (unitLength binary buf)) count

section

variable {user : Partition} {m : ByteMemory} {address a : Word} {count i : ℕ}

@[simp] theorem length_addresses (address : Word) (count : ℕ) :
    (addresses address count).length = count := by
  induction count generalizing address with
  | zero => rfl
  | succ count ih => rw [addresses, List.length_cons, ih]

theorem step_add (address : Word) (i : ℕ) :
    address + 1 + BitVec.ofNat 32 i = address + BitVec.ofNat 32 (i + 1) := by
  rw [BitVec.add_assoc, Nat.add_comm, BitVec.ofNat_add]
  rfl

theorem mem_addresses : a ∈ addresses address count ↔
    ∃ i < count, a = address + BitVec.ofNat 32 i := by
  induction count generalizing address with
  | zero => simp [addresses]
  | succ count ih =>
      rw [addresses, List.mem_cons, ih]
      constructor
      · rintro (rfl | ⟨i, hi, rfl⟩)
        · exact ⟨0, Nat.succ_pos _, by simp⟩
        · exact ⟨i + 1, Nat.succ_lt_succ hi, step_add address i⟩
      · rintro ⟨i, hi, rfl⟩
        cases i with
        | zero => exact .inl (by simp)
        | succ i => exact .inr ⟨i, Nat.lt_of_succ_lt_succ hi, (step_add address i).symm⟩

theorem addresses_append (address : Word) (n k : ℕ) :
    addresses address (n + k) =
      addresses address n ++ addresses (address + BitVec.ofNat 32 n) k := by
  induction n generalizing address with
  | zero => simp [addresses]
  | succ n ih => rw [Nat.succ_add, addresses, ih, step_add, addresses, List.cons_append]

theorem load_append (m : ByteMemory) (as bs : List Word) :
    load m (as ++ bs) = load m as ++ load m bs := List.map_append

theorem reach_succ (user : Partition) (address : Word) (count : ℕ) :
    reach user address (count + 1) =
      if valid user address then address :: reach user (address + 1) count else [] := by
  rw [reach, addresses, List.takeWhile_cons, reach]

theorem length_reach_le (user : Partition) (address : Word) (count : ℕ) :
    (reach user address count).length ≤ count := by
  have hle := (List.takeWhile_prefix (l := addresses address count) (valid user)).length_le
  rwa [length_addresses] at hle

theorem reach_eq_addresses (h : ∀ a ∈ addresses address count, valid user a = true) :
    reach user address count = addresses address count :=
  List.takeWhile_eq_self_iff.mpr h

theorem length_reach_eq_iff : (reach user address count).length = count ↔
    ∀ a ∈ addresses address count, valid user a = true := by
  constructor
  · intro hlength
    apply List.takeWhile_eq_self_iff.mp
    apply (List.takeWhile_prefix _).eq_of_length
    rw [length_addresses]
    exact hlength
  · intro h
    rw [reach_eq_addresses h, length_addresses]

theorem le_length_reach_iff {n : ℕ} (h : n ≤ count) :
    n ≤ (reach user address count).length ↔ ∀ a ∈ addresses address n, valid user a = true := by
  induction n generalizing address count with
  | zero => simp [addresses]
  | succ n ih =>
      obtain ⟨p, rfl⟩ : ∃ p, count = p + 1 := ⟨count - 1, by omega⟩
      rw [reach_succ, addresses, List.forall_mem_cons, ← ih (Nat.le_of_succ_le_succ h)]
      split
      · rename_i hvalid
        rw [List.length_cons, Nat.succ_le_succ_iff]
        exact (and_iff_right hvalid).symm
      · rename_i hvalid
        rw [List.length_nil]
        exact iff_of_false (Nat.not_succ_le_zero n) fun hall => hvalid hall.1

theorem mem_reach (h : a ∈ reach user address count) :
    ∃ i < count, a = address + BitVec.ofNat 32 i ∧
      ∀ j ≤ i, valid user (address + BitVec.ofNat 32 j) = true := by
  induction count generalizing address with
  | zero => exact absurd h List.not_mem_nil
  | succ count ih =>
      rw [reach_succ] at h
      split at h
      · rename_i hvalid
        have hzero : valid user (address + BitVec.ofNat 32 0) = true := by
          simpa using hvalid
        rcases List.mem_cons.mp h with rfl | h
        · refine ⟨0, Nat.succ_pos _, by simp, fun j hj => ?_⟩
          rw [Nat.le_zero.mp hj]
          exact hzero
        · obtain ⟨i, hi, rfl, hall⟩ := ih h
          refine ⟨i + 1, Nat.succ_lt_succ hi, step_add address i, fun j hj => ?_⟩
          cases j with
          | zero => exact hzero
          | succ j =>
              rw [← step_add]
              exact hall j (Nat.le_of_succ_le_succ hj)
      · exact absurd h List.not_mem_nil

theorem nibble_of_valid (h : valid user a = true) :
    a.toNat / 0x10000000 ∈ [0, 4, 8, 10] := by
  have hnibble : (a >>> 28).toNat = a.toNat / 0x10000000 := by
    rw [BitVec.toNat_ushiftRight, Nat.shiftRight_eq_div_pow]
  have hmem : a >>> 28 ∈ validNibbles := by
    simp only [valid, kernelNibbles, validNibbles, Bool.or_eq_true, Bool.and_eq_true,
      List.contains_iff_mem, List.mem_cons, List.not_mem_nil, or_false] at h ⊢
    tauto
  rw [← hnibble]
  exact List.mem_map_of_mem (f := BitVec.toNat) hmem

theorem not_valid_next (h : valid user a = true) : valid user (a + 0x10000000#32) = false := by
  rw [Bool.eq_false_iff]
  intro hnext
  have hsum : (a + 0x10000000#32).toNat = (a.toNat + 0x10000000) % 0x100000000 := by
    rw [BitVec.toNat_add, BitVec.toNat_ofNat]
  have hhere := nibble_of_valid h
  have hthere := nibble_of_valid hnext
  rw [hsum] at hthere
  simp only [List.mem_cons, List.not_mem_nil, or_false] at hhere hthere
  omega

theorem far_of_cell_eq (h : cell (a + BitVec.ofNat 32 (i + 1)) = cell a) : 0x10000000 ≤ i + 1 := by
  rw [cell_eq_iff, BitVec.toNat_add, BitVec.toNat_ofNat] at h
  omega

theorem nodup_reach (user : Partition) (address : Word) (count : ℕ) :
    ((reach user address count).map cell).Nodup := by
  induction count generalizing address with
  | zero => exact List.nodup_nil
  | succ count ih =>
      rw [reach_succ]
      split
      · rename_i hvalid
        rw [List.map_cons, List.nodup_cons]
        refine ⟨?_, ih _⟩
        rintro hmem
        obtain ⟨a, ha, heq⟩ := List.mem_map.mp hmem
        obtain ⟨i, -, rfl, hall⟩ := mem_reach ha
        rw [step_add] at heq
        obtain ⟨far, hfar⟩ : ∃ far, far + 1 = 0x10000000 := ⟨0xFFFFFFF, by omega⟩
        have hle : far ≤ i := by
          have := far_of_cell_eq heq
          omega
        have hnext := hall far hle
        rw [step_add, hfar, not_valid_next hvalid] at hnext
        exact absurd hnext Bool.false_ne_true
      · exact List.nodup_nil

theorem mem2hex_eq (user : Partition) (m : ByteMemory) (address : Word) (count : ℕ) :
    mem2hex user m address count =
      { text := hexText (load m (reach user address count))
        done := (reach user address count).length = count } := by
  induction count generalizing address with
  | zero => rfl
  | succ count ih =>
      rw [mem2hex, gdbReadByte, reach_succ]
      by_cases hvalid : valid user address = true
      · rw [if_pos hvalid, if_pos hvalid]
        simp [ih, load, hexText]
      · rw [if_neg hvalid, if_neg hvalid]
        simp [load, hexText]

theorem mem2hex_of_valid (h : ∀ a ∈ addresses address count, valid user a = true) (m : ByteMemory) :
    mem2hex user m address count =
      { text := hexText (load m (addresses address count)), done := true } := by
  rw [mem2hex_eq, reach_eq_addresses h, length_addresses]
  simp

theorem length_decode (binary : Bool) (buf : Bytes) (n : ℕ) :
    (decode binary buf n).length = n := by
  induction n generalizing buf with
  | zero => rfl
  | succ n ih => rw [decode, List.length_cons, ih]

/-- What `hex2mem` does: the decoded bytes go to the addresses before the first that is not
valid. -/
theorem hex2mem_eq (user : Partition) (binary : Bool) (buf : Bytes) (address : Word)
    (count : ℕ) (m : ByteMemory) :
    hex2mem user binary buf address count m =
      { mem := applyAll (((reach user address count).map cell).zip (decode binary buf count)) m
        ret := if (reach user address count).length = count then
          address + BitVec.ofNat 32 count else 0
        reads := span binary buf (min ((reach user address count).length + 1) count) } := by
  induction count generalizing buf address m with
  | zero => simp [hex2mem, reach, addresses, applyAll, span]
  | succ count ih =>
      rw [hex2mem, gdbWriteByte, reach_succ]
      by_cases hvalid : valid user address = true
      · rw [if_pos hvalid, if_pos hvalid]
        simp only [ih, List.map_cons, decode, List.zip_cons_cons, applyAll_cons,
          List.length_cons, Nat.add_right_cancel_iff, Nat.succ_min_succ, span]
        congr 2
        exact step_add address count
      · rw [if_neg hvalid, if_neg hvalid]
        simp [applyAll, span]

theorem hexText_append (data more : Bytes) :
    hexText (data ++ more) = hexText data ++ hexText more := List.flatMap_append

theorem length_hexText (data : Bytes) : (hexText data).length = 2 * data.length := by
  induction data with
  | nil => rfl
  | cons ch data ih =>
      show (_ :: _ :: hexText data).length = _
      rw [List.length_cons, List.length_cons, List.length_cons, ih]
      omega

theorem hexchar_ne_zero (n : UInt8) : hexchar n ≠ 0 := by
  have hall : ∀ k : Fin 256, hexchar (UInt8.ofFin k) ≠ 0 := by decide +kernel
  exact hall n.toFin

theorem not_mem_hexText (data : Bytes) : 0 ∉ hexText data := by
  intro hmem
  obtain ⟨ch, -, hch⟩ := List.mem_flatMap.mp hmem
  rcases List.mem_cons.mp hch with heq | hch
  · exact hexchar_ne_zero _ heq.symm
  · exact hexchar_ne_zero _ (List.mem_singleton.mp hch).symm

end

end PsplinkUsb.UsbGdb.StubMemory
