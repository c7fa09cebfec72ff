import PsplinkUsb.UsbHostfsPc.Handlers
import PsplinkUsb.UsbHostfsPc.PlainFile

namespace PsplinkUsb.UsbHostfsPc.BufferBounds

open PsplinkUsb.Library.Duplex
open PsplinkUsb.HostFs.Wire
open PsplinkUsb.UsbHostfsPc.OsCalls
open PsplinkUsb.UsbHostfsPc.HostFiles
open PsplinkUsb.UsbHostfsPc.Handlers
open PsplinkUsb.UsbHostfsPc.PlainFile

abbrev maxAsyncChannels : ℕ := 8

variable {σ : Type}

/-- The loop of `do_bulk`: read block after block to `&block[read]`, at most
`HOSTFS_MAX_BLOCK` bytes each. -/
def readBlocks (len : ℕ) (next : Bytes → Proc UInt8 (Host σ)) (read : ℕ) (block : Bytes) :
    Proc UInt8 (Host σ) :=
  if read < len then
    let readsize := min (len - read) hostfsMaxBlock
    .recv readsize fun data => readBlocks len next (read + readsize) (block ++ data)
  else next block
termination_by len - read
decreasing_by
  simp only [hostfsMaxBlock]
  omega

/-- `do_bulk`; `g_clientsocks` has the socket of a channel, if it is connected. -/
def doBulk (os : HostOs σ) (clientsocks : Fin maxAsyncChannels → Option ℕ) (h : Host σ)
    (cmd : Bytes) : Proc UInt8 (Host σ) :=
  let chan := (field32 cmd 4).toNat
  readBlocks (field32 cmd 8).toInt.toNat
    (fun block =>
      if hchan : chan < maxAsyncChannels then
        match clientsocks ⟨chan, hchan⟩ with
        | some sock => .done { h with os := (fixedWrite os sock block 0 h.os).2 }
        | none => .done h
      else .done h)
    0 []

/-- The calls of `read` that `fixed_read` makes: the place in the block and the size. -/
def fixedReadStores (os : HostOs σ) (fd : ℕ) (left : ℕ) (data : Bytes) (s : σ) : List (ℕ × ℕ) :=
  if left = 0 then []
  else
    (data.length, left) ::
      match _hread : os.read fd left s with
      | (.error e, s') => if e = eintr then fixedReadStores os fd left data s' else []
      | (.ok [], _) => []
      | (.ok (b :: bytes), s') =>
          fixedReadStores os fd (left - (b :: bytes).length) (data ++ b :: bytes) s'
termination_by (left, os.patience s)
decreasing_by
  · rename_i heintr
    have hlt := os.read_eintr fd left s
    simp only [_hread, heintr, forall_const] at hlt
    exact Prod.Lex.right _ hlt
  · exact Prod.Lex.left _ _ (by simp only [List.length_cons]; omega)

/-- The calls of `read` that `handle_read` makes on its `read_block`. -/
def readStores (os : HostOs σ) (h : Host σ) (cmd : Bytes) : List (ℕ × ℕ) :=
  if cmd.length ≠ HostFsCommand.read.cmdSize then []
  else if (field32 cmd 16).toInt ≤ 0 then []
  else
    match toSlot (field32 cmd 12) with
    | none => []
    | some fid =>
        if (h.openFiles fid).opened then fixedReadStores os fid (field32 cmd 16).toNat [] h.os
        else []

/-- How the USB layer takes the size it is given, an `int` in its prototype. -/
inductive SizeType where
  | signed
  | unsigned

def SizeType.amount (ty : SizeType) (size : Word) : ℤ :=
  match ty with
  | .signed => size.toInt
  | .unsigned => size.toNat

/-- All a process receives stays within a buffer of so much room, in which one reception is
stored behind the other. -/
def StoresWithin (ty : SizeType) (room : ℕ) : ℕ → Proc UInt8 (Host σ) → Prop
  | _, .done _ => True
  | got, .send _ next => StoresWithin ty room got next
  | got, .recv n next =>
      got + ty.amount (BitVec.ofNat 32 n) ≤ room ∧
        ∀ data, data.length = n → StoresWithin ty room (got + n) (next data)

variable (ty : SizeType) (os : HostOs σ) (clientsocks : Fin maxAsyncChannels → Option ℕ)

/-- No store that a packet from the device leads to goes past its buffer. -/
def PacketWithin (h : Host σ) (packet : Bytes) : Prop :=
  if packet.length < sizeofHostFsCmd then True
  else if field32 packet 0 = hostfsMagic then
    match HostFsCommand.ofCode (HostFsCmd.decode packet).command with
    | some .read =>
        StoresWithin ty 0 0 (doHostfs os h packet) ∧
          ∀ store ∈ readStores os h packet, store.1 + store.2 ≤ hostfsMaxBlock
    | some command => StoresWithin ty (dataBuffer command) 0 (doHostfs os h packet)
    | none => StoresWithin ty 0 0 (doHostfs os h packet)
  else if field32 packet 0 = bulkMagic then
    StoresWithin ty hostfsBulkMaxwrite 0 (doBulk os clientsocks h packet)
  else True

/-- The length a request gives is within the buffer of its handler. -/
def LengthFits (h : Host σ) (packet : Bytes) (command : HostFsCommand) : Prop :=
  let extralen := (HostFsCmd.decode packet).extralen
  match command with
  | .open | .dopen | .remove | .rmdir | .mkdir | .getstat | .chstat | .rename | .chdir
  | .write => ty.amount extralen ≤ dataBuffer command
  | .ioctl | .devctl => extralen.toInt ≤ dataBuffer command
  | .read => ∀ fid, toSlot (field32 packet 12) = some fid → (h.openFiles fid).opened →
      (field32 packet 16).toInt ≤ hostfsMaxBlock
  | .hello | .bye | .close | .lseek | .dread | .dclose => True

/-- The condition on a packet. A struct of the wrong size is not looked at further. -/
def PacketFits (h : Host σ) (packet : Bytes) : Prop :=
  if packet.length < sizeofHostFsCmd then True
  else if field32 packet 0 = hostfsMagic then
    ∀ command, HostFsCommand.ofCode (HostFsCmd.decode packet).command = some command →
      packet.length = command.cmdSize → LengthFits ty h packet command
  else if field32 packet 0 = bulkMagic then (field32 packet 8).toInt ≤ hostfsBulkMaxwrite
  else True

section

variable {ty os} {room got : ℕ} {h : Host σ}

theorem amount_zero : ty.amount 0#32 = 0 := by
  cases ty with
  | signed => rfl
  | unsigned => rfl

theorem amount_of_pos {size : Word} (hpos : 0 < size.toInt) : ty.amount size = size.toInt := by
  cases ty with
  | signed => rfl
  | unsigned =>
      rw [BitVec.toInt_eq_toNat_cond] at hpos ⊢
      simp only [SizeType.amount]
      split at hpos <;> omega

theorem amount_ofNat {n : ℕ} (hn : n < 2 ^ 31) : ty.amount (BitVec.ofNat 32 n) = n := by
  rcases Nat.eq_zero_or_pos n with rfl | hpos
  · exact amount_zero
  · have hint : (BitVec.ofNat 32 n).toInt = n := by
      rw [BitVec.toInt_eq_toNat_cond, BitVec.toNat_ofNat]
      omega
    rw [amount_of_pos (by omega), hint]

theorem respond_within (command : HostFsCommand) (r : Reply × Host σ) :
    StoresWithin ty room got (respond command r) := by
  rw [respond, StoresWithin]
  split
  · trivial
  · trivial

theorem handle_within (request answer : HostFsCommand)
    (action : Bytes → Host σ → Reply × Host σ) (cmd : Bytes) :
    StoresWithin ty room got (handle request answer action h cmd) := by
  rw [handle]
  split
  · trivial
  · exact respond_within answer _

theorem handleData_within (request : HostFsCommand)
    (action : Bytes → Bytes → Host σ → Reply × Host σ) (cmd : Bytes) :
    StoresWithin ty room 0 (handleData request action h cmd) ↔
      (cmd.length = request.cmdSize → ty.amount (HostFsCmd.decode cmd).extralen ≤ room) := by
  rw [handleData]
  by_cases hsize : cmd.length = request.cmdSize
  · rw [if_neg (not_not.mpr hsize)]
    by_cases hextra : (HostFsCmd.decode cmd).extralen = 0
    · rw [if_pos hextra, hextra]
      simp [StoresWithin, amount_zero]
    · rw [if_neg hextra]
      simp [StoresWithin, hsize, respond_within]
  · simp [hsize, StoresWithin]

theorem handleOptionalData_within (request : HostFsCommand)
    (action : Bytes → Bytes → Host σ → Reply × Host σ) (cmd : Bytes) :
    StoresWithin ty room 0 (handleOptionalData request action h cmd) ↔
      (cmd.length = request.cmdSize → (HostFsCmd.decode cmd).extralen.toInt ≤ room) := by
  rw [handleOptionalData]
  by_cases hsize : cmd.length = request.cmdSize
  · rw [if_neg (not_not.mpr hsize)]
    by_cases hextra : 0 < (HostFsCmd.decode cmd).extralen.toInt
    · simp [if_pos hextra, StoresWithin, hsize, amount_of_pos hextra, respond_within]
    · have hle : (HostFsCmd.decode cmd).extralen.toInt ≤ room := by omega
      simp [if_neg hextra, respond_within, hle]
  · simp [hsize, StoresWithin]

theorem readBlocks_within {len : ℕ} {next : Bytes → Proc UInt8 (Host σ)}
    (hnext : ∀ got block, StoresWithin ty room got (next block)) (read : ℕ) (block : Bytes)
    (hread : read ≤ room) :
    StoresWithin ty room read (readBlocks len next read block) ↔ len ≤ room := by
  induction read, block using readBlocks.induct len with
  | case1 read block hless readsize ih =>
      have hsize : readsize ≤ len - read := Nat.min_le_left ..
      have hblock : readsize < 2 ^ 31 :=
        (Nat.min_le_right ..).trans_lt (by decide : hostfsMaxBlock < 2 ^ 31)
      rw [readBlocks, if_pos hless, StoresWithin, amount_ofNat hblock]
      constructor
      · rintro ⟨hfits, hrest⟩
        have hfits' : read + readsize ≤ room := by exact_mod_cast hfits
        exact (ih (List.replicate readsize 0) hfits').mp
          (hrest (List.replicate readsize 0) List.length_replicate)
      · intro hle
        have hfits : read + readsize ≤ room := by omega
        exact ⟨by exact_mod_cast hfits, fun data _ => (ih data hfits).mpr hle⟩
  | case2 read block hless =>
      rw [readBlocks, if_neg hless]
      exact iff_of_true (hnext read block) (by omega)

theorem doBulk_within (cmd : Bytes) :
    StoresWithin ty hostfsBulkMaxwrite 0 (doBulk os clientsocks h cmd) ↔
      (field32 cmd 8).toInt ≤ hostfsBulkMaxwrite := by
  rw [doBulk, readBlocks_within _ 0 [] (Nat.zero_le _)]
  · omega
  · intro got block
    split
    · split
      · trivial
      · trivial
    · trivial

theorem mem_fixedReadStores {fd left : ℕ} {data : Bytes} {s : σ} {store : ℕ × ℕ}
    (hstore : store ∈ fixedReadStores os fd left data s) :
    store.1 + store.2 = data.length + left := by
  induction left, data, s using fixedReadStores.induct os fd with
  | case1 data s => simp [fixedReadStores] at hstore
  | case2 left data s hleft hagain hmore =>
      rw [fixedReadStores, if_neg hleft] at hstore
      rcases List.mem_cons.mp hstore with rfl | hstore
      · rfl
      · split at hstore
        · rename_i e s' hread
          split at hstore
          · rename_i he
            exact hagain e s' hread he hstore
          · simp at hstore
        · simp at hstore
        · rename_i b bytes s' hread
          have hle : (b :: bytes).length ≤ left := os.read_le fd left s _ (by rw [hread])
          rw [hmore b bytes s' hstore, List.length_append]
          omega

theorem fixedReadStores_within (fd left : ℕ) (s : σ) :
    (∀ store ∈ fixedReadStores os fd left [] s, store.1 + store.2 ≤ room) ↔ left ≤ room := by
  constructor
  · intro hall
    by_cases hleft : left = 0
    · omega
    · have hfirst : (0, left) ∈ fixedReadStores os fd left [] s := by
        rw [fixedReadStores, if_neg hleft]
        exact List.mem_cons_self
      simpa using hall _ hfirst
  · intro hle store hstore
    rw [mem_fixedReadStores hstore]
    simpa using hle

variable (ty) in
theorem readStores_within (cmd : Bytes) :
    (∀ store ∈ readStores os h cmd, store.1 + store.2 ≤ hostfsMaxBlock) ↔
      (cmd.length = HostFsCommand.read.cmdSize → LengthFits ty h cmd .read) := by
  rw [readStores, LengthFits]
  by_cases hsize : cmd.length = HostFsCommand.read.cmdSize
  · rw [if_neg (not_not.mpr hsize)]
    by_cases hlen : (field32 cmd 16).toInt ≤ 0
    · have hsmall : (field32 cmd 16).toInt ≤ hostfsMaxBlock := hlen.trans (by decide)
      simp [hlen, hsmall]
    · have hint : (field32 cmd 16).toInt = (field32 cmd 16).toNat := by
        rw [BitVec.toInt_eq_toNat_cond] at hlen ⊢
        split at hlen <;> omega
      rw [if_neg hlen, hint]
      cases hslot : toSlot (field32 cmd 12) with
      | none => simp
      | some fid =>
          by_cases hopened : (h.openFiles fid).opened
          · simp only [hopened, if_true, fixedReadStores_within]
            simp [hsize, hopened]
          · simp [hopened]
  · simp [hsize]

theorem readRequest_within (cmd : Bytes) : StoresWithin ty room got (handleRead os h cmd) := by
  rw [handleRead]
  split
  · trivial
  · split
    · trivial
    · exact respond_within .read _

/-- Which packets lead to stores within the buffers only. -/
theorem stores_within_iff (ty : SizeType) (os : HostOs σ)
    (clientsocks : Fin maxAsyncChannels → Option ℕ) (h : Host σ) (packet : Bytes) :
    PacketWithin ty os clientsocks h packet ↔ PacketFits ty h packet := by
  rw [PacketWithin, PacketFits]
  by_cases hshort : packet.length < sizeofHostFsCmd
  · simp [hshort]
  · by_cases hmagic : field32 packet 0 = hostfsMagic
    · simp only [if_neg hshort, if_pos hmagic]
      cases hcommand : HostFsCommand.ofCode (HostFsCmd.decode packet).command with
      | none => simp [doHostfs, hcommand, StoresWithin]
      | some command =>
          simp only [Option.some.injEq, forall_eq']
          cases command with
          | read =>
              simp only [doHostfs, hcommand]
              rw [readStores_within ty]
              simp [readRequest_within]
          | «open» | dopen | write | remove | rmdir | mkdir | getstat | chstat | rename | chdir =>
              simp only [doHostfs, hcommand]
              exact handleData_within _ _ packet
          | ioctl | devctl =>
              simp only [doHostfs, hcommand]
              exact handleOptionalData_within _ _ packet
          | close | lseek | dclose | dread =>
              simp only [doHostfs, hcommand]
              exact iff_of_true (handle_within _ _ _ packet) fun _ => trivial
          | hello =>
              simp only [doHostfs, hcommand]
              exact iff_of_true (respond_within .hello _) fun _ => trivial
          | bye =>
              simp only [doHostfs, hcommand]
              exact iff_of_true trivial fun _ => trivial
    · simp only [if_neg hshort, if_neg hmagic]
      split
      · exact doBulk_within clientsocks packet
      · rfl

/-- An `open` request whose name is one byte longer than the buffer. -/
def longOpen : Bytes :=
  HostFsCmd.encode ⟨hostfsMagic, HostFsCommand.open.code, 4097⟩ ++ le32 1 ++ le32 0 ++ le32 0

theorem open_not_within (clientsocks : Fin maxAsyncChannels → Option ℕ) :
    ¬PacketWithin ty os clientsocks h longOpen := by
  intro hwithin
  have hcommand : HostFsCommand.ofCode (HostFsCmd.decode longOpen).command = some .open := by
    decide
  have hextralen : (HostFsCmd.decode longOpen).extralen = 4097 := by decide
  rw [PacketWithin, if_neg (by decide), if_pos (by decide), hcommand] at hwithin
  simp only [doHostfs, hcommand] at hwithin
  have hfits := (handleData_within .open _ longOpen).mp hwithin rfl
  rw [hextralen] at hfits
  cases ty with
  | signed => exact absurd hfits (by decide)
  | unsigned => exact absurd hfits (by decide)

theorem open_past_buffer :
    ¬PacketWithin .signed fileOs (fun _ => none) (oneFile [] []) longOpen ∧
      ¬PacketWithin .unsigned fileOs (fun _ => none) (oneFile [] []) longOpen :=
  ⟨open_not_within _, open_not_within _⟩

end

end PsplinkUsb.UsbHostfsPc.BufferBounds
