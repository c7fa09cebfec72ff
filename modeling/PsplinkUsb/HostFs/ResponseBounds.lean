import PsplinkUsb.HostFs.Pairing
import PsplinkUsb.UsbHostfs.HostDriver

namespace PsplinkUsb.HostFs.ResponseBounds

open PsplinkUsb.Library.Duplex
open PsplinkUsb.HostFs.Wire
open PsplinkUsb.HostFs.Exchange
open PsplinkUsb.HostFs.Pairing
open PsplinkUsb.UsbHostfs.CommandXchg
open PsplinkUsb.UsbHostfs.HostDriver
open PsplinkUsb.UsbHostfsPc.Handlers

universe u

/-- All a process receives, one reception behind the other, stays within so much room. -/
def ReceivesWithin {A : Type u} (room : ℕ) : ℕ → Proc UInt8 A → Prop
  | _, .done _ => True
  | got, .send _ next => ReceivesWithin room got next
  | got, .recv n next =>
      got + n ≤ room ∧ ∀ data, data.length = n → ReceivesWithin room (got + n) (next data)

/-- With this response struct, the data that follows stays within the buffer of the caller,
and success means that there was no more of it. -/
structure ResponseFits (req : XchgRequest) (incmd : Bytes) : Prop where
  stores : ∀ sizes, ReceivesWithin req.inlen.toNat 0 (checkResponse sizes req incmd)
  success : ∀ sizes rest o, (commandXchg sizes req).feed (incmd ++ rest) = some o →
    o.result.ret = true → o.result.indata.length ≤ req.inlen.toNat

variable {A : Type u} {req : XchgRequest} {incmd : Bytes} {room got : ℕ}

theorem receivesWithin_readLoop (recvsize : ℕ → ℕ) {next : Bytes → Proc UInt8 A}
    (hnext : ∀ got data, ReceivesWithin room got (next data)) (missing : ℕ) (data : Bytes) :
    ReceivesWithin room got (readLoop recvsize next missing data) ↔
      missing = 0 ∨ got + missing ≤ room := by
  induction missing using Nat.strongRecOn generalizing got data with
  | _ missing ih =>
      rw [readLoop]
      split
      · rename_i hzero
        exact iff_of_true (hnext got data) (.inl hzero)
      · rename_i hpos
        have hsize : 1 ≤ requestSize recvsize missing ∧ requestSize recvsize missing ≤ missing := by
          simp only [requestSize]
          omega
        have hless : missing - requestSize recvsize missing < missing := by omega
        rw [ReceivesWithin]
        constructor
        · rintro ⟨hfits, hrest⟩
          have hdata := (ih _ hless _).mp
            (hrest (List.replicate (requestSize recvsize missing) 0) List.length_replicate)
          right
          omega
        · rintro (hzero | hfits)
          · exact absurd hzero hpos
          · refine ⟨by omega, fun data _ => (ih _ hless _).mpr ?_⟩
            right
            omega

theorem receivesWithin_readData (recvsize : ℕ → ℕ) {next : Bytes → Proc UInt8 A}
    (hnext : ∀ got data, ReceivesWithin room got (next data)) (size : ℤ) :
    ReceivesWithin room 0 (readData recvsize size next) ↔ size ≤ room := by
  rw [readData, receivesWithin_readLoop recvsize hnext]
  omega

/-- The header is refused, no data is wanted, or there is room for what it announces. -/
def RoomFor (req : XchgRequest) (incmd : Bytes) : Prop :=
  (HostFsCmd.decode incmd).magic ≠ hostfsMagic ∧
      (HostFsCmd.decode incmd).command ≠ req.command.code ∨
    req.inlen ≤ 0 ∨ (HostFsCmd.decode incmd).extralen.toInt ≤ req.inlen

theorem receivesWithin_checkResponse (sizes : RecvSizes) :
    ReceivesWithin req.inlen.toNat 0 (checkResponse sizes req incmd) ↔ RoomFor req incmd := by
  rw [checkResponse, RoomFor]
  split
  · rename_i hrefused
    exact iff_of_true trivial (.inl hrefused)
  · rename_i hchecked
    split
    · rename_i hdata
      rw [receivesWithin_readData _ fun got data => by rw [ReceivesWithin]; trivial]
      have hroom : (req.inlen.toNat : ℤ) = req.inlen := Int.toNat_of_nonneg hdata.2.le
      rw [hroom]
      constructor
      · exact fun hfits => .inr (.inr hfits)
      · rintro (hrefused | hnone | hfits)
        · exact absurd hrefused hchecked
        · exact absurd hdata.2 (Int.not_lt.mpr hnone)
        · exact hfits
    · rename_i hnone
      refine iff_of_true trivial ?_
      rcases le_or_gt req.inlen 0 with hempty | hinlen
      · exact .inr (.inl hempty)
      · have hzero : (HostFsCmd.decode incmd).extralen = 0 :=
          Decidable.not_not.mp fun hne => hnone ⟨hne, hinlen⟩
        rw [hzero]
        exact .inr (.inr hinlen.le)

/-- With room for what the header announces, a success stores no more than there is room for. -/
theorem length_indata_le (hroom : RoomFor req incmd) {sizes : RecvSizes} {rest : Bytes}
    {o : Outcome UInt8 XchgResult} (hfeed : (checkResponse sizes req incmd).feed rest = some o)
    (hret : o.result.ret = true) : o.result.indata.length ≤ req.inlen.toNat := by
  rw [checkResponse] at hfeed
  split at hfeed
  · obtain rfl := Option.some.inj hfeed
    cases hret
  · rename_i hchecked
    split at hfeed
    · rename_i hdata
      rw [feed_readData] at hfeed
      split at hfeed
      · rename_i hle
        obtain rfl := Option.some.inj hfeed
        have hfits : (HostFsCmd.decode incmd).extralen.toInt ≤ req.inlen := by
          rcases hroom with hrefused | hnone | hfits
          · exact absurd hrefused hchecked
          · exact absurd hdata.2 (Int.not_lt.mpr hnone)
          · exact hfits
        rw [List.length_take_of_le hle]
        omega
      · cases hfeed
    · obtain rfl := Option.some.inj hfeed
      exact Nat.zero_le _

/-- The data of a response fits the buffer of the caller exactly where nothing is read or the
length that the response gives does not exceed it. -/
theorem response_fits_iff (hlength : incmd.length = req.incmdlen) :
    ResponseFits req incmd ↔ RoomFor req incmd := by
  constructor
  · intro hfits
    exact (receivesWithin_checkResponse ⟨id, id⟩).mp (hfits.stores ⟨id, id⟩)
  · intro hroom
    refine ⟨fun sizes => (receivesWithin_checkResponse sizes).mpr hroom, ?_⟩
    intro sizes rest o hfeed hret
    rw [feed_commandXchg hlength] at hfeed
    obtain ⟨o', hfeed', rfl⟩ := Option.map_eq_some_iff.mp hfeed
    have hle : o'.result.indata.length ≤ req.inlen.toNat := length_indata_le hroom hfeed' hret
    exact hle

/-- A response to a read of two bytes that announces so many. -/
def readResponseOf (n : ℕ) : Bytes :=
  Reply.packet .read ⟨BitVec.ofNat 32 n, le32 (BitVec.ofNat 32 n), []⟩

theorem response_fits_iff_two :
    (readResponseOf 2).length = (readRequest 3 2).incmdlen ∧
      (ResponseFits (readRequest 3 2) (readResponseOf 2) ↔
        RoomFor (readRequest 3 2) (readResponseOf 2)) :=
  ⟨by decide, response_fits_iff (by decide)⟩

/-- Three bytes announced for a buffer of two are stored. -/
theorem response_overflows :
    (readResponseOf 3).length = (readRequest 3 2).incmdlen ∧
      ¬ResponseFits (readRequest 3 2) (readResponseOf 3) := by
  refine ⟨by decide, fun hfits => ?_⟩
  have hroom := (receivesWithin_checkResponse ⟨id, id⟩).mp (hfits.stores ⟨id, id⟩)
  have hdecode : HostFsCmd.decode (readResponseOf 3) =
      ⟨hostfsMagic, HostFsCommand.read.code, 3⟩ := decode_packet ..
  rw [RoomFor, hdecode] at hroom
  revert hroom
  decide

end PsplinkUsb.HostFs.ResponseBounds
