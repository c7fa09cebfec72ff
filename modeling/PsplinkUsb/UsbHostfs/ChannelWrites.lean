import PsplinkUsb.Library.Chunks
import PsplinkUsb.UsbHostfs.BulkRequests

namespace PsplinkUsb.UsbHostfs.ChannelWrites

open PsplinkUsb.Library.Chunks
open PsplinkUsb.Library.Duplex
open PsplinkUsb.HostFs.Wire
open PsplinkUsb.UsbHostfs.AsyncChannel
open PsplinkUsb.UsbHostfs.BulkRequests (BusProg asyncLoop asyncPayload sendAsync)
open PsplinkUsb.UsbHostfs.CommandXchg

def channelWord (c : Channel) : Word := BitVec.ofNat 32 c.val

def asyncCommand (c : Channel) : Bytes := le32 asyncMagic ++ le32 (channelWord c)

def bulkCommand (c : Channel) (len : ℕ) : Bytes :=
  le32 bulkMagic ++ le32 (channelWord c) ++ le32 (BitVec.ofNat 32 len)

/-- What is done between taking `g_mainsema` and signalling it: a `send_async`, the two writes
of `usbWriteBulkData`, or a `command_xchg` with transfers that complete in some sizes. -/
inductive Section where
  | async (chan : Channel) (payload : Bytes)
  | bulk (chan : Channel) (data : Bytes)
  | exchange (req : XchgRequest) (sizes : RecvSizes)

def Section.proc : Section → Proc UInt8 Unit
  | .async chan payload => writeData (asyncCommand chan ++ payload) (.done ())
  | .bulk chan data => writeData (bulkCommand chan data.length) (.send data (.done ()))
  | .exchange req sizes => (commandXchg sizes req).bind fun _ => .done ()

/-- The sections one after the other. -/
def proc : List Section → Proc UInt8 Unit
  | [] => .done ()
  | s :: sections => s.proc.bind fun _ => proc sections

/-- A call that succeeds, of one of the two exported functions or of `command_xchg`. -/
inductive Call where
  | asyncWrite (chan : Channel) (data : Bytes)
  | writeBulkData (chan : Channel) (data : Bytes)
  | command (req : XchgRequest) (sizes : RecvSizes)

def Call.sections : Call → List Section
  | .asyncWrite chan data => (chunks asyncPayload data).map (.async chan)
  | .writeBulkData chan data => [.bulk chan data]
  | .command req sizes => [.exchange req sizes]

/-- What a section has for a channel, as a piece of its own. -/
def Section.piece (d : Channel) : Section → Option Bytes
  | .async chan payload => if d = chan then some payload else none
  | .bulk chan data => if d = chan then some data else none
  | .exchange _ _ => none

/-- The pieces in which the data of a call comes to a channel: the packets of
`usbAsyncWrite`, all the data of `usbWriteBulkData`. -/
def Call.pieces (d : Channel) : Call → List Bytes
  | .asyncWrite chan data => if d = chan then chunks asyncPayload data else []
  | .writeBulkData chan data => if d = chan then [data] else []
  | .command _ _ => []

/-- The data a call has for a channel. -/
def Call.data (d : Channel) : Call → Bytes
  | .asyncWrite chan data => if d = chan then data else []
  | .writeBulkData chan data => if d = chan then data else []
  | .command _ _ => []

/-- The loop of `usbAsyncWrite` goes through the packets, each sent under `g_mainsema`, until
one is not sent. -/
theorem asyncLoop_chunks (c : Channel) (data : Bytes) (next : BusProg) :
    asyncLoop (channelWord c) data next =
      (chunks asyncPayload data).foldr
        (fun payload rest =>
          sendAsync (asyncCommand c ++ payload) fun sent => if sent then rest else next) next := by
  induction hlen : data.length using Nat.strongRecOn generalizing data with
  | _ len ih =>
      rw [asyncLoop]
      split
      · rename_i hnil
        rw [hnil, chunks_nil]
        rfl
      · rename_i hdata
        have hpos := List.length_pos_iff.mpr hdata
        have hshorter : (data.drop asyncPayload).length < len := by
          simp only [List.length_drop, asyncPayload]
          omega
        rw [ih _ hshorter _ rfl, chunks_of_ne_nil (by decide) hdata]
        rfl

theorem filterMap_piece (d : Channel) (call : Call) :
    call.sections.filterMap (Section.piece d) = call.pieces d := by
  cases call with
  | asyncWrite chan data =>
      rw [Call.sections, Call.pieces, List.filterMap_map]
      rcases eq_or_ne d chan with rfl | hne
      · have hpiece : (Section.piece d ∘ Section.async d) = some := by
          funext payload
          exact if_pos rfl
        rw [hpiece, List.filterMap_some, if_pos rfl]
      · have hpiece : (Section.piece d ∘ Section.async chan) = fun _ => none := by
          funext payload
          exact if_neg hne
        rw [hpiece, List.filterMap_none, if_neg hne]
  | writeBulkData chan data =>
      rw [Call.sections, Call.pieces]
      rcases eq_or_ne d chan with rfl | hne
      · simp [Section.piece]
      · simp [Section.piece, hne]
  | command req sizes => rfl

/-- The pieces of a call are its data, cut up. -/
theorem flatten_pieces (d : Channel) (call : Call) : (call.pieces d).flatten = call.data d := by
  cases call with
  | asyncWrite chan data =>
      rw [Call.pieces, Call.data]
      split
      · exact flatten_chunks (by decide) data
      · rfl
  | writeBulkData chan data =>
      rw [Call.pieces, Call.data]
      split
      · exact List.append_nil data
      · rfl
  | command req sizes => rfl

end PsplinkUsb.UsbHostfs.ChannelWrites
