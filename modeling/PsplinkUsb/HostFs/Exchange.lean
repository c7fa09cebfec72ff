import PsplinkUsb.UsbHostfs.CommandXchg
import PsplinkUsb.UsbHostfsPc.Handlers

namespace PsplinkUsb.HostFs.Exchange

open PsplinkUsb.Library.Duplex
open PsplinkUsb.HostFs.Wire
open PsplinkUsb.UsbHostfs.CommandXchg
open PsplinkUsb.UsbHostfsPc.HostPath
open PsplinkUsb.UsbHostfsPc.OsCalls
open PsplinkUsb.UsbHostfsPc.HostFiles
open PsplinkUsb.UsbHostfsPc.Handlers

variable {σ : Type} {os : HostOs σ} {req : XchgRequest} {h h' : Host σ}

theorem toNat_of_toInt_pos {w : Word} (hpos : 0 < w.toInt) : w.toInt.toNat = w.toNat := by
  rw [BitVec.toInt_eq_toNat_cond] at hpos ⊢
  split at hpos <;> omega

def replyPackets (command : HostFsCommand) (r : Reply) : List Bytes :=
  r.packet command :: if r.extralen = 0 then [] else [r.data.take r.extralen.toNat]

/-- The PC serves the request with `answer` and comes to `h'`; `command_xchg` takes the
answer, all of it, as `r`, however its transfers complete. -/
structure Exchanged (os : HostOs σ) (req : XchgRequest) (h : Host σ) (answer : List Bytes)
    (r : XchgResult) (h' : Host σ) : Prop where
  outcmd_length : req.outcmd.length = req.command.cmdSize
  served : (startHostfs os h req.outcmd).feed req.outdata =
    some { sent := answer, result := h', rest := [] }
  endsSending : (startHostfs os h req.outcmd).EndsSending
  received : ∀ sizes, (readResponse sizes req).feed answer.flatten =
    some { sent := [], result := r, rest := [] }
  proper : Proper answer

/-- The data that follows a request has the length its header announces, taken as a
signed number, and fits the buffer of the handler; the answer is one response struct and
exactly the data it announces. -/
structure Framed (req : XchgRequest) (answer : List Bytes) : Prop where
  request : req.outdata.length = req.extralen.toInt.toNat
  fits : req.outdata.length ≤ dataBuffer req.command
  response : ∃ resp data, answer = resp :: data ∧ resp.length = req.incmdlen ∧
    data.flatten.length = (HostFsCmd.decode resp).extralen.toNat

/-- A response the driver can take: the struct has the size it reads, the buffer holds
what is announced, and data is announced only where the driver reads data. -/
structure ReplyOk (req : XchgRequest) (r : Reply) : Prop where
  size : sizeofHostFsCmd + r.fields.length = req.incmdlen
  fits : r.extralen.toNat ≤ r.data.length
  small : r.extralen.toNat < 2 ^ 31
  expected : r.extralen ≠ 0 → 0 < req.inlen

theorem feed_respond (command : HostFsCommand) (r : Reply × Host σ) (input : Bytes) :
    (respond command r).feed input =
      some { sent := replyPackets command r.1, result := r.2, rest := input } := by
  rw [respond, replyPackets]
  split
  · rfl
  · rfl

theorem endsSending_respond (command : HostFsCommand) (r : Reply × Host σ) :
    (respond command r).EndsSending := by
  rw [respond]
  split
  · exact .inl ⟨_, rfl⟩
  · exact .inr (.inl ⟨_, rfl⟩)

/-- The handler takes all of the data, if there is some, and responds. -/
inductive Answers (command : HostFsCommand) :
    Proc UInt8 (Host σ) → Bytes → Reply × Host σ → Prop
  | atOnce (r : Reply × Host σ) : Answers command (respond command r) [] r
  | afterData (action : Bytes → Reply × Host σ) {n : ℕ} {data : Bytes} (hn : data.length = n) :
      Answers command (.recv n fun data => respond command (action data)) data (action data)

variable {command request answer : HostFsCommand} {p : Proc UInt8 (Host σ)} {cmd data : Bytes}
  {reply : Reply × Host σ}

theorem Answers.feed (h : Answers command p data reply) :
    p.feed data = some { sent := replyPackets command reply.1, result := reply.2, rest := [] } := by
  cases h with
  | atOnce => exact feed_respond ..
  | afterData action hn =>
      subst hn
      rw [Proc.feed, if_pos le_rfl, feed_respond, List.take_length, List.drop_length]

theorem Answers.endsSending (h : Answers command p data reply) : p.EndsSending := by
  cases h with
  | atOnce => exact endsSending_respond ..
  | afterData action _ => exact fun data => endsSending_respond command (action data)

theorem answers_handle {action : Bytes → Host σ → Reply × Host σ}
    (hsize : cmd.length = request.cmdSize) :
    Answers answer (handle request answer action h cmd) [] (action cmd h) := by
  rw [handle, if_neg (by simp [hsize])]
  exact .atOnce _

theorem answers_handleData {action : Bytes → Bytes → Host σ → Reply × Host σ}
    (hsize : cmd.length = request.cmdSize) (hpos : 0 < (HostFsCmd.decode cmd).extralen.toInt)
    (hdata : data.length = (HostFsCmd.decode cmd).extralen.toInt.toNat) :
    Answers request (handleData request action h cmd) data (action cmd data h) := by
  have hne : (HostFsCmd.decode cmd).extralen ≠ 0 := by
    intro hzero
    simp [hzero] at hpos
  rw [handleData, if_neg (by simp [hsize]), if_neg hne]
  exact .afterData (fun data => action cmd data h) (hdata.trans (toNat_of_toInt_pos hpos))

theorem answers_handleOptionalData {action : Bytes → Bytes → Host σ → Reply × Host σ}
    (hsize : cmd.length = request.cmdSize)
    (hdata : data.length = (HostFsCmd.decode cmd).extralen.toInt.toNat) :
    Answers request (handleOptionalData request action h cmd) data (action cmd data h) := by
  rw [handleOptionalData, if_neg (by simp [hsize])]
  split
  · rename_i hpos
    exact .afterData (fun data => action cmd data h) (hdata.trans (toNat_of_toInt_pos hpos))
  · rename_i hneg
    obtain rfl : data = [] := List.eq_nil_of_length_eq_zero (by omega)
    exact .atOnce _

theorem decode_outcmd (req : XchgRequest) :
    HostFsCmd.decode req.outcmd = ⟨hostfsMagic, req.command.code, req.extralen⟩ :=
  HostFsCmd.decode_encode ..

theorem startHostfs_outcmd : startHostfs os h req.outcmd = doHostfs os h req.outcmd := by
  have hmagic : field32 req.outcmd 0 = hostfsMagic :=
    congrArg HostFsCmd.magic (decode_outcmd req)
  rw [startHostfs, if_neg (by simp [XchgRequest.outcmd]), if_pos hmagic]

theorem decode_packet (command : HostFsCommand) (r : Reply) :
    HostFsCmd.decode (r.packet command) = ⟨hostfsMagic, command.code, r.extralen⟩ :=
  HostFsCmd.decode_encode ..

theorem replyPackets_proper {r : Reply} (hok : ReplyOk req r) :
    Proper (replyPackets command r) := by
  intro packet hpacket
  rcases List.mem_cons.mp hpacket with rfl | hpacket
  · intro hnil
    have := congrArg List.length hnil
    simp [Reply.packet, sizeofHostFsCmd] at this
  · split at hpacket
    · simp at hpacket
    · rename_i hne
      obtain rfl := List.mem_singleton.mp hpacket
      intro hnil
      have hlength := congrArg List.length hnil
      rw [List.length_take_of_le hok.fits] at hlength
      exact hne (BitVec.eq_of_toNat_eq hlength)

theorem replyPackets_framed {r : Reply} (hok : ReplyOk req r)
    (hdata : req.outdata.length = req.extralen.toInt.toNat)
    (hfits : req.outdata.length ≤ dataBuffer req.command) :
    Framed req (replyPackets command r) where
  request := hdata
  fits := hfits
  response := by
    refine ⟨_, _, rfl, ?_, ?_⟩
    · rw [Reply.packet, List.length_append, HostFsCmd.length_encode, hok.size]
    · rw [decode_packet]
      split
      · rename_i hzero
        simp [hzero]
      · simpa using hok.fits

/-- What `command_xchg` makes of a response. -/
def takenReply (command : HostFsCommand) (r : Reply) : XchgResult where
  ret := true
  incmd := r.packet command
  indata := r.data.take r.extralen.toNat

theorem takenReply_res {r : Reply} {res : Word} (hfields : r.fields = le32 res) :
    (takenReply command r).res = res := by
  have hfield := @field32_le32
    (HostFsCmd.encode ⟨hostfsMagic, command.code, r.extralen⟩) 12 (by simp; rfl) res []
  rw [List.append_nil] at hfield
  rw [XchgResult.res, takenReply, Reply.packet, hfields]
  exact hfield

theorem feed_checkResponse {r : Reply} (hok : ReplyOk req r)
    (sizes : RecvSizes) :
    (checkResponse sizes req (r.packet command)).feed
        (if r.extralen = 0 then [] else r.data.take r.extralen.toNat) =
      some { sent := [], result := takenReply command r, rest := [] } := by
  have hlength : (r.data.take r.extralen.toNat).length = r.extralen.toNat :=
    List.length_take_of_le hok.fits
  have hnat : r.extralen.toInt.toNat = r.extralen.toNat := by
    rw [BitVec.toInt_eq_toNat_of_lt (by have := hok.small; omega)]
    rfl
  rw [checkResponse, decode_packet]
  simp only [ne_eq, not_true_eq_false, false_and, if_false]
  by_cases hzero : r.extralen = 0
  · rw [if_pos hzero, if_neg (by simp [hzero])]
    simp [Proc.feed, takenReply, hzero]
  · rw [if_neg hzero, if_pos ⟨hzero, hok.expected hzero⟩, feed_readData, hnat,
      if_pos hlength.ge, List.take_of_length_le hlength.le, List.drop_eq_nil_of_le hlength.le]
    simp [Proc.feed, takenReply, hlength]

theorem exchanged_of_answers (hlength : req.outcmd.length = req.command.cmdSize)
    (hanswers : Answers command (doHostfs os h req.outcmd) req.outdata reply)
    (hok : ReplyOk req reply.1) :
    Exchanged os req h (replyPackets command reply.1) (takenReply command reply.1) reply.2 where
  outcmd_length := hlength
  served := by rw [startHostfs_outcmd, hanswers.feed]
  endsSending := by
    rw [startHostfs_outcmd]
    exact hanswers.endsSending
  received := by
    intro sizes
    have hpacket : (reply.1.packet command).length = req.incmdlen := by
      rw [Reply.packet, List.length_append, HostFsCmd.length_encode, hok.size]
    have hflatten : (replyPackets command reply.1).flatten =
        reply.1.packet command ++
          if reply.1.extralen = 0 then [] else reply.1.data.take reply.1.extralen.toNat := by
      rw [replyPackets, List.flatten_cons]
      split <;> simp
    rw [readResponse, feed_readData, hflatten, Int.toNat_natCast, ← hpacket,
      if_pos (by simp), List.take_left, List.drop_left]
    exact feed_checkResponse hok sizes
  proper := replyPackets_proper hok

end PsplinkUsb.HostFs.Exchange
