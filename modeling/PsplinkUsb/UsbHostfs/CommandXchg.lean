import PsplinkUsb.HostFs.Wire
import PsplinkUsb.Library.Duplex

/-!
`read_data`, `write_data` and `command_xchg` of `usbhostfs/main.c`, as processes over
a link on which every request completes.
-/

namespace PsplinkUsb.UsbHostfs.CommandXchg

open PsplinkUsb.Library.Duplex
open PsplinkUsb.HostFs.Wire

universe u

variable {A : Type u}

def txBufSize : ℕ := 64 * 1024

/-- The blocks in which `write_data` submits its data. -/
def pieces (data : Bytes) : List Bytes :=
  if data = [] then [] else data.take txBufSize :: pieces (data.drop txBufSize)
termination_by data.length
decreasing_by
  rename_i hdata
  have hpos := List.length_pos_iff.mpr hdata
  simp only [List.length_drop, txBufSize]
  omega

def writeData (data : Bytes) (next : Proc UInt8 A) : Proc UInt8 A := sendAll (pieces data) next

/-- How many bytes a request completes with, given how many are missing: `recvsize`,
kept between 1 and the size of the request. -/
def requestSize (recvsize : ℕ → ℕ) (missing : ℕ) : ℕ :=
  max 1 (min (recvsize missing) (min missing txBufSize))

/-- The loop of `read_data`, with the bytes read so far. -/
def readLoop (recvsize : ℕ → ℕ) (next : Bytes → Proc UInt8 A) (missing : ℕ) (got : Bytes) :
    Proc UInt8 A :=
  if missing = 0 then next got
  else
    .recv (requestSize recvsize missing) fun data =>
      readLoop recvsize next (missing - requestSize recvsize missing) (got ++ data)
termination_by missing
decreasing_by
  simp only [requestSize]
  omega

def readData (recvsize : ℕ → ℕ) (size : ℤ) (next : Bytes → Proc UInt8 A) : Proc UInt8 A :=
  readLoop recvsize next size.toNat []

/-- The arguments of `command_xchg`: the command struct, the `outlen` bytes at
`outdata`, and the sizes of the two buffers for the response. -/
structure XchgRequest where
  command : HostFsCommand
  extralen : Word
  fields : Bytes
  outdata : Bytes
  inlen : ℤ

def XchgRequest.outcmd (req : XchgRequest) : Bytes :=
  HostFsCmd.encode ⟨hostfsMagic, req.command.code, req.extralen⟩ ++ req.fields

def XchgRequest.incmdlen (req : XchgRequest) : ℕ := req.command.respSize

/-- The value of `command_xchg` and what it stored in the buffers. -/
structure XchgResult where
  ret : Bool
  incmd : Bytes
  indata : Bytes

def XchgResult.res (r : XchgResult) : Word := field32 r.incmd 12

/-- The sizes with which the requests of one exchange complete. -/
structure RecvSizes where
  incmd : ℕ → ℕ
  indata : ℕ → ℕ

/-- `command_xchg` from the response struct on. -/
def checkResponse (sizes : RecvSizes) (req : XchgRequest) (incmd : Bytes) :
    Proc UInt8 XchgResult :=
  let resp := HostFsCmd.decode incmd
  if resp.magic ≠ hostfsMagic ∧ resp.command ≠ req.command.code then
    .done { ret := false, incmd := incmd, indata := [] }
  else if resp.extralen ≠ 0 ∧ 0 < req.inlen then
    readData sizes.indata resp.extralen.toInt fun indata =>
      .done
        { ret := BitVec.ofNat 32 indata.length = resp.extralen
          incmd := incmd, indata := indata }
  else .done { ret := true, incmd := incmd, indata := [] }

/-- The part of `command_xchg` that receives. -/
def readResponse (sizes : RecvSizes) (req : XchgRequest) : Proc UInt8 XchgResult :=
  readData sizes.incmd req.incmdlen (checkResponse sizes req)

def commandXchg (sizes : RecvSizes) (req : XchgRequest) : Proc UInt8 XchgResult :=
  writeData req.outcmd (writeData req.outdata (readResponse sizes req))

theorem pieces_nil : pieces [] = [] := by
  rw [pieces, if_pos rfl]

theorem pieces_flatten (data : Bytes) : (pieces data).flatten = data := by
  induction data using pieces.induct with
  | case1 => rw [pieces_nil, List.flatten_nil]
  | case2 data hdata ih => rw [pieces, if_neg hdata, List.flatten_cons, ih, List.take_append_drop]

theorem pieces_proper (data : Bytes) : Proper (pieces data) := by
  induction data using pieces.induct with
  | case1 =>
      rw [pieces_nil]
      simp [Proper]
  | case2 data hdata ih =>
      intro piece hpiece
      rw [pieces, if_neg hdata] at hpiece
      rcases List.mem_cons.mp hpiece with rfl | hpiece
      · simp [hdata, txBufSize]
      · exact ih piece hpiece

theorem pieces_of_le {data : Bytes} (hne : data ≠ []) (hle : data.length ≤ txBufSize) :
    pieces data = [data] := by
  rw [pieces, if_neg hne, List.take_of_length_le hle, List.drop_eq_nil_of_le hle, pieces_nil]

theorem commandXchg_eq (sizes : RecvSizes) {req : XchgRequest}
    (hle : req.outcmd.length ≤ txBufSize) :
    commandXchg sizes req =
      sendAll (req.outcmd :: pieces req.outdata) (readResponse sizes req) := by
  have hne : req.outcmd ≠ [] := by
    intro hnil
    have := congrArg List.length hnil
    simp [XchgRequest.outcmd, sizeofHostFsCmd] at this
  rw [commandXchg, writeData, pieces_of_le hne hle]
  rfl

theorem feed_readLoop (recvsize : ℕ → ℕ) (next : Bytes → Proc UInt8 A) (missing : ℕ)
    (got input : Bytes) :
    (readLoop recvsize next missing got).feed input =
      if missing ≤ input.length then
        (next (got ++ input.take missing)).feed (input.drop missing)
      else none := by
  induction missing using Nat.strongRecOn generalizing got input with
  | _ missing ih =>
      rw [readLoop]
      split
      · rename_i hzero
        simp [hzero]
      · rename_i hpos
        have hsize : requestSize recvsize missing ≤ missing := by
          simp only [requestSize]
          omega
        have hless : missing - requestSize recvsize missing < missing := by
          simp only [requestSize]
          omega
        rw [Proc.feed, ih _ hless]
        by_cases hle : missing ≤ input.length
        · rw [if_pos (hsize.trans hle), if_pos (by simp only [List.length_drop]; omega),
            if_pos hle, List.drop_drop, List.append_assoc, ← List.take_add,
            Nat.add_sub_cancel' hsize]
        · rw [if_neg hle]
          split
          · rw [if_neg (by simp only [List.length_drop]; omega)]
          · rfl

theorem feed_readData (recvsize : ℕ → ℕ) (size : ℤ) (next : Bytes → Proc UInt8 A)
    (input : Bytes) :
    (readData recvsize size next).feed input =
      if size.toNat ≤ input.length then
        (next (input.take size.toNat)).feed (input.drop size.toNat)
      else none :=
  feed_readLoop recvsize next size.toNat [] input

end PsplinkUsb.UsbHostfs.CommandXchg
