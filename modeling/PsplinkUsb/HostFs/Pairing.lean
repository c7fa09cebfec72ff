import PsplinkUsb.HostFs.Exchange
import PsplinkUsb.UsbHostfsPc.PlainFile

namespace PsplinkUsb.HostFs.Pairing

open PsplinkUsb.Library.Duplex
open PsplinkUsb.HostFs.Wire
open PsplinkUsb.HostFs.Exchange
open PsplinkUsb.UsbHostfs.CommandXchg
open PsplinkUsb.UsbHostfsPc.OsCalls
open PsplinkUsb.UsbHostfsPc.HostFiles
open PsplinkUsb.UsbHostfsPc.Handlers
open PsplinkUsb.UsbHostfsPc.PlainFile

variable {σ : Type} {os : HostOs σ} {h : Host σ} {cmd : Bytes}

/-- The response struct, if the process sends one, carries the command. -/
def RespondsAs (command : HostFsCommand) (p : Proc UInt8 (Host σ)) : Prop :=
  ∀ input packet, p.firstSent input = some packet → ∃ r : Reply, packet = r.packet command

theorem respondsAs_done {command : HostFsCommand} : RespondsAs command (.done h) := by
  rintro input packet hsent
  simp [Proc.firstSent] at hsent

theorem respondsAs_respond {command : HostFsCommand} {r : Reply × Host σ} :
    RespondsAs command (respond command r) := by
  rintro input packet hsent
  exact ⟨r.1, (Option.some.inj hsent).symm⟩

theorem respondsAs_recv {command : HostFsCommand} {n : ℕ} {next : Bytes → Proc UInt8 (Host σ)}
    (hnext : ∀ data, RespondsAs command (next data)) : RespondsAs command (.recv n next) := by
  rintro input packet hsent
  rw [Proc.firstSent] at hsent
  split at hsent
  · exact hnext _ _ packet hsent
  · simp at hsent

theorem respondsAs_handle {request answer : HostFsCommand}
    {action : Bytes → Host σ → Reply × Host σ} :
    RespondsAs answer (handle request answer action h cmd) := by
  rw [handle]
  split
  · exact respondsAs_done
  · exact respondsAs_respond

theorem respondsAs_handleData {request : HostFsCommand}
    {action : Bytes → Bytes → Host σ → Reply × Host σ} :
    RespondsAs request (handleData request action h cmd) := by
  rw [handleData]
  split
  · exact respondsAs_done
  · split
    · exact respondsAs_done
    · exact respondsAs_recv fun _ => respondsAs_respond

theorem respondsAs_handleOptionalData {request : HostFsCommand}
    {action : Bytes → Bytes → Host σ → Reply × Host σ} :
    RespondsAs request (handleOptionalData request action h cmd) := by
  rw [handleOptionalData]
  split
  · exact respondsAs_done
  · split
    · exact respondsAs_recv fun _ => respondsAs_respond
    · exact respondsAs_respond

theorem respondsAs_handleRead : RespondsAs .read (handleRead os h cmd) := by
  rw [handleRead]
  split
  · exact respondsAs_done
  · split
    · exact respondsAs_done
    · exact respondsAs_respond

def answerCommand (command : HostFsCommand) : HostFsCommand :=
  if command = .dread then .read else command

theorem respondsAs_doHostfs {command : HostFsCommand}
    (hcommand : HostFsCommand.ofCode (HostFsCmd.decode cmd).command = some command) :
    RespondsAs (answerCommand command) (doHostfs os h cmd) := by
  rw [doHostfs, hcommand]
  cases command with
  | hello => exact respondsAs_respond
  | bye => exact respondsAs_done
  | read => exact respondsAs_handleRead
  | close | lseek | dclose | dread => exact respondsAs_handle
  | ioctl | devctl => exact respondsAs_handleOptionalData
  | «open» | write | dopen | remove | rmdir | mkdir | chdir | rename | getstat | chstat =>
      exact respondsAs_handleData

/-- Every response of the PC to the request struct carries the magic and the command of
the request. -/
def AnswerPaired (os : HostOs σ) (h : Host σ) (cmd : Bytes) : Prop :=
  ∀ input packet, (doHostfs os h cmd).firstSent input = some packet →
    (HostFsCmd.decode packet).magic = hostfsMagic ∧
      (HostFsCmd.decode packet).command = (HostFsCmd.decode cmd).command

theorem answerPaired_iff (os : HostOs σ) (h : Host σ) (cmd : Bytes) :
    AnswerPaired os h cmd ↔
      ¬ ((HostFsCmd.decode cmd).command = HostFsCommand.dread.code ∧
        cmd.length = HostFsCommand.dread.cmdSize) := by
  constructor
  · rintro hpaired ⟨hcommand, hsize⟩
    have hserve : doHostfs os h cmd = respond .read (readDir cmd h) := by
      rw [doHostfs, hcommand, HostFsCommand.ofCode_code]
      simp only [handleDread, handle, hsize, ne_eq, not_true_eq_false, if_false]
    obtain ⟨-, hread⟩ := hpaired [] ((readDir cmd h).1.packet .read) (by rw [hserve]; rfl)
    rw [decode_packet, hcommand] at hread
    have hcodes : HostFsCommand.read.code = HostFsCommand.dread.code := hread
    exact absurd hcodes (by decide)
  · intro hcond input packet hsent
    cases hcommand : HostFsCommand.ofCode (HostFsCmd.decode cmd).command with
    | none => simp [doHostfs, hcommand, Proc.firstSent] at hsent
    | some command =>
        obtain ⟨r, rfl⟩ := @respondsAs_doHostfs σ os h cmd command hcommand input packet hsent
        have hcode := HostFsCommand.code_of_ofCode hcommand
        rw [decode_packet]
        refine ⟨rfl, ?_⟩
        have hne : command ≠ .dread := by
          rintro rfl
          refine hcond ⟨hcode.symm, ?_⟩
          by_contra hsize
          simp [doHostfs, hcommand, handleDread, handle, hsize, Proc.firstSent] at hsent
        simp only [answerCommand, if_neg hne, hcode]

/-- With this response struct `command_xchg` succeeds only if the struct has the magic and
the command that was sent. -/
def ResponseChecked (req : XchgRequest) (incmd : Bytes) : Prop :=
  ∀ sizes rest o, (commandXchg sizes req).feed (incmd ++ rest) = some o → o.result.ret = true →
    (HostFsCmd.decode incmd).magic = hostfsMagic ∧
      (HostFsCmd.decode incmd).command = req.command.code

section

variable {req : XchgRequest} {incmd : Bytes}

theorem feed_commandXchg (hlength : incmd.length = req.incmdlen) (sizes : RecvSizes)
    (rest : Bytes) :
    (commandXchg sizes req).feed (incmd ++ rest) =
      ((checkResponse sizes req incmd).feed rest).map fun o =>
        { o with sent := pieces req.outcmd ++ (pieces req.outdata ++ o.sent) } := by
  rw [commandXchg, writeData, writeData, feed_sendAll, feed_sendAll, readResponse, feed_readData,
    Int.toNat_natCast, ← hlength, if_pos (by simp), List.take_left, List.drop_left,
    Option.map_map]
  rfl

/-- The response struct is refused: magic and command are both wrong, or the length it
announces is negative where data is expected. -/
def Refused (req : XchgRequest) (incmd : Bytes) : Prop :=
  (HostFsCmd.decode incmd).magic ≠ hostfsMagic ∧
      (HostFsCmd.decode incmd).command ≠ req.command.code ∨
    0 < req.inlen ∧ (HostFsCmd.decode incmd).extralen.toInt < 0

theorem not_ret_of_refused (hrefused : Refused req incmd) {sizes : RecvSizes} {rest : Bytes}
    {o : Outcome UInt8 XchgResult} (hfeed : (checkResponse sizes req incmd).feed rest = some o) :
    o.result.ret = false := by
  rw [checkResponse] at hfeed
  split at hfeed
  · obtain rfl := Option.some.inj hfeed
    rfl
  · rename_i hcheck
    obtain ⟨hinlen, hneg⟩ := hrefused.resolve_left hcheck
    have hne : (HostFsCmd.decode incmd).extralen ≠ 0 := by
      intro hzero
      simp [hzero] at hneg
    rw [if_pos ⟨hne, hinlen⟩, feed_readData, Int.toNat_of_nonpos hneg.le,
      if_pos (Nat.zero_le _)] at hfeed
    obtain rfl := Option.some.inj hfeed
    exact decide_eq_false hne.symm

theorem ret_of_not_refused (hnot : ¬ Refused req incmd) (sizes : RecvSizes) :
    ∃ rest o, (checkResponse sizes req incmd).feed rest = some o ∧ o.result.ret = true := by
  rw [Refused, not_or] at hnot
  obtain ⟨hcheck, hlen⟩ := hnot
  rw [checkResponse, if_neg hcheck]
  split
  · rename_i hdata
    have hnat : (HostFsCmd.decode incmd).extralen.toInt.toNat =
        (HostFsCmd.decode incmd).extralen.toNat := by
      apply toNat_of_toInt_pos
      have hne : (HostFsCmd.decode incmd).extralen.toInt ≠ 0 :=
        fun hzero => hdata.1 (BitVec.eq_of_toInt_eq hzero)
      have hnonneg : ¬ (HostFsCmd.decode incmd).extralen.toInt < 0 :=
        fun hneg => hlen ⟨hdata.2, hneg⟩
      omega
    refine ⟨List.replicate (HostFsCmd.decode incmd).extralen.toInt.toNat 0, ?_⟩
    rw [feed_readData, if_pos (by simp)]
    refine ⟨_, rfl, ?_⟩
    simp [hnat]
  · exact ⟨[], _, rfl, rfl⟩

/-- `command_xchg` checks magic and command together: one of them may be wrong. -/
theorem responseChecked_iff (hlength : incmd.length = req.incmdlen) :
    ResponseChecked req incmd ↔
      ((HostFsCmd.decode incmd).magic = hostfsMagic ↔
        (HostFsCmd.decode incmd).command = req.command.code) ∨
      0 < req.inlen ∧ (HostFsCmd.decode incmd).extralen.toInt < 0 := by
  have hchecked : ResponseChecked req incmd ↔ Refused req incmd ∨
      (HostFsCmd.decode incmd).magic = hostfsMagic ∧
        (HostFsCmd.decode incmd).command = req.command.code := by
    constructor
    · intro hchecked
      refine or_iff_not_imp_left.mpr fun hnot => ?_
      obtain ⟨rest, o, hfeed, hret⟩ := ret_of_not_refused hnot ⟨id, id⟩
      let taken : Outcome UInt8 XchgResult :=
        { o with sent := pieces req.outcmd ++ (pieces req.outdata ++ o.sent) }
      refine hchecked ⟨id, id⟩ rest taken ?_ hret
      rw [feed_commandXchg hlength, hfeed]
      rfl
    · rintro (hrefused | hmatch) sizes rest o hfeed hret
      · rw [feed_commandXchg hlength] at hfeed
        obtain ⟨o', hfeed', rfl⟩ := Option.map_eq_some_iff.mp hfeed
        simp [not_ret_of_refused hrefused hfeed'] at hret
      · exact hmatch
  rw [hchecked, Refused]
  tauto

/-- The PC pairs the response with the request except for well-formed `HOSTFS_CMD_DREAD`
requests; the driver succeeds only with a paired response except where exactly one of
magic and command is wrong and data can follow. -/
theorem pairing_iff (os : HostOs σ) (h : Host σ) (cmd : Bytes)
    (hlength : incmd.length = req.incmdlen) :
    (AnswerPaired os h cmd ↔
      ¬ ((HostFsCmd.decode cmd).command = HostFsCommand.dread.code ∧
        cmd.length = HostFsCommand.dread.cmdSize)) ∧
    (ResponseChecked req incmd ↔
      ((HostFsCmd.decode incmd).magic = hostfsMagic ↔
        (HostFsCmd.decode incmd).command = req.command.code) ∨
      0 < req.inlen ∧ (HostFsCmd.decode incmd).extralen.toInt < 0) :=
  ⟨answerPaired_iff os h cmd, responseChecked_iff hlength⟩

end

def dreadRequest : XchgRequest where
  command := .dread
  extralen := 0
  fields := le32 3
  outdata := []
  inlen := 352

/-- The response to it when no directory is open. -/
def dreadResponse : Bytes := (Reply.res (-1)).packet .read

theorem pairing_iff_dread :
    (AnswerPaired fileOs (oneFile [] []) dreadRequest.outcmd ↔
      ¬ ((HostFsCmd.decode dreadRequest.outcmd).command = HostFsCommand.dread.code ∧
        dreadRequest.outcmd.length = HostFsCommand.dread.cmdSize)) ∧
    (ResponseChecked dreadRequest dreadResponse ↔
      ((HostFsCmd.decode dreadResponse).magic = hostfsMagic ↔
        (HostFsCmd.decode dreadResponse).command = dreadRequest.command.code) ∨
      0 < dreadRequest.inlen ∧ (HostFsCmd.decode dreadResponse).extralen.toInt < 0) :=
  pairing_iff fileOs (oneFile [] []) dreadRequest.outcmd (by decide)

/-- The PC answers `HOSTFS_CMD_DREAD` with the command of a read, and `command_xchg`
takes that for success. -/
theorem dread_answered_as_read :
    ¬ AnswerPaired fileOs (oneFile [] []) dreadRequest.outcmd ∧
      ¬ ResponseChecked dreadRequest dreadResponse := by
  have hanswer : HostFsCmd.decode dreadResponse = ⟨hostfsMagic, HostFsCommand.read.code, 0⟩ :=
    decode_packet ..
  rw [answerPaired_iff, responseChecked_iff (by decide), decode_outcmd, hanswer]
  exact ⟨by decide, by decide⟩

end PsplinkUsb.HostFs.Pairing
