import PsplinkUsb.HostFs.Exchange

namespace PsplinkUsb.HostFs.Answers

open PsplinkUsb.Library.Duplex
open PsplinkUsb.HostFs.Wire
open PsplinkUsb.HostFs.Exchange
open PsplinkUsb.UsbHostfs.CommandXchg
open PsplinkUsb.UsbHostfsPc.HostPath
open PsplinkUsb.UsbHostfsPc.OsCalls
open PsplinkUsb.UsbHostfsPc.HostFiles
open PsplinkUsb.UsbHostfsPc.Handlers

variable {σ : Type} {os : HostOs σ} {req : XchgRequest}

/-- What the handler of the command relies on: data where it insists on some, none
where it receives none, and a buffer where it answers with data. -/
def Expected (req : XchgRequest) : Prop :=
  match req.command with
  | .hello | .bye => False
  | .open | .write | .dopen | .remove | .rmdir | .mkdir | .chstat | .rename | .chdir =>
      0 < req.extralen.toInt
  | .getstat => 0 < req.extralen.toInt ∧ 0 < req.inlen
  | .close | .lseek | .dclose => req.outdata = []
  | .dread => req.outdata = [] ∧ 0 < req.inlen
  | .read => req.outdata = [] ∧ 0 < req.inlen ∧ 0 < (field32 req.outcmd 16).toInt
  | .ioctl => True
  | .devctl => field32 req.outcmd 12 = devctlGetInfo → 0 < req.inlen

/-- A request as the functions of `host_driver.c` build it. -/
structure Sendable (req : XchgRequest) : Prop where
  outcmd_length : req.outcmd.length = req.command.cmdSize
  outdata_length : req.outdata.length = req.extralen.toInt.toNat
  fits : req.outdata.length ≤ dataBuffer req.command
  expected : Expected req

theorem replyOk_res (hsize : req.command.respSize = 16) (res : Word) :
    ReplyOk req (.res res) where
  size := by simp [Reply.res, XchgRequest.incmdlen, hsize, sizeofHostFsCmd]
  fits := by simp [Reply.res]
  small := by simp [Reply.res]
  expected := by simp [Reply.res]

theorem replyOk_of_res (hsize : req.command.respSize = 16) {r : Reply}
    (hr : ∃ res, r = .res res) : ReplyOk req r := by
  obtain ⟨res, rfl⟩ := hr
  exact replyOk_res hsize res

theorem replyOk_lseek (hcommand : req.command = .lseek) {r : Reply}
    (hr : ∃ res ofs, r = { extralen := 0, fields := le32 res ++ le64 ofs, data := [] }) :
    ReplyOk req r := by
  obtain ⟨res, ofs, rfl⟩ := hr
  exact
    { size := by
        simp [XchgRequest.incmdlen, hcommand, HostFsCommand.respSize, sizeofHostFsCmd]
      fits := by simp
      small := by simp
      expected := by simp }

theorem replyOk_data (hsize : req.command.respSize = 16) (hinlen : 0 < req.inlen) {res : Word}
    {data : Bytes} {n : ℕ} (hdata : data.length = n) (hn : n < 2 ^ 31) :
    ReplyOk req { extralen := BitVec.ofNat 32 n, fields := le32 res, data := data } where
  size := by simp [XchgRequest.incmdlen, hsize, sizeofHostFsCmd]
  fits := by
    rw [BitVec.toNat_ofNat, hdata]
    exact Nat.mod_le ..
  small := by
    rw [BitVec.toNat_ofNat]
    omega
  expected := fun _ => hinlen

theorem onPath_reply (call : Path → σ → Except Errno Unit × σ) (fsnum : Word) (data : Bytes)
    (h : Host σ) : ∃ res, (onPath os call fsnum data h).1 = .res res := by
  rw [onPath]
  split
  · exact ⟨_, rfl⟩
  · exact ⟨_, rfl⟩

theorem writeFile_reply (cmd data : Bytes) (h : Host σ) :
    ∃ res, (writeFile os cmd data h).1 = .res res := by
  rw [writeFile]
  split
  · exact ⟨_, rfl⟩
  · split
    · exact ⟨_, rfl⟩
    · exact ⟨_, rfl⟩

theorem answers_handleRead {cmd : Bytes} (hsize : cmd.length = HostFsCommand.read.cmdSize)
    (hpos : 0 < (field32 cmd 16).toInt) (h : Host σ) :
    Answers .read (handleRead os h cmd) [] (readFile os cmd h) := by
  rw [handleRead, if_neg (by simp [hsize]), if_neg (Int.not_le.mpr hpos)]
  exact .atOnce _

theorem readFile_replyOk (hsize : req.command.respSize = 16) (hinlen : 0 < req.inlen)
    {cmd : Bytes} (hpos : 0 < (field32 cmd 16).toInt) (h : Host σ) :
    ReplyOk req (readFile os cmd h).1 := by
  rw [readFile]
  split
  · exact replyOk_res hsize _
  · rename_i fid _
    split
    · have hlen : (field32 cmd 16).toNat < 2 ^ 31 := by
        rw [BitVec.toInt_eq_toNat_cond] at hpos
        split at hpos <;> omega
      rcases @fixedRead_result σ os fid (field32 cmd 16).toNat [] h.os with hneg | ⟨hres, hle⟩
      · simp only [if_neg (Int.not_le.mpr hneg)]
        exact
          { size := by simp [XchgRequest.incmdlen, hsize, sizeofHostFsCmd]
            fits := by simp
            small := by simp
            expected := by simp }
      · simp only [List.length_nil, Nat.zero_add] at hle
        have hsmall := hle.trans_lt hlen
        have hnonneg : 0 ≤ (fixedRead os fid (field32 cmd 16).toNat [] h.os).1.toInt := by
          rw [hres, BitVec.toInt_eq_toNat_of_lt (by rw [BitVec.toNat_ofNat]; omega)]
          exact Int.natCast_nonneg _
        simp only [if_pos hnonneg]
        rw [hres]
        exact replyOk_data hsize hinlen rfl hsmall
    · exact replyOk_res hsize _

theorem readDir_replyOk (hsize : req.command.respSize = 16) (hinlen : 0 < req.inlen)
    (cmd : Bytes) (h : Host σ) : ReplyOk req (readDir cmd h).1 := by
  rw [readDir]
  split
  · exact replyOk_res hsize _
  · dsimp only
    split
    · split
      · refine replyOk_data hsize hinlen ?_ (by decide)
        rw [List.getElem?_map]
        cases (h.openDirs _).pDir[(h.openDirs _).pos]? with
        | none => exact List.length_replicate
        | some d => exact SceIoDirent.length_encode d
      · exact replyOk_res hsize _
    · exact replyOk_res hsize _

theorem doHostfs_outcmd (h : Host σ) :
    doHostfs os h req.outcmd =
      match req.command with
      | .hello => handleHello h
      | .open => handleOpen os h req.outcmd
      | .close => handleClose os h req.outcmd
      | .write => handleWrite os h req.outcmd
      | .read => handleRead os h req.outcmd
      | .lseek => handleLseek os h req.outcmd
      | .dopen => handleDopen os h req.outcmd
      | .dclose => handleDclose h req.outcmd
      | .dread => handleDread h req.outcmd
      | .remove => handleRemove os h req.outcmd
      | .rmdir => handleRmdir os h req.outcmd
      | .mkdir => handleMkdir os h req.outcmd
      | .chdir => handleChdir h req.outcmd
      | .rename => handleRename os h req.outcmd
      | .getstat => handleGetstat os h req.outcmd
      | .chstat => handleChstat os h req.outcmd
      | .ioctl => handleIoctl h req.outcmd
      | .devctl => handleDevctl os h req.outcmd
      | .bye => .done h := by
  rw [doHostfs, decode_outcmd, HostFsCommand.ofCode_code]
  cases req.command <;> rfl

/-- The PC takes the request and answers with a response the driver can take. -/
def Answered (os : HostOs σ) (req : XchgRequest) (h : Host σ) : Prop :=
  ∃ command reply, Answers command (doHostfs os h req.outcmd) req.outdata reply ∧
    ReplyOk req reply.1

section

variable {request answer : HostFsCommand} {h : Host σ}

theorem answered_handle {action : Bytes → Host σ → Reply × Host σ}
    (hserve : doHostfs os h req.outcmd = handle request answer action h req.outcmd)
    (hsize : req.outcmd.length = request.cmdSize) (hdata : req.outdata = [])
    (hok : ReplyOk req (action req.outcmd h).1) : Answered os req h := by
  refine ⟨answer, _, ?_, hok⟩
  rw [hserve, hdata]
  exact answers_handle hsize

theorem answered_handleData {action : Bytes → Bytes → Host σ → Reply × Host σ}
    (hserve : doHostfs os h req.outcmd = handleData request action h req.outcmd)
    (hsize : req.outcmd.length = request.cmdSize) (hpos : 0 < req.extralen.toInt)
    (hdata : req.outdata.length = req.extralen.toInt.toNat)
    (hok : ReplyOk req (action req.outcmd req.outdata h).1) : Answered os req h := by
  refine ⟨request, _, ?_, hok⟩
  rw [hserve]
  exact answers_handleData hsize (by rwa [decode_outcmd]) (by rwa [decode_outcmd])

theorem answered_handleOptionalData {action : Bytes → Bytes → Host σ → Reply × Host σ}
    (hserve : doHostfs os h req.outcmd = handleOptionalData request action h req.outcmd)
    (hsize : req.outcmd.length = request.cmdSize)
    (hdata : req.outdata.length = req.extralen.toInt.toNat)
    (hok : ReplyOk req (action req.outcmd req.outdata h).1) : Answered os req h := by
  refine ⟨request, _, ?_, hok⟩
  rw [hserve]
  exact answers_handleOptionalData hsize (by rwa [decode_outcmd])

end

/-- Whatever the state of the PC and the operating system, a request the driver builds
is answered. -/
theorem answered_of_sendable (hreq : Sendable req) (h : Host σ) : Answered os req h := by
  obtain ⟨hsize, hdata, -, hexpected⟩ := hreq
  have hserve := @doHostfs_outcmd σ os req h
  obtain ⟨command, extralen, fields, outdata, inlen⟩ := req
  cases command with
  | hello => exact hexpected.elim
  | bye => exact hexpected.elim
  | «open» =>
      exact answered_handleData hserve hsize hexpected hdata (replyOk_res rfl _)
  | dopen =>
      exact answered_handleData hserve hsize hexpected hdata (replyOk_res rfl _)
  | write =>
      refine answered_handleData hserve hsize hexpected hdata ?_
      exact replyOk_of_res rfl (writeFile_reply ..)
  | read =>
      obtain ⟨hnil, hinlen, hpos⟩ := hexpected
      refine ⟨.read, readFile os _ h, ?_, readFile_replyOk rfl hinlen hpos h⟩
      rw [hserve, hnil]
      exact answers_handleRead hsize hpos h
  | close =>
      refine answered_handle hserve hsize hexpected (replyOk_of_res rfl ?_)
      dsimp only
      split
      · exact ⟨_, rfl⟩
      · split <;> exact ⟨_, rfl⟩
  | dclose =>
      exact answered_handle hserve hsize hexpected (replyOk_res rfl _)
  | dread =>
      exact answered_handle hserve hsize hexpected.1 (readDir_replyOk rfl hexpected.2 ..)
  | lseek =>
      refine answered_handle hserve hsize hexpected (replyOk_lseek rfl ?_)
      dsimp only
      split
      · exact ⟨_, _, rfl⟩
      · split <;> exact ⟨_, _, rfl⟩
  | remove =>
      refine answered_handleData hserve hsize hexpected hdata ?_
      exact replyOk_of_res rfl (onPath_reply ..)
  | rmdir =>
      refine answered_handleData hserve hsize hexpected hdata ?_
      exact replyOk_of_res rfl (onPath_reply ..)
  | mkdir =>
      refine answered_handleData hserve hsize hexpected hdata ?_
      exact replyOk_of_res rfl (onPath_reply ..)
  | getstat =>
      refine answered_handleData hserve hsize hexpected.1 hdata ?_
      dsimp only
      split
      · exact replyOk_res rfl _
      · split
        · exact replyOk_res rfl _
        · exact replyOk_data rfl hexpected.2 (SceIoStat.length_encode _) (by decide)
  | chstat =>
      refine answered_handleData hserve hsize hexpected hdata (replyOk_of_res rfl ?_)
      dsimp only
      split <;> exact ⟨_, rfl⟩
  | rename =>
      refine answered_handleData hserve hsize hexpected hdata (replyOk_of_res rfl ?_)
      dsimp only
      split <;> exact ⟨_, rfl⟩
  | chdir =>
      refine answered_handleData hserve hsize hexpected hdata (replyOk_of_res rfl ?_)
      dsimp only
      split <;> exact ⟨_, rfl⟩
  | ioctl =>
      exact answered_handleOptionalData hserve hsize hdata (replyOk_res rfl _)
  | devctl =>
      refine answered_handleOptionalData hserve hsize hdata ?_
      split
      · rename_i hinfo
        split
        · exact replyOk_res rfl _
        · rename_i info heq
          exact replyOk_data rfl (hexpected hinfo) (length_getDriveInfo os heq) (by decide)
      · exact replyOk_res rfl _

end PsplinkUsb.HostFs.Answers
