import PsplinkUsb.Library.Duplex
import PsplinkUsb.UsbHostfsPc.HostFiles

/-!
The request handlers of `usbhostfs_pc`, as processes: each takes the request struct
that `do_hostfs` was called with, receives the data that follows it and sends the
response.
-/

namespace PsplinkUsb.UsbHostfsPc.Handlers

open PsplinkUsb.Library.Duplex
open PsplinkUsb.HostFs.Wire
open PsplinkUsb.UsbHostfsPc.HostPath
open PsplinkUsb.UsbHostfsPc.OsCalls
open PsplinkUsb.UsbHostfsPc.HostFiles

/-- A response: the `extralen` of its header, the fields after the header, and the
buffer from which the data that follows is sent. -/
structure Reply where
  extralen : Word
  fields : Bytes
  data : Bytes

def Reply.res (res : Word) : Reply := { extralen := 0, fields := le32 res, data := [] }

def Reply.packet (command : HostFsCommand) (r : Reply) : Bytes :=
  HostFsCmd.encode ⟨hostfsMagic, command.code, r.extralen⟩ ++ r.fields

variable {σ : Type}

/-- The end of every handler: send the response and, if `extralen` is not zero, that
much of the buffer. -/
def respond (command : HostFsCommand) (r : Reply × Host σ) : Proc UInt8 (Host σ) :=
  .send (r.1.packet command)
    (if r.1.extralen = 0 then .done r.2
    else .send (r.1.data.take r.1.extralen.toNat) (.done r.2))

/-- A handler without request data, answering as `answer`. A struct of the wrong size
is given no response. -/
def handle (request answer : HostFsCommand) (action : Bytes → Host σ → Reply × Host σ)
    (h : Host σ) (cmd : Bytes) : Proc UInt8 (Host σ) :=
  if cmd.length ≠ request.cmdSize then .done h else respond answer (action cmd h)

/-- A handler that insists on request data. -/
def handleData (request : HostFsCommand) (action : Bytes → Bytes → Host σ → Reply × Host σ)
    (h : Host σ) (cmd : Bytes) : Proc UInt8 (Host σ) :=
  if cmd.length ≠ request.cmdSize then .done h
  else if (HostFsCmd.decode cmd).extralen = 0 then .done h
  else
    .recv (HostFsCmd.decode cmd).extralen.toNat fun data =>
      respond request (action cmd data h)

/-- A handler that receives request data if there is some, the length taken as a
signed number. -/
def handleOptionalData (request : HostFsCommand)
    (action : Bytes → Bytes → Host σ → Reply × Host σ) (h : Host σ) (cmd : Bytes) :
    Proc UInt8 (Host σ) :=
  if cmd.length ≠ request.cmdSize then .done h
  else if 0 < (HostFsCmd.decode cmd).extralen.toInt then
    .recv (HostFsCmd.decode cmd).extralen.toNat fun data =>
      respond request (action cmd data h)
  else respond request (action cmd [] h)

/-- The size of the buffer into which the handler of a command receives data. -/
def dataBuffer : HostFsCommand → ℕ
  | .open | .dopen | .remove | .rmdir | .mkdir | .getstat | .chstat | .rename | .chdir =>
      hostfsPathmax
  | .write => hostfsMaxBlock
  | .ioctl | .devctl => 64 * 1024
  | .hello | .bye | .close | .read | .lseek | .dread | .dclose => 0

def cString (data : Bytes) : Path := data.takeWhile fun c => c ≠ 0

def resOf (result : Except Errno Unit) : Word :=
  match result with
  | .ok _ => 0
  | .error e => getError e

/-- Carry out a call of the operating system; its result is the response. -/
def callOs (call : σ → Except Errno Unit × σ) (h : Host σ) : Reply × Host σ :=
  let (result, s) := call h.os
  (.res (resOf result), { h with os := s })

variable (os : HostOs σ)

/-- The common part of `handle_remove`, `handle_rmdir` and `handle_mkdir`: a call on
the path a request names. -/
def onPath (call : Path → σ → Except Errno Unit × σ) (fsnum : Word) (data : Bytes) (h : Host σ) :
    Reply × Host σ :=
  match makePath (h.pathEnv os) fsnum (cString data) false with
  | none => (.res (-1), h)
  | some fullpath => callOs (call fullpath) h

def handleHello (h : Host σ) : Proc UInt8 (Host σ) :=
  respond .hello ({ extralen := 0, fields := [], data := [] }, h)

def handleOpen : Host σ → Bytes → Proc UInt8 (Host σ) :=
  handleData .open fun cmd data h =>
    let (res, h) := openFile os (field32 cmd 20) (cString data) (field32 cmd 12) (field32 cmd 16) h
    (.res res, h)

def handleDopen : Host σ → Bytes → Proc UInt8 (Host σ) :=
  handleData .dopen fun cmd data h =>
    let (res, h) := dirOpen os (field32 cmd 12) (cString data) h
    (.res res, h)

def writeFile (cmd data : Bytes) (h : Host σ) : Reply × Host σ :=
  match toSlot (field32 cmd 12) with
  | none => (.res (-1), h)
  | some fid =>
      if (h.openFiles fid).opened then
        let (res, s) := fixedWrite os fid data 0 h.os
        (.res res, { h with os := s })
      else (.res (-1), h)

def handleWrite : Host σ → Bytes → Proc UInt8 (Host σ) := handleData .write (writeFile os)

def readFile (cmd : Bytes) (h : Host σ) : Reply × Host σ :=
  match toSlot (field32 cmd 12) with
  | none => (.res (-1), h)
  | some fid =>
      if (h.openFiles fid).opened then
        let (res, block, s) := fixedRead os fid (field32 cmd 16).toNat [] h.os
        let extralen := if 0 ≤ res.toInt then res else 0
        ({ extralen := extralen, fields := le32 res, data := block }, { h with os := s })
      else (.res (-1), h)

/-- A length that is not positive is given no response. -/
def handleRead (h : Host σ) (cmd : Bytes) : Proc UInt8 (Host σ) :=
  if cmd.length ≠ HostFsCommand.read.cmdSize then .done h
  else if (field32 cmd 16).toInt ≤ 0 then .done h
  else respond .read (readFile os cmd h)

def handleClose : Host σ → Bytes → Proc UInt8 (Host σ) :=
  handle .close .close fun cmd h =>
    match toSlot (field32 cmd 12) with
    | none => (.res (-1), h)
    | some fid =>
        if 2 < fid.val ∧ (h.openFiles fid).opened then
          let (result, s) := os.close fid h.os
          let file : FileHandle := { h.openFiles fid with opened := false, name := none }
          (.res (resOf result),
            { h with os := s, openFiles := Function.update h.openFiles fid file })
        else (.res (-1), h)

def handleDclose : Host σ → Bytes → Proc UInt8 (Host σ) :=
  handle .dclose .dclose fun cmd h =>
    let (res, h) := dirClose (field32 cmd 12) h
    (.res res, h)

def readDir (cmd : Bytes) (h : Host σ) : Reply × Host σ :=
  match toSlot (field32 cmd 12) with
  | none => (.res (-1), h)
  | some did =>
      let d := h.openDirs did
      if d.opened then
        if d.pos < d.count then
          let res := BitVec.ofNat 32 d.count - BitVec.ofNat 32 (d.pos + 1) + 1
          -- beyond the entries read in, the memory holds a struct of some kind
          let data := ((d.pDir.map SceIoDirent.encode)[d.pos]?).getD
            (List.replicate sizeofSceIoDirent 0)
          ({ extralen := BitVec.ofNat 32 sizeofSceIoDirent, fields := le32 res, data := data },
            setDir did { d with pos := d.pos + 1 } h)
        else (.res 0, h)
      else (.res (-1), h)

/-- The response of `handle_dread` carries the command of `handle_read`. -/
def handleDread : Host σ → Bytes → Proc UInt8 (Host σ) := handle .dread .read readDir

def handleLseek : Host σ → Bytes → Proc UInt8 (Host σ) :=
  handle .lseek .lseek fun cmd h =>
    let reply (res : Word) (ofs : BitVec 64) : Reply :=
      { extralen := 0, fields := le32 res ++ le64 ofs, data := [] }
    match toSlot (field32 cmd 12) with
    | none => (reply (-1) 0, h)
    | some fid =>
        if 2 < fid.val ∧ (h.openFiles fid).opened then
          let (result, s) := os.lseek fid (field64 cmd 16) (field32 cmd 24) h.os
          let ofs : BitVec 64 :=
            match result with
            | .ok ofs => ofs
            | .error _ => -1
          (reply (if ofs.toInt < 0 then -1 else 0) ofs, { h with os := s })
        else (reply (-1) 0, h)

def handleRemove : Host σ → Bytes → Proc UInt8 (Host σ) :=
  handleData .remove fun cmd => onPath os os.unlink (field32 cmd 12)

def handleRmdir : Host σ → Bytes → Proc UInt8 (Host σ) :=
  handleData .rmdir fun cmd => onPath os os.rmdir (field32 cmd 12)

def handleMkdir : Host σ → Bytes → Proc UInt8 (Host σ) :=
  handleData .mkdir fun cmd =>
    onPath os (fun path => os.mkdir path (field32 cmd 12)) (field32 cmd 16)

def handleGetstat : Host σ → Bytes → Proc UInt8 (Host σ) :=
  handleData .getstat fun cmd data h =>
    match makePath (h.pathEnv os) (field32 cmd 12) (cString data) false with
    | none => (.res (-1), h)
    | some fullpath =>
        match fillStat os none fullpath h.os with
        | .error res => (.res res, h)
        | .ok st =>
            ({ extralen := BitVec.ofNat 32 sizeofSceIoStat, fields := le32 0
               data := st.encode }, h)

def handleChstat : Host σ → Bytes → Proc UInt8 (Host σ) :=
  handleData .chstat fun cmd data h =>
    match makePath (h.pathEnv os) (field32 cmd 52) (cString data) false with
    | none => (.res (-1), h)
    | some fullpath =>
        let (res, s) := pspChstat os fullpath cmd h.os
        (.res res, { h with os := s })

/-- The two names in the data of a rename request, in a buffer that was zero. -/
def renameNames (data : Bytes) : Path × Path :=
  (cString data, cString (data.drop ((cString data).length + 1)))

/-- The destination of a rename: a relative new name next to an absolute old one. -/
def renameDest (oldname newname : Path) : Path :=
  if oldname.head? = some slash ∧ newname.head? ≠ some slash then
    (oldname.reverse.dropWhile fun c => c ≠ slash).reverse ++ newname
  else newname

def handleRename : Host σ → Bytes → Proc UInt8 (Host σ) :=
  handleData .rename fun cmd data h =>
    let (oldname, newname) := renameNames data
    let env := h.pathEnv os
    match makePath env (field32 cmd 12) oldname false,
      makePath env (field32 cmd 12) (renameDest oldname newname) false with
    | some oldpath, some newpath => callOs (os.rename oldpath newpath) h
    | _, _ => (.res (-1), h)

def handleChdir : Host σ → Bytes → Proc UInt8 (Host σ) :=
  handleData .chdir fun cmd data h =>
    match toDrive (field32 cmd 12) with
    | none => (.res (-1), h)
    | some fsnum =>
        let drive : HostDrive := { h.drives fsnum with currdir := cString data }
        (.res 0, { h with drives := Function.update h.drives fsnum drive })

def handleIoctl : Host σ → Bytes → Proc UInt8 (Host σ) :=
  handleOptionalData .ioctl fun _ _ h => (.res (-1), h)

def handleDevctl : Host σ → Bytes → Proc UInt8 (Host σ) :=
  handleOptionalData .devctl fun cmd _ h =>
    if field32 cmd 12 = devctlGetInfo then
      match getDriveInfo os (field32 cmd 16) h with
      | none => (.res (-1), h)
      | some info =>
          ({ extralen := BitVec.ofNat 32 sizeofDevctlGetInfo, fields := le32 0, data := info }, h)
    else (.res (-1), h)

def doHostfs (h : Host σ) (cmd : Bytes) : Proc UInt8 (Host σ) :=
  match HostFsCommand.ofCode (HostFsCmd.decode cmd).command with
  | some .hello => handleHello h
  | some .open => handleOpen os h cmd
  | some .close => handleClose os h cmd
  | some .write => handleWrite os h cmd
  | some .read => handleRead os h cmd
  | some .lseek => handleLseek os h cmd
  | some .dopen => handleDopen os h cmd
  | some .dclose => handleDclose h cmd
  | some .dread => handleDread h cmd
  | some .remove => handleRemove os h cmd
  | some .rmdir => handleRmdir os h cmd
  | some .mkdir => handleMkdir os h cmd
  | some .chdir => handleChdir h cmd
  | some .rename => handleRename os h cmd
  | some .getstat => handleGetstat os h cmd
  | some .chstat => handleChstat os h cmd
  | some .ioctl => handleIoctl h cmd
  | some .devctl => handleDevctl os h cmd
  | some .bye | none => .done h

/-- The size of the buffer into which `start_hostfs` reads a request. -/
def requestBuffer : ℕ := 512

/-- What `start_hostfs` does with the bytes of one read. A read that is too short for
a header ends the connection; the packets of the asynchronous and bulk channels are
not host commands. -/
def startHostfs (h : Host σ) (data : Bytes) : Proc UInt8 (Host σ) :=
  if data.length < sizeofHostFsCmd then .done h
  else if field32 data 0 = hostfsMagic then doHostfs os h data
  else .done h

end PsplinkUsb.UsbHostfsPc.Handlers
