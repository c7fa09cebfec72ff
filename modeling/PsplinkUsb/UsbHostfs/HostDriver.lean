import Mathlib.Logic.Function.Basic
import PsplinkUsb.UsbHostfs.CommandXchg

/-!
The `io_*` functions of `usbhostfs/host_driver.c`. Each is a program of exchanges with
the PC; a null pointer is `none`.
-/

namespace PsplinkUsb.UsbHostfs.HostDriver

open PsplinkUsb.Library.Duplex
open PsplinkUsb.HostFs.Wire
open PsplinkUsb.UsbHostfs.CommandXchg

universe u v

/-- A program that calls `command_xchg` and goes on with its result. -/
inductive IoProg (A : Type u) where
  | ret (a : A)
  | xchg (req : XchgRequest) (next : XchgResult → IoProg A)

/-- The program as a process; `sizes k` are the transfer sizes in exchange `k`. -/
def IoProg.toProc {A : Type u} (sizes : ℕ → RecvSizes) : ℕ → IoProg A → Proc UInt8 A
  | _, .ret a => .done a
  | k, .xchg req next =>
      (commandXchg (sizes k) req).bind fun result => (next result).toProc sizes (k + 1)

/-- `PspIoDrvFileArg`: the drive number and the handle kept in `arg`. -/
structure PspIoDrvFileArg where
  fsNum : Word
  arg : Word

abbrev Buffer := ℕ → UInt8

def bytesAt (buf : Buffer) (offset len : ℕ) : Bytes :=
  (List.range len).map fun i => buf (offset + i)

@[simp] theorem length_bytesAt (buf : Buffer) (offset len : ℕ) :
    (bytesAt buf offset len).length = len := by
  simp [bytesAt]

def storeAt (buf : Buffer) (offset : ℕ) (data : Bytes) : Buffer := fun i =>
  if offset ≤ i then (data[i - offset]?).getD (buf i) else buf i

/-- A string as it is sent, with its terminating NUL. -/
def terminated (name : Bytes) : Bytes := name ++ [0]

/-- What a call returns, the argument structure after it and what it stored. -/
structure IoResult where
  ret : BitVec 64
  arg : PspIoDrvFileArg
  indata : Bytes

/-- The common end of the functions that make one exchange: `onResponse` if the PC is
connected and the exchange succeeds, else -1. -/
def exchangeOnce (connected : Bool) (arg : PspIoDrvFileArg) (req : XchgRequest)
    (onResponse : XchgResult → IoResult) : IoProg IoResult :=
  let failed : IoResult := { ret := -1, arg := arg, indata := [] }
  if connected then
    .xchg req fun r => .ret (if r.ret then onResponse r else failed)
  else .ret failed

def returnRes (arg : PspIoDrvFileArg) (r : XchgResult) : IoResult :=
  { ret := (r.res).signExtend 64, arg := arg, indata := r.indata }

/-- `io_open` and `io_dopen` keep the handle in the argument structure. -/
def keepHandle (arg : PspIoDrvFileArg) (r : XchgResult) : IoResult :=
  if 0 ≤ r.res.toInt then { ret := 0, arg := { arg with arg := r.res }, indata := [] }
  else returnRes arg r

def invalid (arg : PspIoDrvFileArg) : IoProg IoResult :=
  .ret { ret := -1, arg := arg, indata := [] }

def pathRequest (command : HostFsCommand) (fields : Bytes) (name : Bytes) (inlen : ℤ) :
    XchgRequest where
  command := command
  extralen := BitVec.ofNat 32 (name.length + 1)
  fields := fields
  outdata := terminated name
  inlen := inlen

def plainRequest (command : HostFsCommand) (fields : Bytes) (inlen : ℤ) : XchgRequest where
  command := command
  extralen := 0
  fields := fields
  outdata := []
  inlen := inlen

variable (connected : Bool) (arg : PspIoDrvFileArg)

def ioOpen (file : Option Bytes) (mode mask : Word) : IoProg IoResult :=
  match file with
  | none => invalid arg
  | some file =>
      exchangeOnce connected arg
        (pathRequest .open (le32 mode ++ le32 mask ++ le32 arg.fsNum) file 0) (keepHandle arg)

def ioClose : IoProg IoResult :=
  exchangeOnce connected arg (plainRequest .close (le32 arg.arg) 0) (returnRes arg)

def ioLseek (ofs : BitVec 64) (whence : Word) : IoProg IoResult :=
  exchangeOnce connected arg
    (plainRequest .lseek (le32 arg.arg ++ le64 ofs ++ le32 whence) 0)
    fun r =>
      { ret := if 0 ≤ r.res.toInt then field64 r.incmd 16 else -1, arg := arg, indata := [] }

/-- The bytes `command_xchg` sends for the arguments `indata` and `inlen`. -/
def inputBytes (indata : Option Buffer) (inlen : Word) : Bytes :=
  match indata with
  | none => []
  | some buf => bytesAt buf 0 inlen.toInt.toNat

/-- A length, zeroed when its pointer is null. -/
def lengthOf {P : Type v} (pointer : Option P) (len : Word) : Word :=
  if pointer.isSome then len else 0

/-- A request with input data of a signed length, and room for output. -/
def controlRequest (command : HostFsCommand) (first second : Word) (indata : Option Buffer)
    (inlen : Word) (outdata : Option Unit) (outlen : Word) : XchgRequest where
  command := command
  extralen := lengthOf indata inlen
  fields := le32 first ++ le32 second ++ le32 (lengthOf outdata outlen)
  outdata := inputBytes indata inlen
  inlen := (lengthOf outdata outlen).toInt

def ioIoctl (cmdno : Word) (indata : Option Buffer) (inlen : Word) (outdata : Option Unit)
    (outlen : Word) : IoProg IoResult :=
  exchangeOnce connected arg
    (controlRequest .ioctl arg.arg cmdno indata inlen outdata outlen) (returnRes arg)

def ioRemove (name : Option Bytes) : IoProg IoResult :=
  match name with
  | none => invalid arg
  | some name =>
      exchangeOnce connected arg (pathRequest .remove (le32 arg.fsNum) name 0) (returnRes arg)

def ioMkdir (name : Option Bytes) (mode : Word) : IoProg IoResult :=
  match name with
  | none => invalid arg
  | some name =>
      exchangeOnce connected arg
        (pathRequest .mkdir (le32 mode ++ le32 arg.fsNum) name 0) (returnRes arg)

def ioRmdir (name : Option Bytes) : IoProg IoResult :=
  match name with
  | none => invalid arg
  | some name =>
      exchangeOnce connected arg (pathRequest .rmdir (le32 arg.fsNum) name 0) (returnRes arg)

def ioDopen (dir : Option Bytes) : IoProg IoResult :=
  match dir with
  | none => invalid arg
  | some dir =>
      exchangeOnce connected arg (pathRequest .dopen (le32 arg.fsNum) dir 0) (keepHandle arg)

def ioDclose : IoProg IoResult :=
  exchangeOnce connected arg (plainRequest .dclose (le32 arg.arg) 0) (returnRes arg)

def sizeofSceIoDirent : ℤ := 352

def sizeofSceIoStat : ℤ := 88

def sizeofDevctlGetInfo : Word := 20

def ioDread (dir : Option Unit) : IoProg IoResult :=
  match dir with
  | none => invalid arg
  | some _ =>
      exchangeOnce connected arg (plainRequest .dread (le32 arg.arg) sizeofSceIoDirent)
        (returnRes arg)

def ioGetstat (file : Option Bytes) (stat : Option Unit) : IoProg IoResult :=
  match file, stat with
  | some file, some _ =>
      exchangeOnce connected arg (pathRequest .getstat (le32 arg.fsNum) file sizeofSceIoStat)
        (returnRes arg)
  | _, _ => invalid arg

structure DateTime where
  year : BitVec 16
  month : BitVec 16
  day : BitVec 16
  hour : BitVec 16
  minute : BitVec 16
  second : BitVec 16

def DateTime.encode (t : DateTime) : Bytes :=
  le16 t.year ++ le16 t.month ++ le16 t.day ++ le16 t.hour ++ le16 t.minute ++ le16 t.second

/-- The fields of `SceIoStat` that `io_chstat` reads. -/
structure StatArgs where
  mode : Word
  size : BitVec 64
  atime : DateTime
  mtime : DateTime

/-- The time stamps `io_chstat` sends. The minute and the second of the access time are
taken from the modification time. -/
def chstatTimes (stat : StatArgs) : Bytes :=
  let atime : DateTime :=
    { stat.atime with minute := stat.mtime.minute, second := stat.mtime.second }
  atime.encode ++ stat.mtime.encode

def ioChstat (file : Option Bytes) (stat : Option StatArgs) (bits : Word) : IoProg IoResult :=
  match file, stat with
  | some file, some stat =>
      let fields := le32 bits ++ le32 stat.mode ++ le64 stat.size ++ chstatTimes stat ++
        le32 arg.fsNum
      exchangeOnce connected arg (pathRequest .chstat fields file 0) (returnRes arg)
  | _, _ => invalid arg

def renameBuffer (oldname newname : Bytes) : Bytes := terminated oldname ++ terminated newname

def ioRename (oldname newname : Option Bytes) : IoProg IoResult :=
  match oldname, newname with
  | some oldname, some newname =>
      let size := oldname.length + newname.length + 2
      if hostfsRenameBufsize < size then invalid arg
      else
        let req : XchgRequest :=
          { command := .rename, extralen := BitVec.ofNat 32 size, fields := le32 arg.fsNum
            outdata := renameBuffer oldname newname, inlen := 0 }
        exchangeOnce connected arg req (returnRes arg)
  | _, _ => invalid arg

def ioChdir (dir : Option Bytes) : IoProg IoResult :=
  match dir with
  | none => invalid arg
  | some dir =>
      exchangeOnce connected arg (pathRequest .chdir (le32 arg.fsNum) dir 0) (returnRes arg)

/-- `io_devctl`. For `DEVCTL_GET_INFO` the input is a pointer to the output; `info` tells
whether both are there. -/
def ioDevctl (name : Option Bytes) (cmdno : Word) (indata : Option Buffer) (inlen : Word)
    (outdata : Option Unit) (outlen : Word) (info : Bool) : IoProg IoResult :=
  match name with
  | none => invalid arg
  | some _ =>
      if cmdno = devctlGetInfo then
        if info then
          exchangeOnce connected arg
            (controlRequest .devctl cmdno arg.fsNum none 0 (some ()) sizeofDevctlGetInfo)
            (returnRes arg)
        else invalid arg
      else
        exchangeOnce connected arg
          (controlRequest .devctl cmdno arg.fsNum indata inlen outdata outlen) (returnRes arg)

/-- The running values of the transfer loops: how far the data pointer has moved, the
sum `ret`, and the caller's memory. -/
structure Progress where
  offset : ℕ
  ret : ℤ
  buf : Buffer

abbrev TransferProg := IoProg (ℤ × Option Buffer)

def Progress.stop (p : Progress) (ret : ℤ) : TransferProg := .ret (ret, some p.buf)

/-- What both transfer functions do with the result of one request: go on, or return
the error if nothing was moved before, else how much was moved. -/
def afterRequest (r : XchgResult) (p : Progress) (next : Progress → TransferProg) :
    TransferProg :=
  if r.ret then
    if 0 < r.res.toInt then
      next { p with offset := p.offset + r.res.toNat, ret := p.ret + r.res.toInt }
    else p.stop (if r.res.toInt < 0 ∧ p.ret = 0 then r.res.toInt else p.ret)
  else p.stop (-1)

def readRequest (fd : Word) (len : ℕ) : XchgRequest :=
  plainRequest .read (le32 fd ++ le32 (BitVec.ofNat 32 len)) len

def readBlock (fd : Word) (len : ℕ) (p : Progress) (next : Progress → TransferProg) :
    TransferProg :=
  if connected then
    .xchg (readRequest fd len) fun r =>
      afterRequest r { p with buf := storeAt p.buf p.offset r.indata } next
  else p.stop (-1)

def writeRequest (fd : Word) (data : Bytes) : XchgRequest where
  command := .write
  extralen := BitVec.ofNat 32 data.length
  fields := le32 fd
  outdata := data
  inlen := 0

def writeBlock (fd : Word) (len : ℕ) (p : Progress) (next : Progress → TransferProg) :
    TransferProg :=
  if connected then
    .xchg (writeRequest fd (bytesAt p.buf p.offset len)) fun r => afterRequest r p next
  else p.stop (-1)

/-- The loop over the blocks, and the residual after it. -/
def transferBlocks (request : ℕ → Progress → (Progress → TransferProg) → TransferProg)
    (residual : ℕ) : ℕ → Progress → TransferProg
  | 0, p => if 0 < residual then request residual p fun p => p.stop p.ret else p.stop p.ret
  | blocks + 1, p => request hostfsMaxBlock p (transferBlocks request residual blocks)

/-- The common shape of `usb_read_data` and `usb_write_data`. -/
def transferData (request : ℕ → Progress → (Progress → TransferProg) → TransferProg)
    (data : Option Buffer) (len : ℤ) : TransferProg :=
  if len < 0 then .ret (-1, data)
  else if len = 0 then .ret (0, data)
  else
    match data with
    | none => .ret (-1, none)
    | some buf =>
        transferBlocks request (len.toNat % hostfsMaxBlock) (len.toNat / hostfsMaxBlock)
          { offset := 0, ret := 0, buf := buf }

def usbReadData (fd : Word) (data : Option Buffer) (len : ℤ) : TransferProg :=
  transferData (readBlock connected fd) data len

def usbWriteData (fd : Word) (data : Option Buffer) (len : ℤ) : TransferProg :=
  transferData (writeBlock connected fd) data len

def ioRead (data : Option Buffer) (len : ℤ) : TransferProg := usbReadData connected arg.arg data len

def ioWrite (data : Option Buffer) (len : ℤ) : TransferProg :=
  usbWriteData connected arg.arg data len

def IoProg.map {A : Type u} {A' : Type v} (f : A → A') : IoProg A → IoProg A'
  | .ret a => .ret (f a)
  | .xchg req next => .xchg req fun r => (next r).map f

inductive IoCall where
  | open (file : Option Bytes) (mode mask : Word)
  | close
  | read (data : Option Buffer) (len : ℤ)
  | write (data : Option Buffer) (len : ℤ)
  | lseek (ofs : BitVec 64) (whence : Word)
  | ioctl (cmdno : Word) (indata : Option Buffer) (inlen : Word) (outdata : Option Unit)
      (outlen : Word)
  | remove (name : Option Bytes)
  | mkdir (name : Option Bytes) (mode : Word)
  | rmdir (name : Option Bytes)
  | dopen (dir : Option Bytes)
  | dclose
  | dread (dir : Option Unit)
  | getstat (file : Option Bytes) (stat : Option Unit)
  | chstat (file : Option Bytes) (stat : Option StatArgs) (bits : Word)
  | rename (oldname newname : Option Bytes)
  | chdir (dir : Option Bytes)
  | devctl (name : Option Bytes) (cmdno : Word) (indata : Option Buffer) (inlen : Word)
      (outdata : Option Unit) (outlen : Word) (info : Bool)

/-- The program of a call, its result left out. -/
def IoCall.prog : IoCall → IoProg Unit
  | .open file mode mask => (ioOpen connected arg file mode mask).map fun _ => ()
  | .close => (ioClose connected arg).map fun _ => ()
  | .read data len => (ioRead connected arg data len).map fun _ => ()
  | .write data len => (ioWrite connected arg data len).map fun _ => ()
  | .lseek ofs whence => (ioLseek connected arg ofs whence).map fun _ => ()
  | .ioctl cmdno indata inlen outdata outlen =>
      (ioIoctl connected arg cmdno indata inlen outdata outlen).map fun _ => ()
  | .remove name => (ioRemove connected arg name).map fun _ => ()
  | .mkdir name mode => (ioMkdir connected arg name mode).map fun _ => ()
  | .rmdir name => (ioRmdir connected arg name).map fun _ => ()
  | .dopen dir => (ioDopen connected arg dir).map fun _ => ()
  | .dclose => (ioDclose connected arg).map fun _ => ()
  | .dread dir => (ioDread connected arg dir).map fun _ => ()
  | .getstat file stat => (ioGetstat connected arg file stat).map fun _ => ()
  | .chstat file stat bits => (ioChstat connected arg file stat bits).map fun _ => ()
  | .rename oldname newname => (ioRename connected arg oldname newname).map fun _ => ()
  | .chdir dir => (ioChdir connected arg dir).map fun _ => ()
  | .devctl name cmdno indata inlen outdata outlen info =>
      (ioDevctl connected arg name cmdno indata inlen outdata outlen info).map fun _ => ()

end PsplinkUsb.UsbHostfs.HostDriver
