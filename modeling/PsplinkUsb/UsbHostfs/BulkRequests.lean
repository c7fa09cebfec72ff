import Mathlib.Data.Int.Init
import PsplinkUsb.Library.Exclusion
import PsplinkUsb.UsbHostfs.AsyncChannel
import PsplinkUsb.UsbHostfs.CommandXchg

/-!
The callers of the two bulk request blocks of `usbhostfs/main.c`, as programs on
`g_mainsema`, the blocks and `g_connected`.
-/

namespace PsplinkUsb.UsbHostfs.BulkRequests

open PsplinkUsb.Library.Exclusion
open PsplinkUsb.HostFs.Wire
open PsplinkUsb.UsbHostfs.AsyncChannel (asyncMagic)
open PsplinkUsb.UsbHostfs.CommandXchg

/-- `g_bulkout_req` and `g_bulkin_req`. -/
inductive BulkBlock where
  | bulkout
  | bulkin
deriving DecidableEq, Repr

inductive BulkRequest where
  | recv (size : ℕ)
  | send (data : Bytes)

def BulkRequest.block : BulkRequest → BulkBlock
  | .recv _ => .bulkout
  | .send _ => .bulkin

/-- The result fields of a block, and what the controller put in its buffer. -/
structure Completion where
  retcode : ℤ
  recvsize : ℤ
  data : Bytes

structure Shared where
  connected : Bool

abbrev BusProg := Prog BulkRequest BulkBlock Completion Shared

/-- The transfers the loops go on after. -/
def Completion.Moved (c : Completion) : Prop := c.retcode = 0 ∧ 0 < c.recvsize

instance (c : Completion) : Decidable c.Moved := inferInstanceAs (Decidable (_ ∧ _))

/-- The loop of `read_data`, with the value of `readlen` and the bytes stored. The buffer
`tx_buf` is aligned, so `set_bulkout_req` fails only if the controller refuses. -/
def readLoop (size : ℤ) (next : ℤ → Bytes → BusProg) (readlen : ℤ) (got : Bytes) : BusProg :=
  if readlen < size then
    .submit (.recv (min (size - readlen).toNat txBufSize)) fun accepted =>
      if accepted then
        .await .bulkout fun answer =>
          match answer with
          | none => next (-1) got
          | some c =>
              if hmoved : c.Moved then
                readLoop size next (readlen + c.recvsize) (got ++ c.data.take c.recvsize.toNat)
              else next (-1) got
      else next (-1) got
  else next readlen got
termination_by (size - readlen).toNat
decreasing_by
  have := hmoved.2
  omega

def readData (size : ℤ) (next : ℤ → Bytes → BusProg) : BusProg := readLoop size next 0 []

/-- The loop of `write_data`, which waits even when the controller refuses the request. -/
def writeLoop (data : Bytes) (next : ℤ → BusProg) (writelen : ℤ) : BusProg :=
  if writelen < data.length then
    .submit (.send ((data.drop writelen.toNat).take txBufSize)) fun _ =>
      .await .bulkin fun answer =>
        match answer with
        | none => next (-1)
        | some c =>
            if hmoved : c.Moved then writeLoop data next (writelen + c.recvsize) else next (-1)
  else next writelen
termination_by (data.length - writelen).toNat
decreasing_by
  have := hmoved.2
  omega

def writeData (data : Bytes) (next : ℤ → BusProg) : BusProg := writeLoop data next 0

/-- `write_data_large`; `aligned` tells whether `data` is on a cache line. -/
def writeDataLarge (aligned : Bool) (data : Bytes) (next : ℤ → BusProg) : BusProg :=
  if aligned then
    .submit (.send data) fun _ =>
      .await .bulkin fun answer =>
        match answer with
        | none => next (-1)
        | some c => next (if c.Moved then data.length else -1)
  else next (-1)

/-- The semaphore around a body, and what is done if waiting for it fails. -/
def withMainsema (body : (Bool → BusProg) → BusProg) (next : Bool → BusProg) : BusProg :=
  .acquire fun granted =>
    if granted then body fun ret => .release (next ret) else next false

def readExtra (req : XchgRequest) (incmd : Bytes) (finish : Bool → BusProg) : BusProg :=
  let resp := HostFsCmd.decode incmd
  if resp.magic ≠ hostfsMagic ∧ resp.command ≠ req.command.code then finish false
  else if resp.extralen ≠ 0 ∧ 0 < req.inlen then
    readData resp.extralen.toInt fun err _ => finish (BitVec.ofInt 32 err = resp.extralen)
  else finish true

def commandXchg (req : XchgRequest) : (Bool → BusProg) → BusProg :=
  withMainsema fun finish =>
    writeData req.outcmd fun err =>
      if err ≠ req.outcmd.length then finish false
      else
        writeData req.outdata fun err =>
          if err ≠ req.outdata.length then finish false
          else
            readData req.incmdlen fun err incmd =>
              if err ≠ req.incmdlen then finish false else readExtra req incmd finish

def sendAsync (data : Bytes) : (Bool → BusProg) → BusProg :=
  withMainsema fun finish => writeData data fun err => finish (err = data.length)

/-- How much data goes with the header in the buffer of `usbAsyncWrite`. -/
def asyncPayload : ℕ := 512 - 8

def asyncLoop (chan : Word) (data : Bytes) (next : BusProg) : BusProg :=
  if data = [] then next
  else
    sendAsync (le32 asyncMagic ++ le32 chan ++ data.take asyncPayload) fun sent =>
      if sent then asyncLoop chan (data.drop asyncPayload) next else next
termination_by data.length
decreasing_by
  rename_i hdata
  have hpos := List.length_pos_iff.mpr hdata
  simp only [List.length_drop, asyncPayload]
  omega

/-- Go on if `usb_connected`. -/
def ifConnected (body next : BusProg) : BusProg :=
  .shared id fun s => if s.connected then body else next

def usbAsyncWrite (chan : Word) (data : Bytes) (next : BusProg) : BusProg :=
  ifConnected (asyncLoop chan data next) next

def usbWriteBulkData (chan : Word) (aligned : Bool) (data : Bytes) (next : BusProg) : BusProg :=
  ifConnected
    (if data.length = 0 ∨ hostfsBulkMaxwrite < data.length then next
    else
      let cmd := le32 bulkMagic ++ le32 chan ++ le32 (BitVec.ofNat 32 data.length)
      withMainsema
        (fun finish =>
          writeData cmd fun err =>
            if err ≠ cmd.length then finish false
            else writeDataLarge aligned data fun err => finish (err = data.length))
        fun _ => next)
    next

def setConnected (connected : Bool) (next : BusProg) : BusProg :=
  .shared (fun s => { s with connected := connected }) fun _ => next

/-- The bits of `g_mainevent` the USB thread was woken by. -/
structure MainEvents where
  detach : Bool
  attach : Bool

def helloRequest : XchgRequest where
  command := .hello
  extralen := 0
  fields := []
  outdata := []
  inlen := 0

/-- The attach branch of `usb_thread`. It reads the magic word without `g_mainsema`. -/
def handleAttach (next : BusProg) : BusProg :=
  setConnected false
    (readData 4 fun ret magic =>
      if ret = 4 ∧ field32 magic 0 = hostfsMagic then
        commandXchg helloRequest fun ret => if ret then setConnected true next else next
      else next)

/-- One turn of the loop of `usb_thread`. Its asynchronous request uses a block and an
endpoint of its own. -/
def usbThread (events : MainEvents) : BusProg :=
  let attached := if events.attach then handleAttach (.done false) else .done false
  if events.detach then setConnected false attached else attached

inductive Thread where
  | usb
  | user (n : ℕ)
deriving DecidableEq

inductive Job where
  | events (events : MainEvents)
  | commandXchg (req : XchgRequest)
  | asyncWrite (chan : Word) (data : Bytes)
  | writeBulkData (chan : Word) (aligned : Bool) (data : Bytes)
  | lockBus
  | unlockBus

/-- What a thread does for a job. A thread that has the bus locked still has it after a
call, and `usbUnlockBus` is called only by a thread that has. -/
def program : Thread → Job → Bool → Option BusProg
  | .usb, .events events, false => some (usbThread events)
  | .user _, .commandXchg req, locked => some (commandXchg req fun _ => .done locked)
  | .user _, .asyncWrite chan data, locked => some (usbAsyncWrite chan data (.done locked))
  | .user _, .writeBulkData chan aligned data, locked =>
      some (usbWriteBulkData chan aligned data (.done locked))
  | .user _, .lockBus, locked => some (.acquire fun granted => .done (granted || locked))
  | .user _, .unlockBus, true => some (.release (.done false))
  | _, _, _ => none

abbrev BusState := State Thread BulkRequest BulkBlock Completion Shared

abbrev BusAction := Action Thread Job BulkBlock Completion

def busStep : BusState → BusAction → Option BusState := step BulkRequest.block program

/-- The state after `start_func`, before anything is attached. -/
def started : BusState := initial { connected := false }

end PsplinkUsb.UsbHostfs.BulkRequests
