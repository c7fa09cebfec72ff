import Mathlib.Logic.Function.Basic
import PsplinkUsb.Library.LittleEndian

/-!
The asynchronous channels of `usbhostfs/main.c`: the endpoint rings, the
pointers `g_async_chan` to them and the event flag `g_asyncevent`. Each function
here is one interrupts-disabled section of the source.
-/

namespace PsplinkUsb.UsbHostfs.AsyncChannel

open PsplinkUsb.Library.LittleEndian

def maxAsyncBuffer : ℕ := 4096
abbrev maxAsyncChannels : ℕ := 8
def asyncUser : ℕ := 4
def asyncAllocChan : BitVec 32 := -1
def asyncMagic : BitVec 32 := 0x782F0813

def sizeofAsyncCommand : ℕ := 8

abbrev Channel := Fin maxAsyncChannels

/-- The address of an endpoint structure; a null pointer is `none`. -/
abbrev EndpointPtr := ℕ

/-- `struct AsyncEndpoint`. The buffer is the memory around it as well, so that
an access outside the array would show. -/
structure AsyncEndpoint where
  buffer : ℤ → UInt8
  readPos : ℤ
  writePos : ℤ
  size : ℤ

structure AsyncState where
  asyncChan : Channel → Option EndpointPtr
  endpoints : EndpointPtr → AsyncEndpoint
  asyncevent : Channel → Bool

def toChannel (chan : BitVec 32) : Option Channel :=
  if h : chan.toNat < maxAsyncChannels then some ⟨chan.toNat, h⟩ else none

def setEvent (c : Channel) (value : Bool) (s : AsyncState) : AsyncState :=
  { s with asyncevent := Function.update s.asyncevent c value }

def setEndpoint (p : EndpointPtr) (e : AsyncEndpoint) (s : AsyncState) : AsyncState :=
  { s with endpoints := Function.update s.endpoints p e }

/-- One round of the copy loop of `fill_async`. -/
def pushByte (e : AsyncEndpoint) (x : UInt8) : AsyncEndpoint :=
  { buffer := Function.update e.buffer e.writePos x
    readPos := e.readPos
    writePos := (e.writePos + 1).tmod maxAsyncBuffer
    size := e.size + 1 }

/-- The number of bytes `fill_async` copies of a payload of `len` bytes. -/
def sizeleft (e : AsyncEndpoint) (len : ℕ) : ℕ :=
  (if (len : ℤ) < maxAsyncBuffer - e.size then (len : ℤ) else maxAsyncBuffer - e.size).toNat

/-- The channel named by the header of a packet with a payload, if the header
is accepted. -/
def packetChannel (packet : List UInt8) : Option Channel :=
  if sizeofAsyncCommand < packet.length then
    if BitVec.ofNat 32 (ofBytes (packet.take 4)) = asyncMagic then
      toChannel (BitVec.ofNat 32 (ofBytes ((packet.drop 4).take 4)))
    else none
  else none

def payload (packet : List UInt8) : List UInt8 := packet.drop sizeofAsyncCommand

/-- The payload bytes that `fill_async` puts into the endpoint. -/
def acceptedBytes (e : AsyncEndpoint) (packet : List UInt8) : List UInt8 :=
  (payload packet).take (sizeleft e (payload packet).length)

def fillAsync (packet : List UInt8) (s : AsyncState) : AsyncState :=
  match packetChannel packet with
  | none => s
  | some c =>
      match s.asyncChan c with
      | none => s
      | some p =>
          let e := (acceptedBytes (s.endpoints p) packet).foldl pushByte (s.endpoints p)
          setEvent c true (setEndpoint p e s)

/-- The section of `usbAsyncFlush`; `none` when it follows a null pointer. -/
def flushSection (c : Channel) (s : AsyncState) : Option AsyncState :=
  (s.asyncChan c).map fun p =>
    setEvent c false
      (setEndpoint p { s.endpoints p with size := 0, readPos := 0, writePos := 0 } s)

/-- The channel `usbAsyncRegister` uses for the argument `chan`. -/
def registerChannel (chan : BitVec 32) (s : AsyncState) : Option Channel :=
  if chan = asyncAllocChan then
    (List.finRange maxAsyncChannels).find? fun i => asyncUser ≤ i.val ∧ s.asyncChan i = none
  else
    (toChannel chan).filter fun c => s.asyncChan c = none

def usbAsyncRegister (chan : BitVec 32) (endp : Option EndpointPtr) (s : AsyncState) :
    ℤ × AsyncState :=
  match endp, registerChannel chan s with
  | some p, some c =>
      let registered := { s with asyncChan := Function.update s.asyncChan c (some p) }
      -- the nested usbAsyncFlush finds the pointer just stored
      (c.val, (flushSection c registered).getD registered)
  | _, _ => (-1, s)

/-- The channel a call of `usbAsyncUnregister`, a reader or a flush goes on with:
in range and registered. -/
def openChannel (chan : BitVec 32) (s : AsyncState) : Option Channel :=
  (toChannel chan).filter fun c => (s.asyncChan c).isSome

def usbAsyncUnregister (chan : BitVec 32) (s : AsyncState) : ℤ × AsyncState :=
  match openChannel chan s with
  | none => (-1, s)
  | some c => (0, { s with asyncChan := Function.update s.asyncChan c none })

/-- One round of the copy loop of `usbAsyncReadWithTimeout`: the byte read and
the endpoint after it. -/
def popByte (e : AsyncEndpoint) : UInt8 × AsyncEndpoint :=
  (e.buffer e.readPos,
    { e with readPos := (e.readPos + 1).tmod maxAsyncBuffer, size := e.size - 1 })

def popBytes : ℕ → AsyncEndpoint → List UInt8 × AsyncEndpoint
  | 0, e => ([], e)
  | n + 1, e =>
      let popped := popByte e
      let rest := popBytes n popped.2
      (popped.1 :: rest.1, rest.2)

/-- The `len` that `usbAsyncReadWithTimeout` returns. -/
def readLength (len : ℤ) (e : AsyncEndpoint) : ℤ := if len < e.size then len else e.size

/-- What the section of `usbAsyncReadWithTimeout` stores in `data`. -/
def readBytes (len : ℤ) (e : AsyncEndpoint) : List UInt8 := (popBytes (readLength len e).toNat e).1

/-- The section of `usbAsyncReadWithTimeout`; `none` when it follows a null
pointer. -/
def readSection (c : Channel) (len : ℤ) (s : AsyncState) : Option AsyncState :=
  (s.asyncChan c).map fun p =>
    let e := (popBytes (readLength len (s.endpoints p)).toNat (s.endpoints p)).2
    let s := setEndpoint p e s
    if e.size ≠ 0 then setEvent c true s else s

end PsplinkUsb.UsbHostfs.AsyncChannel
