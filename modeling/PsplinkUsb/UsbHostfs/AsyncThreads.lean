import PsplinkUsb.Library.Run
import PsplinkUsb.UsbHostfs.AsyncChannel

/-!
Threads on the asynchronous channels. A reader checks its channel, blocks on the
event flag and then enters its section; a flush checks before its section too.
Every wait, wake-up and section is one step, in any order.
-/

namespace PsplinkUsb.UsbHostfs.AsyncThreads

open PsplinkUsb.UsbHostfs.AsyncChannel

/-- Where a thread is in `usbAsyncReadWithTimeout`. -/
inductive Reader where
  | idle
  | waiting (c : Channel) (len : ℤ)
  | woken (c : Channel) (len : ℤ)
deriving DecidableEq

inductive Flusher where
  | idle
  | checked (c : Channel)
deriving DecidableEq

/-- The payload bytes accepted for a channel and the bytes its reads returned
since it was last flushed or registered. -/
structure ChannelTrace where
  accepted : List UInt8
  returned : List UInt8
deriving DecidableEq

def noTrace : ChannelTrace where
  accepted := []
  returned := []

structure System where
  st : AsyncState
  readers : ℕ → Reader
  flushers : ℕ → Flusher
  trace : Channel → ChannelTrace

inductive Action where
  | readEnter (r : ℕ) (chan : BitVec 32) (len : ℤ)
  | readWait (r : ℕ)
  | readTimeout (r : ℕ)
  | readSection (r : ℕ)
  | flushEnter (f : ℕ) (chan : BitVec 32)
  | flushSection (f : ℕ)
  | register (chan : BitVec 32) (endp : Option EndpointPtr)
  | unregister (chan : BitVec 32)
  | fill (packet : List UInt8)

def setReader (r : ℕ) (pc : Reader) (s : System) : System :=
  { s with readers := Function.update s.readers r pc }

def setFlusher (f : ℕ) (pc : Flusher) (s : System) : System :=
  { s with flushers := Function.update s.flushers f pc }

def endpointOf (s : System) (c : Channel) : Option AsyncEndpoint :=
  (s.st.asyncChan c).map s.st.endpoints

/-- The channel a step works on. -/
def target (s : System) : Action → Option Channel
  | .readEnter .. | .readTimeout _ | .flushEnter .. => none
  | .readWait r | .readSection r =>
      match s.readers r with
      | .idle => none
      | .waiting c _ | .woken c _ => some c
  | .flushSection f =>
      match s.flushers f with
      | .idle => none
      | .checked c => some c
  | .register chan endp => endp.bind fun _ => registerChannel chan s.st
  | .unregister chan => openChannel chan s.st
  | .fill packet => packetChannel packet

def setTrace (c : Channel) (t : ChannelTrace) (s : System) : System :=
  { s with trace := Function.update s.trace c t }

/-- The bytes a fill adds to what a channel has accepted. -/
def accept (c : Channel) (packet : List UInt8) (s : System) : System :=
  match endpointOf s c with
  | none => s
  | some e =>
      let t := s.trace c
      setTrace c { t with accepted := t.accepted ++ acceptedBytes e packet } s

/-- The bytes a read returns. -/
def deliver (c : Channel) (len : ℤ) (s : System) : System :=
  match endpointOf s c with
  | none => s
  | some e =>
      let t := s.trace c
      setTrace c { t with returned := t.returned ++ readBytes len e } s

/-- One step. A step that a thread cannot take where it is, a wait whose event
bit is clear, and a section that would follow a null pointer are refused. -/
def step (s : System) : Action → Option System
  | .readEnter r chan len =>
      match s.readers r with
      | .idle =>
          match openChannel chan s.st with
          | none => some s
          | some c => some (setReader r (.waiting c len) s)
      | _ => none
  | .readWait r =>
      match s.readers r with
      | .waiting c len =>
          if s.st.asyncevent c then
            some { setReader r (.woken c len) s with st := setEvent c false s.st }
          else none
      | _ => none
  | .readTimeout r =>
      match s.readers r with
      | .waiting _ _ => some (setReader r .idle s)
      | _ => none
  | .readSection r =>
      match s.readers r with
      | .woken c len =>
          (readSection c len s.st).map fun st =>
            { deliver c len (setReader r .idle s) with st := st }
      | _ => none
  | .flushEnter f chan =>
      match s.flushers f with
      | .idle =>
          match openChannel chan s.st with
          | none => some s
          | some c => some (setFlusher f (.checked c) s)
      | _ => none
  | .flushSection f =>
      match s.flushers f with
      | .checked c =>
          (flushSection c s.st).map fun st =>
            { setTrace c noTrace (setFlusher f .idle s) with st := st }
      | _ => none
  | .register chan endp =>
      let traced :=
        match endp.bind fun _ => registerChannel chan s.st with
        | none => s
        | some c => setTrace c noTrace s
      some { traced with st := (usbAsyncRegister chan endp s.st).2 }
  | .unregister chan => some { s with st := (usbAsyncUnregister chan s.st).2 }
  | .fill packet =>
      let traced :=
        match packetChannel packet with
        | none => s
        | some c => accept c packet s
      some { traced with st := fillAsync packet s.st }

/-- No channel is registered, no event bit is set and no thread is inside a call. -/
def start (endpoints : EndpointPtr → AsyncEndpoint) : System where
  st := { asyncChan := fun _ => none, endpoints := endpoints, asyncevent := fun _ => false }
  readers := fun _ => .idle
  flushers := fun _ => .idle
  trace := fun _ => noTrace

end PsplinkUsb.UsbHostfs.AsyncThreads
