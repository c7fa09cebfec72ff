import PsplinkUsb.Library.Run
import PsplinkUsb.RemoteJoy.JoyEvents

/-!
`read_thread` of the viewer, `tools/remotejoy/pcsdl/remotejoy.c`: a header and the frame behind
it are read from the socket into one of two buffers.
-/

namespace PsplinkUsb.RemoteJoy.ReadThread

open PsplinkUsb.HostFs.Wire
open PsplinkUsb.RemoteJoy.JoyEvents (joyMagic)

/-- The bytes of `buf` in `struct ScreenBuffer`. -/
def screenSize : ℕ := 480 * 272 * 4

/-- `struct JoyScrHeader` without its magic. -/
structure JoyScrHeader where
  mode : Word
  size : Word
  ref : Word
deriving DecidableEq, Repr

def sizeofJoyScrHeader : ℕ := 16

def JoyScrHeader.encode (head : JoyScrHeader) : Bytes :=
  le32 joyMagic ++ le32 head.mode ++ le32 head.size ++ le32 head.ref

def JoyScrHeader.decode (bytes : Bytes) : JoyScrHeader where
  mode := field32 bytes 4
  size := field32 bytes 8
  ref := field32 bytes 12

/-- `struct ScreenBuffer`, with the memory before and behind `buf`. -/
structure ScreenBuffer where
  buf : ℤ → UInt8
  mode : Word
  size : Word

/-- What `post_event` tells the main loop; a frame with the buffer as it was then. -/
inductive Event where
  | enableScreen
  | renderFrame (frame : Bool) (shown : ScreenBuffer)

/-- Where the thread waits in `select`: for a header, for the rest of a frame; or it is gone. -/
inductive Phase where
  | header
  | body (size loc : ℤ)
  | ended
deriving DecidableEq, Repr

/-- The bytes of a buffer that one `read` stored to. -/
structure Store where
  frame : Bool
  loc : ℤ
  len : ℕ
deriving DecidableEq, Repr

/-- `stream` is what the socket still gives before it is closed. -/
structure State where
  stream : Bytes
  phase : Phase
  frame : Bool
  buffers : Bool → ScreenBuffer
  scron : Bool
  stores : List Store
  events : List Event

def start (stream : Bytes) : State where
  stream := stream
  phase := .header
  frame := false
  buffers := fun _ => { buf := fun _ => 0, mode := 0, size := 0 }
  scron := true
  stores := []
  events := []

/-- `select` finds the socket readable and `read` gives so many bytes, none at the end of the
stream; or one of the two fails, interrupted or otherwise. -/
inductive Action where
  | read (n : ℕ)
  | readFails (interrupted : Bool)
  | selectFails (interrupted : Bool)
deriving DecidableEq, Repr

/-- `size-loc` as the `size_t` of `read`. -/
def readCount (size loc : ℤ) : ℕ := (BitVec.ofInt 64 (size - loc)).toNat

/-- `read` may give `n` of the bytes it was asked for. -/
def Reads (stream : Bytes) (asked n : ℕ) : Prop :=
  n ≤ asked ∧ n ≤ stream.length ∧ (n = 0 → asked = 0 ∨ stream = [])

instance (stream : Bytes) (asked n : ℕ) : Decidable (Reads stream asked n) :=
  inferInstanceAs (Decidable (_ ∧ _ ∧ _))

def storeAt (buf : ℤ → UInt8) (loc : ℤ) (data : Bytes) : ℤ → UInt8 := fun i =>
  if loc ≤ i then (data[(i - loc).toNat]?).getD (buf i) else buf i

namespace State

def consume (n : ℕ) (s : State) : State := { s with stream := s.stream.drop n }

def leave (s : State) : State := { s with phase := .ended }

def setBuffer (buffer : ScreenBuffer) (s : State) : State :=
  { s with buffers := Function.update s.buffers s.frame buffer }

/-- Behind the inner loop, without an error. -/
def announce (s : State) : State :=
  { s with
    events := s.events ++ [.renderFrame s.frame (s.buffers s.frame)]
    frame := !s.frame
    phase := .header }

/-- The test at the end of the inner loop. -/
def advance (size loc : ℤ) (s : State) : State :=
  if loc = size then s.announce else { s with phase := .body size loc }

/-- What is done with the result of the read of a header. -/
def takeHeader (video : Bool) (data : Bytes) (s : State) : State :=
  if data.length ≠ sizeofJoyScrHeader ∨ field32 data 0 ≠ joyMagic then s.leave
  else
    let head := JoyScrHeader.decode data
    let s := s.setBuffer { s.buffers s.frame with mode := head.mode, size := head.size }
    if head.mode.toInt < 0 then
      if video then { s with events := s.events ++ [.enableScreen] } else { s with scron := false }
    -- `flush_socket` does nothing
    else if 3 < head.mode.toInt then s
    else { s with phase := .body head.size.toInt 0 }

def store (loc : ℤ) (data : Bytes) (s : State) : State :=
  let buffer := s.buffers s.frame
  { s.setBuffer { buffer with buf := storeAt buffer.buf loc data } with
    stores := s.stores ++ [⟨s.frame, loc, data.length⟩] }

/-- A read of the inner loop that gives some bytes. -/
def takeBody (size loc : ℤ) (data : Bytes) (s : State) : State :=
  (s.store loc data).advance size (loc + data.length)

end State

def step (video : Bool) (s : State) : Action → Option State
  | .read n =>
      match s.phase with
      | .header =>
          if Reads s.stream sizeofJoyScrHeader n then
            some ((s.consume n).takeHeader video (s.stream.take n))
          else none
      | .body size loc =>
          if Reads s.stream (readCount size loc) n then
            if n = 0 then some s.announce
            else some ((s.consume n).takeBody size loc (s.stream.take n))
          else none
      | .ended => none
  | .readFails interrupted =>
      match s.phase with
      | .header => some s.leave
      | .body size loc =>
          -- -1 is added to `loc` like any other result
          if interrupted then some (s.advance size (loc - 1)) else some s.leave
      | .ended => none
  | .selectFails interrupted =>
      match s.phase with
      | .ended => none
      | _ => if interrupted then some s else some s.leave

end PsplinkUsb.RemoteJoy.ReadThread
