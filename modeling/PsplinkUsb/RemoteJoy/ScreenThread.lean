import Mathlib.Data.Nat.Notation

/-!
`screen_thread` and `do_screen_cmd` of `tools/remotejoy/main.c`, with the event flag and the
counted wakeups between them. Each call of the kernel is one step.
-/

namespace PsplinkUsb.RemoteJoy.ScreenThread

abbrev Word := BitVec 32

def screenCmdActive : Word := 1
def screenCmdHsize : Word := 2
def screenCmdFullcolor : Word := 4

def screenCmdGetDroprate (value : Word) : Word := value >>> 24

/-- Bits 1 and 2 of `g_screvent`. -/
structure ScreenEvent where
  frame : Bool
  stop : Bool
deriving DecidableEq, Repr

def ScreenEvent.clear : ScreenEvent := ⟨false, false⟩

/-- Where `screen_thread` is: before its loop, in the wait for an event, behind it with the
status, before `sceKernelSleepThread`, asleep in it, or at an end. -/
inductive Phase where
  | starting
  | waiting
  | woken (status : ScreenEvent) (timeout : Bool)
  | stopping
  | asleep
  | ended
deriving DecidableEq, Repr

/-- The thread, and the wakeups the kernel has counted for it. -/
structure Thread where
  phase : Phase
  wakeups : ℕ
deriving DecidableEq, Repr

/-- What is `none` has no id yet; `scrsema` tells whether the semaphore is free. -/
structure State where
  thread : Option Thread
  screvent : Option ScreenEvent
  scrsema : Option Bool
  enabled : Bool
  halfsize : Bool
  fullcolour : Bool
  droprate : Word
  lastframe : Word
  hooked : Bool
deriving DecidableEq, Repr

def start : State where
  thread := none
  screvent := none
  scrsema := none
  enabled := false
  halfsize := false
  fullcolour := false
  droprate := 0
  lastframe := 0
  hooked := false

/-- Which of the calls that make the event flag and the thread succeed. -/
structure Created where
  event : Bool
  thread : Bool
  started : Bool

/-- `sceKernelWakeupThread`. A thread that sleeps goes back to its wait. -/
def Thread.wakeup (t : Thread) : Thread :=
  match t.phase with
  | .asleep => { t with phase := .waiting }
  | .ended => t
  | _ => { t with wakeups := t.wakeups + 1 }

def enable (created : Created) (s : State) : State :=
  match s.thread with
  | none =>
      if created.event then
        let s := { s with screvent := some .clear, enabled := true }
        if created.thread then
          { s with thread := some ⟨if created.started then .starting else .ended, 0⟩ }
        else s
      else { s with screvent := none }
  | some t => if ¬s.enabled then { s with thread := some t.wakeup, enabled := true } else s

/-- The command takes the screen off: it sets bit 2 and clears `g_enabled`. -/
def TakesOff (s : State) : Prop := s.thread.isSome ∧ s.enabled = true

instance (s : State) : Decidable (TakesOff s) := inferInstanceAs (Decidable (_ ∧ _))

def disable (s : State) : State :=
  if TakesOff s then
    { s with screvent := s.screvent.map fun e => { e with stop := true }, enabled := false }
  else s

def Active (value : Word) : Prop := value &&& screenCmdActive ≠ 0

instance (value : Word) : Decidable (Active value) := inferInstanceAs (Decidable (_ ≠ _))

def doScreenCmd (value : Word) (created : Created) (s : State) : State :=
  let s := { s with
    fullcolour := value &&& screenCmdFullcolor ≠ 0
    halfsize := value &&& screenCmdHsize ≠ 0
    droprate := screenCmdGetDroprate value }
  if Active value then enable created s else disable s

/-- `set_frame_buf`, which is called once the thread has put it into the display driver. -/
def setFrameBuf (topaddr : Bool) (s : State) : State :=
  if s.lastframe = 0 then
    if topaddr ∧ s.scrsema = some true then
      { s with
        scrsema := some false
        screvent := s.screvent.map fun e => { e with frame := true }
        lastframe := s.droprate }
    else s
  else { s with lastframe := s.lastframe - 1 }

inductive Action where
  | screenCmd (value : Word) (created : Created)
  | setFrameBuf (topaddr : Bool)
  | begin (semaCreated : Bool)
  | wait
  | waitTimeout
  | waitError
  | frame
  | sleep

def State.setPhase (s : State) (t : Thread) (phase : Phase) : State :=
  { s with thread := some { t with phase := phase } }

/-- A step of `screen_thread`; `none` where it is not at that call. -/
def threadStep (s : State) (t : Thread) : Action → Option State
  | .begin semaCreated =>
      if t.phase = .starting then
        if semaCreated then
          some { s.setPhase t .waiting with scrsema := some true, hooked := true }
        else some (s.setPhase t .ended)
      else none
  | .wait =>
      match s.screvent with
      | some e =>
          if t.phase = .waiting ∧ e ≠ .clear then
            some { s.setPhase t (.woken e false) with screvent := some .clear }
          else none
      | none => none
  | .waitTimeout =>
      if t.phase = .waiting ∧ s.screvent = some .clear then
        some (s.setPhase t (.woken .clear true))
      else none
  | .waitError => if t.phase = .waiting then some (s.setPhase t .ended) else none
  | .frame =>
      match t.phase with
      | .woken status timeout =>
          let s := s.setPhase t (if status.stop then .stopping else .waiting)
          -- a frame is sent, and its semaphore signalled unless the wait timed out
          some (if status.frame ∧ ¬timeout then { s with scrsema := some true } else s)
      | _ => none
  | .sleep =>
      if t.phase = .stopping then
        match t.wakeups with
        | 0 => some (s.setPhase t .asleep)
        | n + 1 => some { s with thread := some ⟨.waiting, n⟩ }
      else none
  | _ => none

def step (s : State) : Action → Option State
  | .screenCmd value created => some (doScreenCmd value created s)
  | .setFrameBuf topaddr => if s.hooked then some (setFrameBuf topaddr s) else none
  | a => s.thread.bind fun t => threadStep s t a

end PsplinkUsb.RemoteJoy.ScreenThread
