import PsplinkUsb.UsbHostfs.ChannelWrites

/-!
The way of a joystick event: `send_event` of the viewer writes a record, `async_thread` makes
packets of what it reads, and `main_thread` of `tools/remotejoy/main.c` reads the channel.
-/

namespace PsplinkUsb.RemoteJoy.JoyEvents

open PsplinkUsb.HostFs.Wire
open PsplinkUsb.UsbHostfs.AsyncChannel
open PsplinkUsb.UsbHostfs.ChannelWrites

def joyMagic : Word := 0x909ACCEF

def typeButtonDown : Word := 1
def typeButtonUp : Word := 2
def typeAnalogY : Word := 3
def typeAnalogX : Word := 4
def typeScreenCmd : Word := 5

def asyncShell : Channel := 0
def asyncJoy : Channel := 4

/-- `struct JoyEvent` without its magic. -/
structure JoyEvent where
  type : Word
  value : Word
deriving DecidableEq, Repr

def sizeofJoyEvent : ℕ := 12

/-- The record `send_event` writes. -/
def JoyEvent.encode (e : JoyEvent) : Bytes := le32 joyMagic ++ le32 e.type ++ le32 e.value

def JoyEvent.decode (bytes : Bytes) : JoyEvent where
  type := field32 bytes 4
  value := field32 bytes 8

/-- The fields of `g_currjoy` that are used. -/
structure CtrlData where
  buttons : Word
  lx : UInt8
  ly : UInt8
deriving DecidableEq, Repr

/-- The switch of `main_thread`. -/
def CtrlData.apply (joy : CtrlData) (e : JoyEvent) : CtrlData :=
  if e.type = typeButtonUp then { joy with buttons := joy.buttons &&& ~~~e.value }
  else if e.type = typeButtonDown then { joy with buttons := joy.buttons ||| e.value }
  else if e.type = typeAnalogY then { joy with ly := UInt8.ofNat e.value.toNat }
  else if e.type = typeAnalogX then { joy with lx := UInt8.ofNat e.value.toNat }
  else joy

/-- The buttons that events of the two kinds leave down. -/
def buttonMask (events : List JoyEvent) : Word :=
  events.foldl
    (fun mask e =>
      if e.type = typeButtonDown then mask ||| e.value
      else if e.type = typeButtonUp then mask &&& ~~~e.value
      else mask) 0

/-- How much `async_thread` reads from a client at once. -/
def asyncReadLimit : ℕ := 512 - sizeofAsyncCommand

/-- What `async_thread` sends for one read: a daemon takes the lines of the shell that start
with `@` itself. -/
def asyncThreadPacket (daemon device : Bool) (i : Channel) (data : Bytes) : Option Bytes :=
  if daemon ∧ i = asyncShell ∧ data.head? = some 0x40 then none
  else if device then some (asyncCommand i ++ data)
  else none

/-- `main_thread` waits for its channel, is past the wait, or has returned from `usbAsyncRead`
with some bytes. -/
inductive Phase where
  | waiting
  | woken
  | read (joyevent : Bytes)
deriving DecidableEq, Repr

/-- `packets` are on their way; `applied` and `screenCmds` are what `main_thread` has taken as
events and has given to `do_screen_cmd`. -/
structure State where
  usb : AsyncState
  packets : List Bytes
  phase : Phase
  currjoy : CtrlData
  applied : List JoyEvent
  screenCmds : List Word

/-- `main_thread` enters its loop once `usbAsyncRegister` has taken the channel. -/
def start (usb : AsyncState) (endp : EndpointPtr) (packets : List Bytes) : State where
  usb := (usbAsyncRegister (channelWord asyncJoy) (some endp) usb).2
  packets := packets
  phase := .waiting
  currjoy := { buttons := 0, lx := 0x80, ly := 0x80 }
  applied := []
  screenCmds := []

/-- The test after `usbAsyncRead`. -/
def IsEvent (joyevent : Bytes) : Prop :=
  joyevent.length = sizeofJoyEvent ∧ field32 joyevent 0 = joyMagic

instance (joyevent : Bytes) : Decidable (IsEvent joyevent) :=
  inferInstanceAs (Decidable (_ ∧ _))

def State.apply (s : State) (e : JoyEvent) : State :=
  { s with
    currjoy := s.currjoy.apply e
    applied := s.applied ++ [e]
    screenCmds := s.screenCmds ++ if e.type = typeScreenCmd then [e.value] else [] }

inductive Action where
  | arrive
  | wait
  | waitError
  | readSection
  | handle
deriving DecidableEq, Repr

def step (s : State) : Action → Option State
  | .arrive =>
      match s.packets with
      | [] => none
      | packet :: packets => some { s with usb := fillAsync packet s.usb, packets := packets }
  | .wait =>
      if s.phase = .waiting ∧ s.usb.asyncevent asyncJoy then
        some { s with usb := setEvent asyncJoy false s.usb, phase := .woken }
      else none
  -- `main_thread` sleeps a while and tries again
  | .waitError => if s.phase = .waiting then some s else none
  | .readSection =>
      if s.phase = .woken then
        (s.usb.asyncChan asyncJoy).bind fun p =>
          (UsbHostfs.AsyncChannel.readSection asyncJoy sizeofJoyEvent s.usb).map fun usb =>
            { s with usb := usb, phase := .read (readBytes sizeofJoyEvent (s.usb.endpoints p)) }
      else none
  | .handle =>
      match s.phase with
      | .read joyevent =>
          let s := { s with phase := .waiting }
          if IsEvent joyevent then some (s.apply (JoyEvent.decode joyevent))
          else some { s with usb := (flushSection asyncJoy s.usb).getD s.usb }
      | _ => none

end PsplinkUsb.RemoteJoy.JoyEvents
