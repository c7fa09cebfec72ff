import PsplinkUsb.Library.Routines
import PsplinkUsb.UsbHostfs.BulkRequests

namespace PsplinkUsb.UsbHostfs.CallerPrivilege

open PsplinkUsb.Library.Routines
open PsplinkUsb.HostFs.Wire
open PsplinkUsb.UsbHostfs.AsyncChannel
open PsplinkUsb.UsbHostfs.BulkRequests (Completion asyncPayload)
open PsplinkUsb.UsbHostfs.CommandXchg

/-- What these functions ask of the kernel, and of memory that other threads use too. -/
inductive Sys where
  | waitSema
  | signalSema
  | usbConnected
  | bulkinReq (data : Bytes)
  | waitTransevent
  | asyncChan (c : Channel)
  | waitAsyncevent (c : Channel) (timeout : Option ℕ)
  | asyncState
  | setAsyncState (s : AsyncState)
  | store (data : Bytes)

abbrev Sys.Answer : Sys → Type
  | .waitSema => ℤ
  | .signalSema => ℤ
  | .usbConnected => Bool
  | .bulkinReq _ => ℤ
  | .waitTransevent => ℤ × Completion
  | .asyncChan _ => Option EndpointPtr
  | .waitAsyncevent _ _ => ℤ
  | .asyncState => AsyncState
  | .setAsyncState _ => Unit
  | .store _ => Unit

/-- A routine of a thread whose register is `k1`. -/
abbrev Usb := Routine Sys Sys.Answer Word

def sys (c : Sys) : Usb c.Answer := .call c .done

/-- `psplinkSetK1`. -/
def psplinkSetK1 (k1 : Word) : Usb Word := .exchange k1 .done

/-- A pointer of the caller, with what it points to. -/
structure Data where
  addr : Word
  byte : ℕ → UInt8

def Data.bytes (data : Data) (start size : ℕ) : Bytes :=
  (List.range size).map fun i => data.byte (start + i)

/-- A buffer of the function itself. -/
def Data.ofBytes (bytes : Bytes) : Data where
  addr := 0
  byte i := bytes.getD i 0

def writeLoop (data : Data) (size writelen : ℤ) : Usb ℤ :=
  if writelen < size then do
    let nextsize := min (size - writelen).toNat txBufSize
    let _ ← sys (.bulkinReq (data.bytes writelen.toNat nextsize))
    let done ← sys .waitTransevent
    if done.1 = 0 then
      if hmoved : done.2.Moved then
        writeLoop data size (writelen + done.2.recvsize)
      else return -1
    else return -1
  else return writelen
termination_by (size - writelen).toNat
decreasing_by
  have := hmoved.2
  omega

def writeData (data : Data) (size : ℤ) : Usb ℤ := writeLoop data size 0

def writeDataLarge (data : Data) (size : ℤ) : Usb ℤ := do
  if data.addr &&& 63 ≠ 0 then return -1
  let _ ← sys (.bulkinReq (data.bytes 0 size.toNat))
  let done ← sys .waitTransevent
  if done.1 = 0 ∧ done.2.Moved then return size else return -1

def usbLockBus : Usb ℤ := do
  let k1 ← psplinkSetK1 0
  let err ← sys .waitSema
  let _ ← psplinkSetK1 k1
  return err

def usbUnlockBus : Usb ℤ := do
  let k1 ← psplinkSetK1 0
  let err ← sys .signalSema
  let _ ← psplinkSetK1 k1
  return err

def sendAsync (data : Bytes) : Usb Bool := do
  let err ← sys .waitSema
  if err < 0 then return false
  let ret ← if data = [] then pure true else do
    let err ← writeData (.ofBytes data) data.length
    pure (decide (err = data.length))
  let _ ← sys .signalSema
  return ret

/-- The loop of `usbAsyncWrite`, with the value of `written`. -/
def asyncLoop (chan : Word) (data : Data) (len written : ℤ) : Usb ℤ :=
  if written < len then do
    let size := min (len - written).toNat asyncPayload
    let sent ← sendAsync (le32 asyncMagic ++ le32 chan ++ data.bytes written.toNat size)
    if sent then asyncLoop chan data len (written + size) else return written
  else return written
termination_by (len - written).toNat
decreasing_by
  simp only [asyncPayload]
  omega

def usbAsyncWrite (chan : Word) (data : Data) (len : ℤ) : Usb ℤ := do
  let k1 ← psplinkSetK1 0
  let connected ← sys .usbConnected
  let ret ← (if connected then asyncLoop chan data len 0 else pure (-1))
  let _ ← psplinkSetK1 k1
  return ret

/-- The part of `usbWriteBulkData` with `g_mainsema`: the `err` at its end. -/
def writeBulk (chan : Word) (data : Data) (len : ℤ) : Usb ℤ := do
  let cmd := le32 bulkMagic ++ le32 chan ++ le32 (BitVec.ofInt 32 len)
  let err ← writeData (.ofBytes cmd) cmd.length
  if err ≠ cmd.length then return -1
  let err ← writeDataLarge data len
  if err ≠ len then return -1
  return err

def usbWriteBulkData (chan : Word) (data : Data) (len : ℤ) : Usb ℤ := do
  let k1 ← psplinkSetK1 0
  let connected ← sys .usbConnected
  let ret ←
    (if ¬connected then pure (-1)
    else if len ≤ 0 ∨ hostfsBulkMaxwrite < len then pure (-1)
    else do
      let err ← sys .waitSema
      if err < 0 then return -1
      let err ← writeBulk chan data len
      let _ ← sys .signalSema
      return if 0 ≤ err then len else -1)
  let _ ← psplinkSetK1 k1
  return ret

/-- The section of `usbAsyncReadWithTimeout`, which finds the channel as it is by then. -/
def readChannel (c : Channel) (len : ℤ) : Usb ℤ := do
  let s ← sys .asyncState
  match s.asyncChan c, readSection c len s with
  | some p, some s' => do
      let _ ← sys (.store (readBytes len (s.endpoints p)))
      let _ ← sys (.setAsyncState s')
      return readLength len (s.endpoints p)
  | _, _ => .fault

def usbAsyncReadWithTimeout (chan : Word) (len timeout : ℤ) : Usb ℤ := do
  let k1 ← psplinkSetK1 0
  match toChannel chan with
  | none => return -1
  | some c =>
      let endp ← sys (.asyncChan c)
      if endp = none then return -1
      let ret ← sys (.waitAsyncevent c (if 0 ≤ timeout then some timeout.toNat else none))
      if ret < 0 then return -1
      let len ← readChannel c len
      let _ ← psplinkSetK1 k1
      return len

def usbAsyncRead (chan : Word) (len : ℤ) : Usb ℤ := usbAsyncReadWithTimeout chan len (-1)

/-- The calls of the functions. -/
inductive Exported where
  | lockBus
  | unlockBus
  | asyncRead (chan : Word) (len : ℤ)
  | asyncReadWithTimeout (chan : Word) (len timeout : ℤ)
  | asyncWrite (chan : Word) (data : Data) (len : ℤ)
  | writeBulkData (chan : Word) (data : Data) (len : ℤ)

def Exported.routine : Exported → Usb ℤ
  | .lockBus => usbLockBus
  | .unlockBus => usbUnlockBus
  | .asyncRead chan len => usbAsyncRead chan len
  | .asyncReadWithTimeout chan len timeout => usbAsyncReadWithTimeout chan len timeout
  | .asyncWrite chan data len => usbAsyncWrite chan data len
  | .writeBulkData chan data len => usbWriteBulkData chan data len

theorem usbLockBus_restores : usbLockBus.Restores := Routine.restores_within 0 (sys .waitSema)

theorem usbUnlockBus_restores : usbUnlockBus.Restores :=
  Routine.restores_within 0 (sys .signalSema)

theorem usbAsyncWrite_restores (chan : Word) (data : Data) (len : ℤ) :
    (usbAsyncWrite chan data len).Restores := by
  have hwithin : usbAsyncWrite chan data len = .within 0 (do
      let connected ← sys .usbConnected
      (if connected then asyncLoop chan data len 0 else pure (-1))) := rfl
  rw [hwithin]
  apply Routine.restores_within

theorem usbWriteBulkData_restores (chan : Word) (data : Data) (len : ℤ) :
    (usbWriteBulkData chan data len).Restores := by
  have hwithin : usbWriteBulkData chan data len = .within 0 (do
      let connected ← sys .usbConnected
      (if ¬connected then pure (-1)
      else if len ≤ 0 ∨ hostfsBulkMaxwrite < len then pure (-1)
      else do
        let err ← sys .waitSema
        if err < 0 then return -1
        let err ← writeBulk chan data len
        let _ ← sys .signalSema
        return if 0 ≤ err then len else -1)) := rfl
  rw [hwithin]
  apply Routine.restores_within

variable {answers : Answers Sys Sys.Answer} {chan : Word} {len timeout : ℤ}

/-- The wait of `usbAsyncReadWithTimeout`, its second call. -/
def waitResult (answers : Answers Sys Sys.Answer) (c : Channel) (timeout : ℤ) : ℤ :=
  answers 1 (.waitAsyncevent c (if 0 ≤ timeout then some timeout.toNat else none))

/-- A read that ends before its section: for a bad channel, one that is not registered, or
after a wait that failed or timed out. -/
def ReadEndsEarly (answers : Answers Sys Sys.Answer) (chan : Word) (timeout : ℤ) : Prop :=
  match toChannel chan with
  | none => True
  | some c => answers 0 (.asyncChan c) = none ∨ waitResult answers c timeout < 0

theorem run_read_early (h : ReadEndsEarly answers chan timeout) (k1 : Word) :
    ∃ n, (usbAsyncReadWithTimeout chan len timeout).run answers 0 k1 = some (-1, n, 0) := by
  rw [ReadEndsEarly] at h
  cases hc : toChannel chan with
  | none =>
      refine ⟨0, ?_⟩
      rw [usbAsyncReadWithTimeout, hc]
      rfl
  | some c =>
      rw [hc] at h
      rw [usbAsyncReadWithTimeout, hc]
      by_cases hendp : answers 0 (.asyncChan c) = none
      · refine ⟨1, ?_⟩
        show Routine.run answers (if answers 0 (.asyncChan c) = none then _ else _) 1 0 = _
        rw [if_pos hendp]
        rfl
      · refine ⟨2, ?_⟩
        show Routine.run answers (if answers 0 (.asyncChan c) = none then _ else _) 1 0 = _
        rw [if_neg hendp]
        show Routine.run answers (if waitResult answers c timeout < 0 then _ else _) 2 0 = _
        rw [if_pos (h.resolve_left hendp)]
        rfl

theorem run_read_late (h : ¬ReadEndsEarly answers chan timeout) (k1 : Word) :
    ∀ r ∈ (usbAsyncReadWithTimeout chan len timeout).run answers 0 k1, r.2.2 = k1 := by
  rw [ReadEndsEarly] at h
  cases hc : toChannel chan with
  | none =>
      rw [hc] at h
      exact absurd trivial h
  | some c =>
      rw [hc] at h
      obtain ⟨hendp, hwait⟩ := not_or.mp h
      have hrun : (usbAsyncReadWithTimeout chan len timeout).run answers 0 k1 =
          ((readChannel c len).run answers 2 0).map fun r => (r.1, r.2.1, k1) := by
        rw [usbAsyncReadWithTimeout, hc]
        show Routine.run answers (if answers 0 (.asyncChan c) = none then _ else _) 1 0 = _
        rw [if_neg hendp]
        show Routine.run answers (if waitResult answers c timeout < 0 then _ else _) 2 0 = _
        rw [if_neg hwait]
        show Routine.run answers ((readChannel c len).bind _) 2 0 = _
        rw [Routine.run_bind]
        cases (readChannel c len).run answers 2 0 <;> rfl
      rw [hrun]
      intro r hr
      obtain ⟨r', -, rfl⟩ := Option.map_eq_some_iff.mp hr
      rfl

def Exported.EndsEarly (answers : Answers Sys Sys.Answer) : Exported → Prop
  | .asyncRead chan _ => ReadEndsEarly answers chan (-1)
  | .asyncReadWithTimeout chan _ timeout => ReadEndsEarly answers chan timeout
  | _ => False

theorem read_restores_iff (k1 : Word) :
    (∀ r ∈ (usbAsyncReadWithTimeout chan len timeout).run answers 0 k1, r.2.2 = k1) ↔
      k1 = 0 ∨ ¬ReadEndsEarly answers chan timeout := by
  constructor
  · intro h
    by_cases hearly : ReadEndsEarly answers chan timeout
    · obtain ⟨n, hrun⟩ := @run_read_early answers chan len timeout hearly k1
      exact .inl (h _ hrun).symm
    · exact .inr hearly
  · rintro (rfl | hlate)
    · by_cases hearly : ReadEndsEarly answers chan timeout
      · obtain ⟨n, hrun⟩ := @run_read_early answers chan len timeout hearly 0
        rw [hrun]
        rintro r ⟨⟩
        rfl
      · exact run_read_late hearly 0
    · exact run_read_late hlate k1

/-- A call of one of the functions restores `k1` exactly if `k1` was 0 before it or it is not a
read that ends before its section. -/
theorem k1_restored_iff (f : Exported) (answers : Answers Sys Sys.Answer) (k1 : Word) :
    (∀ r ∈ f.routine.run answers 0 k1, r.2.2 = k1) ↔ k1 = 0 ∨ ¬f.EndsEarly answers := by
  cases f with
  | lockBus => exact iff_of_true (usbLockBus_restores answers 0 k1) (.inr id)
  | unlockBus => exact iff_of_true (usbUnlockBus_restores answers 0 k1) (.inr id)
  | asyncRead chan len => exact read_restores_iff k1
  | asyncReadWithTimeout chan len timeout => exact read_restores_iff k1
  | asyncWrite chan data len =>
      exact iff_of_true (usbAsyncWrite_restores chan data len answers 0 k1) (.inr id)
  | writeBulkData chan data len =>
      exact iff_of_true (usbWriteBulkData_restores chan data len answers 0 k1) (.inr id)

/-- A user thread, whose `k1` is not 0, reads from channel 8, which there is not. -/
theorem bad_channel_keeps_kernel_rights :
    ¬∀ (f : Exported) (answers : Answers Sys Sys.Answer) (k1 : Word),
      ∀ r ∈ f.routine.run answers 0 k1, r.2.2 = k1 := by
  intro h
  let answers : Answers Sys Sys.Answer := fun _ c =>
    match c with
    | .waitSema => 0
    | .signalSema => 0
    | .usbConnected => true
    | .bulkinReq _ => 0
    | .waitTransevent => (0, ⟨0, 0, []⟩)
    | .asyncChan _ => none
    | .waitAsyncevent _ _ => 0
    | .asyncState => ⟨fun _ => none, fun _ => ⟨fun _ => 0, 0, 0, 0⟩, fun _ => false⟩
    | .setAsyncState _ => ()
    | .store _ => ()
  have hkept : (0 : Word) = 0x100000 := h (.asyncRead 8 1) answers 0x100000 (-1, 0, 0) rfl
  exact absurd hkept (by decide)

end PsplinkUsb.UsbHostfs.CallerPrivilege
