import Mathlib.Data.List.FinRange
import PsplinkUsb.Psplink.ProgramMemory

/-!
The breakpoint table of `psplink/debug.c` and the operations on it. A slot of
the table is an index below `DEBUG_MAX_BPS`, which is what a
`struct Breakpoint *` into the table denotes; `NULL` is `none`.
-/

namespace PsplinkUsb.Psplink.BreakpointTable

open PsplinkUsb.Psplink.ProgramMemory

abbrev debugMaxBps : Nat := 32

abbrev Slot := Fin debugMaxBps

def swBreakInst : Word := 0x0000000d#32

def debugBpActive : Word := 1#32
def debugBpOneshot : Word := 2#32
def debugBpHardware : Word := 4#32
def debugBpDisabled : Word := 8#32
def debugBpNextReenable : Word := 32#32

structure Breakpoint where
  addr : Word
  inst : Word
  flags : Word
  thid : Int
  step : Option Slot
deriving DecidableEq, Repr

namespace Breakpoint

def zero : Breakpoint := ⟨0, 0, 0, 0, none⟩

def active (b : Breakpoint) : Bool := has b.flags debugBpActive
def oneshot (b : Breakpoint) : Bool := has b.flags debugBpOneshot
def hardware (b : Breakpoint) : Bool := has b.flags debugBpHardware
def disabled (b : Breakpoint) : Bool := has b.flags debugBpDisabled

end Breakpoint

/-- The registers of `psplinkHwContext` that `debug_set_hwbreak` writes, with
`DRCNTL`, which `debugClearException` copies. -/
structure HwDebugEnv where
  drcntl : Word
  ibc : Word
  iba : Word
  ibam : Word
deriving DecidableEq, Repr

/-- The table `g_bps`, program memory and the hardware debug registers. -/
structure DebugState where
  bps : Slot → Breakpoint
  mem : Memory
  hw : HwDebugEnv

namespace DebugState

def setBp (s : DebugState) (i : Slot) (b : Breakpoint) : DebugState :=
  { s with bps := Function.update s.bps i b }

def store (s : DebugState) (value address : Word) : DebugState :=
  { s with mem := sw s.mem value address }

@[simp] theorem setBp_mem (s : DebugState) (i : Slot) (b : Breakpoint) :
    (s.setBp i b).mem = s.mem := rfl

@[simp] theorem setBp_bps (s : DebugState) (i : Slot) (b : Breakpoint) :
    (s.setBp i b).bps = Function.update s.bps i b := rfl

@[simp] theorem store_mem (s : DebugState) (value address : Word) :
    (s.store value address).mem = sw s.mem value address := rfl

@[simp] theorem store_bps (s : DebugState) (value address : Word) :
    (s.store value address).bps = s.bps := rfl

end DebugState

/-- `debug_set_hwbreak`: address 0 switches the hardware breakpoint off. -/
def debugSetHwbreak (addr : Word) (s : DebugState) : DebugState :=
  { s with
    hw := if addr ≠ 0 then { s.hw with ibc := 0x12, iba := addr, ibam := 0 }
      else { s.hw with ibc := 0x10, iba := 0, ibam := 0 } }

@[simp] theorem debugSetHwbreak_mem (addr : Word) (s : DebugState) :
    (debugSetHwbreak addr s).mem = s.mem := rfl

@[simp] theorem debugSetHwbreak_bps (addr : Word) (s : DebugState) :
    (debugSetHwbreak addr s).bps = s.bps := rfl

def firstSlot (p : Slot → Bool) : Option Slot := (List.finRange debugMaxBps).find? p

theorem firstSlot_eq_none {p : Slot → Bool} :
    firstSlot p = none ↔ ∀ i, p i = false := by
  simp [firstSlot]

theorem firstSlot_some {p : Slot → Bool} {i : Slot} (h : firstSlot p = some i) :
    p i = true := List.find?_some h

/-- `find_bp`: addresses are compared without the top nibble. -/
def findBp (s : DebugState) (address : Word) : Option Slot :=
  firstSlot fun i => (s.bps i).active && cell (s.bps i).addr == cell address

def findHwbp (s : DebugState) : Option Slot :=
  firstSlot fun i => (s.bps i).active && (s.bps i).hardware

def findFreebp (s : DebugState) : Option Slot :=
  firstSlot fun i => !(s.bps i).active

theorem findBp_some {s : DebugState} {address : Word} {i : Slot}
    (h : findBp s address = some i) :
    (s.bps i).active = true ∧ cell (s.bps i).addr = cell address := by
  simpa using firstSlot_some h

theorem findBp_none {s : DebugState} {address : Word} (h : findBp s address = none)
    {i : Slot} (hactive : (s.bps i).active = true) :
    cell (s.bps i).addr ≠ cell address := by
  have := firstSlot_eq_none.mp h i
  simpa [hactive] using this

theorem findHwbp_none {s : DebugState} (h : findHwbp s = none) {i : Slot}
    (hactive : (s.bps i).active = true) : (s.bps i).hardware = false := by
  have := firstSlot_eq_none.mp h i
  simpa [hactive] using this

theorem findFreebp_some {s : DebugState} {i : Slot} (h : findFreebp s = some i) :
    (s.bps i).active = false := by
  simpa using firstSlot_some h

/-- Plant the break instruction of slot `i`, or arm the hardware breakpoint. -/
def plant (s : DebugState) (hardware : Bool) (address : Word) : DebugState :=
  if hardware then debugSetHwbreak address s else s.store swBreakInst address

/-- Put the saved instruction of `b` back, or disarm the hardware breakpoint. -/
def unplant (s : DebugState) (b : Breakpoint) : DebugState :=
  if b.hardware then debugSetHwbreak 0 s else s.store b.inst b.addr

/-- `debugSetBP`: the slot armed, or `NULL` when the address already has a
breakpoint, a second hardware breakpoint is asked for or the table is full. -/
def debugSetBP (address flags : Word) (thid : Int) (s : DebugState) :
    Option Slot × DebugState :=
  match findBp s address with
  | some _ => (none, s)
  | none =>
      if has flags debugBpHardware && (findHwbp s).isSome then (none, s)
      else
        match findFreebp s with
        | none => (none, s)
        | some i =>
            let planted := plant s (has flags debugBpHardware) address
            (some i, planted.setBp i
              { addr := address, inst := lw s.mem address,
                flags := debugBpActive ||| flags, thid := thid, step := none })

def debugDeleteBP (addr : Word) (s : DebugState) : Int × DebugState :=
  match findBp s addr with
  | none => (0, s)
  | some i =>
      let b := s.bps i
      (1, (unplant s b).setBp i { b with flags := 0 })

def debugDisableBP (addr : Word) (s : DebugState) : Int × DebugState :=
  match findBp s addr with
  | none => (0, s)
  | some i =>
      let b := s.bps i
      (1, (unplant s b).setBp i { b with flags := b.flags ||| debugBpDisabled })

def debugEnableBP (addr : Word) (s : DebugState) : Int × DebugState :=
  match findBp s addr with
  | none => (0, s)
  | some i =>
      let b := s.bps i
      (1, (plant s b.hardware b.addr).setBp i
        { b with flags := b.flags &&& ~~~(debugBpDisabled ||| debugBpNextReenable) })

def psplinkExtypeDebug : Word := 1#32

/-- What the debugger reads and writes of a `struct PsplinkContext`. -/
structure PsplinkContext where
  epc : Word
  cause : Word
  type : Word
  r : Fin 32 → Word
  thid : Int
  drcntl : Word
  error : Int

/-- The address an exception is about: `epc`, or the delay slot after it. -/
def PsplinkContext.address (ctx : PsplinkContext) : Word :=
  if has ctx.cause 0x80000000#32 then ctx.epc + 4 else ctx.epc

/-- `debugClearException`: a one-shot breakpoint that was hit is deleted, and
with it the breakpoint its `step` link names. -/
def debugClearException (ctx : PsplinkContext) (s : DebugState) :
    PsplinkContext × DebugState :=
  let ctx := if ctx.type = psplinkExtypeDebug then { ctx with drcntl := s.hw.drcntl } else ctx
  let ctx := { ctx with error := 1 }
  match findBp s ctx.address with
  | none => (ctx, s)
  | some i =>
      let b := s.bps i
      if b.disabled then (ctx, s)
      else if b.oneshot then
        let deleted := (debugDeleteBP b.addr s).2
        match b.step with
        | none => ({ ctx with error := 0 }, deleted)
        | some j => ({ ctx with error := 0 }, (debugDeleteBP (deleted.bps j).addr deleted).2)
      else ({ ctx with error := 0 }, s)

end PsplinkUsb.Psplink.BreakpointTable
