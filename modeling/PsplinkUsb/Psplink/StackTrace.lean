import Mathlib.Data.List.Basic
import Mathlib.Logic.Function.Basic

/-!
The stack trace of `psplink/trap.c`. From a program counter it looks back for the return that
ends the subroutine before, and from there forward for the size of the stack frame and the
registers saved in it.
-/

namespace PsplinkUsb.Psplink.StackTrace

abbrev Word := BitVec 32

def mipsJrRa : Word := 0x03e00008
def mipsJrK0 : Word := 0x03400008
def mipsEret : Word := 0x42000018

def verylocore : Word := 0x400000

/-- The fields of `InstFmt`. -/
def op (instr : Word) : Word := instr >>> 26
def rs (instr : Word) : ℕ := (instr >>> 21 &&& 0x1f).toNat
def rt (instr : Word) : ℕ := (instr >>> 16 &&& 0x1f).toNat
def func (instr : Word) : Word := instr &&& 0x3f

/-- `(short)i.IType.imm`. -/
def imm (instr : Word) : Word := (instr.setWidth 16).signExtend 32

def opSpecial : Word := 0o00
def opBcond : Word := 0o01
def opJ : Word := 0o02
def opJal : Word := 0o03
def opBeq : Word := 0o04
def opBne : Word := 0o05
def opBlez : Word := 0o06
def opBgtz : Word := 0o07
def opAddi : Word := 0o10
def opAddiu : Word := 0o11
def opCop0 : Word := 0o20
def opCop1 : Word := 0o21
def opCop2 : Word := 0o22
def opCop3 : Word := 0o23
def opDaddi : Word := 0o30
def opDaddiu : Word := 0o31
def opSw : Word := 0o53
def opSd : Word := 0o77

def opJr : Word := 0o10
def opJalr : Word := 0o11
def opSyscall : Word := 0o14
def opBreak : Word := 0o15

def opBcx : ℕ := 0o10
def opBcy : ℕ := 0o14

section

variable (mem : Word → Word)

def kdbpeek (addr : Word) : Word :=
  if addr &&& 3 ≠ 0 then -1 else if addr = 0 then 0xdeadfeed else mem addr

def kdbrpeek (addr : Word) (n : Word) : Word :=
  if addr &&& (n - 1) ≠ 0 then -1 else if addr = 0 then 0xdeadfeed else mem addr

def isReturn (instr : Word) : Bool := instr = mipsJrRa ∨ instr = mipsJrK0

/-- The first loop: where the code behind the last return before `va` starts, or that there is
none; `none` while the loop has not come to its end. -/
def findStart : ℕ → Word → Option (Option Word)
  | 0, _ => none
  | n + 1, va =>
      let va := va - 4
      if va ≤ verylocore then some none
      else
        let instr := kdbpeek mem va
        if instr = mipsEret then some (some (va + 4))
        else if isReturn instr then some (some (va + 4 + 4))
        else findStart n va

/-- The loop over the nulls between two object files. -/
def skipNulls : ℕ → Word → Option Word
  | 0, _ => none
  | n + 1, va => if kdbpeek mem va = 0 then skipNulls n (va + 4) else some va

/-- How many instructions there are from one on that ends a stretch of code. -/
def stops (instr : Word) : Option ℕ :=
  if op instr = opSpecial then
    if func instr = opJr ∨ func instr = opJalr then some 2
    else if func instr = opSyscall ∨ func instr = opBreak then some 1
    else none
  else if op instr ∈ [opBcond, opJ, opJal, opBeq, opBne, opBlez, opBgtz] then some 2
  else if op instr ∈ [opCop0, opCop1, opCop2, opCop3] ∧ (rs instr = opBcx ∨ rs instr = opBcy) then
    some 2
  else none

/-- The parameters that are registers, under the numbers of these: `a0` to `a3`, `fp`, `ra`. -/
abbrev Registers := ℕ → Word

def traced : List ℕ := [4, 5, 6, 7, 30, 31]

/-- What the second loop finds out about a subroutine. -/
structure Frame where
  registers : Registers
  mask : Word
  stksize : Word
  foundframesize : Bool

def Frame.start (registers : Registers) : Frame where
  registers := registers
  mask := 0
  stksize := 0
  foundframesize := false

/-- The cases of the second loop for a store to the stack and for a change of the stack
pointer. -/
def Frame.note (sp : Word) (frame : Frame) (instr : Word) : Frame :=
  if op instr = opSw ∨ op instr = opSd then
    let size : Word := if op instr = opSw then 4 else 8
    if rs instr ≠ 29 then frame
    -- only the first store of a register
    else if frame.mask.getLsbD (rt instr) then frame
    else
      let frame := { frame with mask := frame.mask ||| (1 : Word) <<< rt instr }
      if rt instr ∈ traced then
        { frame with registers :=
            Function.update frame.registers (rt instr) (kdbrpeek mem (sp + imm instr) size) }
      else frame
  else if op instr ∈ [opAddi, opAddiu, opDaddi, opDaddiu] then
    if rs instr ≠ 29 ∨ rt instr ≠ 29 then frame
    else if frame.foundframesize then frame
    else { frame with stksize := -imm instr, foundframesize := true }
  else frame

/-- `more` after a turn of the second loop. -/
def after (more : ℕ) : ℕ := if more = 3 then 3 else more - 1

def scan (sp pc : Word) : ℕ → Word → ℕ → Frame → Option Frame
  | 0, _, _, _ => none
  | n + 1, va, more, frame =>
      if more = 0 ∨ pc ≤ va then some frame
      else
        let instr := kdbpeek mem va
        scan sp pc n (va + 4) (after ((stops instr).getD more)) (frame.note mem sp instr)

inductive Line where
  | frame (subr a0 a1 a2 a3 pc ra stksize : Word)
  | badSp (sp : Word)
  | badPc (pc : Word)
  | countExceeded
  | traceLoop
  | done
deriving DecidableEq

def lineOf (subr pc stksize : Word) (registers : Registers) : Line :=
  .frame subr (registers 4) (registers 5) (registers 6) (registers 7) pc (registers 31) stksize

/-- `stacktrace_subr`, for so many frames at most, with so many turns for each of its loops. -/
def stacktraceSubr (fuel : ℕ) : ℕ → Registers → Word → Word → Option (List Line)
  | 0, _, _, _ => some [.countExceeded, .done]
  | left + 1, registers, pc, sp =>
      if sp &&& 3 ≠ 0 then
        some [.badSp sp, lineOf 0 pc 0 (Function.update registers 31 0), .done]
      else if pc &&& 3 ≠ 0 then
        some [.badPc pc, lineOf 0 pc 0 (Function.update registers 31 0), .done]
      else
        (findStart mem fuel pc).bind fun start =>
          match start with
          | none => some [.done]
          | some va =>
              (skipNulls mem fuel va).bind fun subr =>
                (scan mem sp pc fuel subr 3 (.start registers)).bind fun frame =>
                  let line := lineOf subr pc frame.stksize frame.registers
                  let ra := frame.registers 31
                  if ra = 0 then some [line, .done]
                  else if pc = ra ∧ frame.stksize = 0 then some [line, .traceLoop]
                  else
                    (stacktraceSubr fuel left (Function.update frame.registers 31 0) ra
                      (sp + frame.stksize)).map (line :: ·)

end

/-- `frames++ > 100` ends the trace. -/
def maxFrames : ℕ := 101

end PsplinkUsb.Psplink.StackTrace
