import PsplinkUsb.Psplink.BreakpointConsistency
import PsplinkUsb.Psplink.Stepping

/-!
Threads in `psplinkTrap`. The handler of `exception_asm.S` takes a context for a thread that
an exception stops, `debugHandleException` offers it to the debuggers and then leaves the
thread asleep, and `exceptionResume` lets it go. What runs without interrupts is one step, as
is each call of the kernel.
-/

namespace PsplinkUsb.Psplink.ExceptionThreads

open PsplinkUsb.Psplink.ProgramMemory
open PsplinkUsb.Psplink.BreakpointTable
open PsplinkUsb.Psplink.BreakpointConsistency
open PsplinkUsb.Psplink.Stepping

abbrev psplinkMaxContext : ℕ := 8

/-- A pointer into `g_psplinkContext`. -/
abbrev Index := Fin psplinkMaxContext

abbrev Uid := Int

def pspExceptionExit : Word := 0
def pspExceptionContinue : Word := 1
def pspExceptionStep : Word := 2
def pspExceptionSkip : Word := 3
def pspExceptionNotHandled : Word := 4

structure Context where
  valid : Bool
  regs : PsplinkContext
  cont : Word

/-- What `psplinkExceptionHandler` stores of a thread. -/
structure Saved where
  epc : Word
  cause : Word
  type : Word
  r : Fin 32 → Word

/-- `DebugEventHandler`, but for the mailbox. -/
structure Handler where
  membase : Word
  memtop : Word

structure Env where
  entry : Uid → Word
  /-- The thread is called `PspLink`. -/
  parses : Uid → Bool
  handler : ℕ → Handler
  longjmp : Word
  parseenv : Word

/-- How far a thread is: in `debugHandleException` before its loop, at a handler of the list,
asleep after a post to one, behind the loop, asleep in the end; behind
`debugHandleException`, and where interrupts are off again. A thread that exits or faults
does not come back. -/
inductive Stage where
  | running
  | entered (c : Index)
  | examining (c : Index) (ev : Option ℕ)
  | posted (c : Index) (ev : ℕ)
  | unhandled (c : Index)
  | stopped (c : Index)
  | handled (c : Index)
  | restoring (c : Index)
  | exited (c : Index)
  | faulted (c : Option Index)
deriving DecidableEq

/-- The context a thread in `psplinkTrap` is stopped on. -/
def Stage.traps : Stage → Option Index
  | .running | .exited _ | .faulted _ => none
  | .entered c | .examining c _ | .posted c _ | .unhandled c | .stopped c | .handled c
  | .restoring c => some c

/-- The context that was taken for a thread and not given back. -/
def Stage.holds : Stage → Option Index
  | .exited c => some c
  | .faulted c => c
  | stage => stage.traps

structure State where
  contexts : Index → Context
  currex : Option Index
  stage : Uid → Stage
  wakeups : Uid → ℕ
  /-- `g_eventhead` and the `pNext` of each handler. -/
  eventhead : Option ℕ
  pNext : ℕ → Option ℕ
  debug : DebugState

namespace State

def setStage (s : State) (t : Uid) (stage : Stage) : State :=
  { s with stage := Function.update s.stage t stage }

def setContext (s : State) (c : Index) (ctx : Context) : State :=
  { s with contexts := Function.update s.contexts c ctx }

def setCont (s : State) (c : Index) (cont : Word) : State :=
  s.setContext c { s.contexts c with cont := cont }

/-- `sceKernelWakeupThread`; the kernel counts what comes before the sleep. -/
def wakeup (s : State) (t : Uid) : State :=
  { s with wakeups := Function.update s.wakeups t (s.wakeups t + 1) }

/-- The end of `sceKernelSleepThread`, once there is a wakeup. -/
def awake (s : State) (t : Uid) : Option State :=
  if s.wakeups t = 0 then none
  else some { s with wakeups := Function.update s.wakeups t (s.wakeups t - 1) }

end State

/-- `exceptionInit`. -/
def initial (debug : DebugState) : State where
  contexts := fun _ =>
    { valid := false
      regs := { epc := 0, cause := 0, type := 0, r := fun _ => 0, thid := 0, drcntl := 0, error := 0 }
      cont := 0 }
  currex := none
  stage := fun _ => .running
  wakeups := fun _ => 0
  eventhead := none
  pNext := fun _ => none
  debug := debug

/-- The first context of the list that is not valid. -/
def freeContext (s : State) : Option Index :=
  (List.finRange psplinkMaxContext).find? fun c => !(s.contexts c).valid

/-- From the exception to where `psplinkTrap` enables interrupts. Without a context it is
called with `NULL`. -/
def trap (t : Uid) (saved : Saved) (s : State) : State :=
  match freeContext s with
  | none => s.setStage t (.faulted none)
  | some c =>
      let ctx : PsplinkContext := { (s.contexts c).regs with
        epc := saved.epc, cause := saved.cause, type := saved.type, r := saved.r, thid := t }
      let cleared := debugClearException ctx s.debug
      let s := s.setContext c { s.contexts c with valid := true, regs := cleared.1 }
      { s.setStage t (.entered c) with currex := s.currex.or (some c), debug := cleared.2 }

section

variable (env : Env)

/-- One turn of the loop over the handlers, or its end. -/
def examine (t : Uid) (c : Index) (ev : Option ℕ) (sent : Bool) (s : State) : State :=
  match ev with
  | none =>
      s.setStage t
        (if (s.contexts c).cont = pspExceptionNotHandled then .unhandled c else .handled c)
  | some h =>
      if (env.handler h).membase ≤ env.entry t ∧ env.entry t ≤ (env.handler h).memtop ∧ sent then
        s.setStage t (.posted c h)
      else s.setStage t (.examining c (s.pNext h))

/-- Behind the post to a handler. -/
def answered (t : Uid) (c : Index) (h : ℕ) (s : State) : State :=
  if (s.contexts c).cont ≠ pspExceptionNotHandled then s.setStage t (.handled c)
  else s.setStage t (.examining c (s.pNext h))

/-- An exception that no handler took. `exceptionPrint` reads `g_currex->regs.type`; the
thread of the shell is sent to its `longjmp`. -/
def report (t : Uid) (c : Index) (s : State) : State :=
  let ctx := (s.contexts c).regs
  if ctx.error ≠ 0 ∧ s.currex = none then s.setStage t (.faulted (some c))
  else if env.parses t then
    let r := Function.update (Function.update ctx.r 4 env.parseenv) 5 1
    (s.setContext c { s.contexts c with
      regs := { ctx with epc := env.longjmp, r := r }
      cont := pspExceptionContinue }).setStage t (.handled c)
  else s.setStage t (.stopped c)

/-- The rest of `psplinkTrap` without interrupts, and the return from the exception. -/
def restore (t : Uid) (c : Index) (s : State) : State :=
  let ctx := s.contexts c
  let debug :=
    if ctx.cont = pspExceptionSkip then stepGeneric ctx.regs true s.debug
    else if ctx.cont = pspExceptionStep then stepGeneric ctx.regs false s.debug
    else s.debug
  let s := s.setContext c { ctx with valid := false }
  { s.setStage t .running with
    currex := if s.currex = some c then none else s.currex, debug := debug }

/-- The next step of a thread in `psplinkTrap`; `sent` is whether `sceKernelSendMbx`
succeeds. -/
def go (t : Uid) (sent : Bool) (s : State) : Option State :=
  match s.stage t with
  | .running | .exited _ | .faulted _ => none
  | .entered c =>
      some ((s.setCont c pspExceptionNotHandled).setStage t (.examining c s.eventhead))
  | .examining c ev => some (examine env t c ev sent s)
  | .posted c h => (s.awake t).map (answered t c h)
  | .unhandled c => some (report env t c s)
  | .stopped c => (s.awake t).map fun s => s.setStage t (.handled c)
  | .handled c =>
      some (s.setStage t
        (if (s.contexts c).cont = pspExceptionExit then .exited c else .restoring c))
  | .restoring c => some (restore t c s)

end

def exceptionResume (ctx : Option Index) (cont : Word) (s : State) : State :=
  match ctx.or s.currex with
  | none => s
  | some c => (s.setCont c cont).wakeup (s.contexts c).regs.thid

def exceptionSetCtx (ex : ℤ) (s : State) : State :=
  if h : 0 ≤ ex ∧ ex < psplinkMaxContext then
    if (s.contexts ⟨ex.toNat, by omega⟩).valid then
      { s with currex := some ⟨ex.toNat, by omega⟩ }
    else s
  else s

/-- What happens to the threads in `psplinkTrap`, and what the shell and the debuggers do to
them at any time: they resume and select contexts, write to one, wake threads, change
breakpoints and the list of handlers. -/
inductive Action where
  | trap (t : Uid) (saved : Saved)
  | go (t : Uid) (sent : Bool)
  | resume (ctx : Option Index) (cont : Word)
  | setCtx (ex : ℤ)
  | setCont (c : Index) (cont : Word)
  | setRegs (c : Index) (saved : Saved)
  | wake (t : Uid)
  | debug (op : DebugOp)
  | handlers (eventhead : Option ℕ) (pNext : ℕ → Option ℕ)

def setRegs (c : Index) (saved : Saved) (s : State) : State :=
  s.setContext c { s.contexts c with
    regs := { (s.contexts c).regs with
      epc := saved.epc, cause := saved.cause, type := saved.type, r := saved.r } }

def step (env : Env) (s : State) : Action → Option State
  | .trap t saved => if s.stage t = .running then some (trap t saved s) else none
  | .go t sent => go env t sent s
  | .resume ctx cont => some (exceptionResume ctx cont s)
  | .setCtx ex => some (exceptionSetCtx ex s)
  | .setCont c cont => some (s.setCont c cont)
  | .setRegs c saved => some (setRegs c saved s)
  | .wake t => some (s.wakeup t)
  | .debug op => some { s with debug := applyOp s.debug op }
  | .handlers eventhead pNext => some { s with eventhead := eventhead, pNext := pNext }

end PsplinkUsb.Psplink.ExceptionThreads
