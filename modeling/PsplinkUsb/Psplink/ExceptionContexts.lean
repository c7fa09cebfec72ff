import PsplinkUsb.Library.Run
import PsplinkUsb.Psplink.ExceptionThreads

namespace PsplinkUsb.Psplink.ExceptionContexts

open PsplinkUsb.Library
open PsplinkUsb.Library.Run
open PsplinkUsb.Psplink.ProgramMemory
open PsplinkUsb.Psplink.BreakpointTable
open PsplinkUsb.Psplink.BreakpointConsistency
open PsplinkUsb.Psplink.Stepping
open PsplinkUsb.Psplink.ExceptionThreads

variable {env : Env} {s s' : State} {a : Action} {t t' : Uid} {c c' : Index}

/-- What a step leaves of who holds which context. -/
structure Keeps (s s' : State) : Prop where
  held : ∀ t, (s'.stage t).holds = (s.stage t).holds
  traps : ∀ t c, (s'.stage t).traps = some c → (s.stage t).traps = some c
  valid : ∀ c, (s'.contexts c).valid = (s.contexts c).valid
  thid : ∀ c, (s'.contexts c).regs.thid = (s.contexts c).regs.thid
  current : ∀ c, s'.currex = some c → s.currex = some c ∨ (s.contexts c).valid = true
  currex : s'.currex = none → s.currex = none

/-- Thread `t` is stopped on context `c`, which was free. -/
structure Takes (t : Uid) (c : Index) (s s' : State) : Prop where
  free : (s.contexts c).valid = false
  before : (s.stage t).holds = none
  stage : s'.stage = Function.update s.stage t (.entered c)
  taken : (s'.contexts c).valid = true ∧ (s'.contexts c).regs.thid = t
  rest : ∀ c', c' ≠ c → s'.contexts c' = s.contexts c'
  current : s'.currex = s.currex.or (some c)

/-- Thread `t` runs on, and context `c` is free again. -/
structure Gives (t : Uid) (c : Index) (s s' : State) : Prop where
  before : s.stage t = .restoring c
  stage : s'.stage = Function.update s.stage t .running
  freed : (s'.contexts c).valid = false
  rest : ∀ c', c' ≠ c → s'.contexts c' = s.contexts c'
  current : s'.currex = if s.currex = some c then none else s.currex

theorem holds_of_traps {stage : Stage} (h : stage.traps = some c) : stage.holds = some c := by
  cases stage with
  | running => simp [Stage.traps] at h
  | exited => simp [Stage.traps] at h
  | faulted => simp [Stage.traps] at h
  | _ => exact h

theorem Keeps.setStage {stage : Stage} (hsame : stage.holds = (s.stage t).holds)
    (htraps : (s.stage t).traps = (s.stage t).holds) : Keeps s (s.setStage t stage) where
  held t' := by
    rw [State.setStage]
    rcases eq_or_ne t' t with rfl | hne
    · simpa using hsame
    · simp [hne]
  traps t' c hc := by
    rw [State.setStage] at hc
    rcases eq_or_ne t' t with rfl | hne
    · rw [htraps, ← hsame]
      exact holds_of_traps (by simpa using hc)
    · simpa [hne] using hc
  valid _ := rfl
  thid _ := rfl
  current _ h := .inl h
  currex h := h

theorem Keeps.of_stage (hstage : s'.stage = s.stage)
    (hcontexts : ∀ c, (s'.contexts c).valid = (s.contexts c).valid ∧
      (s'.contexts c).regs.thid = (s.contexts c).regs.thid) (hcurrex : s'.currex = s.currex) :
    Keeps s s' where
  held t := by rw [hstage]
  traps t c h := by rwa [hstage] at h
  valid c := (hcontexts c).1
  thid c := (hcontexts c).2
  current c h := .inl (hcurrex.symm.trans h)
  currex h := hcurrex.symm.trans h

theorem Keeps.trans {s'' : State} (h : Keeps s s') (h' : Keeps s' s'') : Keeps s s'' where
  held t := (h'.held t).trans (h.held t)
  traps t c hc := h.traps t c (h'.traps t c hc)
  currex hc := h.currex (h'.currex hc)
  valid c := (h'.valid c).trans (h.valid c)
  thid c := (h'.thid c).trans (h.thid c)
  current c hc := by
    rcases h'.current c hc with hc | hc
    · exact h.current c hc
    · exact .inr ((h.valid c).symm.trans hc)

theorem Keeps.setContext {ctx : Context} (hvalid : ctx.valid = (s.contexts c).valid)
    (hthid : ctx.regs.thid = (s.contexts c).regs.thid) : Keeps s (s.setContext c ctx) := by
  refine .of_stage rfl (fun c' => ?_) rfl
  rw [State.setContext]
  rcases eq_or_ne c' c with rfl | hne
  · simpa using ⟨hvalid, hthid⟩
  · simp [hne]

/-- A write to a context on the way to another stage. -/
theorem Keeps.write {ctx : Context} {stage : Stage} (hvalid : ctx.valid = (s.contexts c).valid)
    (hthid : ctx.regs.thid = (s.contexts c).regs.thid)
    (hsame : stage.holds = (s.stage t).holds) (htraps : (s.stage t).traps = (s.stage t).holds) :
    Keeps s ((s.setContext c ctx).setStage t stage) := by
  have hcontext : Keeps s (s.setContext c ctx) := .setContext hvalid hthid
  exact hcontext.trans (.setStage hsame htraps)

theorem Keeps.awake (h : s.awake t = some s') : Keeps s s' := by
  rw [State.awake] at h
  split at h
  · simp at h
  · obtain rfl := Option.some.inj h
    exact .of_stage rfl (fun _ => ⟨rfl, rfl⟩) rfl

theorem stage_awake (h : s.awake t = some s') : s'.stage = s.stage := by
  rw [State.awake] at h
  split at h
  · simp at h
  · obtain rfl := Option.some.inj h
    rfl

theorem debug_awake (h : s.awake t = some s') : s'.debug = s.debug := by
  rw [State.awake] at h
  split at h
  · simp at h
  · obtain rfl := Option.some.inj h
    rfl

theorem freeContext_none : freeContext s = none ↔ ∀ c, (s.contexts c).valid = true := by
  simp [freeContext]

theorem freeContext_some (h : freeContext s = some c) : (s.contexts c).valid = false := by
  simpa using List.find?_some h

theorem takes_trap {saved : Saved} (hrunning : s.stage t = .running)
    (hfree : freeContext s = some c) : Takes t c s (trap t saved s) := by
  have hthid : ∀ (ctx : PsplinkContext) (d : DebugState),
      (debugClearException ctx d).1.thid = ctx.thid := by
    intro ctx d
    rw [debugClearException]
    grind
  rw [trap, hfree]
  refine ⟨freeContext_some hfree, by rw [hrunning]; rfl, rfl, ⟨?_, ?_⟩, ?_, rfl⟩
  · simp [State.setStage, State.setContext]
  · simp [State.setStage, State.setContext, hthid]
  · intro c' hne
    simp [State.setStage, State.setContext, hne]

theorem keeps_examine {ev : Option ℕ} {sent : Bool} (hstage : s.stage t = .examining c ev) :
    Keeps s (examine env t c ev sent s) := by
  cases ev with
  | none =>
      rw [examine]
      split
      · exact .setStage (by rw [hstage]; rfl) (by rw [hstage]; rfl)
      · exact .setStage (by rw [hstage]; rfl) (by rw [hstage]; rfl)
  | some h =>
      rw [examine]
      split
      · exact .setStage (by rw [hstage]; rfl) (by rw [hstage]; rfl)
      · exact .setStage (by rw [hstage]; rfl) (by rw [hstage]; rfl)

theorem keeps_answered {h : ℕ} (hstage : s.stage t = .posted c h) :
    Keeps s (answered t c h s) := by
  rw [answered]
  split
  · exact .setStage (by rw [hstage]; rfl) (by rw [hstage]; rfl)
  · exact .setStage (by rw [hstage]; rfl) (by rw [hstage]; rfl)

theorem keeps_report (hstage : s.stage t = .unhandled c) : Keeps s (report env t c s) := by
  rw [report]
  dsimp only
  split
  · exact .setStage (by rw [hstage]; rfl) (by rw [hstage]; rfl)
  · split
    · exact .write rfl rfl (by rw [hstage]; rfl) (by rw [hstage]; rfl)
    · exact .setStage (by rw [hstage]; rfl) (by rw [hstage]; rfl)

theorem gives_restore (hstage : s.stage t = .restoring c) : Gives t c s (restore t c s) := by
  refine ⟨hstage, rfl, ?_, ?_, rfl⟩
  · simp [restore, State.setStage, State.setContext]
  · intro c' hne
    simp [restore, State.setStage, State.setContext, hne]

theorem go_effect {sent : Bool} (h : go env t sent s = some s') :
    Keeps s s' ∨ ∃ c, Gives t c s s' := by
  rw [go] at h
  split at h
  · simp at h
  · simp at h
  · simp at h
  · rename_i c hstage
    obtain rfl := Option.some.inj h
    exact .inl (.write rfl rfl (by rw [hstage]; rfl) (by rw [hstage]; rfl))
  · rename_i hstage
    obtain rfl := Option.some.inj h
    exact .inl (keeps_examine hstage)
  · rename_i c h' hstage
    obtain ⟨s₁, hawake, rfl⟩ := Option.map_eq_some_iff.mp h
    exact .inl ((Keeps.awake hawake).trans
      (keeps_answered ((congrFun (stage_awake hawake) t).trans hstage)))
  · rename_i hstage
    obtain rfl := Option.some.inj h
    exact .inl (keeps_report hstage)
  · rename_i c hstage
    obtain ⟨s₁, hawake, rfl⟩ := Option.map_eq_some_iff.mp h
    have hstage' : s₁.stage t = .stopped c := (congrFun (stage_awake hawake) t).trans hstage
    exact .inl ((Keeps.awake hawake).trans
      (.setStage (by rw [hstage']; rfl) (by rw [hstage']; rfl)))
  · rename_i c hstage
    obtain rfl := Option.some.inj h
    refine .inl (.setStage ?_ (by rw [hstage]; rfl))
    rw [hstage]
    split
    · rfl
    · rfl
  · rename_i c hstage
    obtain rfl := Option.some.inj h
    exact .inr ⟨c, gives_restore hstage⟩

theorem keeps_resume (ctx : Option Index) (cont : Word) : Keeps s (exceptionResume ctx cont s) := by
  rw [exceptionResume]
  split
  · exact .of_stage rfl (fun _ => ⟨rfl, rfl⟩) rfl
  · rename_i c _
    have hcont : Keeps s (s.setCont c cont) := .setContext rfl rfl
    exact hcont.trans (.of_stage rfl (fun _ => ⟨rfl, rfl⟩) rfl)

theorem keeps_setCtx (ex : ℤ) : Keeps s (exceptionSetCtx ex s) := by
  rw [exceptionSetCtx]
  split
  · split
    · rename_i hvalid
      refine ⟨fun _ => rfl, fun _ _ h => h, fun _ => rfl, fun _ => rfl, fun c hc => .inr ?_,
        by simp⟩
      obtain rfl := Option.some.inj hc
      exact hvalid
    · exact .of_stage rfl (fun _ => ⟨rfl, rfl⟩) rfl
  · exact .of_stage rfl (fun _ => ⟨rfl, rfl⟩) rfl

theorem step_effect (h : step env s a = some s') :
    Keeps s s' ∨ (∃ t c, Takes t c s s') ∨ ∃ t sent c, a = .go t sent ∧ Gives t c s s' := by
  cases a with
  | trap t saved =>
      rw [step] at h
      split at h
      · rename_i hrunning
        obtain rfl := Option.some.inj h
        rcases hfree : freeContext s with _ | c
        · rw [trap, hfree]
          exact .inl (.setStage (by rw [hrunning]; rfl) (by rw [hrunning]; rfl))
        · exact .inr (.inl ⟨t, c, takes_trap hrunning hfree⟩)
      · simp at h
  | go t sent =>
      rcases go_effect h with hkeeps | ⟨c, hgives⟩
      · exact .inl hkeeps
      · exact .inr (.inr ⟨t, sent, c, rfl, hgives⟩)
  | resume ctx cont =>
      obtain rfl := Option.some.inj h
      exact .inl (keeps_resume ctx cont)
  | setCtx ex =>
      obtain rfl := Option.some.inj h
      exact .inl (keeps_setCtx ex)
  | setCont c cont =>
      obtain rfl := Option.some.inj h
      exact .inl (.setContext rfl rfl)
  | setRegs c saved =>
      obtain rfl := Option.some.inj h
      exact .inl (.setContext rfl rfl)
  | wake t =>
      obtain rfl := Option.some.inj h
      exact .inl (.of_stage rfl (fun _ => ⟨rfl, rfl⟩) rfl)
  | debug op =>
      obtain rfl := Option.some.inj h
      exact .inl (.of_stage rfl (fun _ => ⟨rfl, rfl⟩) rfl)
  | handlers eventhead pNext =>
      obtain rfl := Option.some.inj h
      exact .inl (.of_stage rfl (fun _ => ⟨rfl, rfl⟩) rfl)

/-- A context is valid exactly while a thread holds it, which is the one it names, and the
current one is valid. -/
structure Owned (s : State) : Prop where
  held : ∀ t c, (s.stage t).holds = some c →
    (s.contexts c).valid = true ∧ (s.contexts c).regs.thid = t
  owner : ∀ c, (s.contexts c).valid = true →
    (s.stage (s.contexts c).regs.thid).holds = some c
  current : ∀ c, s.currex = some c → (s.contexts c).valid = true

theorem Owned.initial (debug : DebugState) : Owned (initial debug) := by
  refine ⟨fun t c h => ?_, fun c h => ?_, fun c h => ?_⟩
  · simp [ExceptionThreads.initial, Stage.holds, Stage.traps] at h
  · simp [ExceptionThreads.initial] at h
  · simp [ExceptionThreads.initial] at h

theorem Owned.keeps (h : Owned s) (hkeeps : Keeps s s') : Owned s' where
  held t c hc := by
    rw [hkeeps.valid, hkeeps.thid]
    exact h.held t c ((hkeeps.held t).symm.trans hc)
  owner c hc := by
    rw [hkeeps.thid, hkeeps.held]
    exact h.owner c ((hkeeps.valid c).symm.trans hc)
  current c hc := by
    rw [hkeeps.valid]
    rcases hkeeps.current c hc with hc | hc
    · exact h.current c hc
    · exact hc

theorem Owned.takes (h : Owned s) (htakes : Takes t c s s') : Owned s' where
  held t' c' hc := by
    rw [htakes.stage] at hc
    rcases eq_or_ne t' t with rfl | hne
    · rw [Function.update_self] at hc
      obtain rfl := Option.some.inj hc
      exact htakes.taken
    · rw [Function.update_of_ne hne] at hc
      have hold := h.held t' c' hc
      have hother : c' ≠ c := by
        rintro rfl
        simp [htakes.free] at hold
      rw [htakes.rest c' hother]
      exact hold
  owner c' hc := by
    rcases eq_or_ne c' c with rfl | hne
    · rw [htakes.taken.2, htakes.stage, Function.update_self]
      rfl
    · rw [htakes.rest c' hne] at hc ⊢
      have hheld := h.owner c' hc
      have hother : (s.contexts c').regs.thid ≠ t := by
        intro heq
        rw [heq, htakes.before] at hheld
        simp at hheld
      rw [htakes.stage, Function.update_of_ne hother]
      exact hheld
  current c' hc := by
    rw [htakes.current] at hc
    rcases eq_or_ne c' c with rfl | hne
    · exact htakes.taken.1
    · rw [htakes.rest c' hne]
      rcases hcurrex : s.currex with _ | d
      · rw [hcurrex] at hc
        exact absurd (Option.some.inj hc).symm hne
      · rw [hcurrex] at hc
        obtain rfl := Option.some.inj hc
        exact h.current d hcurrex

theorem Owned.gives (h : Owned s) (hgives : Gives t c s s') : Owned s' := by
  have hheld : (s.stage t).holds = some c := by rw [hgives.before]; rfl
  refine ⟨fun t' c' hc => ?_, fun c' hc => ?_, fun c' hc => ?_⟩
  · rw [hgives.stage] at hc
    rcases eq_or_ne t' t with rfl | hne
    · simp [Stage.holds, Stage.traps] at hc
    · rw [Function.update_of_ne hne] at hc
      have hother : c' ≠ c := by
        rintro rfl
        exact hne ((h.held t' c' hc).2.symm.trans (h.held t c' hheld).2)
      rw [hgives.rest c' hother]
      exact h.held t' c' hc
  · have hother : c' ≠ c := by
      rintro rfl
      simp [hgives.freed] at hc
    rw [hgives.rest c' hother] at hc ⊢
    have howner := h.owner c' hc
    have hne : (s.contexts c').regs.thid ≠ t := by
      intro heq
      rw [heq, hheld] at howner
      exact hother (Option.some.inj howner).symm
    rw [hgives.stage, Function.update_of_ne hne]
    exact howner
  · rw [hgives.current] at hc
    split at hc
    · simp at hc
    · rename_i hcurrex
      have hother : c' ≠ c := by
        rintro rfl
        exact hcurrex hc
      rw [hgives.rest c' hother]
      exact h.current c' hc

theorem Owned.step (h : Owned s) (hstep : step env s a = some s') : Owned s' := by
  rcases step_effect hstep with hkeeps | ⟨t, c, htakes⟩ | ⟨t, -, c, -, hgives⟩
  · exact h.keeps hkeeps
  · exact h.takes htakes
  · exact h.gives hgives

variable {debug : DebugState} {guard : State → Action → Prop} {actions : List Action}

theorem owned_of_reaches
    (h : Reaches (step env) guard (ExceptionThreads.initial debug) actions s) : Owned s :=
  h.invariant (Owned.initial debug) fun _ _ _ hs _ hstep => hs.step hstep

/-- Whatever the threads, the shell and the debuggers do, and in whatever order: a thread in
`psplinkTrap` has a valid context to itself, a valid context belongs to exactly one thread,
and `g_currex` points to the context of a thread that has not given it back. -/
theorem contexts_owned (env : Env) (debug : DebugState) (actions : List Action) (s : State)
    (h : Reaches (step env) anyStep (ExceptionThreads.initial debug) actions s) :
    (∀ t c, (s.stage t).holds = some c → (s.contexts c).valid = true ∧
      (s.contexts c).regs.thid = t ∧ ∀ t', (s.stage t').holds = some c → t' = t) ∧
    (∀ c, (s.contexts c).valid = true → ∃! t, (s.stage t).holds = some c) ∧
    (∀ c, s.currex = some c → (s.stage (s.contexts c).regs.thid).holds = some c) := by
  have howned := owned_of_reaches h
  have hunique : ∀ t t' c, (s.stage t).holds = some c → (s.stage t').holds = some c → t' = t := by
    intro t t' c ht ht'
    rw [← (howned.held t c ht).2, ← (howned.held t' c ht').2]
  refine ⟨fun t c hc => ?_, fun c hc => ?_, fun c hc => ?_⟩
  · exact ⟨(howned.held t c hc).1, (howned.held t c hc).2, fun t' => hunique t t' c hc⟩
  · exact ⟨_, howned.owner c hc, fun t' ht' => hunique _ _ c (howned.owner c hc) ht'⟩
  · exact howned.owner c (howned.current c hc)

def plainEnv : Env where
  entry := fun _ => 0x08804000
  parses := fun _ => false
  handler := fun _ => { membase := 0, memtop := 0 }
  longjmp := 0
  parseenv := 0

def plainSaved : Saved where
  epc := 0x08804000
  cause := 0x24
  type := 0
  r := fun _ => 0

def plainDebug : DebugState :=
  BreakpointConsistency.initial (fun _ => 0) { drcntl := 0, ibc := 0, iba := 0, ibam := 0 }

/-- Two threads stop; the one that stopped first, whose exception is the current one, is
resumed. -/
def firstResumed : List Action :=
  [.trap 1 plainSaved, .trap 2 plainSaved, .go 1 true, .go 1 true, .go 1 true,
    .resume none pspExceptionContinue, .go 1 true, .go 1 true, .go 1 true]

theorem contexts_owned_resumed :
    ∃ s, Reaches (step plainEnv) anyStep (ExceptionThreads.initial plainDebug) firstResumed s ∧
      s.stage 1 = .running ∧ s.stage 2 = .entered 1 ∧ s.currex = none ∧
      ∃! t, (s.stage t).holds = some 1 := by
  have hfound : ∃ s, Reaches (step plainEnv) anyStep (ExceptionThreads.initial plainDebug)
      firstResumed s ∧
      decide (s.stage 1 = .running ∧ s.stage 2 = .entered 1 ∧ s.currex = none) = true :=
    exists_reaches (by decide)
  obtain ⟨s, hrun, htest⟩ := hfound
  obtain ⟨hfirst, hsecond, hcurrex⟩ := of_decide_eq_true htest
  have howned := contexts_owned plainEnv plainDebug firstResumed s hrun
  have hheld : (s.stage 2).holds = some 1 := by rw [hsecond]; rfl
  exact ⟨s, hrun, hfirst, hsecond, hcurrex, howned.2.1 1 (howned.1 2 1 hheld).1⟩

section Faults

/-- A thread comes to fault. -/
def Faults (s s' : State) : Prop := ∃ t c, s'.stage t = .faulted c ∧ s.stage t ≠ .faulted c

theorem not_faults {stage : Stage} (hstage : s'.stage = Function.update s.stage t stage)
    (hne : ∀ c, stage ≠ .faulted c) : ¬Faults s s' := by
  rintro ⟨t', c, hfaulted, hbefore⟩
  rw [hstage] at hfaulted
  rcases eq_or_ne t' t with rfl | hother
  · exact hne c (by simpa using hfaulted)
  · exact hbefore (by simpa [hother] using hfaulted)

theorem not_faults_of_stage (hstage : s'.stage = s.stage) : ¬Faults s s' := by
  rintro ⟨t, c, hfaulted, hbefore⟩
  exact hbefore (by rw [← hstage]; exact hfaulted)

theorem faults_of_stage (hstage : s'.stage = Function.update s.stage t (.faulted (some c)))
    (hbefore : s.stage t = .unhandled c) : Faults s s' :=
  ⟨t, some c, by rw [hstage, Function.update_self], by rw [hbefore]; simp⟩

/-- An exception is reported while there is no current one. -/
def Unreadable (t : Uid) (s : State) : Prop :=
  ∃ c, s.stage t = .unhandled c ∧ (s.contexts c).regs.error ≠ 0 ∧ s.currex = none

theorem faults_report (hstage : s.stage t = .unhandled c) :
    Faults s (report env t c s) ↔ Unreadable t s := by
  have hread : Unreadable t s ↔ (s.contexts c).regs.error ≠ 0 ∧ s.currex = none := by
    simp [Unreadable, hstage]
  rw [hread, report]
  dsimp only
  split
  · rename_i hnone
    exact ⟨fun _ => hnone, fun _ => faults_of_stage rfl hstage⟩
  · rename_i hsome
    refine ⟨fun h => absurd h ?_, fun h => absurd h hsome⟩
    split
    · exact not_faults rfl (by simp)
    · exact not_faults rfl (by simp)

theorem faults_go {sent : Bool} (h : go env t sent s = some s') : Faults s s' ↔ Unreadable t s := by
  have hno : (∀ c, s.stage t ≠ .unhandled c) → ¬Unreadable t s :=
    fun hne ⟨c, hc, _⟩ => hne c hc
  rw [go] at h
  split at h
  · simp at h
  · simp at h
  · simp at h
  · rename_i hstage
    obtain rfl := Option.some.inj h
    exact iff_of_false (not_faults rfl (by simp)) (hno (by simp [hstage]))
  · rename_i c ev hstage
    obtain rfl := Option.some.inj h
    refine iff_of_false ?_ (hno (by simp [hstage]))
    cases ev with
    | none =>
        rw [examine]
        split
        · exact not_faults rfl (by simp)
        · exact not_faults rfl (by simp)
    | some h =>
        rw [examine]
        split
        · exact not_faults rfl (by simp)
        · exact not_faults rfl (by simp)
  · rename_i c h' hstage
    obtain ⟨s₁, hawake, rfl⟩ := Option.map_eq_some_iff.mp h
    refine iff_of_false ?_ (hno (by simp [hstage]))
    have hsame := stage_awake hawake
    rw [answered]
    split
    · have hafter : (s₁.setStage t (.handled c)).stage =
          Function.update s.stage t (.handled c) := by rw [State.setStage, hsame]
      exact not_faults hafter (by simp)
    · have hafter : (s₁.setStage t (.examining c (s₁.pNext h'))).stage =
          Function.update s.stage t (.examining c (s₁.pNext h')) := by rw [State.setStage, hsame]
      exact not_faults hafter (by simp)
  · rename_i c hstage
    obtain rfl := Option.some.inj h
    exact faults_report hstage
  · rename_i c hstage
    obtain ⟨s₁, hawake, rfl⟩ := Option.map_eq_some_iff.mp h
    refine iff_of_false ?_ (hno (by simp [hstage]))
    have hafter : (s₁.setStage t (.handled c)).stage =
        Function.update s.stage t (.handled c) := by rw [State.setStage, stage_awake hawake]
    exact not_faults hafter (by simp)
  · rename_i c hstage
    obtain rfl := Option.some.inj h
    refine iff_of_false (not_faults rfl ?_) (hno (by simp [hstage]))
    intro c'
    split
    · simp
    · simp
  · rename_i c hstage
    obtain rfl := Option.some.inj h
    exact iff_of_false (not_faults rfl (by simp)) (hno (by simp [hstage]))

/-- The two ways to fault in `psplinkTrap`. -/
theorem faults_iff (h : step env s a = some s') :
    Faults s s' ↔ (∃ t saved, a = .trap t saved ∧ ∀ c, (s.contexts c).valid = true) ∨
      ∃ t sent, a = .go t sent ∧ Unreadable t s := by
  cases a with
  | trap t saved =>
      simp only [Action.trap.injEq, reduceCtorEq, false_and, exists_false, or_false]
      rw [step] at h
      split at h
      · rename_i hrunning
        obtain rfl := Option.some.inj h
        rw [← freeContext_none]
        rcases hfree : freeContext s with _ | c
        · refine iff_of_true ⟨t, none, ?_, by simp [hrunning]⟩ ⟨t, saved, ⟨rfl, rfl⟩, rfl⟩
          rw [trap, hfree]
          simp [State.setStage]
        · refine iff_of_false (not_faults (takes_trap hrunning hfree).stage (by simp)) ?_
          rintro ⟨_, _, _, hnone⟩
          simp at hnone
      · simp at h
  | go t sent =>
      rw [faults_go h]
      simp
  | resume ctx cont =>
      obtain rfl := Option.some.inj h
      refine iff_of_false (not_faults_of_stage ?_) (by simp)
      rw [exceptionResume]
      split
      · rfl
      · rfl
  | setCtx ex =>
      obtain rfl := Option.some.inj h
      refine iff_of_false (not_faults_of_stage ?_) (by simp)
      rw [exceptionSetCtx]
      split
      · split
        · rfl
        · rfl
      · rfl
  | _ =>
      obtain rfl := Option.some.inj h
      exact iff_of_false (not_faults_of_stage rfl) (by simp)

/-- A thread that gives the current context back is the only one in `psplinkTrap`. -/
def Alone (s : State) (a : Action) : Prop :=
  ∀ t sent c, a = .go t sent → s.stage t = .restoring c → s.currex = some c →
    ∀ t', t' ≠ t → (s.stage t').traps = none

/-- There is a current context while a thread is in `psplinkTrap`. -/
def Current (s : State) : Prop := ∀ t c, (s.stage t).traps = some c → s.currex ≠ none

theorem Current.step (h : Current s) (halone : Alone s a) (hstep : step env s a = some s') :
    Current s' := by
  intro t c hc
  rcases step_effect hstep with hkeeps | ⟨t', c', htakes⟩ | ⟨t', sent, c', rfl, hgives⟩
  · exact fun hnone => h t c (hkeeps.traps t c hc) (hkeeps.currex hnone)
  · rw [htakes.current]
    cases s.currex with
    | none => simp
    | some d => simp
  · have hne : t ≠ t' := by
      rintro rfl
      rw [hgives.stage, Function.update_self] at hc
      simp [Stage.traps] at hc
    rw [hgives.stage, Function.update_of_ne hne] at hc
    rw [hgives.current]
    split
    · rename_i hcurrex
      rw [halone t' sent c' rfl hgives.before hcurrex t hne] at hc
      simp at hc
    · exact h t c hc

/-- When the current exception is let go only as the last one, a step faults if and only if it
is an exception for which none of the eight contexts is left, each with a thread that has not
given it back. -/
theorem faults_iff_full (env : Env) (debug : DebugState) (actions : List Action) (s s' : State)
    (a : Action) (h : Reaches (step env) Alone (ExceptionThreads.initial debug) actions s)
    (hstep : step env s a = some s') :
    Faults s s' ↔ (∃ t saved, a = .trap t saved) ∧ ∀ c, ∃! t, (s.stage t).holds = some c := by
  have howned := owned_of_reaches h
  have hcurrent : Current s := h.invariant
    (by intro t c hc; simp [ExceptionThreads.initial, Stage.traps] at hc)
    fun _ _ _ hs halone hstep => hs.step halone hstep
  have hvalid : (∀ c, (s.contexts c).valid = true) ↔ ∀ c, ∃! t, (s.stage t).holds = some c := by
    refine forall_congr' fun c => ⟨fun hc => ?_, fun ⟨t, ht, _⟩ => (howned.held t c ht).1⟩
    refine ⟨_, howned.owner c hc, fun t' ht' => ?_⟩
    exact (howned.held t' c ht').2.symm
  have hread : ∀ t, ¬Unreadable t s := by
    rintro t ⟨c, hc, -, hnone⟩
    exact hcurrent t c (by rw [hc]; rfl) hnone
  rw [faults_iff hstep, ← hvalid]
  simp only [hread, and_false, exists_false, or_false]
  exact ⟨fun ⟨t, saved, ha, hc⟩ => ⟨⟨t, saved, ha⟩, hc⟩,
    fun ⟨⟨t, saved, ha⟩, hc⟩ => ⟨t, saved, ha, hc⟩⟩

/-- Eight threads stop and none of them is let go. -/
def allStopped : List Action :=
  [1, 2, 3, 4, 5, 6, 7, 8].map fun t => .trap t plainSaved

def isTrap : Action → Bool
  | .trap .. => true
  | _ => false

def OnlyTraps (_ : State) (a : Action) : Prop := isTrap a = true

instance (s : State) (a : Action) : Decidable (OnlyTraps s a) :=
  inferInstanceAs (Decidable (isTrap a = true))

theorem alone_of_onlyTraps (h : OnlyTraps s a) : Alone s a := by
  rintro t sent c rfl
  simp [OnlyTraps, isTrap] at h

theorem faults_iff_full_ninth :
    ∃ s s', Reaches (step plainEnv) Alone (ExceptionThreads.initial plainDebug) allStopped s ∧
      step plainEnv s (.trap 9 plainSaved) = some s' ∧ Faults s s' ∧
      ∀ c, ∃! t, (s.stage t).holds = some c := by
  have hfound : ∃ s, Reaches (step plainEnv) OnlyTraps (ExceptionThreads.initial plainDebug)
      allStopped s ∧ decide (s.stage 9 = .running ∧ freeContext s = none) = true :=
    exists_reaches (by decide)
  obtain ⟨s, hrun, htest⟩ := hfound
  obtain ⟨hrunning, hfull⟩ := of_decide_eq_true htest
  have halone := hrun.mono fun _ _ => alone_of_onlyTraps
  have hstep : step plainEnv s (.trap 9 plainSaved) = some (trap 9 plainSaved s) := if_pos hrunning
  have hfaults : Faults s (trap 9 plainSaved s) :=
    (faults_iff hstep).mpr (.inl ⟨9, plainSaved, rfl, freeContext_none.mp hfull⟩)
  exact ⟨s, _, halone, hstep, hfaults,
    ((faults_iff_full plainEnv plainDebug allStopped s _ _ halone hstep).mp hfaults).2⟩

/-- The second of two threads reports its exception when that of the first is gone. -/
example : (runGuarded (step plainEnv) anyStep (ExceptionThreads.initial plainDebug)
    (firstResumed ++ [.go 2 true, .go 2 true, .go 2 true])).any
      (fun s => decide (s.stage 2 = .faulted (some 1))) = true := by
  decide

end Faults

section Breakpoints

variable {program : Memory} {d : DebugState}

theorem setStep_consistent (h : Consistent program d) (bp other : Option Slot) :
    Consistent program (setStep bp other d) := by
  cases bp with
  | none => exact h
  | some i =>
    rw [setStep]
    have hsame : ∀ j, ((d.setBp i { d.bps i with step := other }).bps j).active = (d.bps j).active ∧
        ((d.setBp i { d.bps i with step := other }).bps j).addr = (d.bps j).addr ∧
        ((d.setBp i { d.bps i with step := other }).bps j).inst = (d.bps j).inst ∧
        ((d.setBp i { d.bps i with step := other }).bps j).hardware = (d.bps j).hardware ∧
        expectedWord ((d.setBp i { d.bps i with step := other }).bps j) =
          expectedWord (d.bps j) := by
      intro j
      rcases eq_or_ne j i with rfl | hne
      · rw [DebugState.setBp_bps, Function.update_self]
        exact ⟨rfl, rfl, rfl, rfl, rfl⟩
      · rw [DebugState.setBp_bps, Function.update_of_ne hne]
        exact ⟨rfl, rfl, rfl, rfl, rfl⟩
    refine ⟨fun j k hj hk hcell => ?_, fun j k hj hk hhw hhw' => ?_, fun j hj => ?_,
      fun j hj => ?_, fun c hc => ?_⟩
    · rw [(hsame j).1] at hj
      rw [(hsame k).1] at hk
      rw [(hsame j).2.1, (hsame k).2.1] at hcell
      exact h.cells j k hj hk hcell
    · rw [(hsame j).1] at hj
      rw [(hsame k).1] at hk
      rw [(hsame j).2.2.2.1] at hhw
      rw [(hsame k).2.2.2.1] at hhw'
      exact h.oneHardware j k hj hk hhw hhw'
    · rw [(hsame j).1] at hj
      rw [(hsame j).2.1, (hsame j).2.2.2.2]
      exact h.word j hj
    · rw [(hsame j).1] at hj
      rw [(hsame j).2.1, (hsame j).2.2.1]
      exact h.saved j hj
    · refine h.untouched c fun j hj => ?_
      have := hc j (by rw [(hsame j).1]; exact hj)
      rwa [(hsame j).2.1] at this

theorem armStep_consistent (h : Consistent program d) (address : Word) (thid : Int) :
    Consistent program (armStep address thid d).2 :=
  debugSetBP_consistent h address ⟨debugBpOneshot ||| debugBpStep, by decide⟩ thid

theorem stepGeneric_consistent (h : Consistent program d) (ctx : PsplinkContext) (skip : Bool) :
    Consistent program (stepGeneric ctx skip d) := by
  rw [stepGeneric]
  dsimp only
  split
  · exact armStep_consistent h _ _
  · split
    · have hfirst := armStep_consistent h (decodeStep ctx.r ctx.epc (lw d.mem ctx.epc)).targetpc
        ctx.thid
      split
      · exact setStep_consistent (setStep_consistent (armStep_consistent hfirst _ _) _ _) _ _
      · exact hfirst
    · exact armStep_consistent h _ _

theorem go_debug {sent : Bool} (h : go env t sent s = some s') :
    s'.debug = s.debug ∨ ∃ ctx skip, s'.debug = stepGeneric ctx skip s.debug := by
  rw [go] at h
  split at h
  · simp at h
  · simp at h
  · simp at h
  · obtain rfl := Option.some.inj h
    exact .inl rfl
  · rename_i c ev hstage
    obtain rfl := Option.some.inj h
    left
    cases ev with
    | none => rfl
    | some h =>
        rw [examine]
        split
        · rfl
        · rfl
  · obtain ⟨s₁, hawake, rfl⟩ := Option.map_eq_some_iff.mp h
    left
    have hsame := debug_awake hawake
    rw [answered]
    split
    · exact hsame
    · exact hsame
  · obtain rfl := Option.some.inj h
    left
    rw [report]
    dsimp only
    split
    · rfl
    · split
      · rfl
      · rfl
  · obtain ⟨s₁, hawake, rfl⟩ := Option.map_eq_some_iff.mp h
    have hsame := debug_awake hawake
    exact .inl hsame
  · obtain rfl := Option.some.inj h
    exact .inl rfl
  · rename_i c hstage
    obtain rfl := Option.some.inj h
    rw [restore]
    dsimp only
    split
    · exact .inr ⟨_, _, rfl⟩
    · split
      · exact .inr ⟨_, _, rfl⟩
      · exact .inl rfl

theorem step_consistent (h : Consistent program s.debug) (hstep : step env s a = some s') :
    Consistent program s'.debug := by
  cases a with
  | trap t saved =>
      rw [step] at hstep
      split at hstep
      · obtain rfl := Option.some.inj hstep
        rcases hfree : freeContext s with _ | c
        · rw [trap, hfree]
          exact h
        · rw [trap, hfree]
          exact debugClearException_consistent h _
      · simp at hstep
  | go t sent =>
      rcases go_debug hstep with hsame | ⟨ctx, skip, hsteps⟩
      · rw [hsame]
        exact h
      · rw [hsteps]
        exact stepGeneric_consistent h ctx skip
  | resume ctx cont =>
      obtain rfl := Option.some.inj hstep
      rw [exceptionResume]
      split
      · exact h
      · exact h
  | setCtx ex =>
      obtain rfl := Option.some.inj hstep
      rw [exceptionSetCtx]
      split
      · split
        · exact h
        · exact h
      · exact h
  | debug op =>
      obtain rfl := Option.some.inj hstep
      exact applyOp_consistent h op
  | _ =>
      obtain rfl := Option.some.inj hstep
      exact h

/-- While threads stop, step and go on and the shell and the debuggers set and remove
breakpoints, memory is the program with the break words of the table in it, and undoing the
table gives the program back. -/
theorem stepping_keeps_program (env : Env) (program : Memory) (hw : HwDebugEnv)
    (actions : List Action) (s : State)
    (h : Reaches (step env) anyStep
      (ExceptionThreads.initial (BreakpointConsistency.initial program hw)) actions s) :
    Consistent program s.debug ∧ Patch.applyAll (restorePatches s.debug) s.debug.mem = program := by
  have hkept : (fun s : State => Consistent program s.debug) s :=
    h.invariant (initial_consistent program hw) fun _ _ _ hs _ hstep => step_consistent hs hstep
  have hconsistent : Consistent program s.debug := hkept
  exact ⟨hconsistent, hconsistent.restored⟩

/-- A thread stops at a breakpoint on a `nop` and is stepped over it. -/
def stepped : List Action :=
  [.debug (.setBP 0x08804000 ⟨0, by decide⟩ 0), .trap 1 plainSaved, .go 1 true, .go 1 true,
    .go 1 true, .resume none pspExceptionStep, .go 1 true, .go 1 true, .go 1 true]

theorem stepping_keeps_program_stepped :
    ∃ s, Reaches (step plainEnv) anyStep (ExceptionThreads.initial plainDebug) stepped s ∧
      s.stage 1 = .running ∧ lw s.debug.mem 0x08804004 = swBreakInst ∧
      Patch.applyAll (restorePatches s.debug) s.debug.mem = fun _ => 0 := by
  have hfound : ∃ s, Reaches (step plainEnv) anyStep (ExceptionThreads.initial plainDebug)
      stepped s ∧
      decide (s.stage 1 = .running ∧ lw s.debug.mem 0x08804004 = swBreakInst) = true :=
    exists_reaches (by decide)
  obtain ⟨s, hrun, htest⟩ := hfound
  obtain ⟨hstage, hword⟩ := of_decide_eq_true htest
  exact ⟨s, hrun, hstage, hword,
    (stepping_keeps_program plainEnv (fun _ => 0) _ stepped s hrun).2⟩

end Breakpoints

end PsplinkUsb.Psplink.ExceptionContexts
