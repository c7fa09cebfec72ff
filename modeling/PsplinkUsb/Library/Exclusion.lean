import Mathlib.Logic.Function.Basic
import PsplinkUsb.Library.Run

/-!
Threads that share request blocks under one binary semaphore. A thread submits a
request on its block and waits for the block's completion; some threads may be exempt
from taking the semaphore first.
-/

namespace PsplinkUsb.Library.Exclusion

open PsplinkUsb.Library.Run

universe u

/-- What a thread does next. `Q` are the requests, `B` the blocks, `V` what a block holds
on completion and `S` the variables the threads share. -/
inductive Prog (Q B V S : Type u) where
  | done (keeps : Bool)
  | acquire (next : Bool → Prog Q B V S)
  | release (next : Prog Q B V S)
  | submit (q : Q) (next : Bool → Prog Q B V S)
  | await (b : B) (next : Option V → Prog Q B V S)
  | shared (update : S → S) (next : S → Prog Q B V S)

variable {T C Q B V S : Type u}

def Prog.waitsFor : Prog Q B V S → Option B
  | .await b _ => some b
  | _ => none

structure State (T Q B V S : Type u) where
  free : Bool
  pending : B → Bool
  completed : B → Option V
  shared : S
  prog : T → Prog Q B V S

/-- The thread is between submitting its block and returning from the wait for it. -/
def InFlight (s : State T Q B V S) (t : T) (b : B) : Prop := (s.prog t).waitsFor = some b

/-- `run t ok` is one step of a thread; `ok` says whether the semaphore was granted, the
request accepted or the completion delivered. -/
inductive Action (T C B V : Type u) where
  | start (t : T) (job : C)
  | run (t : T) (ok : Bool)
  | complete (b : B) (v : V)

def initial (shared : S) : State T Q B V S where
  free := true
  pending _ := false
  completed _ := none
  shared := shared
  prog _ := .done false

section Steps

variable [DecidableEq T] [DecidableEq B]

def State.setProg (s : State T Q B V S) (t : T) (p : Prog Q B V S) : State T Q B V S :=
  { s with prog := Function.update s.prog t p }

def State.submit (s : State T Q B V S) (b : B) (ok : Bool) : State T Q B V S :=
  { s with
    pending := Function.update s.pending b ok
    completed := Function.update s.completed b none }

variable (block : Q → B) (program : T → C → Bool → Option (Prog Q B V S))

def runStep (s : State T Q B V S) (t : T) (ok : Bool) : Option (State T Q B V S) :=
  match s.prog t with
  | .done _ => none
  | .acquire next =>
      if ok then if s.free then some ({ s with free := false }.setProg t (next true)) else none
      else some (s.setProg t (next false))
  | .release next => some ({ s with free := true }.setProg t next)
  | .submit q next => some ((s.submit (block q) ok).setProg t (next ok))
  | .await b next =>
      if ok then
        (s.completed b).map fun v =>
          { s with completed := Function.update s.completed b none }.setProg t (next (some v))
      else some (s.setProg t (next none))
  | .shared update next =>
      some ({ s with shared := update s.shared }.setProg t (next s.shared))

def step (s : State T Q B V S) : Action T C B V → Option (State T Q B V S)
  | .start t job =>
      match s.prog t with
      | .done keeps => (program t job keeps).map fun p => s.setProg t p
      | _ => none
  | .run t ok => runStep block s t ok
  | .complete b v =>
      if s.pending b then
        some { s with
          pending := Function.update s.pending b false
          completed := Function.update s.completed b (some v) }
      else none

end Steps

/-- A program keeps to the protocol: it waits for a block right after submitting it, gives
back only what it holds, says at its end whether it still holds the semaphore, and unless
it is exempt touches the blocks only while holding it. -/
def Disciplined (block : Q → B) (exempt : Prop) : Prop → Option B → Prog Q B V S → Prop
  | holds, _, .done keeps => keeps = true ↔ holds
  | holds, _, .acquire next =>
      Disciplined block exempt holds none (next false) ∧
        (¬holds → Disciplined block exempt True none (next true))
  | holds, _, .release next => holds ∧ Disciplined block exempt False none next
  | holds, _, .submit q next =>
      (exempt ∨ holds) ∧ ∀ ok, Disciplined block exempt holds (some (block q)) (next ok)
  | holds, submitted, .await b next =>
      (exempt ∨ holds) ∧ submitted = some b ∧
        ∀ answer, Disciplined block exempt holds none (next answer)
  | holds, _, .shared _ next => ∀ value, Disciplined block exempt holds none (next value)

/-- At most one thread holds the semaphore, and every thread keeps to the protocol. -/
def Inv (block : Q → B) (exempt : T → Prop) (s : State T Q B V S) : Prop :=
  ∃ holder : Option T, s.free = holder.isNone ∧
    ∀ t, ∃ submitted, Disciplined block (exempt t) (holder = some t) submitted (s.prog t)

/-- No two threads are in flight on blocks that `kind` counts as one. -/
def Exclusive {K : Type u} (kind : B → K) (s : State T Q B V S) : Prop :=
  ∀ t t' b b', InFlight s t b → InFlight s t' b' → kind b = kind b' → t = t'

/-- An exempt thread comes into flight only while no other thread is in flight on the same
kind of block, and no other thread does while an exempt thread is. -/
def ExemptAlone {K : Type u} (kind : B → K) (exempt : T → Prop) (s : State T Q B V S) :
    Action T C B V → Prop
  | .run t ok => ∀ q next b, s.prog t = .submit q next → (next ok).waitsFor = some b →
      ∀ t', t' ≠ t → exempt t ∨ exempt t' → ∀ b', InFlight s t' b' → kind b' ≠ kind b
  | _ => True

section Lemmas

variable {block : Q → B} {exempt : T → Prop} {s s' : State T Q B V S}

theorem Disciplined.waitsFor_of_submitted {free : Prop} {holds : Prop} {submitted : Option B}
    {p : Prog Q B V S} (h : Disciplined block free holds submitted p) {b : B}
    (hwait : p.waitsFor = some b) : submitted = some b ∧ (free ∨ holds) := by
  cases p with
  | await b' next =>
      obtain rfl : b' = b := by simpa [Prog.waitsFor] using hwait
      exact ⟨h.2.1, h.1⟩
  | _ => simp [Prog.waitsFor] at hwait

theorem Disciplined.weaken {free holds : Prop} {p : Prog Q B V S}
    (h : Disciplined block free holds none p) (submitted : Option B) :
    Disciplined block free holds submitted p := by
  cases p with
  | await b next => exact absurd h.2.1 (by simp)
  | _ => exact h

theorem inv_initial (shared : S) : Inv block exempt (initial shared : State T Q B V S) := by
  refine ⟨none, rfl, fun t => ⟨none, ?_⟩⟩
  simp [initial, Disciplined]

/-- Only the holder of the semaphore and the exempt threads are ever in flight. -/
theorem Inv.unique (h : Inv block exempt s) {t t' : T} {b b' : B} (hb : InFlight s t b)
    (hb' : InFlight s t' b') (hexempt : ¬exempt t) (hexempt' : ¬exempt t') : t = t' := by
  obtain ⟨holder, -, hprog⟩ := h
  have holds : ∀ {t b}, InFlight s t b → ¬exempt t → holder = some t := by
    intro t b hb hexempt
    obtain ⟨submitted, ht⟩ := hprog t
    exact (ht.waitsFor_of_submitted hb).2.resolve_left hexempt
  exact Option.some.inj ((holds hb hexempt).symm.trans (holds hb' hexempt'))

theorem not_waitsFor_of_disciplined {holds free : Prop} {p : Prog Q B V S}
    (h : Disciplined block free holds none p) (b : B) : p.waitsFor ≠ some b := by
  intro hwait
  simpa using (h.waitsFor_of_submitted hwait).1

/-- What one step makes of the semaphore and of the program of the thread that takes it. -/
inductive Advances (free : Bool) : Prog Q B V S → Bool → Prog Q B V S → Prop
  | granted (next : Bool → Prog Q B V S) (hfree : free = true) :
      Advances free (.acquire next) false (next true)
  | refused (next : Bool → Prog Q B V S) : Advances free (.acquire next) free (next false)
  | released (next : Prog Q B V S) : Advances free (.release next) true next
  | submitted (q : Q) (next : Bool → Prog Q B V S) (ok : Bool) :
      Advances free (.submit q next) free (next ok)
  | answered (b : B) (next : Option V → Prog Q B V S) (answer : Option V) :
      Advances free (.await b next) free (next answer)
  | read (update : S → S) (next : S → Prog Q B V S) (value : S) :
      Advances free (.shared update next) free (next value)

theorem Advances.disciplined {free' : Bool} {p p' : Prog Q B V S} {holder : Option T} {t : T}
    {submitted : Option B} {exempt : Prop} (h : Advances s.free p free' p')
    (hfree : s.free = holder.isNone)
    (hp : Disciplined block exempt (holder = some t) submitted p) :
    ∃ holder' : Option T, free' = holder'.isNone ∧
      (∀ t', t' ≠ t → (holder' = some t' ↔ holder = some t')) ∧
      ∃ submitted', Disciplined block exempt (holder' = some t) submitted' p' := by
  cases h with
  | granted next hgranted =>
      obtain rfl : holder = none := by simpa [hfree] using hgranted
      refine ⟨some t, rfl, fun t' ht' => ?_, none, ?_⟩
      · simp [ht'.symm]
      · simpa using hp.2 (by simp)
  | refused next => exact ⟨holder, hfree, fun _ _ => Iff.rfl, none, hp.1⟩
  | released next =>
      obtain ⟨hholds, hnext⟩ := hp
      refine ⟨none, rfl, fun t' ht' => ?_, none, by simpa using hnext⟩
      simp [hholds, ht'.symm]
  | submitted q next ok => exact ⟨holder, hfree, fun _ _ => Iff.rfl, _, hp.2 ok⟩
  | answered b next answer => exact ⟨holder, hfree, fun _ _ => Iff.rfl, none, hp.2.2 answer⟩
  | read update next value => exact ⟨holder, hfree, fun _ _ => Iff.rfl, none, hp value⟩

theorem Advances.submit_of_waitsFor {free free' : Bool} {p p' : Prog Q B V S} {b : B}
    {submitted : Option B} {holds exempt : Prop} (h : Advances free p free' p')
    (hfree : free = true → ¬holds) (hp : Disciplined block exempt holds submitted p)
    (hwait : p'.waitsFor = some b) : ∃ q next, p = .submit q next := by
  cases h with
  | granted next hgranted =>
      exact absurd hwait (not_waitsFor_of_disciplined (hp.2 (hfree hgranted)) b)
  | refused next => exact absurd hwait (not_waitsFor_of_disciplined hp.1 b)
  | released next => exact absurd hwait (not_waitsFor_of_disciplined hp.2 b)
  | submitted q next ok => exact ⟨q, next, rfl⟩
  | answered b' next answer => exact absurd hwait (not_waitsFor_of_disciplined (hp.2.2 answer) b)
  | read update next value => exact absurd hwait (not_waitsFor_of_disciplined (hp value) b)

variable [DecidableEq T]

@[simp] theorem setProg_prog_self (t : T) (p : Prog Q B V S) : (s.setProg t p).prog t = p :=
  Function.update_self ..

theorem setProg_prog_of_ne {t t' : T} (h : t' ≠ t) (p : Prog Q B V S) :
    (s.setProg t p).prog t' = s.prog t' :=
  Function.update_of_ne h ..

theorem Inv.setProg (h : Inv block exempt s) {t : T} {p : Prog Q B V S} {free' : Bool}
    (hprog : s'.prog = Function.update s.prog t p) (hfree : s'.free = free')
    (hnext : ∀ holder : Option T, s.free = holder.isNone →
      (∃ submitted, Disciplined block (exempt t) (holder = some t) submitted (s.prog t)) →
      ∃ holder' : Option T, free' = holder'.isNone ∧
        (∀ t', t' ≠ t → (holder' = some t' ↔ holder = some t')) ∧
        ∃ submitted', Disciplined block (exempt t) (holder' = some t) submitted' p) :
    Inv block exempt s' := by
  obtain ⟨holder, hholder, hthreads⟩ := h
  obtain ⟨holder', hholder', hothers, hp⟩ := hnext holder hholder (hthreads t)
  refine ⟨holder', hfree.trans hholder', fun t' => ?_⟩
  rw [hprog]
  by_cases ht : t' = t
  · subst ht
    simpa using hp
  · rw [Function.update_of_ne ht]
    simpa only [hothers t' ht] using hthreads t'

variable [DecidableEq B] {program : T → C → Bool → Option (Prog Q B V S)}

theorem runStep_cases {t : T} {ok : Bool} (hstep : runStep block s t ok = some s') :
    ∃ p, s'.prog = Function.update s.prog t p ∧ Advances s.free (s.prog t) s'.free p := by
  rw [runStep] at hstep
  cases hp : s.prog t with
  | done keeps => simp [hp] at hstep
  | acquire next =>
      rw [hp] at hstep
      cases ok with
      | false =>
          obtain rfl := Option.some.inj hstep
          exact ⟨_, rfl, .refused next⟩
      | true =>
          simp only [if_true] at hstep
          split at hstep
          · rename_i hfree
            obtain rfl := Option.some.inj hstep
            exact ⟨_, rfl, .granted next hfree⟩
          · simp at hstep
  | release next =>
      rw [hp] at hstep
      obtain rfl := Option.some.inj hstep
      exact ⟨_, rfl, .released next⟩
  | submit q next =>
      rw [hp] at hstep
      obtain rfl := Option.some.inj hstep
      exact ⟨_, rfl, .submitted q next ok⟩
  | await b next =>
      rw [hp] at hstep
      cases ok with
      | false =>
          obtain rfl := Option.some.inj hstep
          exact ⟨_, rfl, .answered b next none⟩
      | true =>
          obtain ⟨v, -, rfl⟩ := Option.map_eq_some_iff.mp hstep
          exact ⟨_, rfl, .answered b next (some v)⟩
  | shared update next =>
      rw [hp] at hstep
      obtain rfl := Option.some.inj hstep
      exact ⟨_, rfl, .read update next s.shared⟩

theorem runStep_submit {t : T} {ok : Bool} {q : Q} {next : Bool → Prog Q B V S}
    (hq : s.prog t = .submit q next) :
    runStep block s t ok = some ((s.submit (block q) ok).setProg t (next ok)) := by
  rw [runStep, hq]

theorem not_exclusive_of_step {K : Type u} {kind : B → K} {a : Action T C B V}
    (halone : ¬ExemptAlone kind exempt s a)
    (hstep : Exclusion.step block program s a = some s') : ¬Exclusive kind s' := by
  intro hexclusive
  cases a with
  | run t ok =>
      refine halone fun q next b hq hwait t' ht _ b' hb' hkind => ?_
      have hrun : runStep block s t ok = some s' := hstep
      rw [runStep_submit hq] at hrun
      obtain rfl := Option.some.inj hrun
      have hmine : InFlight ((s.submit (block q) ok).setProg t (next ok)) t b := by
        rw [InFlight, setProg_prog_self]
        exact hwait
      have htheirs : InFlight ((s.submit (block q) ok).setProg t (next ok)) t' b' := by
        rw [InFlight, setProg_prog_of_ne ht]
        exact hb'
      exact ht (hexclusive t' t b' b htheirs hmine hkind)
  | start t job => exact halone trivial
  | complete b v => exact halone trivial

variable (hprogram : ∀ t job keeps p, program t job keeps = some p →
  Disciplined block (exempt t) (keeps = true) none p)

include hprogram

theorem Inv.step {a : Action T C B V} (h : Inv block exempt s)
    (hstep : step block program s a = some s') : Inv block exempt s' := by
  cases a with
  | start t job =>
      rw [Exclusion.step] at hstep
      split at hstep
      · rename_i keeps hdone
        obtain ⟨p, hp, rfl⟩ := Option.map_eq_some_iff.mp hstep
        refine h.setProg rfl rfl fun holder hholder ⟨submitted, hold⟩ => ?_
        rw [hdone, Disciplined] at hold
        have hnew := hprogram t job keeps p hp
        rw [eq_iff_iff.mpr hold] at hnew
        exact ⟨holder, hholder, fun _ _ => Iff.rfl, none, hnew⟩
      · simp at hstep
  | run t ok =>
      obtain ⟨p, hprog, hadvances⟩ := runStep_cases hstep
      refine h.setProg hprog rfl fun holder hholder ⟨submitted, hold⟩ => ?_
      exact hadvances.disciplined hholder hold
  | complete b v =>
      rw [Exclusion.step] at hstep
      split at hstep
      · obtain rfl := Option.some.inj hstep
        exact h
      · simp at hstep

variable {K : Type u} {kind : B → K}

theorem Inv.inFlight_step {a : Action T C B V} (h : Inv block exempt s)
    (hstep : Exclusion.step block program s a = some s') {t : T} {b : B}
    (hb : InFlight s' t b) :
    InFlight s t b ∨ ∃ ok q next,
      a = .run t ok ∧ s.prog t = .submit q next ∧ (next ok).waitsFor = some b := by
  cases a with
  | start t₁ job =>
      rw [Exclusion.step] at hstep
      split at hstep
      · obtain ⟨p, hp, rfl⟩ := Option.map_eq_some_iff.mp hstep
        by_cases ht : t = t₁
        · subst ht
          rw [InFlight, setProg_prog_self] at hb
          exact absurd hb (not_waitsFor_of_disciplined (hprogram _ _ _ _ hp) b)
        · rw [InFlight, setProg_prog_of_ne ht] at hb
          exact .inl hb
      · simp at hstep
  | run t₁ ok =>
      have hrun : runStep block s t₁ ok = some s' := hstep
      obtain ⟨holder, hfree, hthreads⟩ := h
      obtain ⟨p, hprog, hadvances⟩ := runStep_cases hrun
      by_cases ht : t = t₁
      · subst ht
        obtain ⟨submitted, hp⟩ := hthreads t
        have hnot : s.free = true → ¬holder = some t := by
          intro hisfree hholder
          simp [hfree, hholder] at hisfree
        have hwait : p.waitsFor = some b := by simpa [InFlight, hprog] using hb
        obtain ⟨q, next, hq⟩ := hadvances.submit_of_waitsFor hnot hp hwait
        rw [runStep_submit hq] at hrun
        obtain rfl := Option.some.inj hrun
        rw [InFlight, setProg_prog_self] at hb
        exact .inr ⟨ok, q, next, rfl, hq, hb⟩
      · rw [InFlight, hprog, Function.update_of_ne ht] at hb
        exact .inl hb
  | complete b₁ v =>
      rw [Exclusion.step] at hstep
      split at hstep
      · obtain rfl := Option.some.inj hstep
        exact .inl hb
      · simp at hstep

theorem Exclusive.step {a : Action T C B V} (h : Exclusive kind s) (hinv : Inv block exempt s)
    (halone : ExemptAlone kind exempt s a)
    (hstep : Exclusion.step block program s a = some s') : Exclusive kind s' := by
  have hinv' := hinv.step hprogram hstep
  -- the pair of a thread that was in flight before and one that has just submitted
  have hnew : ∀ t t' b b', InFlight s t b → InFlight s' t b → InFlight s' t' b' →
      (∃ ok q next, a = .run t' ok ∧ s.prog t' = .submit q next ∧
        (next ok).waitsFor = some b') →
      kind b = kind b' → t = t' := by
    rintro t t' b b' hold hb hb' ⟨ok, q, next, rfl, hq, hwait⟩ hkind
    by_contra ht
    by_cases hexempt : exempt t' ∨ exempt t
    · exact halone q next b' hq hwait t ht hexempt b hold hkind
    · obtain ⟨hnot', hnot⟩ := not_or.mp hexempt
      exact ht (hinv'.unique hb hb' hnot hnot')
  intro t t' b b' hb hb' hkind
  rcases hinv.inFlight_step hprogram hstep hb with hold | hsubmit
  · rcases hinv.inFlight_step hprogram hstep hb' with hold' | hsubmit'
    · exact h t t' b b' hold hold' hkind
    · exact hnew t t' b b' hold hb hb' hsubmit' hkind
  · rcases hinv.inFlight_step hprogram hstep hb' with hold' | hsubmit'
    · exact (hnew t' t b' b hold' hb' hb hsubmit hkind.symm).symm
    · obtain ⟨ok, q, next, ha, -, -⟩ := hsubmit
      obtain ⟨ok', q', next', ha', -, -⟩ := hsubmit'
      rw [ha] at ha'
      exact (Action.run.inj ha').1

/-- In a run in which the exempt threads keep to themselves, every request block has one
user at a time. -/
theorem exclusive_of_reaches {shared : S} {actions : List (Action T C B V)}
    (hrun : Reaches (Exclusion.step block program) (ExemptAlone kind exempt)
      (initial shared) actions s) : Exclusive kind s := by
  have hboth : Inv block exempt s ∧ Exclusive kind s := by
    apply hrun.invariant
    · refine ⟨inv_initial shared, fun t t' b b' hb => ?_⟩
      simp [InFlight, initial, Prog.waitsFor] at hb
    · rintro s a s' ⟨hinv, hexclusive⟩ halone hstep
      exact ⟨hinv.step hprogram hstep, hexclusive.step hprogram hinv halone hstep⟩
  exact hboth.2

end Lemmas

end PsplinkUsb.Library.Exclusion
