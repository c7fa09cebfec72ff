import PsplinkUsb.Library.Run
import PsplinkUsb.RemoteJoy.ScreenThread

namespace PsplinkUsb.RemoteJoy.ScreenAgreement

open PsplinkUsb.Library.Run
open PsplinkUsb.RemoteJoy.ScreenThread

def stopSet : Option ScreenEvent → Bool
  | some e => e.stop
  | none => false

/-- The thread has taken bit 2 from the event flag, and not come out of its sleep. -/
def taken : Phase → Bool
  | .woken status _ => status.stop
  | .stopping => true
  | .asleep => true
  | _ => false

/-- The thread waits with bit 2 clear only while the screen is on, and sleeps only while it
is off. -/
structure Agree (s : State) : Prop where
  waiting : ∀ t, s.thread = some t → t.phase = .waiting → stopSet s.screvent = false →
    s.enabled = true
  asleep : ∀ t, s.thread = some t → t.phase = .asleep → s.enabled = false

/-- A command takes the screen off while bit 2 is still set for the time before. -/
def Merges (s : State) : Action → Prop
  | .screenCmd value _ => ¬Active value ∧ TakesOff s ∧ stopSet s.screvent = true
  | _ => False

instance decidableMerges (s : State) : (a : Action) → Decidable (Merges s a)
  | .screenCmd _ _ => inferInstanceAs (Decidable (_ ∧ _ ∧ _))
  | .setFrameBuf _ => inferInstanceAs (Decidable False)
  | .begin _ => inferInstanceAs (Decidable False)
  | .wait => inferInstanceAs (Decidable False)
  | .waitTimeout => inferInstanceAs (Decidable False)
  | .waitError => inferInstanceAs (Decidable False)
  | .frame => inferInstanceAs (Decidable False)
  | .sleep => inferInstanceAs (Decidable False)

def NotMerging (s : State) (a : Action) : Prop := ¬Merges s a

/-- The wakeups counted make up for the times the screen was taken off, but those merged. -/
structure Balanced (merged : ℕ) (enabled : Bool) (event : Option ScreenEvent) (t : Thread) :
    Prop where
  made : event.isSome
  count : t.wakeups + 1 =
    enabled.toNat + (stopSet event).toNat + (taken t.phase).toNat + merged
  asleep : t.phase = .asleep → t.wakeups = 0

/-- Before there is a thread nothing is merged, and at its end nothing is counted. -/
def Balance (merged : ℕ) (s : State) : Prop :=
  match s.thread with
  | none => merged = 0
  | some t => t.phase ≠ .ended → Balanced merged s.enabled s.screvent t

variable {s s' : State} {t : Thread} {a : Action} {merged : ℕ} {value : Word}
  {created : Created}

theorem balance_none (h : s.thread = none) : Balance merged s ↔ merged = 0 := by
  rw [Balance, h]

theorem balance_some (h : s.thread = some t) :
    Balance merged s ↔ (t.phase ≠ .ended → Balanced merged s.enabled s.screvent t) := by
  rw [Balance, h]

theorem Balanced.wakeup {event : Option ScreenEvent} (h : Balanced merged false event t)
    (hphase : t.phase ≠ .ended) : Balanced merged true event t.wakeup := by
  obtain ⟨hevent, hcount, hasleep⟩ := h
  obtain ⟨phase, wakeups⟩ := t
  rw [Thread.wakeup]
  refine ⟨hevent, ?_, ?_⟩
  · cases phase with
    | ended => exact absurd rfl hphase
    | asleep =>
        simp only [taken, Bool.toNat_true, Bool.toNat_false] at hcount ⊢
        omega
    | _ =>
        simp only [taken, Bool.toNat_true, Bool.toNat_false] at hcount ⊢
        omega
  · cases phase with
    | asleep =>
        intro hwaiting
        cases hwaiting
    | _ =>
        intro hother
        cases hother

theorem balance_enable (h : Balance merged s) : Balance merged (enable created s) := by
  rw [enable]
  cases hthread : s.thread with
  | none =>
      have hzero := (balance_none hthread).mp h
      dsimp only
      split
      · split
        · refine (balance_some rfl).mpr fun hphase => ?_
          split at hphase
          · rename_i hstarted
            rw [if_pos hstarted, hzero]
            exact ⟨rfl, rfl, fun hasleep => by cases hasleep⟩
          · exact absurd rfl hphase
        · exact (balance_none rfl).mpr hzero
      · exact (balance_none rfl).mpr hzero
  | some t =>
      have hbalanced := (balance_some hthread).mp h
      dsimp only
      split
      · rename_i hdisabled
        refine (balance_some rfl).mpr fun hphase => ?_
        have hended : t.phase ≠ .ended := by
          intro hended
          rw [Thread.wakeup, hended] at hphase
          exact hphase hended
        rw [Bool.eq_false_iff.mpr hdisabled] at hbalanced
        exact (hbalanced hended).wakeup hended
      · exact h

theorem balance_disable (h : Balance merged s) :
    Balance (merged + if TakesOff s ∧ stopSet s.screvent = true then 1 else 0) (disable s) := by
  rw [disable]
  by_cases hoff : TakesOff s
  · rw [if_pos hoff]
    obtain ⟨t, hthread⟩ := Option.isSome_iff_exists.mp hoff.1
    refine (balance_some (t := t) ?_).mpr fun hphase => ?_
    · exact hthread
    obtain ⟨hevent, hcount, hasleep⟩ := (balance_some hthread).mp h hphase
    obtain ⟨e, he⟩ := Option.isSome_iff_exists.mp hevent
    rw [he, hoff.2] at hcount
    rw [he]
    refine ⟨rfl, ?_, hasleep⟩
    cases hstop : e.stop with
    | true =>
        simp only [stopSet, hstop, hoff, Option.map_some, Bool.toNat_true, Bool.toNat_false,
          and_self, if_true] at hcount ⊢
        omega
    | false =>
        simp only [stopSet, hstop, Option.map_some, Bool.toNat_true, Bool.toNat_false,
          Bool.false_eq_true, and_false, if_false] at hcount ⊢
        omega
  · rw [if_neg hoff, if_neg fun hmerges => hoff hmerges.1]
    exact h

theorem balance_setFrameBuf {topaddr : Bool} (h : Balance merged s) :
    Balance merged (setFrameBuf topaddr s) := by
  rw [setFrameBuf]
  split
  · split
    · cases hthread : s.thread with
      | none => exact (balance_none rfl).mpr ((balance_none hthread).mp h)
      | some t =>
          refine (balance_some (t := t) rfl).mpr fun hphase => ?_
          obtain ⟨hevent, hcount, hasleep⟩ := (balance_some hthread).mp h hphase
          obtain ⟨e, he⟩ := Option.isSome_iff_exists.mp hevent
          rw [he] at hcount
          rw [he]
          exact ⟨rfl, hcount, hasleep⟩
    · exact h
  · exact h

theorem balance_threadStep (hthread : s.thread = some t) (h : Balance merged s)
    (hstep : threadStep s t a = some s') : Balance merged s' := by
  have hbalanced := (balance_some hthread).mp h
  cases a with
  | screenCmd value created => cases hstep
  | setFrameBuf topaddr => cases hstep
  | begin semaCreated =>
      rw [threadStep] at hstep
      split at hstep
      · rename_i hphase
        obtain ⟨hevent, hcount, -⟩ := hbalanced (by rw [hphase]; decide)
        rw [hphase] at hcount
        split at hstep
        · obtain rfl := Option.some.inj hstep
          exact (balance_some rfl).mpr fun _ => ⟨hevent, hcount, fun hasleep => by cases hasleep⟩
        · obtain rfl := Option.some.inj hstep
          exact (balance_some rfl).mpr fun hended => absurd rfl hended
      · cases hstep
  | wait =>
      rw [threadStep] at hstep
      split at hstep
      · rename_i e he
        split at hstep
        · rename_i hwait
          obtain rfl := Option.some.inj hstep
          obtain ⟨-, hcount, -⟩ := hbalanced (by rw [hwait.1]; decide)
          rw [hwait.1, he] at hcount
          refine (balance_some rfl).mpr fun _ => ⟨rfl, ?_, fun hasleep => by cases hasleep⟩
          simp only [stopSet, taken, ScreenEvent.clear, State.setPhase, Bool.toNat_false] at hcount ⊢
          omega
        · cases hstep
      · cases hstep
  | waitTimeout =>
      rw [threadStep] at hstep
      split at hstep
      · rename_i hwait
        obtain rfl := Option.some.inj hstep
        obtain ⟨hevent, hcount, -⟩ := hbalanced (by rw [hwait.1]; decide)
        rw [hwait.1] at hcount
        exact (balance_some rfl).mpr fun _ => ⟨hevent, hcount, fun hasleep => by cases hasleep⟩
      · cases hstep
  | waitError =>
      rw [threadStep] at hstep
      split at hstep
      · obtain rfl := Option.some.inj hstep
        exact (balance_some rfl).mpr fun hended => absurd rfl hended
      · cases hstep
  | frame =>
      rw [threadStep] at hstep
      split at hstep
      · rename_i status timeout hphase
        obtain ⟨hevent, hcount, -⟩ := hbalanced (by rw [hphase]; simp)
        rw [hphase] at hcount
        have hnext : Balance merged
            (s.setPhase t (if status.stop then .stopping else .waiting)) := by
          refine (balance_some rfl).mpr fun _ => ⟨hevent, ?_, ?_⟩
          · cases hstop : status.stop with
            | true =>
                rw [taken, hstop] at hcount
                exact hcount
            | false =>
                rw [taken, hstop] at hcount
                exact hcount
          · cases status.stop with
            | true =>
                intro hasleep
                cases hasleep
            | false =>
                intro hasleep
                cases hasleep
        obtain rfl := Option.some.inj hstep
        split
        · exact hnext
        · exact hnext
      · cases hstep
  | sleep =>
      rw [threadStep] at hstep
      split at hstep
      · rename_i hphase
        obtain ⟨hevent, hcount, -⟩ := hbalanced (by rw [hphase]; decide)
        rw [hphase] at hcount
        split at hstep
        · rename_i hzero
          obtain rfl := Option.some.inj hstep
          refine (balance_some (t := { t with phase := .asleep }) rfl).mpr fun _ => ?_
          exact ⟨hevent, hcount, fun _ => hzero⟩
        · rename_i n hmore
          obtain rfl := Option.some.inj hstep
          refine (balance_some rfl).mpr fun _ => ⟨hevent, ?_, fun hasleep => by cases hasleep⟩
          simp only [hmore, taken, Bool.toNat_true, Bool.toNat_false] at hcount ⊢
          omega
      · cases hstep

def SomeBalance (s : State) : Prop := ∃ merged, Balance merged s

theorem balance_step (h : Balance merged s) (hstep : step s a = some s') :
    Balance (merged + if Merges s a then 1 else 0) s' := by
  have hthread : (hnot : ¬Merges s a) → (s.thread.bind fun t => threadStep s t a) = some s' →
      Balance (merged + if Merges s a then 1 else 0) s' := by
    intro hnot hbind
    obtain ⟨t, ht, hstep⟩ := Option.bind_eq_some_iff.mp hbind
    rw [if_neg hnot]
    exact balance_threadStep ht h hstep
  cases a with
  | screenCmd value created =>
      obtain rfl := Option.some.inj hstep
      rw [doScreenCmd]
      by_cases hactive : Active value
      · rw [if_pos hactive, if_neg fun hmerges => hmerges.1 hactive]
        exact balance_enable h
      · rw [if_neg hactive]
        simp only [Merges, hactive, not_false_eq_true, true_and]
        exact balance_disable h
  | setFrameBuf topaddr =>
      rw [step] at hstep
      split at hstep
      · obtain rfl := Option.some.inj hstep
        exact balance_setFrameBuf h
      · cases hstep
  | begin semaCreated => exact hthread id hstep
  | wait => exact hthread id hstep
  | waitTimeout => exact hthread id hstep
  | waitError => exact hthread id hstep
  | frame => exact hthread id hstep
  | sleep => exact hthread id hstep

theorem Balance.agree_asleep (h : Balance merged s) (hthread : s.thread = some t)
    (hphase : t.phase = .asleep) : s.enabled = false := by
  obtain ⟨-, hcount, hzero⟩ := (balance_some hthread).mp h (by rw [hphase]; decide)
  rw [hzero hphase, hphase] at hcount
  cases henabled : s.enabled with
  | false => rfl
  | true =>
      simp only [henabled, taken, Bool.toNat_true] at hcount
      omega

theorem Balance.agree (h : Balance 0 s) : Agree s where
  waiting t hthread hphase hstop := by
    obtain ⟨-, hcount, -⟩ := (balance_some hthread).mp h (by rw [hphase]; decide)
    rw [hphase, hstop] at hcount
    cases henabled : s.enabled with
    | true => rfl
    | false =>
        simp only [henabled, taken, Bool.toNat_false] at hcount
        omega
  asleep _ hthread hphase := h.agree_asleep hthread hphase

/-- In every run the thread sleeps only while the screen is off. -/
theorem asleep_disabled {actions : List Action} (hrun : Reaches step anyStep start actions s)
    (hthread : s.thread = some t) (hphase : t.phase = .asleep) : s.enabled = false := by
  have hstart : SomeBalance start := ⟨0, rfl⟩
  obtain ⟨merged, h⟩ := hrun.invariant hstart fun s a s' hbalance _ hstep =>
    hbalance.elim fun _ h => ⟨_, balance_step h hstep⟩
  exact h.agree_asleep hthread hphase

/-- In every run in which no command takes the screen off while bit 2 is still set, the two
agree. -/
theorem screen_agreement {actions : List Action} {s : State}
    (hrun : Reaches step NotMerging start actions s) : Agree s := by
  have hstart : Balance 0 start := rfl
  have hbalance : Balance 0 s := by
    refine hrun.invariant hstart ?_
    intro s a s' h hguard hstep
    have hnext := balance_step h hstep
    rwa [if_neg hguard] at hnext
  exact hbalance.agree

instance (s : State) (a : Action) : Decidable (NotMerging s a) := inferInstanceAs (Decidable (¬_))

def allCreated : Created := ⟨true, true, true⟩

/-- The screen is put on and taken off, and the thread falls asleep. -/
theorem screen_agreement_sleeping : Agree
    { start with
      thread := some ⟨.asleep, 0⟩, screvent := some .clear, scrsema := some true, hooked := true } :=
  screen_agreement (@reaches_of_runGuarded _ _ step NotMerging start _
    [.screenCmd 1 allCreated, .begin true, .screenCmd 0 allCreated, .wait, .frame, .sleep] _
    (by decide))

/-- Taken off, put on and taken off again before the thread runs: it does not sleep. -/
theorem merged_stop_keeps_screen : ∃ s,
    Reaches step anyStep start
      [.screenCmd 1 allCreated, .begin true, .screenCmd 0 allCreated, .screenCmd 1 allCreated,
        .screenCmd 0 allCreated, .wait, .frame, .sleep] s ∧
      ¬Agree s := by
  have hrun : runGuarded step anyStep start
      [.screenCmd 1 allCreated, .begin true, .screenCmd 0 allCreated, .screenCmd 1 allCreated,
        .screenCmd 0 allCreated, .wait, .frame, .sleep] =
      some { start with
        thread := some ⟨.waiting, 0⟩, screvent := some .clear, scrsema := some true,
        hooked := true } := by
    decide
  refine ⟨_, reaches_of_runGuarded hrun, ?_⟩
  intro h
  exact Bool.false_ne_true (h.waiting _ rfl rfl rfl)

end PsplinkUsb.RemoteJoy.ScreenAgreement
