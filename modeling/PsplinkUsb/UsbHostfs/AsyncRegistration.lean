import PsplinkUsb.UsbHostfs.AsyncWakeup

namespace PsplinkUsb.UsbHostfs.AsyncRegistration

open PsplinkUsb.Library.Run
open PsplinkUsb.UsbHostfs.AsyncChannel
open PsplinkUsb.UsbHostfs.AsyncThreads
open PsplinkUsb.UsbHostfs.AsyncSteps
open PsplinkUsb.UsbHostfs.AsyncFifo
open PsplinkUsb.UsbHostfs.AsyncWakeup

variable {s s' : System} {a : Action} {c : Channel}

/-- Every reader about to enter its section finds its channel registered. -/
def ReadersRegistered (s : System) : Prop :=
  ∀ r c len, s.readers r = .woken c len → s.st.asyncChan c ≠ none

/-- No wait returns on an unregistered channel, and no channel is unregistered
between a reader's wake-up and its section. -/
def wakesRegistered (s : System) : Action → Prop
  | .readWait r => ∀ c len, s.readers r = .waiting c len → s.st.asyncChan c ≠ none
  | .unregister chan => ∀ c, openChannel chan s.st = some c → ¬ HasWoken s c
  | _ => True

theorem took_readersRegistered (h : Took s a s') (hguard : wakesRegistered s a)
    (hreg : ReadersRegistered s) : ReadersRegistered s' := by
  intro r' c' len' hpc'
  cases h with
  | stay hst htrace hreaders =>
      rw [hst]
      exact hreg r' c' len' ((hreaders r' c' len').mp hpc')
  | @wake r c len hpc hevent =>
      simp only [setReader, Function.update_apply] at hpc'
      split at hpc'
      · obtain ⟨rfl, -⟩ := Reader.woken.inj hpc'
        exact hguard c len hpc
      · exact hreg r' c' len' hpc'
  | @read r c len p e st hpc hchan he hst =>
      have hold : s.readers r' = .woken c' len' := by
        simp only [setTrace, setReader, Function.update_apply] at hpc'
        split at hpc'
        · simp at hpc'
        · exact hpc'
      rcases hst with ⟨rfl, -⟩ | rfl
      · exact hreg r' c' len' hold
      · exact hreg r' c' len' hold
  | flush => exact hreg r' c' len' hpc'
  | @register chan c p hc =>
      simp only [setEvent, setEndpoint, Function.update_apply]
      split
      · simp
      · exact hreg r' c' len' hpc'
  | @unregister chan c hc =>
      simp only [Function.update_apply]
      split
      · rename_i heq
        subst heq
        exact absurd ⟨r', len', hpc'⟩ (hguard c' hc)
      · exact hreg r' c' len' hpc'
  | fill => exact hreg r' c' len' hpc'

/-- A step against the discipline leaves a reader with a null pointer. -/
theorem wakesRegistered_of_step (h : step s a = some s') (hreg : ReadersRegistered s') :
    wakesRegistered s a := by
  cases a with
  | readWait r =>
      intro c len hpc
      simp only [step, hpc] at h
      split at h
      · obtain rfl := Option.some.inj h
        exact hreg r c len (by simp [setReader])
      · simp at h
  | unregister chan =>
      rintro c hc ⟨r, len, hpc⟩
      simp only [step, usbAsyncUnregister, hc, Option.some.injEq] at h
      subst h
      exact hreg r c len hpc (by simp)
  | _ => trivial

variable {endpoints : EndpointPtr → AsyncEndpoint} {actions : List Action}

/-- In every run that keeps the discipline a reader enters its section with a
registered channel only, and the next step keeps this exactly when it keeps the
discipline. -/
theorem async_readersRegistered
    (hrun : Reaches step wakesRegistered (start endpoints) actions s) :
    ReadersRegistered s ∧
      ∀ a s', step s a = some s' → (ReadersRegistered s' ↔ wakesRegistered s a) := by
  have hreg : ReadersRegistered s := by
    refine hrun.invariant ?_ fun t a t' hreg hguard hstep =>
      took_readersRegistered (step_took hstep) hguard hreg
    intro r c len hpc
    simp [start] at hpc
  refine ⟨hreg, fun a s' hstep => ⟨wakesRegistered_of_step hstep, fun hguard => ?_⟩⟩
  exact took_readersRegistered (step_took hstep) hguard hreg

/-- A reader is not blocked on a channel that is unregistered. -/
def blockedRegistered (s : System) : Reader → Prop
  | .waiting c _ => s.st.asyncChan c ≠ none
  | _ => True

instance (s : System) : (pc : Reader) → Decidable (blockedRegistered s pc)
  | .waiting c _ => inferInstanceAs (Decidable (s.st.asyncChan c ≠ none))
  | .idle | .woken .. => .isTrue trivial

/-- The discipline kept by never unregistering, in a form that evaluates. -/
def staysRegistered (s : System) : Action → Prop
  | .readWait r => blockedRegistered s (s.readers r)
  | .unregister _ => False
  | _ => True

instance (s : System) : (a : Action) → Decidable (staysRegistered s a)
  | .readWait r => inferInstanceAs (Decidable (blockedRegistered s (s.readers r)))
  | .unregister _ => .isFalse id
  | .readEnter .. | .readTimeout _ | .readSection _ | .flushEnter .. | .flushSection _
  | .register .. | .fill _ => .isTrue trivial

theorem wakesRegistered_of_staysRegistered (h : staysRegistered s a) : wakesRegistered s a := by
  cases a with
  | readWait r =>
      intro c len hpc
      simpa only [staysRegistered, blockedRegistered, hpc] using h
  | unregister chan => exact h.elim
  | _ => trivial

theorem async_readersRegistered_woken :
    ∃ s, Reaches step wakesRegistered (start blankEndpoints)
        [.register 4 (some 0), .readEnter 0 4 1, .fill (packetFor4 [7]), .readWait 0] s ∧
      s.readers 0 = .woken 4 1 ∧ ReadersRegistered s ∧
      ∀ a s', step s a = some s' → (ReadersRegistered s' ↔ wakesRegistered s a) := by
  have hfound : ∃ s, Reaches step staysRegistered (start blankEndpoints)
      [.register 4 (some 0), .readEnter 0 4 1, .fill (packetFor4 [7]), .readWait 0] s ∧
      decide (s.readers 0 = .woken 4 1) = true := exists_reaches (by decide)
  obtain ⟨s, hstays, hpc⟩ := hfound
  have hrun := hstays.mono fun _ _ => wakesRegistered_of_staysRegistered
  exact ⟨s, hrun, of_decide_eq_true hpc, async_readersRegistered hrun⟩

/-- The channel of a blocked reader is unregistered after a packet set its bit:
the reader wakes up on a null pointer. -/
theorem async_not_readersRegistered :
    ¬ ∀ actions s, Reaches step anyStep (start blankEndpoints) actions s →
      ReadersRegistered s := by
  intro hall
  have hfound : ∃ s, Reaches step anyStep (start blankEndpoints)
      [.register 4 (some 0), .readEnter 0 4 1, .fill (packetFor4 [7]), .unregister 4,
        .readWait 0] s ∧
      decide (s.readers 0 = .woken 4 1 ∧ s.st.asyncChan 4 = none) = true :=
    exists_reaches (by decide)
  obtain ⟨s, hrun, htest⟩ := hfound
  obtain ⟨hpc, hnull⟩ := of_decide_eq_true htest
  exact hall _ s hrun 0 4 1 hpc hnull

end PsplinkUsb.UsbHostfs.AsyncRegistration
