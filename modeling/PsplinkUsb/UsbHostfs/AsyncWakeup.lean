import PsplinkUsb.UsbHostfs.AsyncFifo

namespace PsplinkUsb.UsbHostfs.AsyncWakeup

open PsplinkUsb.Library.Run
open PsplinkUsb.UsbHostfs.AsyncChannel
open PsplinkUsb.UsbHostfs.AsyncThreads
open PsplinkUsb.UsbHostfs.AsyncSteps
open PsplinkUsb.UsbHostfs.AsyncFifo
open PsplinkUsb.UsbHostfs.EndpointQueue

variable {s s' : System} {a : Action} {c : Channel}

/-- A reader has returned from its wait on `c` and not finished its section. -/
def HasWoken (s : System) (c : Channel) : Prop := ∃ r len, s.readers r = .woken c len

/-- Bytes waiting on `c` will be noticed. -/
def Noticed (s : System) (c : Channel) : Prop :=
  ∀ e, endpointOf s c = some e → 0 < e.size → s.st.asyncevent c = true ∨ HasWoken s c

def NoLostWakeup (s : System) : Prop := ∀ c, Noticed s c

def WakeInv (s : System) : Prop := Distinct s ∧ NoLostWakeup s

theorem took_hasWoken (h : Took s a s') (htarget : target s a ≠ some c)
    (hwoken : HasWoken s c) : HasWoken s' c := by
  obtain ⟨r', len', hpc'⟩ := hwoken
  cases h with
  | stay hst htrace hreaders => exact ⟨r', len', (hreaders r' c len').mpr hpc'⟩
  | @wake r c' len hpc hevent =>
      have hne : r' ≠ r := by
        rintro rfl
        simp [hpc] at hpc'
      exact ⟨r', len', by simp [setReader, hne, hpc']⟩
  | @read r c' len p e st hpc hchan he hst =>
      have hne : r' ≠ r := by
        rintro rfl
        obtain ⟨rfl, -⟩ := Reader.woken.inj (hpc.symm.trans hpc')
        exact htarget (by simp [target, hpc])
      exact ⟨r', len', by simp [setTrace, setReader, hne, hpc']⟩
  | flush => exact ⟨r', len', hpc'⟩
  | register => exact ⟨r', len', hpc'⟩
  | unregister => exact ⟨r', len', hpc'⟩
  | fill => exact ⟨r', len', hpc'⟩

/-- The channel a step works on keeps its bytes noticed: the wait hands the bit
to the reader it wakes, and the section sets it again if bytes are left. -/
theorem took_noticed (h : Took s a s') (hnoticed : NoLostWakeup s)
    (htarget : target s a = some c) : Noticed s' c := by
  cases h with
  | stay hst htrace hreaders =>
      intro e he hsize
      have he' : endpointOf s c = some e := by simpa [endpointOf, hst] using he
      rw [hst]
      rcases hnoticed c e he' hsize with hevent | ⟨r, len, hpc⟩
      · exact .inl hevent
      · exact .inr ⟨r, len, (hreaders r c len).mpr hpc⟩
  | @wake r c' len hpc hevent =>
      obtain rfl : c' = c := by simpa [target, hpc] using htarget
      intro e he hsize
      exact .inr ⟨r, len, by simp [setReader]⟩
  | @read r c' len p e st hpc hchan he hst =>
      obtain rfl : c' = c := by simpa [target, hpc] using htarget
      intro e' he' hsize
      rcases hst with ⟨rfl, hempty⟩ | rfl
      · obtain rfl : afterRead len e = e' := by
          simpa [endpointOf, setEndpoint, hchan] using he'
        omega
      · exact .inl (by simp [setEvent])
  | @flush f c' p hpc hchan =>
      obtain rfl : c' = c := by simpa [target, hpc] using htarget
      intro e he hsize
      obtain rfl := by simpa [endpointOf, setEvent, setEndpoint, hchan] using he
      simp at hsize
  | @register chan c' p hc =>
      obtain rfl : c' = c := by simpa [target, hc] using htarget
      intro e he hsize
      obtain rfl := by simpa [endpointOf, setEvent, setEndpoint] using he
      simp at hsize
  | @unregister chan c' hc =>
      obtain rfl : c' = c := by simpa [target, hc] using htarget
      intro e he
      simp [endpointOf] at he
  | @fill packet c' p e hc hchan he =>
      obtain rfl : c' = c := by simpa [target, hc] using htarget
      intro e' he' hsize
      exact .inl (by simp [setEvent])

theorem step_noLostWakeup (h : step s a = some s') (hguard : noSharing s a)
    (hdistinct : Distinct s) (hnoticed : NoLostWakeup s) : NoLostWakeup s' := by
  intro c
  have htook := step_took h
  by_cases htarget : target s a = some c
  · exact took_noticed htook hnoticed htarget
  · intro e he hsize
    have hsame := step_sameChannel h hguard hdistinct htarget
    rw [hsame.endpoint] at he
    rw [hsame.asyncevent]
    rcases hnoticed c e he hsize with hevent | hwoken
    · exact .inl hevent
    · exact .inr (took_hasWoken htook htarget hwoken)

variable {endpoints : EndpointPtr → AsyncEndpoint} {actions : List Action}

/-- In every run that shares no endpoint, a registered channel with bytes has
its bit set or a reader about to look. -/
theorem async_noLostWakeup (hrun : Reaches step noSharing (start endpoints) actions s) :
    ∀ c e, endpointOf s c = some e → 0 < e.size →
      s.st.asyncevent c = true ∨ ∃ r len, s.readers r = .woken c len := by
  have hstart : NoLostWakeup (start endpoints) := by
    intro c e he
    simp [endpointOf, start] at he
  have hpreserved : ∀ t a t', WakeInv t → noSharing t a → step t a = some t' → WakeInv t' := by
    rintro t a t' ⟨hdistinct, hnoticed⟩ hguard hstep
    exact ⟨(step_took hstep).distinct hguard hdistinct,
      step_noLostWakeup hstep hguard hdistinct hnoticed⟩
  exact (hrun.invariant ⟨start_distinct endpoints, hstart⟩ hpreserved).2

def contendedRead : List Action :=
  [.register 4 (some 0), .readEnter 0 4 1, .readEnter 1 4 1, .fill (packetFor4 [7, 8]),
    .readWait 0, .readSection 0]

theorem async_noLostWakeup_contendedRead :
    ∃ s, Reaches step noSharing (start blankEndpoints) contendedRead s ∧
      (∀ e ∈ endpointOf s 4, e.size = 1) ∧
      ∀ c e, endpointOf s c = some e → 0 < e.size →
        s.st.asyncevent c = true ∨ ∃ r len, s.readers r = .woken c len := by
  have hfound : ∃ s, Reaches step noSharing (start blankEndpoints) contendedRead s ∧
      decide ((endpointOf s 4).map AsyncEndpoint.size = some 1) = true :=
    exists_reaches (by decide)
  obtain ⟨s, hrun, hsize⟩ := hfound
  refine ⟨s, hrun, ?_, async_noLostWakeup hrun⟩
  intro e he
  have hmap := of_decide_eq_true hsize
  rw [Option.mem_def.mp he] at hmap
  exact Option.some.inj hmap

def noWake (_ : System) : Action → Prop
  | .readWait _ => False
  | _ => True

instance (s : System) : (a : Action) → Decidable (noWake s a)
  | .readWait _ => .isFalse id
  | .readEnter .. | .readTimeout _ | .readSection _ | .flushEnter .. | .flushSection _
  | .register .. | .unregister _ | .fill _ => .isTrue trivial

/-- Only a wait that returns makes a woken reader. -/
theorem step_not_hasWoken (h : step s a = some s') (hguard : noWake s a)
    (hnone : ¬ HasWoken s c) : ¬ HasWoken s' c := by
  rintro ⟨r', len', hpc'⟩
  apply hnone
  cases step_took h with
  | stay hst htrace hreaders => exact ⟨r', len', (hreaders r' c len').mp hpc'⟩
  | wake => exact hguard.elim
  | @read r c' len p e st hpc hchan he hst =>
      simp only [setTrace, setReader, Function.update_apply] at hpc'
      split at hpc'
      · simp at hpc'
      · exact ⟨r', len', hpc'⟩
  | flush => exact ⟨r', len', hpc'⟩
  | register => exact ⟨r', len', hpc'⟩
  | unregister => exact ⟨r', len', hpc'⟩
  | fill => exact ⟨r', len', hpc'⟩

/-- With one endpoint registered on channels 4 and 5, a packet for channel 4
leaves bytes on channel 5 that nobody notices. -/
theorem async_lostWakeup_shared :
    ¬ ∀ actions s, Reaches step anyStep (start blankEndpoints) actions s →
      ∀ c e, endpointOf s c = some e → 0 < e.size →
        s.st.asyncevent c = true ∨ ∃ r len, s.readers r = .woken c len := by
  intro hall
  have hfound : ∃ s, Reaches step noWake (start blankEndpoints)
      [.register 4 (some 0), .register 5 (some 0), .fill (packetFor4 [7])] s ∧
      ((endpointOf s 5).any (fun e => 0 < e.size) && !s.st.asyncevent 5) = true :=
    exists_reaches (by decide)
  obtain ⟨s, hrun, htest⟩ := hfound
  simp only [Bool.and_eq_true, Option.any_eq_true, decide_eq_true_eq, Bool.not_eq_true'] at htest
  obtain ⟨⟨e, he, hsize⟩, hevent⟩ := htest
  have hnone : ¬ HasWoken s 5 := by
    refine hrun.invariant ?_ fun t a t' hnone hguard hstep => step_not_hasWoken hstep hguard hnone
    rintro ⟨r, len, hpc⟩
    simp [start] at hpc
  rcases hall _ s (hrun.mono fun _ _ _ => trivial) 5 e he hsize with hset | hwoken
  · simp [hevent] at hset
  · exact hnone hwoken

end PsplinkUsb.UsbHostfs.AsyncWakeup
