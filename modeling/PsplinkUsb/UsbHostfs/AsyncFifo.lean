import PsplinkUsb.UsbHostfs.AsyncSteps

namespace PsplinkUsb.UsbHostfs.AsyncFifo

open PsplinkUsb.Library.Run
open PsplinkUsb.UsbHostfs.AsyncChannel
open PsplinkUsb.UsbHostfs.AsyncThreads
open PsplinkUsb.UsbHostfs.AsyncSteps
open PsplinkUsb.UsbHostfs.EndpointQueue

variable {s s' : System} {a : Action} {c : Channel}

/-- What a channel has accepted is what its reads returned and then what waits
in its endpoint. -/
def Accounted (s : System) (c : Channel) : Prop :=
  ∀ e, endpointOf s c = some e →
    Ring e ∧ (s.trace c).accepted = (s.trace c).returned ++ queued e

structure Inv (s : System) : Prop where
  distinct : Distinct s
  accounted : ∀ c, Accounted s c

theorem accounted_of_sameChannel (h : SameChannel c s s') (hacc : Accounted s c) :
    Accounted s' c := by
  intro e he
  rw [h.endpoint] at he
  rw [h.trace]
  exact hacc e he

theorem took_accounted (h : Took s a s') (hinv : Inv s) (htarget : target s a = some c) :
    Accounted s' c := by
  cases h with
  | stay hst htrace => exact accounted_of_sameChannel (.of_eq hst htrace) (hinv.accounted c)
  | @wake r c' len hpc hevent =>
      exact hinv.accounted c
  | @read r c' len p e st hpc hchan he hst =>
      obtain rfl : c' = c := by simpa [target, hpc] using htarget
      obtain ⟨hring, hacc⟩ := hinv.accounted c' e (by simp [endpointOf, hchan, he])
      intro e' he'
      have heq : afterRead len e = e' := by
        rcases hst with ⟨rfl, -⟩ | rfl <;>
          simpa [endpointOf, setEvent, setEndpoint, hchan] using he'
      subst heq
      refine ⟨afterRead_ring hring len, ?_⟩
      simp only [setTrace, Function.update_self]
      rw [hacc, queued_eq_readBytes hring len, List.append_assoc]
  | @flush f c' p hpc hchan =>
      obtain rfl : c' = c := by simpa [target, hpc] using htarget
      intro e he
      obtain rfl := by simpa [endpointOf, setEvent, setEndpoint, hchan] using he
      exact ⟨ring_empty _, by simp [setTrace, noTrace, queued]⟩
  | @register chan c' p hc =>
      obtain rfl : c' = c := by simpa [target, hc] using htarget
      intro e he
      obtain rfl := by simpa [endpointOf, setEvent, setEndpoint] using he
      exact ⟨ring_empty _, by simp [setTrace, noTrace, queued]⟩
  | @unregister chan c' hc =>
      obtain rfl : c' = c := by simpa [target, hc] using htarget
      intro e he
      simp [endpointOf] at he
  | @fill packet c' p e hc hchan he =>
      obtain rfl : c' = c := by simpa [target, hc] using htarget
      obtain ⟨hring, hacc⟩ := hinv.accounted c' e (by simp [endpointOf, hchan, he])
      obtain ⟨hring', hqueued⟩ := afterFill_spec hring packet
      intro e' he'
      obtain rfl : afterFill packet e = e' := by
        simpa [endpointOf, setEvent, setEndpoint, hchan] using he'
      refine ⟨hring', ?_⟩
      simp only [setTrace, Function.update_self]
      rw [hqueued, hacc, List.append_assoc]

theorem step_inv (h : step s a = some s') (hguard : noSharing s a) (hinv : Inv s) :
    Inv s' where
  distinct := (step_took h).distinct hguard hinv.distinct
  accounted := by
    intro c
    by_cases htarget : target s a = some c
    · exact took_accounted (step_took h) hinv htarget
    · exact accounted_of_sameChannel (step_sameChannel h hguard hinv.distinct htarget)
        (hinv.accounted c)

theorem start_inv (endpoints : EndpointPtr → AsyncEndpoint) : Inv (start endpoints) where
  distinct := start_distinct endpoints
  accounted := by
    intro c e he
    simp [endpointOf, start] at he

theorem run_inv {endpoints : EndpointPtr → AsyncEndpoint} {actions : List Action}
    (hrun : Reaches step noSharing (start endpoints) actions s) : Inv s :=
  hrun.invariant (start_inv endpoints) fun _ _ _ hinv hguard hstep => step_inv hstep hguard hinv

/-- Every channel is a bounded queue, as far as steps that meet `guard` go: the
counters agree, what was returned begins what was accepted, a packet is accepted
up to the free room, and a step changes no channel but its own. -/
structure BoundedFifo (guard : System → Action → Prop) (s : System) : Prop where
  counters : ∀ c e, endpointOf s c = some e →
    (0 ≤ e.size ∧ e.size ≤ maxAsyncBuffer) ∧ (0 ≤ e.readPos ∧ e.readPos < maxAsyncBuffer) ∧
      (0 ≤ e.writePos ∧ e.writePos < maxAsyncBuffer) ∧
      e.writePos = (e.readPos + e.size) % maxAsyncBuffer
  returned : ∀ c e, endpointOf s c = some e → (s.trace c).returned <+: (s.trace c).accepted
  accepts : ∀ packet c e s', packetChannel packet = some c → endpointOf s c = some e →
    step s (.fill packet) = some s' →
      (s'.trace c).accepted =
        (s.trace c).accepted ++ (payload packet).take (maxAsyncBuffer - e.size).toNat
  frame : ∀ a s' c, guard s a → step s a = some s' → target s a ≠ some c → SameChannel c s s'

/-- In every run that shares no endpoint, every channel is a bounded queue. -/
theorem async_boundedFifo {endpoints : EndpointPtr → AsyncEndpoint} {actions : List Action}
    (hrun : Reaches step noSharing (start endpoints) actions s) :
    BoundedFifo noSharing s where
  counters := by
    intro c e he
    obtain ⟨hring, -⟩ := (run_inv hrun).accounted c e he
    exact ⟨⟨hring.size_nonneg, hring.size_le⟩, ⟨hring.readPos_nonneg, hring.readPos_lt⟩,
      ⟨hring.writePos_nonneg, hring.writePos_lt⟩, hring.writePos_eq⟩
  returned := by
    intro c e he
    rw [((run_inv hrun).accounted c e he).2]
    exact List.prefix_append ..
  accepts := by
    intro packet c e s' hc he hstep
    obtain ⟨hring, -⟩ := (run_inv hrun).accounted c e he
    simp only [step, hc, accept, he, Option.some.injEq] at hstep
    subst hstep
    simp only [setTrace, Function.update_self]
    rw [acceptedBytes_eq hring]
  frame := by
    intro a s' c hguard hstep hc
    exact step_sameChannel hstep hguard (run_inv hrun).distinct hc

def packetFor4 (data : List UInt8) : List UInt8 := [19, 8, 47, 120, 4, 0, 0, 0] ++ data

def blankEndpoints : EndpointPtr → AsyncEndpoint :=
  fun _ => { buffer := fun _ => 0, readPos := 0, writePos := 0, size := 0 }

def partialRead : List Action :=
  [.register 4 (some 0), .register 5 (some 1), .fill (packetFor4 [7, 8, 9]),
    .readEnter 0 4 2, .readWait 0, .readSection 0]

theorem async_boundedFifo_partialRead :
    ∃ s, Reaches step noSharing (start blankEndpoints) partialRead s ∧
      s.trace 4 = { accepted := [7, 8, 9], returned := [7, 8] } ∧ BoundedFifo noSharing s := by
  have hfound : ∃ s, Reaches step noSharing (start blankEndpoints) partialRead s ∧
      decide (s.trace 4 = { accepted := [7, 8, 9], returned := [7, 8] }) = true :=
    exists_reaches (by decide)
  obtain ⟨s, hrun, htrace⟩ := hfound
  exact ⟨s, hrun, of_decide_eq_true htrace, async_boundedFifo hrun⟩

/-- Without the discipline it fails: with one endpoint registered on channels 4
and 5, a packet for channel 4 changes channel 5. -/
theorem async_not_boundedFifo_shared :
    ¬ ∀ actions s, Reaches step anyStep (start blankEndpoints) actions s →
      BoundedFifo anyStep s := by
  intro hall
  have hfound : ∃ s, Reaches step anyStep (start blankEndpoints)
      [.register 4 (some 0), .register 5 (some 0)] s ∧
      (step s (.fill (packetFor4 [7]))).any (fun s' =>
        (endpointOf s' 5).map AsyncEndpoint.size ≠ (endpointOf s 5).map AsyncEndpoint.size) :=
    exists_reaches (by decide)
  obtain ⟨s, hrun, htest⟩ := hfound
  obtain ⟨s', hstep, hne⟩ := (Option.any_eq_true _ _).mp htest
  have hother : target s (.fill (packetFor4 [7])) ≠ some 5 := by
    show packetChannel (packetFor4 [7]) ≠ some 5
    decide
  have hsame := (hall _ s hrun).frame _ s' 5 trivial hstep hother
  exact of_decide_eq_true hne (by rw [hsame.endpoint])

end PsplinkUsb.UsbHostfs.AsyncFifo
