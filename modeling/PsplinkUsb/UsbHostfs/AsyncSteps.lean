import PsplinkUsb.UsbHostfs.AsyncThreads
import PsplinkUsb.UsbHostfs.EndpointQueue

namespace PsplinkUsb.UsbHostfs.AsyncSteps

open PsplinkUsb.Library.Run
open PsplinkUsb.UsbHostfs.AsyncChannel
open PsplinkUsb.UsbHostfs.AsyncThreads
open PsplinkUsb.UsbHostfs.EndpointQueue

/-- No registration of an endpoint that some channel uses already. -/
def noSharing (s : System) : Action → Prop
  | .register chan (some p) =>
      registerChannel chan s.st ≠ none → ∀ c, s.st.asyncChan c ≠ some p
  | _ => True

instance (s : System) : (a : Action) → Decidable (noSharing s a)
  | .register _ (some _) => inferInstanceAs (Decidable (_ → _))
  | .register _ none | .unregister _ | .readEnter .. | .readWait _ | .readTimeout _
  | .readSection _ | .flushEnter .. | .flushSection _ | .fill _ => .isTrue trivial

def Distinct (s : System) : Prop :=
  ∀ c c' p, s.st.asyncChan c = some p → s.st.asyncChan c' = some p → c = c'

/-- A step changed nothing of the channel. -/
structure SameChannel (c : Channel) (s s' : System) : Prop where
  asyncChan : s'.st.asyncChan c = s.st.asyncChan c
  asyncevent : s'.st.asyncevent c = s.st.asyncevent c
  endpoint : endpointOf s' c = endpointOf s c
  trace : s'.trace c = s.trace c

/-- A step changed nothing but one channel and the endpoint it leads to. -/
structure LocalTo (c : Channel) (s s' : System) : Prop where
  asyncChan : ∀ c', c' ≠ c → s'.st.asyncChan c' = s.st.asyncChan c'
  asyncevent : ∀ c', c' ≠ c → s'.st.asyncevent c' = s.st.asyncevent c'
  trace : ∀ c', c' ≠ c → s'.trace c' = s.trace c'
  endpoints : ∀ p, s'.st.asyncChan c ≠ some p → s'.st.endpoints p = s.st.endpoints p

variable {s s' : System} {a : Action} {c : Channel}

theorem SameChannel.of_eq (hst : s'.st = s.st) (htrace : s'.trace = s.trace) :
    SameChannel c s s' := by
  constructor <;> simp [endpointOf, hst, htrace]

theorem LocalTo.sameChannel (h : LocalTo c s s') (hdistinct : Distinct s') {c' : Channel}
    (hne : c' ≠ c) : SameChannel c' s s' where
  asyncChan := h.asyncChan c' hne
  asyncevent := h.asyncevent c' hne
  endpoint := by
    rw [endpointOf, endpointOf, h.asyncChan c' hne]
    cases hp : s.st.asyncChan c' with
    | none => rfl
    | some p =>
        have hother : s'.st.asyncChan c ≠ some p := fun hc =>
          hne (hdistinct c' c p ((h.asyncChan c' hne).trans hp) hc)
        exact congrArg some (h.endpoints p hother)
  trace := h.trace c' hne

/-- What a step can do: leave the channels alone, or change the channel it works
on together with the endpoint that channel leads to. -/
inductive Took (s : System) : Action → System → Prop
  | stay {a : Action} {s' : System} (hst : s'.st = s.st) (htrace : s'.trace = s.trace)
      (hreaders : ∀ r c len, s'.readers r = .woken c len ↔ s.readers r = .woken c len) :
      Took s a s'
  | wake {r : ℕ} {c : Channel} {len : ℤ} (hpc : s.readers r = .waiting c len)
      (hevent : s.st.asyncevent c = true) :
      Took s (.readWait r) { setReader r (.woken c len) s with st := setEvent c false s.st }
  | read {r : ℕ} {c : Channel} {len : ℤ} {p : EndpointPtr} {e : AsyncEndpoint}
      {st : AsyncState} (hpc : s.readers r = .woken c len)
      (hchan : s.st.asyncChan c = some p) (he : s.st.endpoints p = e)
      (hst : st = setEndpoint p (afterRead len e) s.st ∧ (afterRead len e).size = 0 ∨
        st = setEvent c true (setEndpoint p (afterRead len e) s.st)) :
      Took s (.readSection r)
        { setTrace c { s.trace c with returned := (s.trace c).returned ++ readBytes len e }
            (setReader r .idle s) with st := st }
  | flush {f : ℕ} {c : Channel} {p : EndpointPtr} (hpc : s.flushers f = .checked c)
      (hchan : s.st.asyncChan c = some p) :
      Took s (.flushSection f)
        { setTrace c noTrace (setFlusher f .idle s) with
          st := setEvent c false (setEndpoint p
            { s.st.endpoints p with readPos := 0, writePos := 0, size := 0 } s.st) }
  | register {chan : BitVec 32} {c : Channel} {p : EndpointPtr}
      (hc : registerChannel chan s.st = some c) :
      Took s (.register chan (some p))
        { setTrace c noTrace s with
          st := setEvent c false (setEndpoint p
            { s.st.endpoints p with readPos := 0, writePos := 0, size := 0 }
            { s.st with asyncChan := Function.update s.st.asyncChan c (some p) }) }
  | unregister {chan : BitVec 32} {c : Channel} (hc : openChannel chan s.st = some c) :
      Took s (.unregister chan)
        { s with st := { s.st with asyncChan := Function.update s.st.asyncChan c none } }
  | fill {packet : List UInt8} {c : Channel} {p : EndpointPtr} {e : AsyncEndpoint}
      (hc : packetChannel packet = some c) (hchan : s.st.asyncChan c = some p)
      (he : s.st.endpoints p = e) :
      Took s (.fill packet)
        { setTrace c { s.trace c with accepted := (s.trace c).accepted ++ acceptedBytes e packet }
            s with
          st := setEvent c true (setEndpoint p (afterFill packet e) s.st) }

theorem woken_setReader_iff {r : ℕ} {pc : Reader}
    (hold : ∀ c len, s.readers r ≠ .woken c len) (hnew : ∀ c len, pc ≠ .woken c len) :
    ∀ r' c len, (setReader r pc s).readers r' = .woken c len ↔ s.readers r' = .woken c len := by
  intro r' c len
  by_cases hr : r' = r
  · subst hr
    simp [setReader, hold, hnew]
  · simp [setReader, hr]

theorem step_readEnter {r : ℕ} {chan : BitVec 32} {len : ℤ}
    (h : step s (.readEnter r chan len) = some s') : Took s (.readEnter r chan len) s' := by
  simp only [step] at h
  split at h
  · rename_i hpc
    split at h
    · obtain rfl := Option.some.inj h
      exact .stay rfl rfl fun _ _ _ => Iff.rfl
    · obtain rfl := Option.some.inj h
      exact .stay rfl rfl (woken_setReader_iff (by simp [hpc]) (by simp))
  · simp at h

theorem step_readWait {r : ℕ} (h : step s (.readWait r) = some s') :
    Took s (.readWait r) s' := by
  simp only [step] at h
  split at h
  · rename_i c len hpc
    split at h
    · rename_i hevent
      obtain rfl := Option.some.inj h
      exact .wake hpc hevent
    · simp at h
  · simp at h

theorem step_readTimeout {r : ℕ} (h : step s (.readTimeout r) = some s') :
    Took s (.readTimeout r) s' := by
  simp only [step] at h
  split at h
  · rename_i hpc
    obtain rfl := Option.some.inj h
    exact .stay rfl rfl (woken_setReader_iff (by simp [hpc]) (by simp))
  · simp at h

theorem step_readSection {r : ℕ} (h : step s (.readSection r) = some s') :
    Took s (.readSection r) s' := by
  simp only [step] at h
  split at h
  · rename_i c len hpc
    obtain ⟨st, hst, rfl⟩ := Option.map_eq_some_iff.mp h
    obtain ⟨p, hchan, hsection⟩ := Option.map_eq_some_iff.mp hst
    have hdeliver : deliver c len (setReader r .idle s) =
        setTrace c { s.trace c with
          returned := (s.trace c).returned ++ readBytes len (s.st.endpoints p) }
          (setReader r .idle s) := by
      simp [deliver, endpointOf, setReader, hchan]
    rw [hdeliver]
    refine .read hpc hchan rfl ?_
    dsimp only at hsection
    split at hsection
    · exact .inr hsection.symm
    · rename_i hsize
      exact .inl ⟨hsection.symm, by simpa [afterRead] using hsize⟩
  · simp at h

theorem step_flushEnter {f : ℕ} {chan : BitVec 32}
    (h : step s (.flushEnter f chan) = some s') : Took s (.flushEnter f chan) s' := by
  simp only [step] at h
  split at h
  · split at h
    · obtain rfl := Option.some.inj h
      exact .stay rfl rfl fun _ _ _ => Iff.rfl
    · obtain rfl := Option.some.inj h
      exact .stay rfl rfl fun _ _ _ => Iff.rfl
  · simp at h

theorem step_flushSection {f : ℕ} (h : step s (.flushSection f) = some s') :
    Took s (.flushSection f) s' := by
  simp only [step] at h
  split at h
  · rename_i c hpc
    obtain ⟨st, hst, rfl⟩ := Option.map_eq_some_iff.mp h
    obtain ⟨p, hchan, rfl⟩ := Option.map_eq_some_iff.mp hst
    exact .flush hpc hchan
  · simp at h

theorem step_register {chan : BitVec 32} {endp : Option EndpointPtr}
    (h : step s (.register chan endp) = some s') : Took s (.register chan endp) s' := by
  simp only [step, Option.some.injEq] at h
  cases endp with
  | none =>
      subst h
      exact .stay rfl rfl fun _ _ _ => Iff.rfl
  | some p =>
      cases hc : registerChannel chan s.st with
      | none =>
          simp only [usbAsyncRegister, Option.bind_some, hc] at h
          subst h
          exact .stay rfl rfl fun _ _ _ => Iff.rfl
      | some c =>
          simp only [usbAsyncRegister, flushSection, Option.bind_some, hc, Function.update_self,
            Option.map_some, Option.getD_some] at h
          subst h
          exact .register hc

theorem step_unregister {chan : BitVec 32} (h : step s (.unregister chan) = some s') :
    Took s (.unregister chan) s' := by
  simp only [step, Option.some.injEq] at h
  cases hc : openChannel chan s.st with
  | none =>
      simp only [usbAsyncUnregister, hc] at h
      subst h
      exact .stay rfl rfl fun _ _ _ => Iff.rfl
  | some c =>
      simp only [usbAsyncUnregister, hc] at h
      subst h
      exact .unregister hc

theorem step_fill {packet : List UInt8} (h : step s (.fill packet) = some s') :
    Took s (.fill packet) s' := by
  simp only [step, Option.some.injEq] at h
  cases hc : packetChannel packet with
  | none =>
      simp only [fillAsync, hc] at h
      subst h
      exact .stay rfl rfl fun _ _ _ => Iff.rfl
  | some c =>
      cases hchan : s.st.asyncChan c with
      | none =>
          simp only [fillAsync, accept, endpointOf, hc, hchan, Option.map_none] at h
          subst h
          exact .stay rfl rfl fun _ _ _ => Iff.rfl
      | some p =>
          simp only [fillAsync, accept, endpointOf, hc, hchan, Option.map_some] at h
          subst h
          exact .fill hc hchan rfl

theorem step_took (h : step s a = some s') : Took s a s' := by
  cases a with
  | readEnter r chan len => exact step_readEnter h
  | readWait r => exact step_readWait h
  | readTimeout r => exact step_readTimeout h
  | readSection r => exact step_readSection h
  | flushEnter f chan => exact step_flushEnter h
  | flushSection f => exact step_flushSection h
  | register chan endp => exact step_register h
  | unregister chan => exact step_unregister h
  | fill packet => exact step_fill h

theorem LocalTo.refl (c : Channel) (s : System) : LocalTo c s s where
  asyncChan := fun _ _ => rfl
  asyncevent := fun _ _ => rfl
  trace := fun _ _ => rfl
  endpoints := fun _ _ => rfl

theorem LocalTo.setReader (h : LocalTo c s s') (r : ℕ) (pc : Reader) :
    LocalTo c s (setReader r pc s') where
  asyncChan := h.asyncChan
  asyncevent := h.asyncevent
  trace := h.trace
  endpoints := h.endpoints

theorem LocalTo.setFlusher (h : LocalTo c s s') (f : ℕ) (pc : Flusher) :
    LocalTo c s (setFlusher f pc s') where
  asyncChan := h.asyncChan
  asyncevent := h.asyncevent
  trace := h.trace
  endpoints := h.endpoints

theorem LocalTo.setEvent (h : LocalTo c s s') (value : Bool) :
    LocalTo c s { s' with st := setEvent c value s'.st } where
  asyncChan := h.asyncChan
  asyncevent := fun c' hne => (Function.update_of_ne hne ..).trans (h.asyncevent c' hne)
  trace := h.trace
  endpoints := h.endpoints

theorem LocalTo.setTrace (h : LocalTo c s s') (t : ChannelTrace) :
    LocalTo c s (setTrace c t s') where
  asyncChan := h.asyncChan
  asyncevent := h.asyncevent
  trace := fun c' hne => (Function.update_of_ne hne ..).trans (h.trace c' hne)
  endpoints := h.endpoints

theorem LocalTo.setEndpoint (h : LocalTo c s s') {p : EndpointPtr}
    (hchan : s'.st.asyncChan c = some p) (e : AsyncEndpoint) :
    LocalTo c s { s' with st := setEndpoint p e s'.st } where
  asyncChan := h.asyncChan
  asyncevent := h.asyncevent
  trace := h.trace
  endpoints := by
    intro p' hp'
    have hne : p' ≠ p := by
      rintro rfl
      exact hp' hchan
    exact (Function.update_of_ne hne ..).trans (h.endpoints p' hp')

theorem localTo_setChan (c : Channel) (endp : Option EndpointPtr) (s : System) :
    LocalTo c s
      { s with st := { s.st with asyncChan := Function.update s.st.asyncChan c endp } } where
  asyncChan := fun _ hne => Function.update_of_ne hne ..
  asyncevent := fun _ _ => rfl
  trace := fun _ _ => rfl
  endpoints := fun _ _ => rfl

theorem Took.localTo (h : Took s a s') :
    (s'.st = s.st ∧ s'.trace = s.trace) ∨ ∃ c, target s a = some c ∧ LocalTo c s s' := by
  cases h with
  | stay hst htrace => exact .inl ⟨hst, htrace⟩
  | @wake r c len hpc hevent =>
      refine .inr ⟨c, by simp [target, hpc], ?_⟩
      exact ((LocalTo.refl c s).setReader r (.woken c len)).setEvent false
  | @read r c len p e st hpc hchan he hst =>
      refine .inr ⟨c, by simp [target, hpc], ?_⟩
      have hread := (((LocalTo.refl c s).setReader r .idle).setTrace
        { s.trace c with returned := (s.trace c).returned ++ readBytes len e }).setEndpoint hchan
          (afterRead len e)
      rcases hst with ⟨rfl, -⟩ | rfl
      · exact hread
      · exact hread.setEvent true
  | @flush f c p hpc hchan =>
      refine .inr ⟨c, by simp [target, hpc], ?_⟩
      have hflushed := ((LocalTo.refl c s).setFlusher f .idle).setTrace noTrace
      exact (hflushed.setEndpoint hchan _).setEvent false
  | @register chan c p hc =>
      refine .inr ⟨c, by simp [target, hc], ?_⟩
      have hchan : Function.update s.st.asyncChan c (some p) c = some p :=
        Function.update_self ..
      exact (((localTo_setChan c (some p) s).setTrace noTrace).setEndpoint hchan _).setEvent false
  | @unregister chan c hc =>
      refine .inr ⟨c, by simp [target, hc], ?_⟩
      exact localTo_setChan c none s
  | @fill packet c p e hc hchan he =>
      refine .inr ⟨c, by simp [target, hc], ?_⟩
      exact (((LocalTo.refl c s).setTrace _).setEndpoint hchan _).setEvent true

theorem Distinct.setChan (hdistinct : Distinct s) {endp : Option EndpointPtr}
    (hnew : ∀ p ∈ endp, ∀ c', s.st.asyncChan c' ≠ some p) (c : Channel) :
    Distinct { s with
      st := { s.st with asyncChan := Function.update s.st.asyncChan c endp } } := by
  intro c₁ c₂ p h₁ h₂
  simp only [Function.update_apply] at h₁ h₂
  rcases eq_or_ne c₁ c with rfl | hc₁
  · rw [if_pos rfl] at h₁
    rcases eq_or_ne c₂ c₁ with rfl | hc₂
    · rfl
    · rw [if_neg hc₂] at h₂
      exact absurd h₂ (hnew p h₁ c₂)
  · rw [if_neg hc₁] at h₁
    rcases eq_or_ne c₂ c with rfl | hc₂
    · rw [if_pos rfl] at h₂
      exact absurd h₁ (hnew p h₂ c₁)
    · rw [if_neg hc₂] at h₂
      exact hdistinct c₁ c₂ p h₁ h₂

/-- Under the discipline no endpoint comes to be shared. -/
theorem Took.distinct (h : Took s a s') (hguard : noSharing s a) (hdistinct : Distinct s) :
    Distinct s' := by
  cases h with
  | stay hst => simpa [Distinct, hst] using hdistinct
  | wake => exact hdistinct
  | read hpc hchan he hst =>
      rcases hst with ⟨rfl, -⟩ | rfl
      · exact hdistinct
      · exact hdistinct
  | flush => exact hdistinct
  | @register chan c p hc =>
      have hnew : ∀ c', s.st.asyncChan c' ≠ some p := hguard (by simp [hc])
      exact hdistinct.setChan (by simpa using hnew) c
  | unregister => exact hdistinct.setChan (by simp) _
  | fill => exact hdistinct

/-- A step under the discipline leaves the other channels alone. -/
theorem step_sameChannel (h : step s a = some s') (hguard : noSharing s a)
    (hdistinct : Distinct s) (hc : target s a ≠ some c) : SameChannel c s s' := by
  have htook := step_took h
  rcases htook.localTo with ⟨hst, htrace⟩ | ⟨c', htarget, hlocal⟩
  · exact .of_eq hst htrace
  · refine hlocal.sameChannel (htook.distinct hguard hdistinct) ?_
    rintro rfl
    exact hc htarget

theorem start_distinct (endpoints : EndpointPtr → AsyncEndpoint) :
    Distinct (start endpoints) := by
  intro c c' p h
  simp [start] at h

end PsplinkUsb.UsbHostfs.AsyncSteps
