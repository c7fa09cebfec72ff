import PsplinkUsb.Library.Chains

/-!
The list of debug event handlers of `psplink/debug.c`. Registering puts a handler in front,
unregistering takes it out, and `debugHandleException` offers an exception to each in turn. The
link of a handler and its `size` are one word, so that a handler in the list does not pass for
one that can be registered.
-/

namespace PsplinkUsb.Psplink.DebugEvents

open PsplinkUsb.Library.Chains

/-- A pointer to a `DebugEventHandler`; `NULL` is 0. -/
abbrev Pointer := ℕ

/-- The fields of a handler that stay as its owner sets them. -/
structure Handler where
  membase : BitVec 32
  memtop : BitVec 32
  mbox : ℤ

def sizeofDebugEventHandler : ℕ := 16

structure State where
  eventhead : Pointer
  /-- The first word of each handler: its `size` and its `pNext`. -/
  word : Pointer → ℕ

def initial (word : Pointer → ℕ) : State := { eventhead := 0, word := word }

def Handler.accepted (h : Handler) : Prop := 0 ≤ h.mbox ∧ h.membase ≤ h.memtop

instance (h : Handler) : Decidable h.accepted := inferInstanceAs (Decidable (_ ∧ _))

variable (fields : Pointer → Handler)

def debugRegisterEventHandler (handler : Pointer) (s : State) : ℤ × State :=
  if handler = 0 ∨ s.word handler ≠ sizeofDebugEventHandler ∨ ¬(fields handler).accepted then
    (-1, s)
  else (0, { eventhead := handler, word := Function.update s.word handler s.eventhead })

/-- The loop ends at `NULL` or at the handler before. -/
def before (handler : Pointer) (s : State) (ev : Pointer) : Bool :=
  ev = 0 ∨ s.word ev = handler

/-- `none` while the loop has not come to its end. -/
def debugUnregisterEventHandler (fuel : ℕ) (handler : Pointer) (s : State) : Option State :=
  if s.eventhead = handler then some { s with eventhead := s.word s.eventhead }
  else
    (walk s.word (before handler s) fuel s.eventhead).map fun ev =>
      if ev = 0 then s
      else { s with word := Function.update s.word ev (s.word (s.word ev)) }

/-- What comes of an exception at a handler: `none` when nothing is posted to it, because the
thread is not in its range or `sceKernelSendMbx` fails, and else whether it handles it. -/
abbrev Reaction := Pointer → Option Bool

/-- The loop of `debugHandleException`: the handlers that the exception is posted to. -/
def offer (reaction : Reaction) (s : State) : ℕ → Pointer → Option (List Pointer)
  | 0, _ => none
  | n + 1, ev =>
      if ev = 0 then some []
      else
        match reaction ev with
        | none => offer reaction s n (s.word ev)
        | some true => some [ev]
        | some false => (offer reaction s n (s.word ev)).map (ev :: ·)

inductive Call where
  /-- The owner of a handler writes its `size`. -/
  | setSize (handler : Pointer) (size : ℕ)
  | register (handler : Pointer)
  | unregister (handler : Pointer)

/-- Calls in order, each of which returns. -/
inductive Runs : State → List Call → State → Prop
  | nil (s : State) : Runs s [] s
  | setSize {s s' : State} {handler : Pointer} {size : ℕ} {calls : List Call}
      (h : Runs { s with word := Function.update s.word handler size } calls s') :
      Runs s (.setSize handler size :: calls) s'
  | register {s s' : State} {handler : Pointer} {calls : List Call}
      (h : Runs (debugRegisterEventHandler fields handler s).2 calls s') :
      Runs s (.register handler :: calls) s'
  | unregister {s s₁ s' : State} {handler : Pointer} {calls : List Call} (fuel : ℕ)
      (hreturns : debugUnregisterEventHandler fuel handler s = some s₁) (h : Runs s₁ calls s') :
      Runs s (.unregister handler :: calls) s'

/-- What the list is for: the handlers that are registered, the last one first, and those whose
`size` has been set since. -/
structure Registry where
  registered : List Pointer
  sized : Pointer → Bool

def Registry.call (r : Registry) : Call → Registry
  | .setSize handler size =>
      { r with
        sized := fun p => if p = handler then size = sizeofDebugEventHandler else r.sized p }
  | .register handler =>
      if r.sized handler ∧ (fields handler).accepted then
        { registered := handler :: r.registered, sized := fun p => p ≠ handler && r.sized p }
      else r
  | .unregister handler => { r with registered := r.registered.erase handler }

/-- A handler is neither at address 0 nor at the address that looks like a `size`, and its owner
leaves its first word alone while it is registered. -/
def Careful (r : Registry) : Call → Prop
  | .setSize handler _ => handler ≠ 0 ∧ handler ∉ r.registered
  | .register handler | .unregister handler => handler ≠ 0 ∧ handler ≠ sizeofDebugEventHandler

/-- Every call of a sequence is a careful one. -/
def AllCareful : Registry → List Call → Prop
  | _, [] => True
  | r, call :: calls => Careful r call ∧ AllCareful (r.call fields call) calls

/-- Of the handlers in order, those that get the exception: up to the first that handles it. -/
def posted (reaction : Reaction) : List Pointer → List Pointer
  | [] => []
  | ev :: rest =>
      match reaction ev with
      | none => posted reaction rest
      | some true => [ev]
      | some false => ev :: posted reaction rest

variable {fields} {s s' : State} {r : Registry} {handler : Pointer} {l : List Pointer}
  {reaction : Reaction} {fuel : ℕ} {call : Call} {calls : List Call}

/-- The list in memory is that of the registered handlers, and the words of the others tell
which of them can be registered. -/
structure Lists (s : State) (r : Registry) : Prop where
  chain : Chain s.word s.eventhead r.registered 0
  nonnull : 0 ∉ r.registered
  apart : sizeofDebugEventHandler ∉ r.registered
  sized : ∀ p, p ≠ 0 → (r.sized p ↔ p ∉ r.registered ∧ s.word p = sizeofDebugEventHandler)

theorem Lists.nodup (h : Lists s r) : r.registered.Nodup := h.chain.nodup h.nonnull

/-- A handler in the list is refused. -/
theorem Lists.word_ne (h : Lists s r) (hmem : handler ∈ r.registered) :
    s.word handler ≠ sizeofDebugEventHandler := by
  intro heq
  rcases h.chain.next_mem hmem with hnull | hlist
  · rw [heq] at hnull
    simp [sizeofDebugEventHandler] at hnull
  · exact h.apart (heq ▸ hlist)

theorem Lists.sized_iff (h : Lists s r) (hne : handler ≠ 0) :
    r.sized handler ↔ s.word handler = sizeofDebugEventHandler := by
  rw [h.sized handler hne]
  exact ⟨And.right, fun hword => ⟨fun hmem => h.word_ne hmem hword, hword⟩⟩

theorem Lists.setSize (h : Lists s r) (hne : handler ≠ 0) (hmem : handler ∉ r.registered)
    (size : ℕ) :
    Lists { s with word := Function.update s.word handler size }
      (r.call fields (.setSize handler size)) where
  chain := h.chain.update hmem
  nonnull := h.nonnull
  apart := h.apart
  sized p hp := by
    rcases eq_or_ne p handler with rfl | hother
    · simp [Registry.call, hmem]
    · simpa [Registry.call, hother] using h.sized p hp

theorem Lists.register (h : Lists s r) (hne : handler ≠ 0)
    (hapart : handler ≠ sizeofDebugEventHandler) :
    Lists (debugRegisterEventHandler fields handler s).2 (r.call fields (.register handler)) := by
  rw [debugRegisterEventHandler, Registry.call]
  by_cases haccepted : r.sized handler ∧ (fields handler).accepted
  · obtain ⟨hsized, hfields⟩ := haccepted
    have hmem := ((h.sized handler hne).mp hsized).1
    rw [if_neg (by simp [hne, hfields, (h.sized_iff hne).mp hsized]), if_pos ⟨hsized, hfields⟩]
    refine ⟨.cons ?_, ?_, ?_, fun p hp => ?_⟩
    · simpa using h.chain.update hmem
    · exact fun hzero => (List.mem_cons.mp hzero).elim (fun h => hne h.symm) h.nonnull
    · exact fun hsize => (List.mem_cons.mp hsize).elim (fun h => hapart h.symm) h.apart
    · rcases eq_or_ne p handler with rfl | hother
      · simp
      · simpa [hother] using h.sized p hp
  · rw [if_pos (by rw [h.sized_iff hne] at haccepted; tauto), if_neg haccepted]
    exact h

theorem Lists.erased (h : Lists s r)
    (hchain : Chain s'.word s'.eventhead (r.registered.erase handler) 0)
    (hword : ∀ p, p ∉ r.registered.erase handler → s'.word p = s.word p) :
    Lists s' (r.call fields (.unregister handler)) where
  chain := hchain
  nonnull hzero := h.nonnull (List.mem_of_mem_erase hzero)
  apart hsize := h.apart (List.mem_of_mem_erase hsize)
  sized p hp := by
    change r.sized p = true ↔ p ∉ r.registered.erase handler ∧ _
    rw [h.sized p hp]
    by_cases hmem : p ∈ r.registered.erase handler
    · simp [hmem, List.mem_of_mem_erase hmem]
    · rw [hword p hmem]
      refine ⟨fun hsized => ⟨hmem, hsized.2⟩, fun hsized => ⟨fun hin => ?_, hsized.2⟩⟩
      exact h.word_ne hin hsized.2

theorem Lists.walk_before (h : Lists s r) (hne : handler ≠ 0) (hhead : s.eventhead ≠ handler) :
    ∃ fuel ev, walk s.word (before handler s) fuel s.eventhead = some ev ∧
      ((ev = 0 ∧ handler ∉ r.registered) ∨
        ∃ a b, r.registered = a ++ ev :: handler :: b ∧ Chain s.word s.eventhead a ev ∧
          s.word ev = handler ∧ Chain s.word (s.word handler) b 0) := by
  by_cases hmem : handler ∈ r.registered
  · obtain ⟨a, b, hsplit⟩ := List.append_of_mem hmem
    have hchain := h.chain
    have hnodup := h.nodup
    rw [hsplit] at hchain hnodup
    obtain ⟨q, ha, hb⟩ := hchain.split
    obtain ⟨rfl, hrest⟩ := Chain.cons_iff.mp hb
    rcases List.eq_nil_or_concat a with rfl | ⟨a, ev, rfl⟩
    · exact absurd (Chain.nil_iff.mp ha) hhead
    · rw [List.concat_eq_append] at ha hsplit hnodup
      obtain ⟨q, ha, hev⟩ := ha.split
      obtain ⟨rfl, hev⟩ := Chain.cons_iff.mp hev
      have hlast : s.word ev = handler := Chain.nil_iff.mp hev
      refine ⟨a.length + 1, ev, ha.walk (fun x hx => ?_) (by simp [before, hlast]),
        .inr ⟨a, b, by rw [hsplit, List.append_assoc]; rfl, ha, hlast, hrest⟩⟩
      have hapart : ∀ z ∈ a ++ [ev], z ≠ handler := fun z hz =>
        (List.nodup_append.mp hnodup).2.2 z hz handler (List.mem_cons_self ..)
      have hzero : x ≠ 0 := by
        rintro rfl
        exact h.nonnull (by rw [hsplit]; simp [hx])
      have hnext : s.word x ≠ handler := by
        intro heq
        rcases ha.next_mem hx with hx | hx
        · exact hapart ev (by simp) (hx.symm.trans heq)
        · exact hapart _ (List.mem_append_left _ hx) heq
      simp [before, hzero, hnext]
  · refine ⟨_, 0, h.chain.walk (fun x hx => ?_) (by simp [before]), .inl ⟨rfl, hmem⟩⟩
    have hzero : x ≠ 0 := by
      rintro rfl
      exact h.nonnull hx
    have hnext : s.word x ≠ handler := by
      rintro rfl
      rcases h.chain.next_mem hx with hx | hx
      · exact hne hx
      · exact hmem hx
    simp [before, hzero, hnext]

theorem Lists.unregister_returns (h : Lists s r) (hne : handler ≠ 0) :
    ∃ fuel s', debugUnregisterEventHandler fuel handler s = some s' := by
  by_cases hhead : s.eventhead = handler
  · exact ⟨0, _, if_pos hhead⟩
  · obtain ⟨fuel, ev, hwalk, -⟩ := h.walk_before hne hhead
    exact ⟨fuel, _, by rw [debugUnregisterEventHandler, if_neg hhead, hwalk]; rfl⟩

/-- It leaves the list without the handler. -/
theorem Lists.unregister (h : Lists s r) (hne : handler ≠ 0)
    (hreturns : debugUnregisterEventHandler fuel handler s = some s') :
    Lists s' (r.call fields (.unregister handler)) := by
  rw [debugUnregisterEventHandler] at hreturns
  split at hreturns
  · rename_i hhead
    obtain rfl := Option.some.inj hreturns
    refine h.erased ?_ fun _ _ => rfl
    have hchain := h.chain
    rcases hregistered : r.registered with _ | ⟨x, l⟩
    · rw [hregistered] at hchain
      exact absurd (hhead.symm.trans (Chain.nil_iff.mp hchain)) hne
    · rw [hregistered] at hchain
      obtain ⟨hx, hrest⟩ := Chain.cons_iff.mp hchain
      rw [hx, hhead, List.erase_cons_head]
      rw [hhead] at hrest
      exact hrest
  · rename_i hhead
    obtain ⟨ev, hev, rfl⟩ := Option.map_eq_some_iff.mp hreturns
    obtain ⟨fuel', ev', hwalk, hwhere⟩ := h.walk_before hne hhead
    obtain rfl := walk_unique hwalk hev
    rcases hwhere with ⟨rfl, hmem⟩ | ⟨a, b, hsplit, ha, hword, hb⟩
    · rw [if_pos rfl]
      refine h.erased ?_ fun _ _ => rfl
      rw [List.erase_of_not_mem hmem]
      exact h.chain
    · have hnonnull := h.nonnull
      have hnodup := h.nodup
      rw [hsplit] at hnonnull hnodup
      simp only [List.mem_append, List.mem_cons, not_or] at hnonnull
      obtain ⟨-, hpair, hbefore⟩ := List.nodup_append.mp hnodup
      have hnotin : ev' ∉ a := fun hmem => hbefore ev' hmem ev' (by simp) rfl
      have hfar : ev' ≠ handler ∧ ev' ∉ b := by
        simpa using (List.nodup_cons.mp hpair).1
      have hgone : handler ∉ a := fun hmem => hbefore handler hmem handler (by simp) rfl
      have herase : r.registered.erase handler = a ++ ev' :: b := by
        rw [hsplit, List.erase_append_right _ hgone, List.erase_cons_tail (by simp [hfar.1]),
          List.erase_cons_head]
      rw [if_neg (Ne.symm hnonnull.2.1)]
      refine h.erased ?_ fun p hp => ?_
      · rw [herase]
        refine (ha.update hnotin).append (.cons ?_)
        simpa [hword] using hb.update hfar.2
      · have hother : p ≠ ev' := by
          rintro rfl
          exact hp (by simp [herase])
        simp [hother]

theorem Lists.initial (word : Pointer → ℕ) :
    Lists (initial word)
      { registered := [], sized := fun p => word p = sizeofDebugEventHandler } where
  chain := .nil 0
  nonnull := by simp
  apart := by simp
  sized p _ := by simp [DebugEvents.initial]

theorem Lists.runs (h : Lists s r) (hcareful : AllCareful fields r calls) :
    (∃ s', Runs fields s calls s') ∧
      ∀ s', Runs fields s calls s' → Lists s' (calls.foldl (Registry.call fields) r) := by
  induction calls generalizing s r with
  | nil => exact ⟨⟨s, .nil s⟩, fun s' hruns => by cases hruns; exact h⟩
  | cons call calls ih =>
      obtain ⟨hcall, hrest⟩ := hcareful
      cases call with
      | setSize handler size =>
          obtain ⟨⟨s', hruns⟩, hall⟩ := ih (h.setSize hcall.1 hcall.2 size) hrest
          refine ⟨⟨s', .setSize hruns⟩, fun s' hruns => ?_⟩
          cases hruns with
          | setSize hruns => exact hall s' hruns
      | register handler =>
          obtain ⟨⟨s', hruns⟩, hall⟩ := ih (h.register hcall.1 hcall.2) hrest
          refine ⟨⟨s', .register hruns⟩, fun s' hruns => ?_⟩
          cases hruns with
          | register hruns => exact hall s' hruns
      | unregister handler =>
          obtain ⟨fuel, s₁, hreturns⟩ := h.unregister_returns hcall.1
          obtain ⟨⟨s', hruns⟩, -⟩ := ih (h.unregister hcall.1 hreturns) hrest
          refine ⟨⟨s', .unregister fuel hreturns hruns⟩, fun s' hruns => ?_⟩
          cases hruns with
          | unregister fuel hreturns hruns =>
              exact (ih (h.unregister hcall.1 hreturns) hrest).2 s' hruns

theorem offer_chain {p : Pointer} (h : Chain s.word p l 0) (hl : 0 ∉ l) :
    offer reaction s (l.length + 1) p = some (posted reaction l) := by
  induction l generalizing p with
  | nil =>
      obtain rfl := Chain.nil_iff.mp h
      simp [offer, posted]
  | cons x l ih =>
      obtain ⟨rfl, h⟩ := Chain.cons_iff.mp h
      simp only [List.mem_cons, not_or] at hl
      have hrest := ih h hl.2
      rw [offer, if_neg (Ne.symm hl.1), List.length_cons, posted]
      rcases reaction x with _ | handled
      · exact hrest
      · cases handled with
        | true => rfl
        | false => rw [hrest]; rfl

/-- As long as the owner of a handler leaves it alone while it is registered, every call of a
sequence returns, registering a handler that is registered is refused, and an exception is
offered to exactly the handlers that are registered, the last one first, up to the first that
handles it. -/
theorem handlers_offered (fields : Pointer → Handler) (word : Pointer → ℕ) (calls : List Call)
    (hcareful : AllCareful fields
      { registered := [], sized := fun p => word p = sizeofDebugEventHandler } calls) :
    let r := calls.foldl (Registry.call fields)
      { registered := [], sized := fun p => word p = sizeofDebugEventHandler }
    r.registered.Nodup ∧ (∃ s, Runs fields (initial word) calls s) ∧
      ∀ s, Runs fields (initial word) calls s →
        (∀ handler ∈ r.registered, debugRegisterEventHandler fields handler s = (-1, s)) ∧
        ∀ reaction, ∃ fuel,
          offer reaction s fuel s.eventhead = some (posted reaction r.registered) := by
  intro r
  obtain ⟨hexists, hall⟩ := (Lists.initial word).runs hcareful
  obtain ⟨s, hruns⟩ := hexists
  refine ⟨(hall s hruns).nodup, ⟨s, hruns⟩, fun s' hruns' => ⟨fun handler hmem => ?_,
    fun reaction => ⟨_, offer_chain (hall s' hruns').chain (hall s' hruns').nonnull⟩⟩⟩
  rw [debugRegisterEventHandler, if_pos (.inr (.inl ((hall s' hruns').word_ne hmem)))]

def someFields (_ : Pointer) : Handler := { membase := 0x08804000, memtop := 0x08900000, mbox := 1 }

/-- Two handlers, one of which tries to register again and then goes; it is not the last. -/
def twoHandlers : List Call :=
  [.setSize 100 16, .register 100, .setSize 200 16, .register 200, .register 100,
    .unregister 100]

theorem handlers_offered_two :
    (∃ s, Runs someFields (initial fun _ => 0) twoHandlers s) ∧
      ∀ s, Runs someFields (initial fun _ => 0) twoHandlers s →
        ∃ fuel, offer (fun _ => some false) s fuel s.eventhead = some [200] := by
  have h := handlers_offered someFields (fun _ => 0) twoHandlers (by
    simp [twoHandlers, AllCareful, Careful, Registry.call, someFields, Handler.accepted,
      sizeofDebugEventHandler])
  exact ⟨h.2.1, fun s hs => (h.2.2 s hs).2 _⟩

end PsplinkUsb.Psplink.DebugEvents
