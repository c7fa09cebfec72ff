import PsplinkUsb.UsbHostfs.BulkRequests

namespace PsplinkUsb.UsbHostfs.BusExclusion

open PsplinkUsb.Library.Exclusion
open PsplinkUsb.Library.Run
open PsplinkUsb.UsbHostfs.BulkRequests
open PsplinkUsb.UsbHostfs.CommandXchg (XchgRequest)
open PsplinkUsb.HostFs.Wire

/-- The USB thread is the one that submits requests without the semaphore. -/
def IsUsb (t : Thread) : Prop := t = .usb

/-- Programs that keep to the protocol of the blocks and the semaphore. -/
abbrev Keeps (exempt holds : Prop) (p : BusProg) : Prop :=
  Disciplined BulkRequest.block exempt holds none p

section Protocol

variable {exempt holds : Prop}

theorem readLoop_keeps (hallowed : exempt ∨ holds) {size : ℤ} {next : ℤ → Bytes → BusProg}
    (hnext : ∀ ret data, Keeps exempt holds (next ret data)) (readlen : ℤ) (got : Bytes) :
    Keeps exempt holds (readLoop size next readlen got) := by
  induction readlen, got using readLoop.induct size with
  | case1 readlen got hless ih =>
      rw [readLoop, if_pos hless]
      refine ⟨hallowed, fun accepted => ?_⟩
      cases accepted with
      | false => exact (hnext (-1) got).weaken _
      | true =>
          refine ⟨hallowed, rfl, fun answer => ?_⟩
          cases answer with
          | none => exact hnext (-1) got
          | some c =>
              by_cases hmoved : c.Moved
              · simpa only [dif_pos hmoved] using ih c hmoved
              · simpa only [dif_neg hmoved] using hnext (-1) got
  | case2 readlen got hless =>
      rw [readLoop, if_neg hless]
      exact hnext readlen got

theorem writeLoop_keeps (hallowed : exempt ∨ holds) {data : Bytes} {next : ℤ → BusProg}
    (hnext : ∀ ret, Keeps exempt holds (next ret)) (writelen : ℤ) :
    Keeps exempt holds (writeLoop data next writelen) := by
  induction writelen using writeLoop.induct data with
  | case1 writelen hless ih =>
      rw [writeLoop, if_pos hless]
      refine ⟨hallowed, fun _ => ⟨hallowed, rfl, fun answer => ?_⟩⟩
      cases answer with
      | none => exact hnext (-1)
      | some c =>
          by_cases hmoved : c.Moved
          · simpa only [dif_pos hmoved] using ih c hmoved
          · simpa only [dif_neg hmoved] using hnext (-1)
  | case2 writelen hless =>
      rw [writeLoop, if_neg hless]
      exact hnext writelen

theorem writeDataLarge_keeps (hallowed : exempt ∨ holds) {aligned : Bool} {data : Bytes}
    {next : ℤ → BusProg} (hnext : ∀ ret, Keeps exempt holds (next ret)) :
    Keeps exempt holds (writeDataLarge aligned data next) := by
  cases aligned with
  | false => exact hnext (-1)
  | true =>
      refine ⟨hallowed, fun _ => ⟨hallowed, rfl, fun answer => ?_⟩⟩
      cases answer with
      | none => exact hnext (-1)
      | some c => exact hnext _

theorem withMainsema_keeps {body : (Bool → BusProg) → BusProg} {next : Bool → BusProg}
    (hbody : ∀ finish : Bool → BusProg, (∀ ret, Keeps exempt True (finish ret)) →
      Keeps exempt True (body finish))
    (hnext : ∀ ret, Keeps exempt holds (next ret)) :
    Keeps exempt holds (withMainsema body next) := by
  refine ⟨hnext false, fun hnot => hbody _ fun ret => ⟨trivial, ?_⟩⟩
  rw [← eq_false hnot]
  exact hnext ret

theorem readExtra_keeps {req : XchgRequest} {incmd : Bytes} {finish : Bool → BusProg}
    (hfinish : ∀ ret, Keeps exempt True (finish ret)) :
    Keeps exempt True (readExtra req incmd finish) := by
  simp only [readExtra]
  split
  · exact hfinish false
  · split
    · exact readLoop_keeps (.inr trivial) (fun _ _ => hfinish _) _ _
    · exact hfinish true

theorem commandXchg_keeps (req : XchgRequest) {next : Bool → BusProg}
    (hnext : ∀ ret, Keeps exempt holds (next ret)) :
    Keeps exempt holds (commandXchg req next) := by
  refine withMainsema_keeps (fun finish hfinish => ?_) hnext
  refine writeLoop_keeps (.inr trivial) (fun err => ?_) 0
  split
  · exact hfinish false
  · refine writeLoop_keeps (.inr trivial) (fun err => ?_) 0
    split
    · exact hfinish false
    · refine readLoop_keeps (.inr trivial) (fun err incmd => ?_) 0 []
      split
      · exact hfinish false
      · exact readExtra_keeps hfinish

theorem sendAsync_keeps (data : Bytes) {next : Bool → BusProg}
    (hnext : ∀ ret, Keeps exempt holds (next ret)) :
    Keeps exempt holds (sendAsync data next) :=
  withMainsema_keeps
    (fun _ hfinish => writeLoop_keeps (.inr trivial) (fun _ => hfinish _) 0) hnext

theorem asyncLoop_keeps (chan : Word) (data : Bytes) {next : BusProg}
    (hnext : Keeps exempt holds next) : Keeps exempt holds (asyncLoop chan data next) := by
  induction data using asyncLoop.induct with
  | case1 =>
      rw [asyncLoop, if_pos rfl]
      exact hnext
  | case2 data hdata ih =>
      rw [asyncLoop, if_neg hdata]
      refine sendAsync_keeps _ fun sent => ?_
      cases sent with
      | false => exact hnext
      | true => exact ih

theorem ifConnected_keeps {body next : BusProg} (hbody : Keeps exempt holds body)
    (hnext : Keeps exempt holds next) : Keeps exempt holds (ifConnected body next) := by
  intro s
  by_cases hconnected : s.connected
  · simpa only [if_pos hconnected] using hbody
  · simpa only [if_neg hconnected] using hnext

theorem usbWriteBulkData_keeps (chan : Word) (aligned : Bool) (data : Bytes) {next : BusProg}
    (hnext : Keeps exempt holds next) :
    Keeps exempt holds (usbWriteBulkData chan aligned data next) := by
  refine ifConnected_keeps ?_ hnext
  split
  · exact hnext
  · refine withMainsema_keeps (fun finish hfinish => ?_) fun _ => hnext
    refine writeLoop_keeps (.inr trivial) (fun err => ?_) 0
    split
    · exact hfinish false
    · exact writeDataLarge_keeps (.inr trivial) fun _ => hfinish _

theorem setConnected_keeps (connected : Bool) {next : BusProg}
    (hnext : Keeps exempt holds next) : Keeps exempt holds (setConnected connected next) :=
  fun _ => hnext

theorem handleAttach_keeps (hexempt : exempt) {next : BusProg}
    (hnext : Keeps exempt holds next) : Keeps exempt holds (handleAttach next) := by
  refine setConnected_keeps false (readLoop_keeps (.inl hexempt) (fun ret magic => ?_) 0 [])
  split
  · refine commandXchg_keeps helloRequest fun ret => ?_
    split
    · exact setConnected_keeps true hnext
    · exact hnext
  · exact hnext

theorem usbThread_keeps (hexempt : exempt) (events : MainEvents) :
    Keeps exempt False (usbThread events) := by
  have hdone : Keeps exempt False (.done false) := by simp [Keeps, Disciplined]
  have hattached : Keeps exempt False
      (if events.attach then handleAttach (.done false) else .done false) := by
    split
    · exact handleAttach_keeps hexempt hdone
    · exact hdone
  rw [usbThread]
  split
  · exact setConnected_keeps false hattached
  · exact hattached

end Protocol

theorem program_keeps (t : Thread) (job : Job) (locked : Bool) (p : BusProg)
    (hp : program t job locked = some p) :
    Disciplined BulkRequest.block (IsUsb t) (locked = true) none p := by
  have hdone : Keeps (IsUsb t) (locked = true) (.done locked) := Iff.rfl
  unfold program at hp
  split at hp
  · obtain rfl := Option.some.inj hp
    have husb : IsUsb .usb := rfl
    simpa only [Bool.false_eq_true] using usbThread_keeps husb _
  · obtain rfl := Option.some.inj hp
    exact commandXchg_keeps _ fun _ => hdone
  · obtain rfl := Option.some.inj hp
    exact ifConnected_keeps (asyncLoop_keeps _ _ hdone) hdone
  · obtain rfl := Option.some.inj hp
    exact usbWriteBulkData_keeps _ _ _ hdone
  · obtain rfl := Option.some.inj hp
    exact ⟨by simp [Disciplined], fun _ => by simp [Disciplined]⟩
  · obtain rfl := Option.some.inj hp
    exact ⟨rfl, by simp [Disciplined]⟩
  · simp at hp

/-- The condition on a step: the USB thread and another thread do not come to wait on the
same kind of block together. -/
def UsbThreadAlone {K : Type} (kind : BulkBlock → K) : BusState → BusAction → Prop :=
  ExemptAlone kind IsUsb

/-- Whatever blocks are counted together (each by itself, or both), at most one thread at a
time is between submitting one and returning from the wait, as long as the USB thread's
unlocked transfers meet nobody else's. -/
theorem bulk_requests_exclusive {K : Type} (kind : BulkBlock → K) {actions : List BusAction}
    {s : BusState} (hrun : Reaches busStep (UsbThreadAlone kind) started actions s) :
    Exclusive kind s :=
  exclusive_of_reaches program_keeps hrun

/-- A step that breaks the condition ends the exclusion. -/
theorem not_exclusive_of_not_alone {K : Type} (kind : BulkBlock → K) {s s' : BusState}
    {a : BusAction} (halone : ¬UsbThreadAlone kind s a) (hstep : busStep s a = some s') :
    ¬Exclusive kind s' :=
  not_exclusive_of_step halone hstep

/-- The condition, as far as some threads go. -/
def aloneAmong (threads : List Thread) (s : BusState) : BusAction → Bool
  | .run t ok =>
      match s.prog t with
      | .submit _ next => threads.all fun t' => t' = t ||
          ((next ok).waitsFor ≠ (s.prog t').waitsFor || (next ok).waitsFor = none)
      | _ => true
  | _ => true

def ofThreads (threads : List Thread) : BusAction → Bool
  | .run t _ => threads.contains t
  | .start t _ => threads.contains t
  | .complete _ _ => true

/-- The other threads do nothing. -/
theorem reaches_of_aloneAmong {threads : List Thread} {actions : List BusAction} {s : BusState}
    (hrun : Reaches busStep (fun s a => aloneAmong threads s a = true ∧ ofThreads threads a = true)
      started actions s) :
    Reaches busStep (UsbThreadAlone id) started actions s ∧
      ∀ t ∉ threads, (s.prog t).waitsFor = none := by
  induction hrun with
  | start => exact ⟨.start, fun t _ => rfl⟩
  | @step actions s s' a _ hguard hstep ih =>
      obtain ⟨hreached, hidle⟩ := ih
      obtain ⟨halone, hthreads⟩ := hguard
      refine ⟨hreached.step ?_ hstep, ?_⟩
      · cases a with
        | start t job => trivial
        | complete b v => trivial
        | run t ok =>
            intro q next b hq hwait t' ht' _ b' hb' hkind
            obtain rfl : b' = b := hkind
            by_cases hmem : t' ∈ threads
            · simp only [aloneAmong, hq] at halone
              have hthis := List.all_eq_true.mp halone t' hmem
              rw [InFlight] at hb'
              simp [ht', hwait, hb'] at hthis
            · rw [InFlight, hidle t' hmem] at hb'
              cases hb'
      · intro t ht
        cases a with
        | start t₁ job =>
            have hne : t ≠ t₁ := fun heq => ht (heq ▸ List.contains_iff_mem.mp hthreads)
            rw [busStep, step] at hstep
            split at hstep
            · obtain ⟨p, -, rfl⟩ := Option.map_eq_some_iff.mp hstep
              rw [setProg_prog_of_ne hne]
              exact hidle t ht
            · cases hstep
        | complete b v =>
            rw [busStep, step] at hstep
            split at hstep
            · obtain rfl := Option.some.inj hstep
              exact hidle t ht
            · cases hstep
        | run t₁ ok =>
            have hne : t ≠ t₁ := fun heq => ht (heq ▸ List.contains_iff_mem.mp hthreads)
            obtain ⟨p, hprog, -⟩ := runStep_cases (show runStep BulkRequest.block s t₁ ok = some s'
              from hstep)
            rw [hprog, Function.update_of_ne hne]
            exact hidle t ht

/-- `io_close` of handle 3. -/
def closeRequest : XchgRequest where
  command := .close
  extralen := 0
  fields := le32 3
  outdata := []
  inlen := 0

/-- While the USB thread waits for the magic word of an attach a thread begins an exchange, and
another comes to wait for the semaphore. -/
def attachBeforeExchange : List BusAction :=
  [.start .usb (.events ⟨false, true⟩), .run .usb true, .run .usb true,
    .start (.user 0) (.commandXchg closeRequest), .run (.user 0) true, .run (.user 0) true,
    .start (.user 1) (.commandXchg closeRequest)]

def readsAndWrites (s : BusState) : Bool :=
  (s.prog .usb).waitsFor = some .bulkout && (s.prog (.user 0)).waitsFor = some .bulkin && !s.free

theorem bulk_requests_exclusive_attach :
    ∃ s, Reaches busStep (UsbThreadAlone id) started attachBeforeExchange s ∧
      (s.prog .usb).waitsFor = some .bulkout ∧ (s.prog (.user 0)).waitsFor = some .bulkin ∧
      Exclusive id s := by
  have hfound : (runGuarded busStep
      (fun s a => aloneAmong [.usb, .user 0, .user 1] s a = true ∧
        ofThreads [.usb, .user 0, .user 1] a = true)
      started attachBeforeExchange).any readsAndWrites = true := by
    decide +kernel
  obtain ⟨s, hrun, htest⟩ := exists_reaches hfound
  simp only [readsAndWrites, Bool.and_eq_true, decide_eq_true_eq] at htest
  have hreached := (reaches_of_aloneAmong hrun).1
  exact ⟨s, hreached, htest.1.1, htest.1.2, bulk_requests_exclusive id hreached⟩

/-- A thread waits for the response of an exchange when the USB thread handles an attach. -/
def attachDuringExchange : List BusAction :=
  [.start (.user 0) (.commandXchg closeRequest), .run (.user 0) true, .run (.user 0) true,
    .complete .bulkin ⟨0, 16, []⟩, .run (.user 0) true, .run (.user 0) true,
    .start .usb (.events ⟨false, true⟩), .run .usb true, .run .usb true]

def bothRead (s : BusState) : Bool :=
  (s.prog .usb).waitsFor = some .bulkout && (s.prog (.user 0)).waitsFor = some .bulkout

theorem bulk_requests_shared_on_attach :
    ∃ s, Reaches busStep anyStep started attachDuringExchange s ∧ ¬Exclusive id s := by
  have hboth : (runGuarded busStep anyStep started attachDuringExchange).any bothRead = true := by
    decide +kernel
  obtain ⟨s, hrun, htest⟩ := exists_reaches hboth
  simp only [bothRead, Bool.and_eq_true, decide_eq_true_eq] at htest
  refine ⟨s, hrun, fun hexclusive => ?_⟩
  have := hexclusive .usb (.user 0) .bulkout .bulkout htest.1 htest.2 rfl
  simp at this

end PsplinkUsb.UsbHostfs.BusExclusion
