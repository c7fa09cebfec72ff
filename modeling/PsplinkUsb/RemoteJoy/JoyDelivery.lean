import PsplinkUsb.Library.Records
import PsplinkUsb.Library.Run
import PsplinkUsb.RemoteJoy.JoyChannel

namespace PsplinkUsb.RemoteJoy.JoyDelivery

open PsplinkUsb.Library.Records
open PsplinkUsb.Library.Run
open PsplinkUsb.HostFs.Wire
open PsplinkUsb.UsbHostfs.AsyncChannel
open PsplinkUsb.UsbHostfs.ChannelWrites
open PsplinkUsb.UsbHostfs.EndpointQueue
open PsplinkUsb.RemoteJoy.JoyEvents
open PsplinkUsb.RemoteJoy.JoyChannel

/-- A way the socket reads of `async_thread` can cut what was written. -/
structure Cut (stream : Bytes) (reads : List Bytes) : Prop where
  flatten : reads.flatten = stream
  read : ∀ data ∈ reads, data ≠ [] ∧ data.length ≤ asyncReadLimit

def packetsOf (daemon : Bool) (reads : List Bytes) : List Bytes :=
  reads.filterMap (asyncThreadPacket daemon true asyncJoy)

/-- A read finds the ring empty or with a whole record in it, and a flush finds it empty. -/
def Whole (s : State) : Action → Prop
  | .readSection => waitingSize s = 0 ∨ sizeofJoyEvent ≤ waitingSize s
  | .handle => ∀ joyevent, s.phase = .read joyevent → ¬IsEvent joyevent → waitingSize s = 0
  | _ => True

def FitsWhole (s : State) (a : Action) : Prop := Fits s a ∧ Whole s a

/-- Nothing is under way, in the ring, or read and not looked at. -/
def Consumed (s : State) : Prop :=
  s.packets = [] ∧ waitingSize s = 0 ∧ ∀ joyevent, s.phase = .read joyevent → joyevent = []

def screenCmdsOf (events : List JoyEvent) : List Word :=
  events.flatMap fun e => if e.type = typeScreenCmd then [e.value] else []

/-- The events were applied, each once and in order, and nothing else. -/
structure Applied (events : List JoyEvent) (s : State) : Prop where
  applied : s.applied = events
  currjoy : s.currjoy = events.foldl CtrlData.apply { buttons := 0, lx := 0x80, ly := 0x80 }
  screenCmds : s.screenCmds = screenCmdsOf events
  buttons : s.currjoy.buttons = buttonMask events

def hand : Phase → Bytes
  | .read joyevent => joyevent
  | _ => []

def underway (s : State) : Bytes := (s.packets.map payload).flatten

variable {usb : AsyncState} {p endp : EndpointPtr} {s s' : State} {a : Action}
  {actions : List Action} {sent : List JoyEvent} {reads : List Bytes} {daemon : Bool}

theorem encode_fixedWidth : FixedWidth JoyEvent.encode sizeofJoyEvent := by
  intro e
  simp [JoyEvent.encode, sizeofJoyEvent]

theorem decode_encode (e : JoyEvent) : JoyEvent.decode e.encode = e := by
  have htype := @field32_le32 (le32 joyMagic) 4 (length_le32 _) e.type (le32 e.value)
  have hvalue := @field32_le32 (le32 joyMagic ++ le32 e.type) 8 (by simp) e.value []
  rw [← List.append_assoc] at htype
  rw [List.append_nil] at hvalue
  rw [JoyEvent.decode, JoyEvent.encode, htype, hvalue]

theorem isEvent_encode (e : JoyEvent) : IsEvent e.encode := by
  have hmagic := @field32_le32 [] 0 rfl joyMagic (le32 e.type ++ le32 e.value)
  rw [List.nil_append, ← List.append_assoc] at hmagic
  exact ⟨encode_fixedWidth e, hmagic⟩

/-- The events not yet applied are what is read, in the ring and under way. -/
structure Remains (sent : List JoyEvent) (p : EndpointPtr) (s : State) : Prop where
  bytes : ∃ rest, sent = s.applied ++ rest ∧
    hand s.phase ++ queue p s.usb ++ underway s = rest.flatMap JoyEvent.encode
  record : ∀ joyevent, s.phase = .read joyevent →
    joyevent = [] ∨ joyevent.length = sizeofJoyEvent

theorem underway_cons {packet : Bytes} {packets : List Bytes}
    (hpackets : s.packets = packet :: packets) :
    underway s = payload packet ++ (packets.map payload).flatten := by
  rw [underway, hpackets, List.map_cons, List.flatten_cons]

theorem Remains.isEvent (h : Remains sent p s) {joyevent : Bytes}
    (hphase : s.phase = .read joyevent) (hlength : joyevent.length = sizeofJoyEvent) :
    IsEvent joyevent := by
  obtain ⟨rest, -, hbytes⟩ := h.bytes
  rw [hphase, List.append_assoc] at hbytes
  obtain ⟨e, -, -, rfl, -⟩ := encode_fixedWidth.front (by decide) hlength hbytes
  exact isEvent_encode e

theorem Remains.step (h : Remains sent p s) (hopen : Open p s) (hwhole : Whole s a)
    (htook : Took p s a s') : Remains sent p s' := by
  have hisEvent := @Remains.isEvent p s sent h
  obtain ⟨⟨rest, hsent, hbytes⟩, hrecord⟩ := h
  cases htook with
  | arrive hpackets hqueue hevent =>
      refine ⟨⟨rest, hsent, ?_⟩, hrecord⟩
      rw [underway_cons hpackets] at hbytes
      rw [← hbytes, hqueue, underway]
      simp only [List.append_assoc]
  | wait hphase hqueue hset hevent =>
      refine ⟨⟨rest, hsent, ?_⟩, by simp⟩
      rw [hphase] at hbytes
      rw [← hbytes, hqueue]
      rfl
  | waitError hphase => exact ⟨⟨rest, hsent, hbytes⟩, hrecord⟩
  | @readSection usb joyevent hphase hqueue hlength hevent =>
      refine ⟨⟨rest, hsent, ?_⟩, ?_⟩
      · rw [hphase, hqueue] at hbytes
        exact hbytes
      · intro joyevent' heq
        obtain rfl := Phase.read.inj heq
        have hsize := waitingSize_eq hopen
        rcases hwhole with hzero | hfull
        · left
          rw [hzero] at hsize
          apply List.length_eq_zero_iff.mp
          omega
        · right
          omega
  | @apply joyevent hphase hjoyevent =>
      rw [hphase, List.append_assoc] at hbytes
      obtain ⟨e, rest, rfl, rfl, hrest⟩ := encode_fixedWidth.front (by decide) hjoyevent.1 hbytes
      refine ⟨⟨rest, ?_, hrest⟩, by simp [State.apply]⟩
      rw [hsent, decode_encode, State.apply, List.append_assoc, List.singleton_append]
  | @flush joyevent usb hphase hjoyevent hqueue =>
      have hnil : joyevent = [] :=
        (hrecord joyevent hphase).resolve_right fun hlength => hjoyevent (hisEvent hphase hlength)
      have hempty : queue p s.usb = [] := by
        have hsize := waitingSize_eq hopen
        rw [hwhole joyevent hphase hjoyevent] at hsize
        apply List.length_eq_zero_iff.mp
        omega
      refine ⟨⟨rest, hsent, ?_⟩, by simp⟩
      rw [hphase, hnil, hempty] at hbytes
      rw [hqueue]
      exact hbytes

/-- What can still become events: the bytes of a whole record count only while they are together. -/
def handSize (phase : Phase) : ℕ :=
  if (hand phase).length = sizeofJoyEvent then sizeofJoyEvent else 0

theorem handSize_read_le (joyevent : Bytes) : handSize (.read joyevent) ≤ joyevent.length := by
  rw [handSize]
  split
  · rename_i hlength
    exact hlength.ge
  · exact Nat.zero_le _

theorem handSize_of_ne {joyevent : Bytes} (h : joyevent.length ≠ sizeofJoyEvent) :
    handSize (.read joyevent) = 0 := if_neg h

def credit (p : EndpointPtr) (s : State) : ℕ :=
  sizeofJoyEvent * s.applied.length + handSize s.phase + (queue p s.usb).length +
    (underway s).length

theorem credit_step (hopen : Open p s) (htook : Took p s a s') :
    credit p s' ≤ credit p s ∧ (¬Whole s a → credit p s' < credit p s) := by
  cases htook with
  | arrive hpackets hqueue hevent =>
      refine ⟨?_, fun h => absurd trivial h⟩
      rw [credit, credit, hqueue, underway_cons hpackets, underway]
      simp only [List.length_append]
      omega
  | wait hphase hqueue hset hevent =>
      refine ⟨?_, fun h => absurd trivial h⟩
      rw [credit, credit, hqueue, hphase]
      exact le_rfl
  | waitError hphase => exact ⟨le_rfl, fun h => absurd trivial h⟩
  | @readSection usb joyevent hphase hqueue hlength hevent =>
      have hsize := waitingSize_eq hopen
      have hhand : handSize s.phase = 0 := by
        rw [hphase]
        rfl
      have hsplit := congrArg List.length hqueue
      rw [List.length_append] at hsplit
      have hunder : underway { s with usb := usb, phase := .read joyevent } = underway s := rfl
      simp only [credit, hhand, hunder]
      constructor
      · have hle := handSize_read_le joyevent
        omega
      · intro hpart
        obtain ⟨hne, hless⟩ := not_or.mp hpart
        rw [handSize_of_ne (by omega)]
        omega
  | @apply joyevent hphase hjoyevent =>
      have hhand : handSize s.phase = sizeofJoyEvent := by
        rw [hphase]
        exact if_pos hjoyevent.1
      refine ⟨?_, fun h => absurd ?_ h⟩
      · rw [credit, credit, hhand]
        simp only [State.apply, List.length_append, List.length_singleton, underway]
        have hnone : handSize .waiting = 0 := rfl
        rw [hnone, mul_add]
        omega
      · intro joyevent' hphase' hnot
        rw [hphase] at hphase'
        obtain rfl := Phase.read.inj hphase'
        exact absurd hjoyevent hnot
  | @flush joyevent usb hphase hjoyevent hqueue =>
      have hnone : handSize .waiting = 0 := rfl
      have hunder : underway { s with usb := usb, phase := .waiting } = underway s := rfl
      simp only [credit, hqueue, hnone, hunder, List.length_nil]
      constructor
      · omega
      · intro hpart
        have hsize := waitingSize_eq hopen
        have hne : waitingSize s ≠ 0 := fun hzero => hpart fun _ _ _ => hzero
        omega

theorem buttons_apply (joy : CtrlData) (e : JoyEvent) (mask : Word) (h : joy.buttons = mask) :
    (joy.apply e).buttons =
      if e.type = typeButtonDown then mask ||| e.value
      else if e.type = typeButtonUp then mask &&& ~~~e.value
      else mask := by
  have hapart : typeButtonUp ≠ typeButtonDown := by decide
  subst h
  rw [CtrlData.apply]
  by_cases hup : e.type = typeButtonUp
  · rw [if_pos hup, if_neg (by rw [hup]; exact hapart), if_pos hup]
  · rw [if_neg hup, if_neg hup]
    split
    · rfl
    · split
      · rfl
      · split <;> rfl

theorem applied_step (h : Applied s.applied s) (htook : Took p s a s') :
    Applied s'.applied s' := by
  obtain ⟨-, hcurrjoy, hscreen, hbuttons⟩ := h
  cases htook with
  | arrive => exact ⟨rfl, hcurrjoy, hscreen, hbuttons⟩
  | wait => exact ⟨rfl, hcurrjoy, hscreen, hbuttons⟩
  | waitError => exact ⟨rfl, hcurrjoy, hscreen, hbuttons⟩
  | readSection => exact ⟨rfl, hcurrjoy, hscreen, hbuttons⟩
  | flush => exact ⟨rfl, hcurrjoy, hscreen, hbuttons⟩
  | @apply joyevent hphase hjoyevent =>
      refine ⟨rfl, ?_, ?_, ?_⟩
      · simp only [State.apply, List.foldl_append, ← hcurrjoy, List.foldl_cons, List.foldl_nil]
      · rw [screenCmdsOf] at hscreen ⊢
        simp only [State.apply, List.flatMap_append, hscreen, List.flatMap_singleton]
      · simp only [State.apply, buttonMask, List.foldl_append, List.foldl_cons, List.foldl_nil]
        exact buttons_apply _ _ _ hbuttons

/-- Bytes in the ring are noticed, unless `main_thread` is about to look anyway. -/
def Noticed (p : EndpointPtr) (s : State) : Prop :=
  s.phase ≠ .woken → queue p s.usb ≠ [] → s.usb.asyncevent asyncJoy = true

theorem noticed_step (h : Noticed p s) (htook : Took p s a s') : Noticed p s' := by
  cases htook with
  | arrive hpackets hqueue hevent => exact fun _ _ => hevent
  | wait => exact fun hphase => absurd rfl hphase
  | waitError => exact h
  | readSection hphase hqueue hlength hevent => exact fun _ hne => hevent.mpr (.inr hne)
  | apply hphase hjoyevent =>
      intro _ hne
      exact h (by rw [hphase]; exact Phase.noConfusion) hne
  | flush hphase hjoyevent hqueue => exact fun _ hne => absurd hqueue hne

theorem packetsOf_eq (daemon : Bool) (reads : List Bytes) :
    packetsOf daemon reads = reads.map (asyncCommand asyncJoy ++ ·) := by
  have hpacket : asyncThreadPacket daemon true asyncJoy =
      some ∘ (asyncCommand asyncJoy ++ ·) := by
    funext data
    rw [asyncThreadPacket, if_neg (by rintro ⟨-, hchan, -⟩; exact absurd hchan (by decide))]
    rfl
  rw [packetsOf, hpacket, List.filterMap_eq_map]

theorem register_joy
    (hreg : 0 ≤ (usbAsyncRegister (channelWord asyncJoy) (some endp) usb).1) :
    (usbAsyncRegister (channelWord asyncJoy) (some endp) usb).2 =
      setEvent asyncJoy false (setEndpoint endp
        { usb.endpoints endp with size := 0, readPos := 0, writePos := 0 }
        { usb with asyncChan := Function.update usb.asyncChan asyncJoy (some endp) }) := by
  have hchan : toChannel (channelWord asyncJoy) = some asyncJoy := by decide
  have hregister : registerChannel (channelWord asyncJoy) usb =
      if usb.asyncChan asyncJoy = none then some asyncJoy else none := by
    rw [registerChannel, if_neg (by decide), hchan]
    simp [Option.filter_some]
  by_cases hfree : usb.asyncChan asyncJoy = none
  · rw [if_pos hfree] at hregister
    simp [usbAsyncRegister, hregister, flushSection]
  · rw [if_neg hfree] at hregister
    simp [usbAsyncRegister, hregister] at hreg

theorem start_open
    (hreg : 0 ≤ (usbAsyncRegister (channelWord asyncJoy) (some endp) usb).1)
    (hcut : Cut (sent.flatMap JoyEvent.encode) reads) :
    Open endp (start usb endp (packetsOf daemon reads)) ∧
      queue endp (start usb endp (packetsOf daemon reads)).usb = [] ∧
      (start usb endp (packetsOf daemon reads)).usb.asyncevent asyncJoy = false := by
  rw [start, register_joy hreg]
  refine ⟨⟨?_, ?_, ?_⟩, ?_, asyncevent_setEvent _ _⟩
  · simp [setEvent, setEndpoint]
  · simpa [setEvent, setEndpoint] using ring_empty _
  · intro packet hpacket
    rw [packetsOf_eq] at hpacket
    obtain ⟨data, hdata, rfl⟩ := List.mem_map.mp hpacket
    exact ⟨data, (hcut.read data hdata).1, rfl⟩
  · rw [queue_setEvent, queue_setEndpoint]
    rfl

theorem underway_start (hcut : Cut (sent.flatMap JoyEvent.encode) reads) :
    underway (start usb endp (packetsOf daemon reads)) = sent.flatMap JoyEvent.encode := by
  rw [underway, start, packetsOf_eq, List.map_map, ← hcut.flatten]
  congr 1
  refine (List.map_congr_left fun data _ => ?_).trans (List.map_id _)
  exact payload_asyncCommand data

/-- What every run keeps, whatever it drops. -/
structure Sound (p : EndpointPtr) (s : State) : Prop where
  channel : Open p s
  noticed : Noticed p s
  applied : Applied s.applied s

/-- What the runs keep that drop nothing. -/
def Intact (sent : List JoyEvent) (p : EndpointPtr) (s : State) : Prop :=
  Open p s ∧ Remains sent p s

section Runs

variable (hreg : 0 ≤ (usbAsyncRegister (channelWord asyncJoy) (some endp) usb).1)
  (hcut : Cut (sent.flatMap JoyEvent.encode) reads)

include hreg hcut

theorem run_sound (hrun : Reaches step Fits (start usb endp (packetsOf daemon reads)) actions s) :
    Sound endp s := by
  obtain ⟨hopen, hqueue, -⟩ := @start_open usb endp sent reads daemon hreg hcut
  refine hrun.invariant ⟨hopen, fun _ hne => absurd hqueue hne, rfl, rfl, rfl, rfl⟩ ?_
  intro s a s' h hfits hstep
  obtain ⟨htook, hopen⟩ := step_took h.channel hfits hstep
  exact ⟨hopen, noticed_step h.noticed htook, applied_step h.applied htook⟩

theorem run_intact
    (hrun : Reaches step FitsWhole (start usb endp (packetsOf daemon reads)) actions s) :
    Intact sent endp s := by
  obtain ⟨hopen, hqueue, -⟩ := @start_open usb endp sent reads daemon hreg hcut
  refine hrun.invariant ⟨hopen, ⟨sent, rfl, ?_⟩, fun _ heq => Phase.noConfusion heq⟩ ?_
  · rw [hqueue, underway_start hcut]
    rfl
  · intro s a s' h hguard hstep
    obtain ⟨htook, hopen⟩ := step_took h.1 hguard.1 hstep
    exact ⟨hopen, h.2.step h.1 hguard.2 htook⟩

/-- A run that drops a part of a record ends with less than the events that were sent. -/
theorem whole_or_less
    (hrun : Reaches step Fits (start usb endp (packetsOf daemon reads)) actions s) :
    credit endp s ≤ sizeofJoyEvent * sent.length ∧
      (Reaches step FitsWhole (start usb endp (packetsOf daemon reads)) actions s ∨
        credit endp s < sizeofJoyEvent * sent.length) := by
  induction hrun with
  | start =>
      obtain ⟨-, hqueue, -⟩ := @start_open usb endp sent reads daemon hreg hcut
      refine ⟨?_, .inl .start⟩
      rw [credit, hqueue, underway_start hcut, encode_fixedWidth.length_flatMap]
      simp [start, handSize, hand, sizeofJoyEvent]
  | @step _ s s' a hrun hfits hstep ih =>
      obtain ⟨hle, hcase⟩ := ih
      have hopen := (run_sound hreg hcut hrun).channel
      obtain ⟨hnext, hless⟩ := credit_step hopen (step_took hopen hfits hstep).1
      refine ⟨hnext.trans hle, ?_⟩
      by_cases hwhole : Whole s a
      · rcases hcase with hrun | hdropped
        · exact .inl (.step hrun ⟨hfits, hwhole⟩ hstep)
        · exact .inr (hnext.trans_lt hdropped)
      · exact .inr ((hless hwhole).trans_le hle)

end Runs

theorem credit_consumed (hopen : Open p s) (hdone : Consumed s) :
    credit p s = sizeofJoyEvent * s.applied.length ∧ hand s.phase = [] ∧ queue p s.usb = [] ∧
      underway s = [] := by
  obtain ⟨hpackets, hsize, hread⟩ := hdone
  have hhand : hand s.phase = [] := by
    cases hphase : s.phase with
    | waiting => rfl
    | woken => rfl
    | read joyevent => exact hread joyevent hphase
  have hqueue : queue p s.usb = [] := by
    rw [waitingSize_eq hopen] at hsize
    exact List.length_eq_zero_iff.mp (by exact_mod_cast hsize)
  have hunder : underway s = [] := by
    rw [underway, hpackets]
    rfl
  refine ⟨?_, hhand, hqueue, hunder⟩
  rw [credit, hqueue, hunder, handSize, hhand]
  simp [sizeofJoyEvent]

/-- Events are written, the reads of `async_thread` cut them in any way, and packets that fit
arrive at any time. While each read of `main_thread` finds a whole record or nothing, and each
flush nothing, the events applied begin those sent. When all is consumed, the events sent were
applied, each once and in order, exactly in the runs of this kind. In no run do bytes in the
ring go unnoticed. -/
theorem joy_events_iff
    (hreg : 0 ≤ (usbAsyncRegister (channelWord asyncJoy) (some endp) usb).1)
    (hcut : Cut (sent.flatMap JoyEvent.encode) reads)
    (hrun : Reaches step Fits (start usb endp (packetsOf daemon reads)) actions s) :
    (Reaches step FitsWhole (start usb endp (packetsOf daemon reads)) actions s →
      s.applied <+: sent ∧ Applied s.applied s) ∧
    (Consumed s →
      (Applied sent s ↔
        Reaches step FitsWhole (start usb endp (packetsOf daemon reads)) actions s)) ∧
    (s.phase = .waiting → 0 < waitingSize s → s.usb.asyncevent asyncJoy = true) := by
  obtain ⟨hopen, hnoticed, happlied⟩ := run_sound hreg hcut hrun
  refine ⟨?_, ?_, ?_⟩
  · intro hwhole
    obtain ⟨rest, hsent, -⟩ := (run_intact hreg hcut hwhole).2.bytes
    exact ⟨⟨rest, hsent.symm⟩, happlied⟩
  · intro hdone
    obtain ⟨hcredit, hhand, hqueue, hunder⟩ := credit_consumed hopen hdone
    constructor
    · intro h
      refine (whole_or_less hreg hcut hrun).2.resolve_right ?_
      rw [hcredit, h.applied]
      exact lt_irrefl _
    · intro hwhole
      obtain ⟨rest, hsent, hbytes⟩ := (run_intact hreg hcut hwhole).2.bytes
      rw [hhand, hqueue, hunder] at hbytes
      have hrest := encode_fixedWidth.flatMap_eq_nil (by decide) hbytes.symm
      rw [hrest, List.append_nil] at hsent
      rw [hsent]
      exact happlied
  · intro hphase hsize
    refine hnoticed (by rw [hphase]; exact Phase.noConfusion) ?_
    intro hempty
    rw [waitingSize_eq hopen, hempty] at hsize
    exact absurd hsize (by decide)

/-- Whole records are under way and in the ring, and the event promises one more than the read
that is about to happen takes. -/
structure Aligned (p : EndpointPtr) (s : State) : Prop where
  packets : ∀ packet ∈ s.packets, sizeofJoyEvent ∣ (payload packet).length
  ring : sizeofJoyEvent ∣ (queue p s.usb).length
  event : s.usb.asyncevent asyncJoy = true → queue p s.usb ≠ []
  woken : s.phase = .woken → queue p s.usb ≠ [] ∧
    (s.usb.asyncevent asyncJoy = true → sizeofJoyEvent < (queue p s.usb).length)
  read : ∀ joyevent, s.phase = .read joyevent → joyevent.length = sizeofJoyEvent

theorem le_length_of_ne_nil {data : Bytes} (hdvd : sizeofJoyEvent ∣ data.length)
    (hne : data ≠ []) : sizeofJoyEvent ≤ data.length :=
  Nat.le_of_dvd (List.length_pos_iff.mpr hne) hdvd

/-- A read out of whole records finds one, and no flush happens. -/
theorem Aligned.whole (h : Aligned p s) (hintact : Intact sent p s) : Whole s a := by
  cases a with
  | readSection =>
      rw [Whole, waitingSize_eq hintact.1]
      rcases eq_or_ne (queue p s.usb) [] with hnil | hne
      · left
        rw [hnil]
        rfl
      · right
        exact_mod_cast le_length_of_ne_nil h.ring hne
  | handle =>
      intro joyevent hphase hnot
      exact absurd (hintact.2.isEvent hphase (h.read joyevent hphase)) hnot
  | arrive => trivial
  | wait => trivial
  | waitError => trivial

theorem Aligned.step (h : Aligned p s) (hintact : Intact sent p s)
    (htook : Took p s a s') : Aligned p s' := by
  obtain ⟨hpackets, hring, hevent, hwoken, hread⟩ := h
  cases htook with
  | @arrive packet packets usb hsplit hqueue hset =>
      obtain ⟨data, hdata, hpacket⟩ :=
        hintact.1.packets packet (by rw [hsplit]; exact List.mem_cons_self)
      have hwhole := hpackets packet (by rw [hsplit]; exact List.mem_cons_self)
      have hne : payload packet ≠ [] := by rwa [hpacket, payload_asyncCommand]
      have hpos := List.length_pos_iff.mpr hne
      refine ⟨?_, ?_, ?_, ?_, hread⟩
      · intro packet hmem
        exact hpackets packet (by rw [hsplit]; exact List.mem_cons_of_mem _ hmem)
      · rw [hqueue, List.length_append]
        exact Nat.dvd_add hring hwhole
      · intro _
        rw [hqueue]
        exact List.append_ne_nil_of_right_ne_nil _ hne
      · intro hphase
        have hle := le_length_of_ne_nil hring (hwoken hphase).1
        rw [hqueue, List.length_append]
        refine ⟨List.append_ne_nil_of_right_ne_nil _ hne, fun _ => ?_⟩
        omega
  | wait hphase hqueue hset hclear =>
      refine ⟨hpackets, by rwa [hqueue], ?_, ?_, fun _ heq => Phase.noConfusion heq⟩
      · intro h
        exact absurd (h.symm.trans hclear) (by decide)
      · intro _
        rw [hqueue]
        exact ⟨hevent hset, fun h => absurd (h.symm.trans hclear) (by decide)⟩
  | waitError => exact ⟨hpackets, hring, hevent, hwoken, hread⟩
  | @readSection usb joyevent hphase hqueue hlength hset =>
      obtain ⟨hne, hmore⟩ := hwoken hphase
      have hle := le_length_of_ne_nil hring hne
      have hfull : joyevent.length = sizeofJoyEvent := by omega
      have hsplit := congrArg List.length hqueue
      rw [List.length_append, hfull] at hsplit
      refine ⟨hpackets, ?_, ?_, fun heq => Phase.noConfusion heq, ?_⟩
      · rw [hsplit] at hring
        exact (Nat.dvd_add_right dvd_rfl).mp hring
      · intro h
        rcases hset.mp h with hbefore | hleft
        · have hless := hmore hbefore
          have hpos : 0 < (queue p usb).length := by omega
          exact List.ne_nil_of_length_pos hpos
        · exact hleft
      · intro joyevent' heq
        obtain rfl := Phase.read.inj heq
        exact hfull
  | apply hphase hjoyevent =>
      exact ⟨hpackets, hring, hevent, fun heq => Phase.noConfusion heq,
        fun _ heq => Phase.noConfusion heq⟩
  | flush hphase hjoyevent hqueue =>
      exact absurd (hintact.2.isEvent hphase (hread _ hphase)) hjoyevent

/-- Reads of `async_thread` that end between two records drop nothing, whenever the packets
arrive. -/
theorem records_whole
    (hreg : 0 ≤ (usbAsyncRegister (channelWord asyncJoy) (some endp) usb).1)
    (hcut : Cut (sent.flatMap JoyEvent.encode) reads)
    (hrecords : ∀ data ∈ reads, sizeofJoyEvent ∣ data.length)
    (hrun : Reaches step Fits (start usb endp (packetsOf daemon reads)) actions s) :
    Reaches step FitsWhole (start usb endp (packetsOf daemon reads)) actions s ∧
      Aligned endp s := by
  induction hrun with
  | start =>
      obtain ⟨-, hqueue, hclear⟩ := @start_open usb endp sent reads daemon hreg hcut
      refine ⟨.start, ?_, ?_, ?_, fun heq => Phase.noConfusion heq,
        fun _ heq => Phase.noConfusion heq⟩
      · intro packet hpacket
        rw [start, packetsOf_eq] at hpacket
        obtain ⟨data, hdata, rfl⟩ := List.mem_map.mp hpacket
        rw [payload_asyncCommand]
        exact hrecords data hdata
      · rw [hqueue]
        exact dvd_zero _
      · intro h
        exact absurd (h.symm.trans hclear) (by decide)
  | step hrun hfits hstep ih =>
      obtain ⟨hwhole, haligned⟩ := ih
      have hintact := run_intact hreg hcut hwhole
      have htook := step_took hintact.1 hfits hstep
      exact ⟨.step hwhole ⟨hfits, haligned.whole hintact⟩ hstep,
        haligned.step hintact htook.1⟩

def pressCross : JoyEvent := { type := typeButtonDown, value := 0x4000 }

def emptyUsb : AsyncState where
  asyncChan := fun _ => none
  endpoints := fun _ => { buffer := fun _ => 0, readPos := 0, writePos := 0, size := 0 }
  asyncevent := fun _ => false

theorem consumed_of_waiting (hpackets : s.packets = []) (hsize : waitingSize s = 0)
    (hphase : s.phase = .waiting) : Consumed s := by
  refine ⟨hpackets, hsize, ?_⟩
  intro joyevent hread
  rw [hphase] at hread
  cases hread

def threeEvents : List JoyEvent :=
  [pressCross, { type := typeScreenCmd, value := 3 }, { type := typeButtonUp, value := 0x4000 }]

/-- The second record is cut. -/
def cutReads : List Bytes :=
  [(threeEvents.flatMap JoyEvent.encode).take 18, (threeEvents.flatMap JoyEvent.encode).drop 18]

/-- The rest of the record arrives before `main_thread` reads it. -/
def inTime : List Action :=
  [.arrive, .wait, .readSection, .handle, .wait, .arrive, .readSection, .handle, .wait,
    .readSection, .handle]

/-- The half is read before the rest arrives. -/
def tooLate : List Action :=
  [.arrive, .wait, .readSection, .handle, .wait, .readSection, .handle, .arrive, .waitError, .wait,
    .readSection, .handle]

theorem cut_cutReads : Cut (threeEvents.flatMap JoyEvent.encode) cutReads :=
  ⟨by decide, by decide⟩

theorem joy_events_iff_cut :
    (∃ s, Reaches step Fits (start emptyUsb 0 (packetsOf false cutReads)) inTime s ∧
      Consumed s ∧ Applied threeEvents s ∧
      Reaches step FitsWhole (start emptyUsb 0 (packetsOf false cutReads)) inTime s) ∧
    (∃ s, Reaches step Fits (start emptyUsb 0 (packetsOf false cutReads)) tooLate s ∧
      Consumed s ∧ s.applied = [pressCross] ∧ s.currjoy.buttons = 0x4000 ∧
      ¬Reaches step FitsWhole (start emptyUsb 0 (packetsOf false cutReads)) tooLate s) := by
  constructor
  · have hfound : ∃ s, Reaches step Fits (start emptyUsb 0 (packetsOf false cutReads)) inTime s ∧
        decide (s.packets = [] ∧ waitingSize s = 0 ∧ s.phase = .waiting ∧ s.applied = threeEvents ∧
          s.currjoy = { buttons := 0, lx := 0x80, ly := 0x80 } ∧ s.screenCmds = [3]) = true :=
      exists_reaches (by decide +kernel)
    obtain ⟨s, hrun, hend⟩ := hfound
    obtain ⟨hpackets, hsize, hphase, happlied, hjoy, hscreen⟩ := of_decide_eq_true hend
    have hconsumed := consumed_of_waiting hpackets hsize hphase
    have hall : Applied threeEvents s :=
      ⟨happlied, hjoy.trans (by decide), hscreen.trans (by decide), by rw [hjoy]; decide⟩
    exact ⟨s, hrun, hconsumed, hall,
      ((joy_events_iff (by decide) cut_cutReads hrun).2.1 hconsumed).mp hall⟩
  · have hfound : ∃ s, Reaches step Fits (start emptyUsb 0 (packetsOf false cutReads)) tooLate s ∧
        decide (s.packets = [] ∧ waitingSize s = 0 ∧ s.phase = .waiting ∧
          s.applied = [pressCross] ∧ s.currjoy.buttons = 0x4000) = true :=
      exists_reaches (by decide +kernel)
    obtain ⟨s, hrun, hend⟩ := hfound
    obtain ⟨hpackets, hsize, hphase, happlied, hbuttons⟩ := of_decide_eq_true hend
    have hconsumed := consumed_of_waiting hpackets hsize hphase
    refine ⟨s, hrun, hconsumed, happlied, hbuttons, fun hwhole => ?_⟩
    have hall := ((joy_events_iff (by decide) cut_cutReads hrun).2.1 hconsumed).mpr hwhole
    exact absurd (happlied.symm.trans hall.applied) (by decide)

/-- A record cut in two, the first half read before the second arrives: all is consumed, and
the button is not down. -/
theorem split_record_lost :
    Cut ([pressCross].flatMap JoyEvent.encode)
        [pressCross.encode.take 6, pressCross.encode.drop 6] ∧
      ∃ s, Reaches step Fits
          (start emptyUsb 0
            (packetsOf false [pressCross.encode.take 6, pressCross.encode.drop 6]))
          [.arrive, .wait, .readSection, .handle, .arrive, .wait, .readSection, .handle] s ∧
        Consumed s ∧ s.applied = [] ∧ s.currjoy.buttons = 0 ∧
        buttonMask [pressCross] = 0x4000 := by
  refine ⟨⟨by decide, by decide⟩, ?_⟩
  have hfound : ∃ s, Reaches step Fits
      (start emptyUsb 0
        (packetsOf false [pressCross.encode.take 6, pressCross.encode.drop 6]))
      [.arrive, .wait, .readSection, .handle, .arrive, .wait, .readSection, .handle] s ∧
      decide (s.packets = [] ∧ waitingSize s = 0 ∧ s.phase = .waiting ∧ s.applied = [] ∧
        s.currjoy.buttons = 0) = true :=
    exists_reaches (by decide)
  obtain ⟨s, hrun, hend⟩ := hfound
  obtain ⟨hpackets, hsize, hphase, happlied, hbuttons⟩ := of_decide_eq_true hend
  exact ⟨s, hrun, consumed_of_waiting hpackets hsize hphase, happlied, hbuttons, by decide⟩

end PsplinkUsb.RemoteJoy.JoyDelivery
