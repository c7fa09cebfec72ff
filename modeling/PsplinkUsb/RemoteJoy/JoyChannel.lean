import PsplinkUsb.HostFs.ChannelDelivery
import PsplinkUsb.RemoteJoy.JoyEvents
import PsplinkUsb.UsbHostfs.EndpointQueue

namespace PsplinkUsb.RemoteJoy.JoyChannel

open PsplinkUsb.HostFs.Wire
open PsplinkUsb.HostFs.ChannelDelivery (asyncCommand_fields length_asyncCommand)
open PsplinkUsb.UsbHostfs.AsyncChannel
open PsplinkUsb.UsbHostfs.ChannelWrites
open PsplinkUsb.UsbHostfs.EndpointQueue
open PsplinkUsb.RemoteJoy.JoyEvents

/-- The number of bytes in the ring of the channel. -/
def waitingSize (s : State) : ℤ :=
  ((s.usb.asyncChan asyncJoy).map fun p => (s.usb.endpoints p).size).getD 0

/-- A packet that arrives does not overflow the ring. -/
def Fits (s : State) : Action → Prop
  | .arrive => ∀ packet ∈ s.packets.head?,
      waitingSize s + (payload packet).length ≤ maxAsyncBuffer
  | _ => True

instance decidableFits (s : State) : (a : Action) → Decidable (Fits s a)
  | .arrive => inferInstanceAs (Decidable (∀ packet ∈ s.packets.head?, _))
  | .wait => inferInstanceAs (Decidable True)
  | .waitError => inferInstanceAs (Decidable True)
  | .readSection => inferInstanceAs (Decidable True)
  | .handle => inferInstanceAs (Decidable True)

def queue (p : EndpointPtr) (usb : AsyncState) : Bytes := queued (usb.endpoints p)

/-- The channel is registered, and packets for it are under way. -/
structure Open (p : EndpointPtr) (s : State) : Prop where
  chan : s.usb.asyncChan asyncJoy = some p
  ring : Ring (s.usb.endpoints p)
  packets : ∀ packet ∈ s.packets, ∃ data, data ≠ [] ∧ packet = asyncCommand asyncJoy ++ data

/-- What an action does to the bytes in the ring and to the event. -/
inductive Took (p : EndpointPtr) (s : State) : Action → State → Prop
  | arrive {packet : Bytes} {packets : List Bytes} {usb : AsyncState}
      (hpackets : s.packets = packet :: packets)
      (hqueue : queue p usb = queue p s.usb ++ payload packet)
      (hevent : usb.asyncevent asyncJoy = true) :
      Took p s .arrive { s with usb := usb, packets := packets }
  | wait {usb : AsyncState} (hphase : s.phase = .waiting) (hqueue : queue p usb = queue p s.usb)
      (hset : s.usb.asyncevent asyncJoy = true) (hevent : usb.asyncevent asyncJoy = false) :
      Took p s .wait { s with usb := usb, phase := .woken }
  | waitError (hphase : s.phase = .waiting) : Took p s .waitError s
  | readSection {usb : AsyncState} {joyevent : Bytes} (hphase : s.phase = .woken)
      (hqueue : queue p s.usb = joyevent ++ queue p usb)
      (hlength : joyevent.length = min sizeofJoyEvent (queue p s.usb).length)
      (hevent : usb.asyncevent asyncJoy = true ↔
        s.usb.asyncevent asyncJoy = true ∨ queue p usb ≠ []) :
      Took p s .readSection { s with usb := usb, phase := .read joyevent }
  | apply {joyevent : Bytes} (hphase : s.phase = .read joyevent) (hjoyevent : IsEvent joyevent) :
      Took p s .handle ({ s with phase := .waiting }.apply (JoyEvent.decode joyevent))
  | flush {joyevent : Bytes} {usb : AsyncState} (hphase : s.phase = .read joyevent)
      (hjoyevent : ¬IsEvent joyevent) (hqueue : queue p usb = []) :
      Took p s .handle { s with usb := usb, phase := .waiting }

variable {usb : AsyncState} {p : EndpointPtr} {s s' : State} {a : Action}

theorem payload_asyncCommand (data : Bytes) : payload (asyncCommand asyncJoy ++ data) = data := by
  rw [payload, ← length_asyncCommand asyncJoy, List.drop_left]

theorem packetChannel_asyncCommand {data : Bytes} (hdata : data ≠ []) :
    packetChannel (asyncCommand asyncJoy ++ data) = some asyncJoy := by
  have hpos := List.length_pos_iff.mpr hdata
  obtain ⟨hmagic, hchannel⟩ := asyncCommand_fields asyncJoy data
  rw [packetChannel, if_pos (by rw [List.length_append, length_asyncCommand]; omega)]
  refine (if_pos hmagic).trans ?_
  exact (congrArg toChannel hchannel).trans (by decide)

theorem size_eq (h : Ring (usb.endpoints p)) : (usb.endpoints p).size = (queue p usb).length := by
  have hnonneg := h.size_nonneg
  rw [queue, queued, Library.RingQueue.length_contents]
  omega

theorem waitingSize_eq (h : Open p s) : waitingSize s = (queue p s.usb).length := by
  rw [waitingSize, h.chan, Option.map_some, Option.getD_some, size_eq h.ring]

theorem queue_setEvent (c : Channel) (value : Bool) : queue p (setEvent c value usb) = queue p usb :=
  rfl

theorem endpoints_setEndpoint (e : AsyncEndpoint) : (setEndpoint p e usb).endpoints p = e :=
  Function.update_self ..

theorem asyncevent_setEvent (c : Channel) (value : Bool) :
    (setEvent c value usb).asyncevent c = value :=
  Function.update_self ..

theorem queue_setEndpoint (e : AsyncEndpoint) : queue p (setEndpoint p e usb) = queued e := by
  rw [queue, endpoints_setEndpoint]

theorem fillAsync_open (h : Open p s) {data : Bytes} (hdata : data ≠ []) :
    fillAsync (asyncCommand asyncJoy ++ data) s.usb =
      setEvent asyncJoy true (setEndpoint p
        (afterFill (asyncCommand asyncJoy ++ data) (s.usb.endpoints p)) s.usb) := by
  simp only [fillAsync, packetChannel_asyncCommand hdata, h.chan, afterFill]

theorem queue_fillAsync (h : Open p s) {data : Bytes} (hdata : data ≠ [])
    (hfits : waitingSize s + data.length ≤ maxAsyncBuffer) :
    queue p (fillAsync (asyncCommand asyncJoy ++ data) s.usb) = queue p s.usb ++ data := by
  have hsize := size_eq h.ring
  rw [waitingSize_eq h] at hfits
  rw [fillAsync_open h hdata, queue_setEvent, queue_setEndpoint, (afterFill_spec h.ring _).2,
    acceptedBytes_eq h.ring, payload_asyncCommand, List.take_of_length_le (by omega), queue]

theorem readSection_open (h : Open p s) :
    ∃ usb, UsbHostfs.AsyncChannel.readSection asyncJoy sizeofJoyEvent s.usb = some usb ∧
      usb.asyncChan asyncJoy = some p ∧
      usb.endpoints p = afterRead sizeofJoyEvent (s.usb.endpoints p) ∧
      (usb.asyncevent asyncJoy = true ↔
        s.usb.asyncevent asyncJoy = true ∨ queue p usb ≠ []) := by
  have hring := afterRead_ring h.ring sizeofJoyEvent
  have hread : UsbHostfs.AsyncChannel.readSection asyncJoy sizeofJoyEvent s.usb =
      some (if (afterRead sizeofJoyEvent (s.usb.endpoints p)).size ≠ 0 then
        setEvent asyncJoy true
          (setEndpoint p (afterRead sizeofJoyEvent (s.usb.endpoints p)) s.usb)
      else setEndpoint p (afterRead sizeofJoyEvent (s.usb.endpoints p)) s.usb) := by
    rw [UsbHostfs.AsyncChannel.readSection, h.chan, Option.map_some]
    rfl
  refine ⟨_, hread, ?_⟩
  have hsize := @size_eq (setEndpoint p (afterRead sizeofJoyEvent (s.usb.endpoints p)) s.usb) p
    (by rwa [endpoints_setEndpoint])
  rw [endpoints_setEndpoint] at hsize
  split
  · rename_i hleft
    refine ⟨h.chan, endpoints_setEndpoint _, iff_of_true (asyncevent_setEvent _ _) (.inr ?_)⟩
    intro hnil
    rw [queue_setEvent] at hnil
    rw [hnil] at hsize
    exact hleft hsize
  · rename_i hzero
    have hnil : queue p (setEndpoint p (afterRead sizeofJoyEvent (s.usb.endpoints p)) s.usb) =
        [] := by
      rw [queue_setEndpoint, queued, not_not.mp hzero]
      rfl
    exact ⟨h.chan, endpoints_setEndpoint _, (or_iff_left (not_not.mpr hnil)).symm⟩

theorem length_readBytes (h : Open p s) :
    (readBytes sizeofJoyEvent (s.usb.endpoints p)).length =
      min sizeofJoyEvent (queue p s.usb).length := by
  have hle := readLength_toNat_le h.ring sizeofJoyEvent
  have hsize := size_eq h.ring
  rw [readBytes, (popBytes_spec h.ring hle).2.2, readLength]
  split <;> omega

/-- What each action does while the channel is registered. -/
theorem step_took (h : Open p s) (hfits : Fits s a) (hstep : step s a = some s') :
    Took p s a s' ∧ Open p s' := by
  cases a with
  | arrive =>
      rw [step] at hstep
      cases hpackets : s.packets with
      | nil => simp [hpackets] at hstep
      | cons packet packets =>
          rw [hpackets] at hstep
          obtain rfl := Option.some.inj hstep
          obtain ⟨data, hdata, rfl⟩ := h.packets packet (by rw [hpackets]; exact List.mem_cons_self)
          have hroom := hfits (asyncCommand asyncJoy ++ data) (by rw [hpackets]; rfl)
          rw [payload_asyncCommand] at hroom
          have hqueue := queue_fillAsync h hdata hroom
          refine ⟨.arrive hpackets (hqueue.trans ?_) ?_, ?_, ?_, ?_⟩
          · rw [payload_asyncCommand]
          · rw [fillAsync_open h hdata]
            exact asyncevent_setEvent _ _
          · rw [fillAsync_open h hdata]
            exact h.chan
          · rw [fillAsync_open h hdata]
            simpa [setEvent, setEndpoint] using (afterFill_spec h.ring _).1
          · intro packet hpacket
            exact h.packets packet (by rw [hpackets]; exact List.mem_cons_of_mem _ hpacket)
  | wait =>
      rw [step] at hstep
      split at hstep
      · rename_i hwait
        obtain rfl := Option.some.inj hstep
        exact ⟨.wait hwait.1 rfl hwait.2 (asyncevent_setEvent _ _), h.chan, h.ring, h.packets⟩
      · cases hstep
  | waitError =>
      rw [step] at hstep
      split at hstep
      · rename_i hwait
        obtain rfl := Option.some.inj hstep
        exact ⟨.waitError hwait, h⟩
      · cases hstep
  | readSection =>
      obtain ⟨usb, hread, hchan, hendpoint, hevent⟩ := readSection_open h
      rw [step] at hstep
      split at hstep
      · rename_i hphase
        rw [h.chan, Option.bind_some, hread, Option.map_some] at hstep
        obtain rfl := Option.some.inj hstep
        have hqueue : queue p s.usb =
            readBytes sizeofJoyEvent (s.usb.endpoints p) ++ queue p usb := by
          rw [queue, queue, hendpoint]
          exact queued_eq_readBytes h.ring _
        refine ⟨.readSection hphase hqueue (length_readBytes h) hevent, hchan, ?_, h.packets⟩
        rw [hendpoint]
        exact afterRead_ring h.ring _
      · cases hstep
  | handle =>
      rw [step] at hstep
      split at hstep
      · rename_i joyevent hphase
        split at hstep
        · rename_i hjoyevent
          obtain rfl := Option.some.inj hstep
          exact ⟨.apply hphase hjoyevent, h.chan, h.ring, h.packets⟩
        · rename_i hjoyevent
          simp only [flushSection, h.chan, Option.map_some, Option.getD_some] at hstep
          obtain rfl := Option.some.inj hstep
          refine ⟨.flush hphase hjoyevent ?_, h.chan, ?_, h.packets⟩
          · rw [queue_setEvent, queue_setEndpoint]
            rfl
          · simpa [setEvent, setEndpoint] using ring_empty _
      · cases hstep

end PsplinkUsb.RemoteJoy.JoyChannel
