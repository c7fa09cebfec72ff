import PsplinkUsb.RemoteJoy.ReadThread

namespace PsplinkUsb.RemoteJoy.FrameDelivery

open PsplinkUsb.Library.Run
open PsplinkUsb.HostFs.Wire
open PsplinkUsb.RemoteJoy.JoyEvents (joyMagic)
open PsplinkUsb.RemoteJoy.ReadThread

structure Frame where
  head : JoyScrHeader
  body : Bytes

def Frame.encode (f : Frame) : Bytes := f.head.encode ++ f.body

/-- A screen of one of the four modes that fits the buffer. -/
structure Frame.Valid (f : Frame) : Prop where
  mode : 0 ≤ f.head.mode.toInt ∧ f.head.mode.toInt ≤ 3
  size : f.head.size.toInt = f.body.length
  fits : f.body.length ≤ screenSize

/-- The event for the frame that is the `i`th. -/
def Shows (i : ℕ) (f : Frame) (e : Event) : Prop :=
  ∃ shown, e = .renderFrame (i % 2 = 1) shown ∧ shown.mode = f.head.mode ∧
    shown.size = f.head.size ∧ ∀ j, ∀ h : j < f.body.length, shown.buf j = f.body[j]

/-- The frames are announced in order, each once, and their buffers take turns. -/
def Announced (frames : List Frame) (events : List Event) : Prop :=
  events.length = frames.length ∧
    ∀ i f e, frames[i]? = some f → events[i]? = some e → Shows i f e

/-- All that is stored is stored inside of the two buffers. -/
def StoresWithin (s : State) : Prop :=
  ∀ store ∈ s.stores, 0 ≤ store.loc ∧ store.loc + store.len ≤ screenSize

/-- A header with the mode of a screen gives a size that fits the buffer. -/
def SizeFits (head : JoyScrHeader) : Prop :=
  0 ≤ head.mode.toInt ∧ head.mode.toInt ≤ 3 → 0 ≤ head.size.toInt ∧ head.size.toInt ≤ screenSize

instance (head : JoyScrHeader) : Decidable (SizeFits head) := inferInstanceAs (Decidable (_ → _))

/-- A header comes in one read, and its size fits; no read is interrupted or fails, and `select`
at most is interrupted. -/
def Orderly (s : State) : Action → Prop
  | .read n => s.phase = .header → n = min sizeofJoyScrHeader s.stream.length ∧
      SizeFits (JoyScrHeader.decode (s.stream.take n))
  | .readFails _ => False
  | .selectFails interrupted => interrupted = true

instance decidableOrderly (s : State) : (a : Action) → Decidable (Orderly s a)
  | .read _ => inferInstanceAs (Decidable (_ → _ ∧ _))
  | .readFails _ => inferInstanceAs (Decidable False)
  | .selectFails _ => inferInstanceAs (Decidable (_ = _))

structure Delivered (video : Bool) (frames : List Frame) (s : State) : Prop where
  announced : ∃ k ≤ frames.length, Announced (frames.take k) s.events
  all : s.stream = [] → (∀ size loc, s.phase ≠ .body size loc) → Announced frames s.events
  goesOn : s.stream ≠ [] → ∃ n, Orderly s (.read n) ∧ (step video s (.read n)).isSome

variable {video : Bool} {s s' : State} {a : Action} {frames : List Frame} {f : Frame}
  {size loc : ℤ} {n : ℕ} {stream : Bytes}

/-- What is read goes to the buffers, whatever the stream is. -/
structure Safe (s : State) : Prop where
  stores : StoresWithin s
  body : ∀ size loc, s.phase = .body size loc → 0 ≤ loc ∧ loc ≤ size ∧ size ≤ screenSize

theorem readCount_eq (hloc : 0 ≤ loc) (hle : loc ≤ size) (hsize : size ≤ screenSize) :
    (readCount size loc : ℤ) = size - loc := by
  have hscreen : (screenSize : ℤ) < 2 ^ 64 := by decide
  rw [readCount, BitVec.toNat_ofInt]
  omega

theorem advance_safe (hstores : StoresWithin s) (hloc : 0 ≤ loc) (hle : loc ≤ size)
    (hsize : size ≤ screenSize) : Safe (s.advance size loc) := by
  rw [State.advance]
  split
  · exact ⟨hstores, fun size' loc' h => by cases h⟩
  · refine ⟨hstores, fun size' loc' h => ?_⟩
    obtain ⟨rfl, rfl⟩ := Phase.body.inj h
    exact ⟨hloc, hle, hsize⟩

theorem takeHeader_safe {data : Bytes} (hstores : StoresWithin s) (hphase : s.phase = .header)
    (hfits : SizeFits (JoyScrHeader.decode data)) : Safe (s.takeHeader video data) := by
  rw [State.takeHeader]
  split
  · exact ⟨hstores, fun size' loc' h => by cases h⟩
  · dsimp only
    split
    · split
      · exact ⟨hstores, fun size' loc' h => by rw [State.setBuffer, hphase] at h; cases h⟩
      · exact ⟨hstores, fun size' loc' h => by rw [State.setBuffer, hphase] at h; cases h⟩
    · rename_i hmode
      split
      · exact ⟨hstores, fun size' loc' h => by rw [State.setBuffer, hphase] at h; cases h⟩
      · rename_i hmax
        obtain ⟨hpos, hmax⟩ := hfits ⟨not_lt.mp hmode, not_lt.mp hmax⟩
        refine ⟨hstores, fun size' loc' h => ?_⟩
        obtain ⟨rfl, rfl⟩ := Phase.body.inj h
        exact ⟨le_rfl, hpos, hmax⟩

theorem takeBody_safe {data : Bytes} (hsafe : Safe s) (hphase : s.phase = .body size loc)
    (hread : data.length ≤ readCount size loc) : Safe (s.takeBody size loc data) := by
  obtain ⟨hloc, hle, hsize⟩ := hsafe.body size loc hphase
  have hcount := readCount_eq hloc hle hsize
  rw [State.takeBody]
  refine advance_safe ?_ (by omega) (by omega) hsize
  intro store hstore
  rcases List.mem_append.mp hstore with hstore | hstore
  · exact hsafe.stores store hstore
  · obtain rfl := List.mem_singleton.mp hstore
    exact ⟨hloc, by dsimp only; omega⟩

theorem step_safe (hsafe : Safe s) (hok : Orderly s a) (hstep : step video s a = some s') :
    Safe s' := by
  cases a with
  | read n =>
      cases hphase : s.phase with
      | header =>
          simp only [step, hphase] at hstep
          split at hstep
          · obtain rfl := Option.some.inj hstep
            exact @takeHeader_safe video (s.consume n) _ hsafe.stores hphase (hok hphase).2
          · cases hstep
      | body size loc =>
          simp only [step, hphase] at hstep
          split at hstep
          · rename_i hreads
            split at hstep
            · obtain rfl := Option.some.inj hstep
              exact ⟨hsafe.stores, fun size' loc' h => by cases h⟩
            · obtain rfl := Option.some.inj hstep
              have hsafe' : Safe (s.consume n) := ⟨hsafe.stores, hsafe.body⟩
              refine takeBody_safe hsafe' hphase ?_
              rw [List.length_take_of_le hreads.2.1]
              exact hreads.1
          · cases hstep
      | ended => simp [step, hphase] at hstep
  | readFails interrupted => exact absurd hok id
  | selectFails interrupted =>
      obtain rfl : interrupted = true := hok
      simp only [step] at hstep
      split at hstep
      · cases hstep
      · obtain rfl := Option.some.inj hstep
        exact hsafe

/-- The first `l` bytes of a frame are in the buffer. -/
def Filled (buf : ℤ → UInt8) (body : Bytes) (l : ℕ) : Prop :=
  ∀ j, ∀ h : j < body.length, j < l → buf j = body[j]

/-- Where a run is in the frames that are not announced yet. -/
inductive At (s : State) : List Frame → Prop
  | header {frames : List Frame} (hphase : s.phase = .header)
      (hstream : s.stream = frames.flatMap Frame.encode) : At s frames
  | body {f : Frame} {frames : List Frame} {l : ℕ} (hphase : s.phase = .body f.body.length l) (hl : l < f.body.length ∨ f.body = [])
      (hstream : s.stream = f.body.drop l ++ frames.flatMap Frame.encode)
      (hmode : (s.buffers s.frame).mode = f.head.mode)
      (hsize : (s.buffers s.frame).size = f.head.size)
      (hfilled : Filled (s.buffers s.frame).buf f.body l) : At s (f :: frames)
  | ended (hphase : s.phase = .ended) (hstream : s.stream = []) : At s []

structure Tracks (frames : List Frame) (s : State) : Prop where
  valid : ∀ f ∈ frames, f.Valid
  split : ∃ done rest, frames = done ++ rest ∧ Announced done s.events ∧
    s.frame = decide (done.length % 2 = 1) ∧ At s rest

theorem length_encode_head (head : JoyScrHeader) : head.encode.length = sizeofJoyScrHeader := by
  simp [JoyScrHeader.encode, sizeofJoyScrHeader]

theorem decode_encode (head : JoyScrHeader) : JoyScrHeader.decode head.encode = head := by
  have hmode := @field32_le32 (le32 joyMagic) 4 (length_le32 _) head.mode
    (le32 head.size ++ le32 head.ref)
  have hsize := @field32_le32 (le32 joyMagic ++ le32 head.mode) 8 (by simp) head.size
    (le32 head.ref)
  have href := @field32_le32 (le32 joyMagic ++ le32 head.mode ++ le32 head.size) 12 (by simp)
    head.ref []
  rw [← List.append_assoc, ← List.append_assoc] at hmode
  rw [← List.append_assoc] at hsize
  rw [List.append_nil] at href
  rw [JoyScrHeader.decode, JoyScrHeader.encode, hmode, hsize, href]

theorem magic_encode (head : JoyScrHeader) : field32 head.encode 0 = joyMagic := by
  have hmagic := @field32_le32 [] 0 rfl joyMagic (le32 head.mode ++ le32 head.size ++ le32 head.ref)
  rw [List.nil_append, ← List.append_assoc, ← List.append_assoc] at hmagic
  exact hmagic

theorem Announced.snoc {done : List Frame} {events : List Event} {e : Event}
    (h : Announced done events) (hshows : Shows done.length f e) :
    Announced (done ++ [f]) (events ++ [e]) := by
  obtain ⟨hlength, hall⟩ := h
  constructor
  · simp [hlength]
  · intro i f' e' hf he
    rcases lt_or_ge i done.length with hi | hi
    · rw [List.getElem?_append_left hi] at hf
      rw [List.getElem?_append_left (by omega)] at he
      exact hall i f' e' hf he
    · rw [List.getElem?_append_right hi, List.getElem?_singleton] at hf
      rw [List.getElem?_append_right (by omega), List.getElem?_singleton] at he
      split at hf
      · obtain rfl : i = done.length := by omega
        rw [if_pos (by omega)] at he
        obtain rfl := Option.some.inj hf
        obtain rfl := Option.some.inj he
        exact hshows
      · cases hf

theorem Filled.store {buf : ℤ → UInt8} {body : Bytes} {l : ℕ} (h : Filled buf body l) (n : ℕ) :
    Filled (storeAt buf l ((body.drop l).take n)) body (l + n) := by
  intro j hj hless
  rw [storeAt]
  rcases lt_or_ge j l with hold | hnew
  · rw [if_neg (by omega)]
    exact h j hj hold
  · have hat : ((j : ℤ) - l).toNat = j - l := by omega
    rw [if_pos (by omega), hat, List.getElem?_take_of_lt (by omega), List.getElem?_drop,
      Nat.add_sub_cancel' hnew, List.getElem?_eq_getElem hj, Option.getD_some]

theorem turn_succ (k : ℕ) : decide ((k + 1) % 2 = 1) = !decide (k % 2 = 1) := by
  rcases Nat.mod_two_eq_zero_or_one k with h | h
  · simp [Nat.add_mod, h]
  · simp [Nat.add_mod, h]

theorem announce_tracks (hvalid : ∀ f ∈ frames, f.Valid) {done rest : List Frame}
    (hframes : frames = done ++ f :: rest) (hdone : Announced done s.events)
    (hturn : s.frame = decide (done.length % 2 = 1))
    (hstream : s.stream = rest.flatMap Frame.encode)
    (hmode : (s.buffers s.frame).mode = f.head.mode)
    (hsize : (s.buffers s.frame).size = f.head.size)
    (hfilled : Filled (s.buffers s.frame).buf f.body f.body.length) :
    Tracks frames s.announce := by
  refine ⟨hvalid, done ++ [f], rest, by simp [hframes], ?_, ?_, .header rfl hstream⟩
  · apply hdone.snoc
    exact ⟨s.buffers s.frame, by rw [← hturn], hmode, hsize, fun j hj => hfilled j hj hj⟩
  · rw [State.announce, List.length_append, List.length_singleton, turn_succ, ← hturn]

theorem header_tracks (hvalid : ∀ f ∈ frames, f.Valid) {done rest : List Frame}
    (hframes : frames = done ++ rest) (hdone : Announced done s.events)
    (hturn : s.frame = decide (done.length % 2 = 1))
    (hstream : s.stream = rest.flatMap Frame.encode)
    (hn : n = min sizeofJoyScrHeader s.stream.length) :
    Tracks frames ((s.consume n).takeHeader video (s.stream.take n)) := by
  cases rest with
  | nil =>
      have hnil : s.stream = [] := hstream
      rw [hnil, State.takeHeader, List.take_nil, if_pos (.inl (by decide))]
      exact ⟨hvalid, done, [], hframes, hdone, hturn, .ended rfl (by simp [State.leave, State.consume, hnil])⟩
  | cons f rest =>
      have hf := hvalid f (by simp [hframes])
      rw [List.flatMap_cons, Frame.encode, List.append_assoc] at hstream
      have hlength := length_encode_head f.head
      obtain rfl : n = sizeofJoyScrHeader := by
        rw [hn, hstream, List.length_append, hlength]
        omega
      have htake : s.stream.take sizeofJoyScrHeader = f.head.encode := by
        rw [hstream, List.take_left' hlength]
      have hdrop : s.stream.drop sizeofJoyScrHeader = f.body ++ rest.flatMap Frame.encode := by
        rw [hstream, List.drop_left' hlength]
      rw [htake, State.takeHeader, if_neg (by simp [hlength, magic_encode])]
      simp only [decode_encode]
      rw [if_neg (not_lt.mpr hf.mode.1), if_neg (not_lt.mpr hf.mode.2)]
      refine ⟨hvalid, done, f :: rest, hframes, hdone, hturn, ?_⟩
      refine @At.body _ f rest 0 ?_ ?_ ?_ ?_ ?_ ?_
      · exact congrArg (Phase.body · 0) hf.size
      · rw [← List.length_eq_zero_iff]
        omega
      · exact hdrop
      · simp [State.setBuffer, State.consume]
      · simp [State.setBuffer, State.consume]
      · intro j _ h
        exact absurd h (Nat.not_lt_zero j)

theorem buffers_store (s : State) (loc : ℤ) (data : Bytes) :
    (s.store loc data).buffers (s.store loc data).frame =
      { s.buffers s.frame with buf := storeAt (s.buffers s.frame).buf loc data } :=
  Function.update_self ..

theorem body_tracks (hvalid : ∀ f ∈ frames, f.Valid) {done rest : List Frame} {l : ℕ}
    (hframes : frames = done ++ f :: rest) (hdone : Announced done s.events)
    (hturn : s.frame = decide (done.length % 2 = 1)) (hn : l + n ≤ f.body.length)
    (hstream : s.stream = f.body.drop l ++ rest.flatMap Frame.encode)
    (hmode : (s.buffers s.frame).mode = f.head.mode)
    (hsize : (s.buffers s.frame).size = f.head.size)
    (hfilled : Filled (s.buffers s.frame).buf f.body l) :
    Tracks frames ((s.consume n).takeBody f.body.length l (s.stream.take n)) := by
  have hle : n ≤ (f.body.drop l).length := by
    rw [List.length_drop]
    omega
  have htake : s.stream.take n = (f.body.drop l).take n := by
    rw [hstream, List.take_append_of_le_length hle]
  have hdrop : s.stream.drop n = f.body.drop (l + n) ++ rest.flatMap Frame.encode := by
    rw [hstream, List.drop_append_of_le_length hle, List.drop_drop]
  have hlength : ((f.body.drop l).take n).length = n := List.length_take_of_le hle
  have hcast : (l : ℤ) + n = ((l + n : ℕ) : ℤ) := (Nat.cast_add l n).symm
  -- the bytes of the frame up to those just read are in its buffer
  have hbuffer := buffers_store (s.consume n) l ((f.body.drop l).take n)
  rw [htake, State.takeBody, hlength, State.advance, hcast]
  generalize ht : (s.consume n).store l ((f.body.drop l).take n) = t at hbuffer ⊢
  have hmode' : (t.buffers t.frame).mode = f.head.mode := by
    rw [hbuffer]
    exact hmode
  have hsize' : (t.buffers t.frame).size = f.head.size := by
    rw [hbuffer]
    exact hsize
  have hfilled' : Filled (t.buffers t.frame).buf f.body (l + n) := by
    rw [hbuffer]
    exact hfilled.store n
  have hevents : Announced done t.events := by
    rw [← ht]
    exact hdone
  have hturn' : t.frame = decide (done.length % 2 = 1) := by
    rw [← ht]
    exact hturn
  have hstream' : t.stream = f.body.drop (l + n) ++ rest.flatMap Frame.encode := by
    rw [← ht]
    exact hdrop
  split
  · rename_i hall
    have hall : l + n = f.body.length := by exact_mod_cast hall
    rw [hall, List.drop_length, List.nil_append] at hstream'
    rw [hall] at hfilled'
    exact announce_tracks hvalid hframes hevents hturn' hstream' hmode' hsize' hfilled'
  · rename_i hmore
    have hmore : l + n ≠ f.body.length := by exact_mod_cast hmore
    refine ⟨hvalid, done, f :: rest, hframes, hevents, hturn', ?_⟩
    exact .body rfl (.inl (by omega)) hstream' hmode' hsize' hfilled'

theorem read_tracks (h : Tracks frames s)
    (hbound : ∀ k l : ℕ, s.phase = .body k l → l ≤ k) (hok : Orderly s (.read n))
    (hstep : step video s (.read n) = some s') : Tracks frames s' := by
  obtain ⟨hvalid, done, rest, hframes, hdone, hturn, hat⟩ := h
  cases hat with
  | header hphase hstream =>
      simp only [step, hphase] at hstep
      split at hstep
      · obtain rfl := Option.some.inj hstep
        exact header_tracks hvalid hframes hdone hturn hstream (hok hphase).1
      · cases hstep
  | @body f rest l hphase hl hstream hmode hsize hfilled =>
      have hf := hvalid f (by simp [hframes])
      have hle : l ≤ f.body.length := hbound _ _ hphase
      have hcount : (readCount f.body.length l : ℤ) = f.body.length - l :=
        readCount_eq (Int.natCast_nonneg l) (by exact_mod_cast hle) (by exact_mod_cast hf.fits)
      simp only [step, hphase] at hstep
      split at hstep
      · rename_i hreads
        obtain ⟨hasked, -, hzero⟩ := hreads
        split at hstep
        · rename_i hn
          obtain rfl := Option.some.inj hstep
          have hall : l = f.body.length := by
            rcases hzero hn with hnone | hnil
            · omega
            · have hlength := congrArg List.length (hstream.symm.trans hnil)
              simp only [List.length_append, List.length_drop, List.length_nil] at hlength
              omega
          rw [hall, List.drop_length] at hstream
          rw [hall] at hfilled
          exact announce_tracks hvalid hframes hdone hturn hstream hmode hsize hfilled
        · obtain rfl := Option.some.inj hstep
          exact body_tracks hvalid hframes hdone hturn (by omega) hstream hmode hsize hfilled
      · cases hstep
  | ended hphase hstream => simp [step, hphase] at hstep

theorem step_tracks (h : Tracks frames s) (hsafe : Safe s) (hok : Orderly s a)
    (hstep : step video s a = some s') : Tracks frames s' := by
  cases a with
  | read n =>
      refine read_tracks h (fun k l hphase => ?_) hok hstep
      exact_mod_cast (hsafe.body k l hphase).2.1
  | readFails interrupted => exact absurd hok id
  | selectFails interrupted =>
      obtain rfl : interrupted = true := hok
      simp only [step] at hstep
      split at hstep
      · cases hstep
      · obtain rfl := Option.some.inj hstep
        exact h

theorem start_tracks (hvalid : ∀ f ∈ frames, f.Valid) :
    Tracks frames (start (frames.flatMap Frame.encode)) :=
  ⟨hvalid, [], frames, rfl, ⟨rfl, by simp⟩, rfl, .header rfl rfl⟩

theorem flatMap_encode_eq_nil {rest : List Frame} (h : rest.flatMap Frame.encode = []) :
    rest = [] := by
  cases rest with
  | nil => rfl
  | cons f rest =>
      have hlength := congrArg List.length h
      simp [Frame.encode, length_encode_head, sizeofJoyScrHeader] at hlength

theorem At.goesOn {rest : List Frame} (hat : At s rest) (hvalid : ∀ f ∈ rest, f.Valid)
    (hmore : s.stream ≠ []) : ∃ n, Orderly s (.read n) ∧ (step video s (.read n)).isSome := by
  have hlength := List.length_pos_iff.mpr hmore
  cases hat with
  | header hphase hstream =>
      refine ⟨min sizeofJoyScrHeader s.stream.length, fun _ => ⟨rfl, ?_⟩, ?_⟩
      · cases rest with
        | nil => exact absurd hstream hmore
        | cons f rest =>
            have hf := hvalid f List.mem_cons_self
            have hhead := length_encode_head f.head
            rw [List.flatMap_cons, Frame.encode, List.append_assoc] at hstream
            have hmin : min sizeofJoyScrHeader s.stream.length = sizeofJoyScrHeader := by
              rw [hstream, List.length_append, hhead]
              omega
            rw [hmin, hstream, List.take_left' hhead, decode_encode]
            intro _
            have hfits := hf.fits
            rw [hf.size]
            constructor
            · exact Int.natCast_nonneg _
            · exact_mod_cast hfits
      · simp only [step, hphase]
        rw [if_pos, Option.isSome_some]
        refine ⟨by omega, by omega, fun hzero => ?_⟩
        simp only [sizeofJoyScrHeader] at hzero
        omega
  | @body f rest l hphase hl hstream hmode hsize hfilled =>
      refine ⟨min (readCount f.body.length l) s.stream.length, fun h => ?_, ?_⟩
      · rw [hphase] at h
        cases h
      · simp only [step, hphase]
        rw [if_pos]
        · split
          · rfl
          · rfl
        · exact ⟨by omega, by omega, fun hzero => .inl (by omega)⟩
  | ended hphase hstream => exact absurd hstream hmore

theorem Tracks.delivered (h : Tracks frames s) : Delivered video frames s := by
  obtain ⟨hvalid, done, rest, rfl, hdone, -, hat⟩ := h
  constructor
  · exact ⟨done.length, by simp, by rwa [List.take_left]⟩
  · intro hempty hphase
    have hnil : rest = [] := by
      cases hat with
      | header _ hstream => exact flatMap_encode_eq_nil (hstream.symm.trans hempty)
      | body hbody => exact absurd hbody (hphase _ _)
      | ended => rfl
    rwa [hnil, List.append_nil]
  · exact hat.goesOn fun f hf => hvalid f (List.mem_append_right _ hf)

/-- In an orderly run the stores stay inside of the buffers, and the frames of a stream of frames
are announced as they are. -/
theorem frames_delivered (video : Bool) (stream : Bytes) {actions : List Action} {s : State}
    (hrun : Reaches (step video) Orderly (start stream) actions s) :
    StoresWithin s ∧ ∀ frames : List Frame, (∀ f ∈ frames, f.Valid) →
      stream = frames.flatMap Frame.encode → Delivered video frames s := by
  have hstart : Safe (start stream) := by
    refine ⟨fun store hstore => absurd hstore List.not_mem_nil, fun size loc h => ?_⟩
    cases h
  constructor
  · exact (hrun.invariant hstart fun _ _ _ => step_safe).stores
  · rintro frames hvalid rfl
    let Both (s : State) : Prop := Safe s ∧ Tracks frames s
    have hboth : Both s := by
      apply hrun.invariant ⟨hstart, start_tracks hvalid⟩
      rintro s a s' ⟨hsafe, htracks⟩ hok hstep
      exact ⟨step_safe hsafe hok hstep, step_tracks htracks hsafe hok hstep⟩
    exact hboth.2.delivered

/-- A screen of four bytes. -/
def fourBytes : Frame := ⟨⟨3, 4, 0⟩, [10, 20, 30, 40]⟩

def oneByte : Frame := ⟨⟨0, 1, 0⟩, [50]⟩

/-- Two frames, the first in two pieces. -/
theorem frames_delivered_two :
    ∃ s, Reaches (step true) Orderly (start ([fourBytes, oneByte].flatMap Frame.encode))
        [.read 16, .read 3, .selectFails true, .read 1, .read 16, .read 1] s ∧
      s.stream = [] ∧ s.phase = .header ∧ s.events.length = 2 ∧
      (StoresWithin s ∧ ∀ frames : List Frame, (∀ f ∈ frames, f.Valid) →
        [fourBytes, oneByte].flatMap Frame.encode = frames.flatMap Frame.encode →
          Delivered true frames s) := by
  have hfound : ∃ s, Reaches (step true) Orderly
      (start ([fourBytes, oneByte].flatMap Frame.encode))
      [.read 16, .read 3, .selectFails true, .read 1, .read 16, .read 1] s ∧
      decide (s.stream = [] ∧ s.phase = .header ∧ s.events.length = 2) = true :=
    exists_reaches (by decide)
  obtain ⟨s, hrun, hend⟩ := hfound
  obtain ⟨hstream, hphase, hevents⟩ := of_decide_eq_true hend
  exact ⟨s, hrun, hstream, hphase, hevents, frames_delivered true _ hrun⟩

/-- A read that is interrupted before the first byte of a frame: the frame is stored from the
byte before the buffer on, and is not announced. -/
theorem interrupted_read_before_buffer :
    fourBytes.Valid ∧ ∃ s, Reaches (step true) anyStep (start fourBytes.encode)
        [.read 16, .readFails true, .read 4] s ∧
      s.stores = [⟨false, -1, 4⟩] ∧ s.stream = [] ∧ s.events.length = 0 ∧ ¬StoresWithin s := by
  refine ⟨⟨by decide, by decide, by decide⟩, ?_⟩
  have hfound : ∃ s, Reaches (step true) anyStep (start fourBytes.encode)
      [.read 16, .readFails true, .read 4] s ∧
      decide (s.stores = [⟨false, -1, 4⟩] ∧ s.stream = [] ∧ s.events.length = 0) = true :=
    exists_reaches (by decide)
  obtain ⟨s, hrun, hend⟩ := hfound
  obtain ⟨hstores, hstream, hevents⟩ := of_decide_eq_true hend
  refine ⟨s, hrun, hstores, hstream, hevents, fun hwithin => ?_⟩
  have hfirst := (hwithin ⟨false, -1, 4⟩ (by simp [hstores])).1
  exact absurd hfirst (by decide)

end PsplinkUsb.RemoteJoy.FrameDelivery
