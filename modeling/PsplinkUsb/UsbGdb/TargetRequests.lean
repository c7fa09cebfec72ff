import PsplinkUsb.UsbGdb.MemoryPackets
import PsplinkUsb.UsbGdb.ReplyBounds

namespace PsplinkUsb.UsbGdb.TargetRequests

open PsplinkUsb.Library.Ascii
open PsplinkUsb.Library.CString
open PsplinkUsb.Library.Numerals (padded isAlnum_of_mem_padded)
open PsplinkUsb.Library.Patch
open PsplinkUsb.Psplink.BreakpointTable
open PsplinkUsb.Psplink.ProgramMemory
open PsplinkUsb.UsbGdb.Packets hiding plus minus
open PsplinkUsb.UsbGdb.StubMemory
open PsplinkUsb.UsbGdb.Stub
open PsplinkUsb.UsbGdb.PacketData
open PsplinkUsb.UsbGdb.MemoryPackets
open PsplinkUsb.UsbGdb.RegisterPackets
open PsplinkUsb.UsbGdb.ReplyBounds

/-- The stopped program as its debugger sees it. -/
structure Target where
  mem : ByteMemory
  bps : Slot → Breakpoint
  hw : HwDebugEnv
  started : Bool
  selected : Word
  /-- The threads of a listing that are still to come. -/
  unlisted : List Word

inductive Request where
  | stopReason
  | readMemory (addr : Word) (n : ℕ)
  | writeMemory (addr : Word) (data : Bytes)
  | readRegisters
  | writeRegisters (data : Bytes)
  | select (thread : Word)
  | currentThread
  | firstThread
  | nextThread
  | setBreakpoint (hardware : Bool) (addr : Word)
  | deleteBreakpoint (addr : Word)
  | unknown

/-- All the bytes from an address on may be read and written. -/
def accepted (user : Partition) (addr : Word) (n : ℕ) : Bool :=
  (addresses addr n).all (valid user)

/-- The bytes of a context that a debugger sees as registers. -/
def registersOf (context : Bytes) : Bytes := (context.drop offsetR).take 360

def stopReply (env : Env) (sigval : UInt8) (m : ByteMemory) : Bytes :=
  ascii "T" ++ hexText [sigval] ++
    ascii "25:" ++ hexText (load m (addresses (env.ctx.field offsetEpc) 4)) ++
    ascii ";1e:" ++ hexText (load m (addresses (env.ctx.field (offsetR + 4 * 30)) 4)) ++
    ascii ";1d:" ++ hexText (load m (addresses (env.ctx.field (offsetR + 4 * 29)) 4)) ++
    ascii ";thread:" ++ lowerHexWord (loadWord m (env.ctx.field offsetThid)) ++ ascii ";"

namespace Target

def debug (t : Target) : DebugState :=
  { bps := t.bps, mem := fun c => loadWord t.mem c, hw := t.hw }

def update (t : Target) (address : Word) (d : DebugState) : Target :=
  { t with bps := d.bps, hw := d.hw, mem := storeWord t.mem address (lw d.mem address) }

/-- The answer to a request, and the target after it. -/
def step (env : Env) (k : Kernel) (sigval : UInt8) (t : Target) : Request → Bytes × Target
  | .stopReason => (stopReply env sigval t.mem, t)
  | .readMemory addr n =>
      (if accepted env.user addr n then hexText (load t.mem (addresses addr n)) else ascii "E03", t)
  | .writeMemory addr data =>
      (ascii (if accepted env.user addr data.length && (data ≠ [] || addr ≠ 0) then "OK"
          else "E03"),
        { t with
          mem := applyAll (((reach env.user addr data.length).map cell).zip data) t.mem })
  | .readRegisters =>
      if t.selected = 0 ∨ t.selected = loadWord t.mem (env.ctx.field offsetThid) then
        (hexText (load t.mem (registers env.ctx)), t)
      else
        match k.fullThreadContext t.selected with
        | some context => (hexText (registersOf context.1), t)
        | none => (ascii "E03", t)
  | .writeRegisters data =>
      (ascii "OK",
        if t.selected ≠ 0 ∧ t.selected = loadWord t.mem (env.ctx.field offsetThid) then
          { t with mem := applyAll (((registers env.ctx).map cell).zip data) t.mem }
        else t)
  | .select thread => (ascii "OK", { t with selected := thread })
  | .currentThread =>
      (ascii "QC" ++ hexWord (loadWord t.mem (env.ctx.field offsetThid)), t)
  | .firstThread =>
      match psplinkReferThreadsByModule k env.uid 20 with
      | [] => ([], { t with unlisted := [] })
      | thread :: threads => (ascii "m" ++ hexWord thread, { t with unlisted := threads })
  | .nextThread =>
      match t.unlisted with
      | [] => (ascii "l", t)
      | thread :: threads => (ascii "m" ++ hexWord thread, { t with unlisted := threads })
  | .setBreakpoint hardware addr =>
      let (slot, d) := debugSetBP addr (if hardware then debugBpHardware else 0) 0 t.debug
      (ascii (if slot.isSome then "OK" else "E03"), t.update addr d)
  | .deleteBreakpoint addr =>
      let (ret, d) := debugDeleteBP addr t.debug
      (ascii (if ret ≠ 0 then "OK" else "EO3"), t.update addr d)
  | .unknown => ([], t)

end Target

/-- The letters that packets begin with. -/
def letters : Bytes := ascii "?cDgGmXMsHqZzkr"

/-- The packets for a request. -/
inductive Asks : Request → Bytes → Prop
  | stopReason : Asks .stopReason (ascii "?")
  | readMemory {addr : Word} {n : ℕ} {as ls : Bytes} (hn : n < 1024)
      (ha : HexNumber as addr.toNat) (hl : HexNumber ls n) :
      Asks (.readMemory addr n) (0x6D :: header as ls [])
  | writeHex {addr : Word} {data as ls digits : Bytes} (ha : HexNumber as addr.toNat)
      (hl : HexNumber ls data.length) (h : HexOf digits data) :
      Asks (.writeMemory addr data) (0x4D :: header as ls (colon :: digits))
  | writeBinary {addr : Word} {data as ls : Bytes} (ha : HexNumber as addr.toNat)
      (hl : HexNumber ls data.length) :
      Asks (.writeMemory addr data) (0x58 :: header as ls (colon :: escaped data))
  | readRegisters : Asks .readRegisters (ascii "g")
  | writeRegisters {data digits : Bytes} (hlength : data.length = 360) (h : HexOf digits data) :
      Asks (.writeRegisters data) (0x47 :: digits)
  | select {thread : Word} {digits : Bytes} (h : HexNumber digits thread.toNat) :
      Asks (.select thread) (0x48 :: 0x67 :: digits)
  | currentThread : Asks .currentThread (ascii "qC")
  | firstThread : Asks .firstThread (ascii "qfThreadInfo")
  | nextThread : Asks .nextThread (ascii "qsThreadInfo")
  | setBreakpoint {hardware : Bool} {addr : Word} {as ls : Bytes} {n : ℕ}
      (ha : HexNumber as addr.toNat) (hl : HexNumber ls n) :
      Asks (.setBreakpoint hardware addr)
        (0x5A :: (if hardware then 0x31 else 0x30) :: comma :: header as ls [])
  | deleteBreakpoint {hardware : Bool} {addr : Word} {as ls : Bytes} {n : ℕ}
      (ha : HexNumber as addr.toNat) (hl : HexNumber ls n) :
      Asks (.deleteBreakpoint addr)
        (0x7A :: (if hardware then 0x31 else 0x30) :: comma :: header as ls [])
  | unknown {letter : UInt8} {more : Bytes} (hletter : letter ∉ letters)
      (hstart : letter &&& 0x7F ≠ dollar) : Asks .unknown (letter :: more)

/-- What a debugger can see of the state of the stub. -/
def target (s : State) : Target where
  mem := s.mem
  bps := s.bps
  hw := s.hw
  started := s.started
  selected := s.thid
  unlisted := s.query.threads.drop s.query.threadLoc

/-- One turn of the loop. The signal is that of the exception, whatever has been written to the
context since. -/
def turn (env : Env) (k : Kernel) (sigval : UInt8) (s : State) (input : Bytes) : Outcome :=
  if input.getD 0 0 = 0x3F then answered (buildTrapCmd env s.mem sigval, s)
  else handlePacket env k s input

/-- The packet is replied to with the answer, and the state is that of the target. -/
def Answers (env : Env) (k : Kernel) (sigval : UInt8) (s : State) (request : Request)
    (input : Bytes) : Prop :=
  ∃ r s', turn env k sigval s input = .reply r s' ∧
    r.text = ((target s).step env k sigval request).1 ∧
    target s' = ((target s).step env k sigval request).2

section

variable {env : Env} {k : Kernel} {sigval : UInt8} {s : State} {m : ByteMemory} {user : Partition}
  {addr : Word} {data as ls digits more payload : Bytes} {n : ℕ} {letter : UInt8}
  {request : Request}

theorem turn_eq (h : letter ≠ 0x3F) (rest : Bytes) :
    turn env k sigval s (letter :: rest) = handlePacket env k s (letter :: rest) := if_neg h

theorem accepted_iff : accepted user addr n = true ↔ ∀ a ∈ addresses addr n, valid user a = true :=
  List.all_eq_true

theorem length_reach_iff : (reach user addr n).length = n ↔ accepted user addr n = true :=
  length_reach_eq_iff.trans accepted_iff.symm

theorem trapFields_valid {fields : List (UInt8 × Word)}
    (hvalid : ∀ f ∈ fields, ∀ a ∈ addresses f.2 4, valid user a = true) :
    trapFields user m fields =
      { text := fields.flatMap fun f : UInt8 × Word =>
          hexchar (f.1 >>> 4) :: hexchar f.1 :: colon ::
            (hexText (load m (addresses f.2 4)) ++ [semicolon])
        done := true } := by
  induction fields with
  | nil => rfl
  | cons field fields ih =>
      obtain ⟨hfield, hfields⟩ := List.forall_mem_cons.mp hvalid
      rw [trapFields, mem2hex_of_valid hfield, ih hfields]
      simp

theorem buildTrapCmd_eq (env : Env) (m : ByteMemory) (sigval : UInt8) :
    buildTrapCmd env m sigval = .ofText (stopReply env sigval m) := by
  have hvalid : ∀ f ∈ [((37 : UInt8), env.ctx.field offsetEpc),
      (30, env.ctx.field (offsetR + 4 * 30)), (29, env.ctx.field (offsetR + 4 * 29))],
      ∀ a ∈ addresses f.2 4, valid env.user a = true := by
    intro f hf
    simp only [List.mem_cons, List.not_mem_nil, or_false] at hf
    rcases hf with rfl | rfl | rfl
    · exact valid_field env.user env.ctx (by decide)
    · exact valid_field env.user env.ctx (by decide)
    · exact valid_field env.user env.ctx (by decide)
  have hstart : ascii "T" = [0x54] := by decide
  have hepc : ascii "25:" = [hexchar ((37 : UInt8) >>> 4), hexchar 37, colon] := by decide
  have hframe : ascii ";1e:" = [semicolon, hexchar ((30 : UInt8) >>> 4), hexchar 30, colon] := by
    decide
  have hstack : ascii ";1d:" = [semicolon, hexchar ((29 : UInt8) >>> 4), hexchar 29, colon] := by
    decide
  have hthread : ascii ";thread:" = semicolon :: ascii "thread:" := by decide
  have hend : ascii ";" = [semicolon] := by decide
  have hsigval : hexText [sigval] = [hexchar (sigval >>> 4), hexchar sigval] := rfl
  rw [buildTrapCmd, trapFields_valid hvalid, stopReply, hstart, hepc, hframe, hstack, hthread,
    hend, hsigval]
  simp

/-- No answer has a byte in it that would end it, or the packet. -/
def Clear (text : Bytes) : Prop := ∀ c ∈ text, c ≠ 0 ∧ c ≠ sharp

theorem Clear.append {text text' : Bytes} (h : Clear text) (h' : Clear text') :
    Clear (text ++ text') := by
  intro c hc
  exact (List.mem_append.mp hc).elim (h c) (h' c)

theorem clear_hexText (data : Bytes) : Clear (hexText data) := by
  have hall : ∀ n : Fin 256, hexchar (UInt8.ofFin n) ≠ 0 ∧ hexchar (UInt8.ofFin n) ≠ sharp := by
    decide +kernel
  intro c hc
  obtain ⟨b, -, hb⟩ := List.mem_flatMap.mp hc
  rcases List.mem_cons.mp hb with rfl | hb
  · exact hall (b >>> 4).toFin
  · rw [List.mem_singleton.mp hb]
    exact hall b.toFin

theorem isAlnum_clear {c : UInt8} (h : isAlnum c = true) :
    (c ≠ 0 ∧ c ≠ sharp) ∧ toLower c ≠ 0 ∧ toLower c ≠ sharp := by
  have hall : ∀ n : Fin 256, isAlnum (UInt8.ofFin n) = true →
      (UInt8.ofFin n ≠ 0 ∧ UInt8.ofFin n ≠ sharp) ∧
        toLower (UInt8.ofFin n) ≠ 0 ∧ toLower (UInt8.ofFin n) ≠ sharp := by
    decide +kernel
  exact hall c.toFin h

theorem clear_hexWord (w : Word) : Clear (hexWord w) ∧ Clear (lowerHexWord w) := by
  have halnum : ∀ c ∈ hexWord w, isAlnum c = true := fun c hc =>
    isAlnum_of_mem_padded (by decide) (by decide) 8 hc
  refine ⟨fun c hc => (isAlnum_clear (halnum c hc)).1, fun c hc => ?_⟩
  obtain ⟨d, hd, rfl⟩ := List.mem_map.mp hc
  exact (isAlnum_clear (halnum d hd)).2

theorem clear_stopReply (env : Env) (sigval : UInt8) (m : ByteMemory) :
    Clear (stopReply env sigval m) := by
  have htext : ∀ text ∈ [ascii "T", ascii "25:", ascii ";1e:", ascii ";1d:", ascii ";thread:",
      ascii ";"], ∀ c ∈ text, c ≠ 0 ∧ c ≠ sharp := by decide
  simp only [List.forall_mem_cons, List.not_mem_nil] at htext
  obtain ⟨hstart, hepc, hframe, hstack, hthread, hend, -⟩ := htext
  exact (((((((((Clear.append hstart (clear_hexText _)).append hepc).append
    (clear_hexText _)).append hframe).append (clear_hexText _)).append hstack).append
    (clear_hexText _)).append hthread).append (clear_hexWord _).2).append hend

theorem clear_either {c : Prop} [Decidable c] {a b : String}
    (ha : ∀ ch ∈ ascii a, ch ≠ 0 ∧ ch ≠ sharp) (hb : ∀ ch ∈ ascii b, ch ≠ 0 ∧ ch ≠ sharp) :
    Clear (ascii (if c then a else b)) := by
  split
  · exact ha
  · exact hb

theorem clear_step (t : Target) (request : Request) :
    Clear (t.step env k sigval request).1 := by
  have hm : ∀ thread, Clear (ascii "m" ++ hexWord thread) := fun thread =>
    Clear.append (by decide : ∀ c ∈ ascii "m", c ≠ 0 ∧ c ≠ sharp) (clear_hexWord _).1
  have hnil : Clear [] := fun c hc => absurd hc List.not_mem_nil
  have hok : ∀ c ∈ ascii "OK", c ≠ 0 ∧ c ≠ sharp := by decide
  have hfailed : ∀ c ∈ ascii "E03", c ≠ 0 ∧ c ≠ sharp := by decide
  cases request with
  | stopReason => exact clear_stopReply _ _ _
  | readMemory addr n =>
      rw [Target.step]
      split
      · exact clear_hexText _
      · exact hfailed
  | writeMemory addr data => exact clear_either hok hfailed
  | readRegisters =>
      rw [Target.step]
      split
      · exact clear_hexText _
      · split
        · exact clear_hexText _
        · exact hfailed
  | writeRegisters data => exact hok
  | select thread => exact hok
  | currentThread =>
      exact Clear.append (by decide : ∀ c ∈ ascii "QC", c ≠ 0 ∧ c ≠ sharp) (clear_hexWord _).1
  | firstThread =>
      rw [Target.step]
      split
      · exact hnil
      · exact hm _
  | nextThread =>
      rw [Target.step]
      split
      · exact (by decide : ∀ c ∈ ascii "l", c ≠ 0 ∧ c ≠ sharp)
      · exact hm _
  | setBreakpoint hardware addr => exact clear_either hok hfailed
  | deleteBreakpoint addr => exact clear_either hok (by decide)
  | unknown => exact hnil

theorem length_load (m : ByteMemory) (addr : Word) (n : ℕ) :
    (hexText (load m (addresses addr n))).length = 2 * n := by
  rw [length_hexText, load, List.length_map, length_addresses]

theorem length_stopReply_le (env : Env) (sigval : UInt8) (m : ByteMemory) :
    (stopReply env sigval m).length < maxBuf := by
  have hthread := length_hexWord_le (loadWord m (env.ctx.field offsetThid))
  have htext : (ascii "T").length = 1 ∧ (ascii "25:").length = 3 ∧ (ascii ";1e:").length = 4 ∧
      (ascii ";1d:").length = 4 ∧ (ascii ";thread:").length = 8 ∧ (ascii ";").length = 1 := by
    decide
  have hsigval : (hexText [sigval]).length = 2 := rfl
  simp only [stopReply, List.length_append, length_load, lowerHexWord, List.length_map, htext,
    hsigval, maxBuf]
  omega

theorem length_step_lt (hasks : Asks request payload) (t : Target) :
    (t.step env k sigval request).1.length < maxBuf := by
  have hm : ∀ thread, (ascii "m" ++ hexWord thread).length < maxBuf := by
    intro thread
    have hthread := length_hexWord_le thread
    have hletter : (ascii "m").length = 1 := by decide
    rw [List.length_append, hletter, maxBuf]
    omega
  have hregisters : ∀ context : Bytes, (hexText (registersOf context)).length < maxBuf := by
    intro context
    rw [length_hexText, registersOf, List.length_take, maxBuf]
    omega
  have heither : ∀ (c : Prop) [Decidable c] (a b : String), (ascii a).length < maxBuf →
      (ascii b).length < maxBuf → (ascii (if c then a else b)).length < maxBuf := by
    intro c _ a b ha hb
    split
    · exact ha
    · exact hb
  cases hasks with
  | stopReason => exact length_stopReply_le _ _ _
  | @readMemory addr n as ls hn ha hl =>
      rw [Target.step]
      split
      · rw [length_load, maxBuf]
        omega
      · exact (by decide : (ascii "E03").length < maxBuf)
  | writeHex ha hl h => exact heither _ _ _ (by decide) (by decide)
  | writeBinary ha hl => exact heither _ _ _ (by decide) (by decide)
  | readRegisters =>
      rw [Target.step]
      split
      · rw [registers, length_load, maxBuf]
        omega
      · split
        · exact hregisters _
        · exact (by decide : (ascii "E03").length < maxBuf)
  | writeRegisters hlength h => exact (by decide : (ascii "OK").length < maxBuf)
  | select h => exact (by decide : (ascii "OK").length < maxBuf)
  | currentThread =>
      have hthread := length_hexWord_le (loadWord t.mem (env.ctx.field offsetThid))
      have hletters : (ascii "QC").length = 2 := by decide
      rw [Target.step, List.length_append, hletters, maxBuf]
      omega
  | firstThread =>
      rw [Target.step]
      split
      · exact (by decide : 0 < maxBuf)
      · exact hm _
  | nextThread =>
      rw [Target.step]
      split
      · exact (by decide : (ascii "l").length < maxBuf)
      · exact hm _
  | setBreakpoint ha hl => exact heither _ _ _ (by decide) (by decide)
  | deleteBreakpoint ha hl => exact heither _ _ _ (by decide) (by decide)
  | unknown hletter hstart => exact (by decide : 0 < maxBuf)

theorem text_clear {text : Bytes} (h : Clear text) : (Reply.ofText text).opened.text = text :=
  text_ofText fun hmem => (h 0 hmem).1 rfl

theorem answers_of_eq {input : Bytes} {text : Bytes} {s' : State}
    (h : turn env k sigval s input = .reply (Reply.ofText text).opened s')
    (htext : text = ((target s).step env k sigval request).1)
    (hstate : target s' = ((target s).step env k sigval request).2) :
    Answers env k sigval s request input := by
  refine ⟨_, s', h, ?_, hstate⟩
  have hclear : Clear text := htext ▸ clear_step (target s) request
  rw [text_clear hclear, htext]

theorem answers_stopReason (s : State) (more : Bytes) :
    Answers env k sigval s .stopReason (ascii "?" ++ 0 :: more) := by
  have hascii : ascii "?" = [0x3F] := by decide
  have hturn : turn env k sigval s (ascii "?" ++ 0 :: more) =
      .reply (Reply.ofText (stopReply env sigval s.mem)).opened s := by
    rw [hascii, List.singleton_append, turn, List.getD_cons_zero, if_pos rfl, buildTrapCmd_eq]
    rfl
  exact answers_of_eq hturn rfl rfl

theorem header_append (rest more : Bytes) :
    header as ls rest ++ more = header as ls (rest ++ more) := by
  simp [header]

theorem answers_readMemory (s : State) (hn : n < 1024) (ha : HexNumber as addr.toNat)
    (hl : HexNumber ls n) (more : Bytes) :
    Answers env k sigval s (.readMemory addr n) (0x6D :: header as ls [] ++ 0 :: more) := by
  obtain ⟨reads, hnumbers⟩ := twoNumbers_header ha hl (not_hex_of_eq (c := 0) (by decide) more)
  have hturn : turn env k sigval s (0x6D :: header as ls [] ++ 0 :: more) =
      answered (readMemory env.user s.mem (header as ls (0 :: more)), s) := by
    rw [List.cons_append, header_append, List.nil_append, turn_eq (by decide), handlePacket_m]
  rw [readMemory, hnumbers] at hturn
  dsimp only at hturn
  rw [ofNat_toInt_toNat (by omega), mem2hex_eq] at hturn
  cases haccepted : accepted env.user addr n with
  | true =>
      have hreach : (reach env.user addr n).length = n := length_reach_iff.mpr haccepted
      have hall := reach_eq_addresses (accepted_iff.mp haccepted)
      rw [if_pos (decide_eq_true hreach), hall] at hturn
      exact answers_of_eq hturn (if_pos haccepted).symm rfl
  | false =>
      have hreach : ¬(reach env.user addr n).length = n := fun h => by
        rw [length_reach_iff.mp h] at haccepted
        cases haccepted
      have hrefused : (target s).step env k sigval (.readMemory addr n) =
          (ascii "E03", target s) := by
        rw [Target.step, haccepted]
        rfl
      rw [if_neg (by simpa using hreach)] at hturn
      refine ⟨_, s, hturn, ?_, by rw [hrefused]⟩
      rw [hrefused]
      exact cstr_append_zero (by decide) []

theorem writeMemory_eq (hsmall : data.length < 2 ^ 31) (ha : HexNumber as addr.toNat)
    (hl : HexNumber ls data.length) {binary : Bool} {buf : Bytes}
    (hdecode : decode binary buf data.length = data) (m : ByteMemory) :
    (writeMemory user binary (header as ls (colon :: buf)) m).reply =
        .ofText (ascii (if accepted user addr data.length && (data ≠ [] || addr ≠ 0) then "OK"
          else "E03")) ∧
      (writeMemory user binary (header as ls (colon :: buf)) m).mem =
        applyAll (((reach user addr data.length).map cell).zip data) m := by
  obtain ⟨reads, hnumbers⟩ := twoNumbers_header ha hl (not_hex_of_eq (c := colon) (by decide) buf)
  have hret : (if (reach user addr data.length).length = data.length then
      addr + BitVec.ofNat 32 data.length else 0) ≠ 0 ↔
      (accepted user addr data.length && (data ≠ [] || addr ≠ 0)) = true := by
    rw [Bool.and_eq_true]
    by_cases haccepted : accepted user addr data.length = true
    · rw [if_pos (length_reach_iff.mpr haccepted), and_iff_right haccepted]
      by_cases hnil : data = []
      · simp [hnil]
      · have hend := end_ne_zero (List.length_pos_of_ne_nil hnil) (accepted_iff.mp haccepted)
        exact iff_of_true hend (by simp [hnil])
    · rw [if_neg (mt length_reach_iff.mp haccepted)]
      exact iff_of_false (not_not_intro rfl) fun h => haccepted h.1
  rw [writeMemory, hnumbers]
  simp only [List.getD_cons_zero, if_true, List.drop_succ_cons, List.drop_zero,
    ofNat_toInt_toNat hsmall, hex2mem_eq, hdecode]
  exact ⟨by simp only [hret], trivial⟩

theorem answers_writeHex (s : State) (hsmall : data.length < 2 ^ 31)
    (ha : HexNumber as addr.toNat) (hl : HexNumber ls data.length) (h : HexOf digits data)
    (more : Bytes) : Answers env k sigval s (.writeMemory addr data)
      (0x4D :: header as ls (colon :: digits) ++ 0 :: more) := by
  obtain ⟨hreply, hmem⟩ :=
    @writeMemory_eq env.user addr data as ls hsmall ha hl _ _ (decode_hexOf h (0 :: more)) s.mem
  have hturn : turn env k sigval s (0x4D :: header as ls (colon :: digits) ++ 0 :: more) =
      answered ((writeMemory env.user false (header as ls (colon :: (digits ++ 0 :: more)))
        s.mem).reply, { s with mem := (writeMemory env.user false
          (header as ls (colon :: (digits ++ 0 :: more))) s.mem).mem }) := by
    rw [List.cons_append, header_append, List.cons_append, turn_eq (by decide), handlePacket_M]
  rw [hreply, hmem] at hturn
  exact answers_of_eq hturn rfl rfl

theorem answers_writeBinary (s : State) (hsmall : data.length < 2 ^ 31)
    (ha : HexNumber as addr.toNat) (hl : HexNumber ls data.length) (more : Bytes) :
    Answers env k sigval s (.writeMemory addr data)
      (0x58 :: header as ls (colon :: escaped data) ++ 0 :: more) := by
  obtain ⟨hreply, hmem⟩ := @writeMemory_eq env.user addr data as ls hsmall ha hl _ _
    (decode_escaped data (0 :: more)) s.mem
  have hturn : turn env k sigval s (0x58 :: header as ls (colon :: escaped data) ++ 0 :: more) =
      answered ((writeMemory env.user true (header as ls (colon :: (escaped data ++ 0 :: more)))
        s.mem).reply, { s with mem := (writeMemory env.user true
          (header as ls (colon :: (escaped data ++ 0 :: more))) s.mem).mem }) := by
    rw [List.cons_append, header_append, List.cons_append, turn_eq (by decide), handlePacket_X]
  rw [hreply, hmem] at hturn
  exact answers_of_eq hturn rfl rfl

theorem load_overlay (thctx : Context) {context : Bytes} (hlength : context.length = contextSize)
    (m : ByteMemory) :
    load (applyAll (((addresses thctx.addr contextSize).map cell).zip context) m)
      (registers thctx) = registersOf context := by
  have hvalid : ∀ a ∈ addresses thctx.addr contextSize, valid plainEnv.user a = true := by
    intro a ha
    obtain ⟨i, hi, rfl⟩ := mem_addresses.mp ha
    exact valid_kernelObject _ thctx hi
  have hkeys : ((addresses thctx.addr contextSize).map cell).length = context.length := by
    rw [List.length_map, length_addresses, hlength]
  have hmap := map_applyAll_zip (nodup_addresses hvalid) hkeys m
  have hsplit : addresses thctx.addr contextSize = addresses thctx.addr offsetR ++
      (registers thctx ++ addresses (thctx.field offsetR + BitVec.ofNat 32 360) 536) := by
    rw [registers, ← addresses_append, KernelObject.field, ← addresses_append]
    rfl
  generalize applyAll (((addresses thctx.addr contextSize).map cell).zip context) m = m' at hmap ⊢
  rw [registersOf, ← hmap, hsplit, List.map_map, List.map_append, List.map_append,
    List.drop_left' (by rw [List.length_map, length_addresses]),
    List.take_left' (by rw [List.length_map, registers, length_addresses])]
  rfl

theorem answers_readRegisters (s : State) (more : Bytes) :
    Answers env k sigval s .readRegisters (ascii "g" ++ 0 :: more) := by
  have hascii : ascii "g" = [0x67] := by decide
  have hturn : turn env k sigval s (ascii "g" ++ 0 :: more) =
      answered (readRegisters env k s, s) := by
    rw [hascii, List.singleton_append, turn_eq (by decide)]
    rfl
  by_cases hown : s.thid = 0 ∨ s.thid = loadWord s.mem (env.ctx.field offsetThid)
  · have hstep : (target s).step env k sigval .readRegisters =
        (hexText (load s.mem (registers env.ctx)), target s) := if_pos hown
    rw [readRegisters, if_neg (fun h => hown.elim h.1 h.2), dumpContext_eq] at hturn
    refine answers_of_eq hturn ?_ ?_
    · rw [hstep]
    · rw [hstep]
  · have hother : ¬((target s).selected = 0 ∨
        (target s).selected = loadWord (target s).mem (env.ctx.field offsetThid)) := hown
    rw [readRegisters, if_pos (not_or.mp hown)] at hturn
    cases hcontext : k.fullThreadContext s.thid with
    | some context =>
        have hstep : (target s).step env k sigval .readRegisters =
            (hexText (registersOf context.1), target s) := by
          have hselected : k.fullThreadContext (target s).selected = some context := hcontext
          rw [Target.step, if_neg hother, hselected]
        rw [hcontext] at hturn
        dsimp only at hturn
        rw [dumpContext_eq, load_overlay env.thctx context.2] at hturn
        refine answers_of_eq hturn ?_ ?_
        · rw [hstep]
        · rw [hstep]
    | none =>
        have hstep : (target s).step env k sigval .readRegisters = (ascii "E03", target s) := by
          have hselected : k.fullThreadContext (target s).selected = none := hcontext
          rw [Target.step, if_neg hother, hselected]
        rw [hcontext] at hturn
        refine answers_of_eq hturn ?_ ?_
        · rw [hstep]
        · rw [hstep]

theorem answers_writeRegisters (s : State) (hlength : data.length = 360) (h : HexOf digits data)
    (more : Bytes) :
    Answers env k sigval s (.writeRegisters data) (0x47 :: digits ++ 0 :: more) := by
  have hturn : turn env k sigval s (0x47 :: digits ++ 0 :: more) =
      .reply (Reply.ofText (ascii "OK")).opened
        (writeRegisters env (digits ++ 0 :: more) s).2 := by
    rw [List.cons_append, turn_eq (by decide), handlePacket_write]
  refine answers_of_eq hturn rfl ?_
  by_cases hown : s.thid ≠ 0 ∧ s.thid = loadWord s.mem (env.ctx.field offsetThid)
  · rw [writeRegisters_selected h hlength hown.1 hown.2]
    exact (if_pos hown).symm
  · rw [writeRegisters, if_neg hown]
    exact (if_neg hown).symm

theorem hexToInt_word {w : Word} (h : HexNumber digits w.toNat) (more : Bytes) :
    hexToInt (digits ++ 0 :: more) =
      { numChars := digits.length, intValue := w, ptr := 0 :: more } := by
  rw [hexToInt_number h (not_hex_of_eq (c := 0) (by decide) more), BitVec.ofNat_toNat,
    BitVec.setWidth_eq]

theorem answers_select (s : State) {thread : Word} (h : HexNumber digits thread.toNat)
    (more : Bytes) :
    Answers env k sigval s (.select thread) (0x48 :: 0x67 :: digits ++ 0 :: more) := by
  have hdigits : digits.length ≠ 0 := fun hnil => h.nonempty (List.eq_nil_of_length_eq_zero hnil)
  have hselect : selectThread (0x67 :: (digits ++ 0 :: more)) s =
      (.ofText (ascii "OK"), { s with thid := thread }) := by
    rw [selectThread, List.getD_cons_zero, if_pos rfl]
    simp only [List.drop_succ_cons, List.drop_zero, hexToInt_word h]
    rw [if_pos hdigits]
  have hturn : turn env k sigval s (0x48 :: 0x67 :: digits ++ 0 :: more) =
      answered (selectThread (0x67 :: (digits ++ 0 :: more)) s) := by
    rw [List.cons_append, turn_eq (by decide)]
    rfl
  rw [hselect] at hturn
  exact answers_of_eq hturn rfl rfl

theorem turn_query (s : State) (str : Bytes) :
    turn env k sigval s (0x71 :: str) = answered (handleQuery env k str s) := by
  rw [turn_eq (by decide)]
  rfl

theorem answers_currentThread (s : State) (more : Bytes) :
    Answers env k sigval s .currentThread (ascii "qC" ++ 0 :: more) := by
  have hascii : ascii "qC" = 0x71 :: ascii "C" := by decide
  have hquery : handleQuery env k (ascii "C" ++ 0 :: more) s =
      (.ofText (ascii "QC" ++ hexWord (loadWord s.mem (env.ctx.field offsetThid))), s) :=
    if_pos (List.isPrefixOf_iff_prefix.mpr (List.prefix_append _ _))
  have hturn := @turn_query env k sigval s (ascii "C" ++ 0 :: more)
  rw [hquery, ← List.cons_append, ← hascii] at hturn
  exact answers_of_eq hturn rfl rfl

theorem answers_firstThread (s : State) (more : Bytes) :
    Answers env k sigval s .firstThread (ascii "qfThreadInfo" ++ 0 :: more) := by
  have hascii : ascii "qfThreadInfo" = 0x71 :: ascii "fThreadInfo" := by decide
  have hturn := @turn_query env k sigval s (ascii "fThreadInfo" ++ 0 :: more)
  have hother : ¬(ascii "C").isPrefixOf (ascii "fThreadInfo" ++ 0 :: more) = true :=
    Bool.false_ne_true
  rw [handleQuery, if_neg hother,
    if_pos (List.isPrefixOf_iff_prefix.mpr (List.prefix_append _ _)), ← List.cons_append,
    ← hascii] at hturn
  cases hthreads : psplinkReferThreadsByModule k env.uid 20 with
  | nil =>
      have hstep : (target s).step env k sigval .firstThread =
          ([], { target s with unlisted := [] }) := by
        rw [Target.step, hthreads]
      rw [hthreads] at hturn
      refine ⟨_, _, hturn, ?_, ?_⟩
      · rw [hstep]
        rfl
      · rw [hstep, target, List.drop_nil]
        rfl
  | cons thread threads =>
      have hstep : (target s).step env k sigval .firstThread =
          (ascii "m" ++ hexWord thread, { target s with unlisted := threads }) := by
        rw [Target.step, hthreads]
      rw [hthreads] at hturn
      refine answers_of_eq hturn ?_ ?_
      · rw [hstep]
      · rw [hstep]
        rfl

theorem answers_nextThread (s : State) (more : Bytes) :
    Answers env k sigval s .nextThread (ascii "qsThreadInfo" ++ 0 :: more) := by
  have hascii : ascii "qsThreadInfo" = 0x71 :: ascii "sThreadInfo" := by decide
  have hturn := @turn_query env k sigval s (ascii "sThreadInfo" ++ 0 :: more)
  have hother : ¬(ascii "C").isPrefixOf (ascii "sThreadInfo" ++ 0 :: more) = true :=
    Bool.false_ne_true
  have hother' : ¬(ascii "fThreadInfo").isPrefixOf (ascii "sThreadInfo" ++ 0 :: more) = true :=
    Bool.false_ne_true
  rw [handleQuery, if_neg hother, if_neg hother',
    if_pos (List.isPrefixOf_iff_prefix.mpr (List.prefix_append _ _)), ← List.cons_append,
    ← hascii] at hturn
  cases hthread : s.query.threads[s.query.threadLoc]? with
  | none =>
      have hunlisted : (target s).unlisted = [] :=
        List.drop_eq_nil_of_le (List.getElem?_eq_none_iff.mp hthread)
      have hstep : (target s).step env k sigval .nextThread = (ascii "l", target s) := by
        rw [Target.step, hunlisted]
      rw [hthread] at hturn
      refine answers_of_eq hturn ?_ ?_
      · rw [hstep]
      · rw [hstep]
  | some thread =>
      obtain ⟨hlt, rfl⟩ := List.getElem?_eq_some_iff.mp hthread
      have hunlisted : (target s).unlisted = s.query.threads[s.query.threadLoc] ::
          s.query.threads.drop (s.query.threadLoc + 1) := List.drop_eq_getElem_cons hlt
      have hstep : (target s).step env k sigval .nextThread =
          (ascii "m" ++ hexWord s.query.threads[s.query.threadLoc],
            { target s with unlisted := s.query.threads.drop (s.query.threadLoc + 1) }) := by
        rw [Target.step, hunlisted]
      rw [hthread] at hturn
      refine answers_of_eq hturn ?_ ?_
      · rw [hstep]
      · rw [hstep]
        rfl

theorem handleBp_eq (s : State) (ha : HexNumber as addr.toNat) (hl : HexNumber ls n)
    (hardware set : Bool) (more : Bytes) :
    handleBp ((if hardware then 0x31 else 0x30) :: comma :: header as ls (0 :: more)) set s =
      if set then
        (.ofText (ascii (if (debugSetBP addr (if hardware then debugBpHardware else 0) 0
            s.debug).1.isSome then "OK" else "E03")),
          s.update addr (debugSetBP addr (if hardware then debugBpHardware else 0) 0 s.debug).2)
      else
        (.ofText (ascii (if (debugDeleteBP addr s.debug).1 ≠ 0 then "OK" else "EO3")),
          s.update addr (debugDeleteBP addr s.debug).2) := by
  obtain ⟨reads, hnumbers⟩ := twoNumbers_header ha hl (not_hex_of_eq (c := 0) (by decide) more)
  cases hardware with
  | false =>
      simp only [Bool.false_eq_true, if_false]
      rw [handleBp, if_neg (by simp [isDigit]), List.drop_succ_cons, List.drop_succ_cons,
        List.drop_zero, hnumbers]
      rfl
  | true =>
      simp only [if_true]
      rw [handleBp, if_neg (by simp [isDigit]), List.drop_succ_cons, List.drop_succ_cons,
        List.drop_zero, hnumbers]
      rfl

theorem answers_setBreakpoint (s : State) (ha : HexNumber as addr.toNat) (hl : HexNumber ls n)
    (hardware : Bool) (more : Bytes) :
    Answers env k sigval s (.setBreakpoint hardware addr)
      (0x5A :: (if hardware then 0x31 else 0x30) :: comma :: header as ls [] ++ 0 :: more) := by
  have hturn : turn env k sigval s
      (0x5A :: (if hardware then 0x31 else 0x30) :: comma :: header as ls [] ++ 0 :: more) =
      answered (handleBp ((if hardware then 0x31 else 0x30) :: comma ::
        header as ls (0 :: more)) true s) := by
    rw [List.cons_append, List.cons_append, List.cons_append, header_append, List.nil_append,
      turn_eq (by decide)]
    rfl
  rw [handleBp_eq s ha hl] at hturn
  exact answers_of_eq hturn rfl rfl

theorem answers_deleteBreakpoint (s : State) (ha : HexNumber as addr.toNat)
    (hl : HexNumber ls n) (hardware : Bool) (more : Bytes) :
    Answers env k sigval s (.deleteBreakpoint addr)
      (0x7A :: (if hardware then 0x31 else 0x30) :: comma :: header as ls [] ++ 0 :: more) := by
  have hturn : turn env k sigval s
      (0x7A :: (if hardware then 0x31 else 0x30) :: comma :: header as ls [] ++ 0 :: more) =
      answered (handleBp ((if hardware then 0x31 else 0x30) :: comma ::
        header as ls (0 :: more)) false s) := by
    rw [List.cons_append, List.cons_append, List.cons_append, header_append, List.nil_append,
      turn_eq (by decide)]
    rfl
  rw [handleBp_eq s ha hl] at hturn
  exact answers_of_eq hturn rfl rfl

theorem answers_unknown (s : State) (hletter : letter ∉ letters) (rest : Bytes) :
    Answers env k sigval s .unknown (letter :: rest) := by
  have hne : ∀ c ∈ letters, letter ≠ c := by
    rintro c hc rfl
    exact hletter hc
  have hwrite : ¬(letter = 0x58 ∨ letter = 0x4D) := by
    rintro (h | h)
    · exact hne 0x58 (by decide) h
    · exact hne 0x4D (by decide) h
  have hturn : turn env k sigval s (letter :: rest) = .reply Reply.empty.opened s := by
    rw [turn_eq (hne 0x3F (by decide)), handlePacket]
    simp only [List.getD_cons_zero]
    rw [if_neg (hne 0x3F (by decide)), if_neg (hne 0x63 (by decide)),
      if_neg (hne 0x44 (by decide)), if_neg (hne 0x67 (by decide)), if_neg (hne 0x47 (by decide)),
      if_neg (hne 0x6D (by decide)), if_neg hwrite, if_neg (hne 0x73 (by decide)),
      if_neg (hne 0x48 (by decide)), if_neg (hne 0x71 (by decide)), if_neg (hne 0x5A (by decide)),
      if_neg (hne 0x7A (by decide))]
    rfl
  exact ⟨_, s, hturn, rfl, rfl⟩

theorem length_le_escaped (data : Bytes) : data.length ≤ (escaped data).length := by
  induction data with
  | nil => exact Nat.le_refl 0
  | cons b data ih =>
      have hbyte : 1 ≤ (escapeByte b).length := by
        rw [escapeByte]
        split
        · exact Nat.le_add_left 1 1
        · exact Nat.le_refl 1
      have hsplit : escaped (b :: data) = escapeByte b ++ escaped data := rfl
      rw [hsplit, List.length_append, List.length_cons]
      omega

/-- Whatever is in the buffer behind the packet, the stub gives the answer. -/
theorem answers (hasks : Asks request payload) (hshort : payload.length < maxBuf) (s : State)
    (more : Bytes) : Answers env k sigval s request (payload ++ 0 :: more) := by
  rw [maxBuf] at hshort
  cases hasks with
  | stopReason => exact answers_stopReason s more
  | readMemory hn ha hl => exact answers_readMemory s hn ha hl more
  | @writeHex addr data as ls digits ha hl h =>
      have hlength := h.length
      simp only [header, List.length_cons, List.length_append] at hshort
      exact answers_writeHex s (by omega) ha hl h more
  | @writeBinary addr data as ls ha hl =>
      have hlength := length_le_escaped data
      simp only [header, List.length_cons, List.length_append] at hshort
      exact answers_writeBinary s (by omega) ha hl more
  | readRegisters => exact answers_readRegisters s more
  | writeRegisters hlength h => exact answers_writeRegisters s hlength h more
  | select h => exact answers_select s h more
  | currentThread => exact answers_currentThread s more
  | firstThread => exact answers_firstThread s more
  | nextThread => exact answers_nextThread s more
  | setBreakpoint ha hl => exact answers_setBreakpoint s ha hl _ more
  | deleteBreakpoint ha hl => exact answers_deleteBreakpoint s ha hl _ more
  | unknown hletter hstart => exact answers_unknown s hletter _

end

end PsplinkUsb.UsbGdb.TargetRequests
