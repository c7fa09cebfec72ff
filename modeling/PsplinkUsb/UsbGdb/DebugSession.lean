import PsplinkUsb.UsbGdb.Retransmission
import PsplinkUsb.UsbGdb.TargetRequests

namespace PsplinkUsb.UsbGdb.DebugSession

open PsplinkUsb.Library.CString
open PsplinkUsb.Psplink.ProgramMemory
open PsplinkUsb.UsbGdb.Packets
open PsplinkUsb.UsbGdb.PacketLaws
open PsplinkUsb.UsbGdb.PacketExchange (xmitcsum_hexchar)
open PsplinkUsb.UsbGdb.StubMemory
open PsplinkUsb.UsbGdb.Stub
open PsplinkUsb.UsbGdb.PacketData
open PsplinkUsb.UsbGdb.TargetRequests

theorem length_getpacket_lt {buffer : Buffer} {line : Bytes}
    (h : (getpacket buffer line).ret = true) :
    (getpacket buffer line).rest.length < line.length := by
  obtain ⟨before, a, hscans, -⟩ := scans_of_ret h
  have hlength := hscans.length_le
  rw [List.length_append, List.length_singleton] at hlength
  omega

theorem length_putpacket_le (payload outputbuffer answers : Bytes) :
    (putpacket payload outputbuffer answers).rest.length ≤ answers.length := by
  induction answers generalizing outputbuffer with
  | nil => exact Nat.le_refl 0
  | cons ch answers ih =>
      rw [putpacket]
      split
      · exact Nat.le_succ _
      · exact (ih _).trans (Nat.le_succ _)

/-- `input`, all of it. -/
def inputBytes (buffer : Buffer) : Bytes := (List.range maxBuf).map buffer

def pspExceptionExit : Word := 0

/-- What one call of `GdbHandleException` does. -/
structure Visit where
  ret : Bool
  sent : Bytes
  state : State
  buffer : Buffer
  rest : Bytes

def Visit.behind (sent : Bytes) (visit : Visit) : Visit := { visit with sent := sent ++ visit.sent }

set_option maxRecDepth 10000 in
/-- The loop, from its turn `n` on. It ends when the line is closed. -/
def handleLoop (env : Env) (ks : ℕ → Kernel) (sigval : UInt8) (n : ℕ) (s : State)
    (buffer : Buffer) (line : Bytes) : Visit :=
  let got := getpacket buffer line
  if _hret : got.ret = true then
    match turn env (ks n) sigval s (inputBytes got.buffer) with
    | .reply r s' =>
        let put := putpacket r.text [] got.rest
        (handleLoop env ks sigval (n + 1) s' got.buffer put.rest).behind
          (got.sent ++ put.written.flatten)
    | .restart ret none s' =>
        { ret := ret, sent := got.sent, state := s', buffer := got.buffer, rest := got.rest }
    | .restart ret (some r) s' =>
        let put := putpacket r.text [] got.rest
        { ret := ret, sent := got.sent ++ put.written.flatten, state := s', buffer := got.buffer
          rest := put.rest }
  else
    { ret := false, sent := got.sent
      state := { s with mem := storeWord s.mem (env.ctx.field offsetCont) pspExceptionExit }
      buffer := got.buffer, rest := got.rest }
termination_by line.length
decreasing_by
  exact (length_putpacket_le _ _ _).trans_lt (length_getpacket_lt _hret)

/-- `GdbHandleException`. No thread is selected at first, and nobody is told of the exception
that the module starts with. -/
def gdbHandleException (env : Env) (ks : ℕ → Kernel) (s : State) (buffer : Buffer)
    (line : Bytes) : Visit :=
  let sigval := trapSignal env s.mem
  let opened := { s with thid := 0 }
  if s.started then
    let put := putpacket (buildTrapCmd env s.mem sigval).text [] line
    (handleLoop env ks sigval 0 opened buffer put.rest).behind put.written.flatten
  else handleLoop env ks sigval 0 opened buffer line

/-- A packet with this payload arrives: it comes behind noise and packets that fail, and it does
not look as if it had a sequence id. -/
structure Delivers (line payload rest : Bytes) : Prop where
  unlike : payload[2]? ≠ some colon
  scans : ∃ before a, Scans line (before ++ [a]) rest ∧ (∀ b ∈ before, ¬b.Closes) ∧ a.Closes ∧
    a.digits.isSome ∧ a.payload = payload

/-- How a debugger leaves. -/
inductive Ending where
  | resume (step : Bool) (addr : Option Word)
  | detach

def Ending.ret : Ending → Bool
  | .resume _ _ => true
  | .detach => false

/-- The empty packet that a detaching debugger receives. -/
def Ending.answers : Ending → List Bytes
  | .resume _ _ => []
  | .detach => [[]]

inductive Leaves : Ending → Bytes → Prop
  | resume (step : Bool) : Leaves (.resume step none) [if step then 0x73 else 0x63]
  | resumeAt (step : Bool) {addr : Word} {digits : Bytes} (h : HexNumber digits addr.toNat) :
      Leaves (.resume step (some addr)) ((if step then 0x73 else 0x63) :: digits)
  | detach : Leaves .detach [0x44]

namespace Target

/-- The program goes on. Before it has been started there is nowhere to go on from. -/
def leave (env : Env) (t : Target) : Ending → Target
  | .resume step addr =>
      let m := match addr with
        | some addr =>
            if step || t.started then storeWord t.mem (env.ctx.field offsetEpc) addr else t.mem
        | none => t.mem
      { t with
        mem := storeWord m (env.ctx.field offsetCont)
          (if step then pspExceptionStep else pspExceptionContinue)
        started := t.started || !step }
  | .detach =>
      { t with mem := storeWord t.mem (env.ctx.field offsetCont) pspExceptionContinue }

/-- The answers to requests, and the target after them. -/
def run (env : Env) (ks : ℕ → Kernel) (sigval : UInt8) : ℕ → Target → List Request →
    List Bytes × Target
  | _, t, [] => ([], t)
  | n, t, request :: requests =>
      let answered := t.step env (ks n) sigval request
      let later := run env ks sigval (n + 1) answered.2 requests
      (answered.1 :: later.1, later.2)

end Target

/-- What a debugger sends: requests, each with the acknowledgement of its answer, and at last
the packet with which it leaves. -/
inductive Spoken : Bytes → List Request → Ending → Bytes → Prop
  | request {line line' rest payload : Bytes} {request : Request} {requests : List Request}
      {ending : Ending} {ack : UInt8} (hasks : Asks request payload)
      (harrives : Delivers line payload (ack :: line')) (hack : ack &&& 0x7F = plus)
      (h : Spoken line' requests ending rest) : Spoken line (request :: requests) ending rest
  | resume {line rest payload : Bytes} {step : Bool} {addr : Option Word}
      (hleaves : Leaves (.resume step addr) payload) (harrives : Delivers line payload rest) :
      Spoken line [] (.resume step addr) rest
  | detach {line rest payload : Bytes} {ack : UInt8} (hleaves : Leaves .detach payload)
      (harrives : Delivers line payload (ack :: rest)) (hack : ack &&& 0x7F = plus) :
      Spoken line [] .detach rest

/-- A packet of `putpacket`. -/
def packetOf (text : Bytes) : Attempt where
  start := dollar
  payload := text
  digits := some (hexchar (checksumOf text >>> 4), hexchar (checksumOf text))

/-- What a visit leaves: on the line the packets of the answers with nothing between them but
acknowledgements, and the program as the target. -/
structure Visit.Tells (visit : Visit) (answers : List Bytes) (t : Target) (ret : Bool)
    (rest : Bytes) : Prop where
  sent : ∃ chatter, Scans visit.sent (answers.map packetOf) chatter ∧ Quiet chatter
  state : target visit.state = t
  ret_eq : visit.ret = ret
  rest_eq : visit.rest = rest

section

variable {env : Env} {ks : ℕ → Kernel} {k : Kernel} {sigval : UInt8} {n : ℕ} {s s' : State}
  {buffer : Buffer} {line line' rest payload text : Bytes} {ack : UInt8} {ending : Ending}
  {requests : List Request}

theorem quiet_append {noise noise' : Bytes} (h : Quiet noise) (h' : Quiet noise') :
    Quiet (noise ++ noise') := by
  intro ch hch
  exact (List.mem_append.mp hch).elim (h ch) (h' ch)

theorem bytes_packetOf (text : Bytes) : (packetOf text).bytes = framed text := by
  simp [packetOf, Attempt.bytes, framed]

theorem valid_packetOf (hclear : Clear text) (hshort : text.length < maxBuf) :
    (packetOf text).Valid :=
  ⟨(by decide : dollar &&& 0x7F = dollar), fun hmem => (hclear sharp hmem).2 rfl, hshort⟩

theorem putpacket_ack (hack : ack &&& 0x7F = plus) (payload outputbuffer rest : Bytes) :
    putpacket payload outputbuffer (ack :: rest) =
      { ret := true, written := [outputbuffer ++ framed payload], rest := rest } := if_pos hack

theorem handleLoop_reply {r : Reply} (hret : (getpacket buffer line).ret = true)
    (hturn : turn env (ks n) sigval s (inputBytes (getpacket buffer line).buffer) = .reply r s') :
    handleLoop env ks sigval n s buffer line =
      (handleLoop env ks sigval (n + 1) s' (getpacket buffer line).buffer
        (putpacket r.text [] (getpacket buffer line).rest).rest).behind
        ((getpacket buffer line).sent ++
          (putpacket r.text [] (getpacket buffer line).rest).written.flatten) := by
  rw [handleLoop]
  simp only [dif_pos hret, hturn]

theorem handleLoop_restart {ret : Bool} (hret : (getpacket buffer line).ret = true)
    (hturn : turn env (ks n) sigval s (inputBytes (getpacket buffer line).buffer) =
      .restart ret none s') :
    handleLoop env ks sigval n s buffer line =
      { ret := ret, sent := (getpacket buffer line).sent, state := s'
        buffer := (getpacket buffer line).buffer, rest := (getpacket buffer line).rest } := by
  rw [handleLoop]
  simp only [dif_pos hret, hturn]

theorem handleLoop_detach {ret : Bool} {r : Reply} (hret : (getpacket buffer line).ret = true)
    (hturn : turn env (ks n) sigval s (inputBytes (getpacket buffer line).buffer) =
      .restart ret (some r) s') :
    handleLoop env ks sigval n s buffer line =
      { ret := ret
        sent := (getpacket buffer line).sent ++
          (putpacket r.text [] (getpacket buffer line).rest).written.flatten
        state := s', buffer := (getpacket buffer line).buffer
        rest := (putpacket r.text [] (getpacket buffer line).rest).rest } := by
  rw [handleLoop]
  simp only [dif_pos hret, hturn]

/-- What `putpacket` sends arrives. -/
theorem delivers_framed {noise : Bytes} (hnoise : Quiet noise) (hunlike : text[2]? ≠ some colon)
    (hsharp : sharp ∉ text) (hshort : text.length < maxBuf) (rest : Bytes) :
    Delivers (noise ++ (framed text ++ rest)) text rest := by
  have hvalid : (packetOf text).Valid :=
    ⟨(by decide : dollar &&& 0x7F = dollar), hsharp, hshort⟩
  refine ⟨hunlike, [], packetOf text, ?_, fun b hb => absurd hb List.not_mem_nil,
    (xmitcsum_hexchar _).symm, rfl, rfl⟩
  rw [← bytes_packetOf]
  exact .cons hnoise hvalid (.nil rest)

/-- A packet that fails does not stop the one behind it. -/
theorem Delivers.behind (h : Delivers line payload rest) {noise : Bytes} (hnoise : Quiet noise)
    {a : Attempt} (hvalid : a.Valid) (hfails : ¬a.Closes) :
    Delivers (noise ++ (a.bytes ++ line)) payload rest := by
  obtain ⟨before, packet, hscans, hbefore, harrives⟩ := h.scans
  exact ⟨h.unlike, a :: before, packet, .cons hnoise hvalid hscans,
    List.forall_mem_cons.mpr ⟨hfails, hbefore⟩, harrives⟩

theorem getpacket_failed {noise : Bytes} (hnoise : Quiet noise) {a : Attempt} (hvalid : a.Valid)
    (hfails : ¬a.Closes) (buffer : Buffer) (rest : Bytes) :
    ∃ stored sent, Quiet sent ∧ getpacket buffer (noise ++ (a.bytes ++ rest)) =
      { getpacket stored rest with sent := sent ++ (getpacket stored rest).sent } := by
  obtain ⟨start, payload, digits⟩ := a
  obtain ⟨hstart, hpayload, hlength⟩ := hvalid
  cases digits with
  | none =>
      obtain ⟨stored, hget⟩ :=
        getpacket_overlong hnoise hstart hpayload (by simpa using hlength) buffer rest
      have hbytes : Attempt.bytes ⟨start, payload, none⟩ ++ rest = start :: (payload ++ rest) := by
        simp [Attempt.bytes]
      have hsum : checksumOf payload ≠ 0xFF := hfails
      exact ⟨stored, [], by simp [Quiet], by rw [hbytes, hget, if_neg hsum]; rfl⟩
  | some digits =>
      obtain ⟨d₁, d₂⟩ := digits
      obtain ⟨stored, -, -, hget⟩ :=
        getpacket_packet hnoise hstart hpayload (by simpa using hlength) buffer d₁ d₂ rest
      have hbytes : Attempt.bytes ⟨start, payload, some (d₁, d₂)⟩ ++ rest =
          start :: (payload ++ sharp :: d₁ :: d₂ :: rest) := by
        simp [Attempt.bytes]
      have hsum : checksumOf payload ≠ xmitcsum d₁ d₂ := hfails
      refine ⟨stored, [minus], ?_, by rw [hbytes, hget, if_neg hsum]; rfl⟩
      intro ch hch
      rw [List.mem_singleton.mp hch]
      decide

theorem inputBytes_of_holds {data : Bytes} (h : Holds buffer 0 data)
    (hlength : data.length ≤ maxBuf) : ∃ more, inputBytes buffer = data ++ more := by
  obtain ⟨n, hn⟩ := Nat.exists_eq_add_of_le hlength
  have hdata : (List.range data.length).map buffer = data := by
    apply List.ext_getElem (by simp)
    intro i _ hi
    have hheld := h i hi
    rw [Nat.zero_add] at hheld
    rw [List.getElem_map, List.getElem_range, hheld]
  rw [inputBytes, hn, List.range_add, List.map_append, hdata]
  exact ⟨_, rfl⟩

/-- The two bytes that are taken for a sequence id of a packet of one byte, which the third byte
of an earlier packet can make them, are no noise for the debugger. -/
theorem quiet_dropSequence {stored : Buffer} {letter : UInt8} {more : Bytes}
    (hstored : Holds stored 0 (letter :: more ++ [0])) (hunlike : (letter :: more)[2]? ≠ some colon)
    (hstart : letter &&& 0x7F ≠ dollar) : Quiet (plus :: (dropSequence stored).2) := by
  have hplus : plus &&& 0x7F ≠ dollar := by decide
  have hfirst : stored 0 = letter := hstored 0 (Nat.succ_pos _)
  rw [dropSequence]
  by_cases hcolon : stored 2 = colon
  · rw [if_pos hcolon]
    have hmore : more = [] := by
      rcases more with _ | ⟨b, _ | ⟨c, more⟩⟩
      · rfl
      · have hend : stored 2 = 0 := hstored 2 (by simp)
        rw [hend] at hcolon
        exact absurd hcolon (by decide)
      · have hthird : stored 2 = c := hstored 2 (by simp)
        exact absurd (congrArg some (hthird.symm.trans hcolon)) hunlike
    subst hmore
    have hsecond : stored 1 = 0 := hstored 1 (by simp)
    intro ch hch
    simp only [List.mem_cons, List.not_mem_nil, or_false] at hch
    rcases hch with rfl | rfl | rfl
    · exact hplus
    · rw [hfirst]
      exact hstart
    · rw [hsecond]
      decide
  · rw [if_neg hcolon]
    intro ch hch
    rw [List.mem_singleton.mp hch]
    exact hplus

theorem getpacket_delivered {letter : UInt8} {more : Bytes}
    (h : Delivers line (letter :: more) rest) (hstart : letter &&& 0x7F ≠ dollar)
    (buffer : Buffer) :
    ∃ chatter behind, Quiet chatter ∧ (getpacket buffer line).ret = true ∧
      (getpacket buffer line).sent = chatter ∧ (getpacket buffer line).rest = rest ∧
      inputBytes (getpacket buffer line).buffer = letter :: more ++ 0 :: behind ∧
      (letter :: more).length < maxBuf := by
  obtain ⟨hunlike, before, a, hscans, hbefore, hcloses, hdigits, hpayload⟩ := h
  induction before generalizing line buffer with
  | nil =>
      obtain ⟨noise, middle, hnoise, hvalid, rfl, hrest⟩ := hscans.cons_inv
      obtain rfl : middle = rest := by
        rcases hrest.cases with ⟨-, heq⟩ | ⟨_, _, _, hnil, -⟩
        · exact heq
        · simp at hnil
      obtain ⟨start, payload, digits⟩ := a
      obtain ⟨hdollar, hsharp, hlength⟩ := hvalid
      obtain ⟨⟨d₁, d₂⟩, rfl⟩ := Option.isSome_iff_exists.mp hdigits
      subst hpayload
      have hshort : (letter :: more).length < maxBuf := by simpa using hlength
      obtain ⟨stored, hstored, -, hget⟩ :=
        getpacket_packet hnoise hdollar hsharp hshort buffer d₁ d₂ middle
      have hbytes : Attempt.bytes ⟨start, letter :: more, some (d₁, d₂)⟩ ++ middle =
          start :: (letter :: more ++ sharp :: d₁ :: d₂ :: middle) := by
        simp [Attempt.bytes]
      have hsum : checksumOf (letter :: more) = xmitcsum d₁ d₂ := hcloses
      have hholds := dropSequence_holds hstored hshort
      have hprefix : (cstr (letter :: more))[2]? ≠ some colon := by
        intro hcolon
        obtain ⟨t, ht⟩ : cstr (letter :: more) <+: letter :: more := List.takeWhile_prefix _
        obtain ⟨hlt, hvalue⟩ := List.getElem?_eq_some_iff.mp hcolon
        apply hunlike
        rw [← ht, List.getElem?_append_left hlt]
        exact hcolon
      rw [HoldsPacket, if_neg hprefix] at hholds
      obtain ⟨behind, hbehind⟩ := inputBytes_of_holds hholds (by
        rw [List.length_append, List.length_singleton]
        exact hshort)
      rw [hbytes, hget, if_pos hsum]
      refine ⟨_, behind, quiet_dropSequence hstored hunlike hstart, rfl, rfl, rfl, ?_, hshort⟩
      rw [hbehind, List.append_assoc, List.singleton_append]
  | cons b before ih =>
      obtain ⟨noise, middle, hnoise, hvalid, rfl, hrest⟩ := hscans.cons_inv
      obtain ⟨hfails, hbefore⟩ := List.forall_mem_cons.mp hbefore
      obtain ⟨stored, sent, hsent, hget⟩ := getpacket_failed hnoise hvalid hfails buffer middle
      obtain ⟨chatter, behind, hquiet, hret, hchatter, hleft, hinput, hshort⟩ :=
        ih stored hrest hbefore
      rw [hget]
      refine ⟨sent ++ chatter, behind, quiet_append hsent hquiet, hret, ?_, hleft, hinput, hshort⟩
      rw [hchatter]

theorem hexToInt_end (more : Bytes) : (hexToInt (0 :: more)).numChars = 0 := by
  simp [hexToInt, hexToIntFrom]

theorem turn_leaves (hleaves : Leaves ending payload) (s : State) (more : Bytes) :
    ∃ s', turn env k sigval s (payload ++ 0 :: more) =
        .restart ending.ret (ending.answers.head?.map fun _ => Reply.empty.opened) s' ∧
      target s' = Target.leave env (target s) ending := by
  cases hleaves with
  | resume step =>
      have hnone (p : Prop) : ¬(p ∧ (hexToInt (0 :: more)).numChars ≠ 0) :=
        fun h => h.2 (hexToInt_end more)
      cases step with
      | false =>
          refine ⟨_, rfl, ?_⟩
          simp only [resume, List.drop_succ_cons, List.drop_zero, target, Target.leave,
            List.cons_append, List.nil_append, if_neg (hnone _), Bool.not_false, Bool.or_true,
            Bool.false_eq_true, if_false]
      | true =>
          refine ⟨_, rfl, ?_⟩
          simp only [resume, List.drop_succ_cons, List.drop_zero, target, Target.leave,
            List.cons_append, List.nil_append, if_neg (hnone _), Bool.not_true, Bool.or_false,
            if_true]
  | @resumeAt step addr digits h =>
      have hword := hexToInt_word h more
      have hdigits : digits.length ≠ 0 :=
        fun hnil => h.nonempty (List.eq_nil_of_length_eq_zero hnil)
      cases step with
      | false =>
          refine ⟨_, rfl, ?_⟩
          simp only [resume, List.drop_succ_cons, List.drop_zero, target, Target.leave,
            List.cons_append, hword, Bool.not_false, Bool.or_true, Bool.false_eq_true,
            if_false, Bool.false_or, ne_eq, hdigits, not_false_eq_true, and_true]
      | true =>
          refine ⟨_, rfl, ?_⟩
          simp only [resume, List.drop_succ_cons, List.drop_zero, target, Target.leave,
            List.cons_append, hword, Bool.not_true, Bool.or_false, if_true, Bool.true_or,
            true_and, ne_eq, hdigits, not_false_eq_true]
  | detach =>
      refine ⟨_, rfl, ?_⟩
      simp only [resume, target, Target.leave, Bool.false_eq_true, false_and, if_false]

theorem letter_of_asks {request : Request} (h : Asks request payload) :
    ∃ letter more, payload = letter :: more ∧ letter &&& 0x7F ≠ dollar := by
  cases h with
  | stopReason => exact ⟨0x3F, [], by decide, by decide⟩
  | readMemory hn ha hl => exact ⟨_, _, rfl, by decide⟩
  | writeHex ha hl h => exact ⟨_, _, rfl, by decide⟩
  | writeBinary ha hl => exact ⟨_, _, rfl, by decide⟩
  | readRegisters => exact ⟨0x67, [], by decide, by decide⟩
  | writeRegisters hlength h => exact ⟨_, _, rfl, by decide⟩
  | select h => exact ⟨_, _, rfl, by decide⟩
  | currentThread => exact ⟨0x71, ascii "C", by decide, by decide⟩
  | firstThread => exact ⟨0x71, ascii "fThreadInfo", by decide, by decide⟩
  | nextThread => exact ⟨0x71, ascii "sThreadInfo", by decide, by decide⟩
  | setBreakpoint ha hl => exact ⟨_, _, rfl, by decide⟩
  | deleteBreakpoint ha hl => exact ⟨_, _, rfl, by decide⟩
  | unknown hletter hstart => exact ⟨_, _, rfl, hstart⟩

theorem letter_of_leaves (h : Leaves ending payload) :
    ∃ letter more, payload = letter :: more ∧ letter &&& 0x7F ≠ dollar := by
  cases h with
  | resume step =>
      refine ⟨_, _, rfl, ?_⟩
      cases step with
      | false => decide
      | true => decide
  | resumeAt step h =>
      refine ⟨_, _, rfl, ?_⟩
      cases step with
      | false => decide
      | true => decide
  | detach => exact ⟨_, _, rfl, by decide⟩

/-- One more packet before what a visit sends. -/
theorem Visit.Tells.behind {visit : Visit} {answers : List Bytes} {t : Target} {ret : Bool}
    (h : visit.Tells answers t ret rest) {chatter : Bytes} (hquiet : Quiet chatter)
    (hclear : Clear text) (hshort : text.length < maxBuf) :
    (visit.behind (chatter ++ framed text)).Tells (text :: answers) t ret rest := by
  obtain ⟨after, hscans, hafter⟩ := h.sent
  refine ⟨⟨after, ?_, hafter⟩, h.state, h.ret_eq, h.rest_eq⟩
  rw [List.map_cons, Visit.behind, List.append_assoc, ← bytes_packetOf]
  exact .cons hquiet (valid_packetOf hclear hshort) hscans

theorem loop_answers (hspoken : Spoken line requests ending rest) (n : ℕ) (s : State)
    (buffer : Buffer) :
    (handleLoop env ks sigval n s buffer line).Tells
      ((Target.run env ks sigval n (target s) requests).1 ++ ending.answers)
      (Target.leave env (Target.run env ks sigval n (target s) requests).2 ending) ending.ret
      rest := by
  induction hspoken generalizing n s buffer with
  | @request line line' rest payload request requests ending ack hasks harrives hack h ih =>
      obtain ⟨letter, more, rfl, hstart⟩ := letter_of_asks hasks
      obtain ⟨chatter, behind, hquiet, hret, hchatter, hleft, hinput, hshort⟩ :=
        getpacket_delivered harrives hstart buffer
      obtain ⟨r, s', hturn, htext, hstate⟩ :=
        @TargetRequests.answers env (ks n) sigval _ request hasks hshort s behind
      rw [← hinput] at hturn
      rw [handleLoop_reply hret hturn, hleft, putpacket_ack hack, hchatter, htext]
      rw [Target.run, List.cons_append]
      rw [List.nil_append, List.flatten_singleton, ← hstate]
      exact (ih (n + 1) s' _).behind hquiet (clear_step (target s) request)
        (length_step_lt hasks (target s))
  | @resume line rest payload step addr hleaves harrives =>
      obtain ⟨letter, more, rfl, hstart⟩ := letter_of_leaves hleaves
      obtain ⟨chatter, behind, hquiet, hret, hchatter, hleft, hinput, hshort⟩ :=
        getpacket_delivered harrives hstart buffer
      obtain ⟨s', hturn, hstate⟩ :=
        @turn_leaves env (ks n) sigval _ _ hleaves s behind
      rw [← hinput] at hturn
      rw [handleLoop_restart hret hturn, hleft, hchatter]
      exact ⟨⟨chatter, .nil chatter, hquiet⟩, hstate, rfl, rfl⟩
  | @detach line rest payload ack hleaves harrives hack =>
      obtain ⟨letter, more, rfl, hstart⟩ := letter_of_leaves hleaves
      obtain ⟨chatter, behind, hquiet, hret, hchatter, hleft, hinput, hshort⟩ :=
        getpacket_delivered harrives hstart buffer
      obtain ⟨s', hturn, hstate⟩ :=
        @turn_leaves env (ks n) sigval _ _ hleaves s behind
      rw [← hinput] at hturn
      rw [handleLoop_detach hret hturn, hleft, putpacket_ack hack, hchatter]
      have hquiet' : Quiet [] := fun ch hch => absurd hch List.not_mem_nil
      refine ⟨⟨[], ?_, hquiet'⟩, hstate, rfl, rfl⟩
      have hclear : Clear [] := fun c hc => absurd hc List.not_mem_nil
      have hscans := Scans.cons hquiet (valid_packetOf hclear (by decide)) (.nil [])
      rwa [bytes_packetOf, List.append_nil] at hscans

end

/-- A debugger is told of the exception if the module has been started, and then the answer to
each of its requests, whatever else was on the line. When it leaves, the program is as the target
that it has changed. -/
theorem session_answers (env : Env) (ks : ℕ → Kernel) (s : State) (buffer : Buffer)
    {line rest : Bytes} {requests : List Request} {ending : Ending} {ack : UInt8}
    (hack : ack &&& 0x7F = plus) (hspoken : Spoken line requests ending rest) :
    (gdbHandleException env ks s buffer ((if s.started then [ack] else []) ++ line)).Tells
      ((if s.started then [stopReply env (trapSignal env s.mem) s.mem] else []) ++
        ((Target.run env ks (trapSignal env s.mem) 0 (target { s with thid := 0 }) requests).1 ++
          ending.answers))
      (Target.leave env
        (Target.run env ks (trapSignal env s.mem) 0 (target { s with thid := 0 }) requests).2
        ending)
      ending.ret rest := by
  have hloop := @loop_answers env ks (trapSignal env s.mem) _ _ _ _ hspoken 0
    { s with thid := 0 } buffer
  have hquiet : Quiet [] := fun ch hch => absurd hch List.not_mem_nil
  rw [gdbHandleException]
  dsimp only
  by_cases hstarted : s.started = true
  · have hclear := clear_stopReply env (trapSignal env s.mem) s.mem
    have htext : (Reply.ofText (stopReply env (trapSignal env s.mem) s.mem)).text =
        stopReply env (trapSignal env s.mem) s.mem :=
      cstr_append_zero (fun hmem => (hclear 0 hmem).1 rfl) []
    rw [if_pos hstarted, if_pos hstarted, if_pos hstarted, buildTrapCmd_eq, htext,
      List.singleton_append, putpacket_ack hack, List.nil_append, List.flatten_singleton]
    exact hloop.behind hquiet hclear (length_stopReply_le _ _ _)
  · rw [if_neg hstarted, if_neg hstarted, if_neg hstarted, List.nil_append, List.nil_append]
    exact hloop

def leaving : Bytes := framed (ascii "c") ++ []

def reading : Bytes := framed (ascii "m8900000,2") ++ 0x2B :: leaving

/-- Two bytes are written and read back. The first packet is sent twice, the first time with a
wrong digit. -/
def writing : Bytes :=
  [0x2B] ++ (Attempt.bytes ⟨dollar, ascii "M8900000,2:1223", some (0x30, 0x30)⟩ ++
    (framed (ascii "M8900000,2:1223") ++ 0x2B :: reading))

theorem session_answers_read :
    (gdbHandleException plainEnv (fun _ => plainKernel) plainState (fun _ => 0)
        ((if plainState.started then [0x2B] else []) ++ writing)).Tells
      ((if plainState.started then
          [stopReply plainEnv (trapSignal plainEnv plainState.mem) plainState.mem] else []) ++
        ((Target.run plainEnv (fun _ => plainKernel) (trapSignal plainEnv plainState.mem) 0
            (target { plainState with thid := 0 })
            [.writeMemory 0x8900000 [0x12, 0x23], .readMemory 0x8900000 2]).1 ++
          (Ending.resume false none).answers))
      (Target.leave plainEnv
        (Target.run plainEnv (fun _ => plainKernel) (trapSignal plainEnv plainState.mem) 0
          (target { plainState with thid := 0 })
          [.writeMemory 0x8900000 [0x12, 0x23], .readMemory 0x8900000 2]).2
        (.resume false none)) true [] := by
  have hplus : (0x2B : UInt8) &&& 0x7F = plus := by decide
  have hquiet : Quiet [0x2B] := fun ch hch => by
    rw [List.mem_singleton.mp hch]
    decide
  have hnil : Quiet [] := fun ch hch => absurd hch List.not_mem_nil
  have haddr : HexNumber (ascii "8900000") (0x8900000 : Word).toNat :=
    hexNumber_of_check (by decide)
  have hcount : HexNumber (ascii "2") 2 := hexNumber_of_check (by decide)
  have hwrites : Asks (.writeMemory 0x8900000 [0x12, 0x23]) (ascii "M8900000,2:1223") := by
    have hbytes : ascii "M8900000,2:1223" = 0x4D :: MemoryPackets.header (ascii "8900000")
        (ascii "2") (colon :: hexText [0x12, 0x23]) := by decide
    rw [hbytes]
    exact .writeHex haddr hcount (hexOf_hexText [0x12, 0x23])
  have hreads : Asks (.readMemory 0x8900000 2) (ascii "m8900000,2") := by
    have hbytes : ascii "m8900000,2" = 0x6D :: MemoryPackets.header (ascii "8900000")
        (ascii "2") [] := by decide
    rw [hbytes]
    exact .readMemory (by decide) haddr hcount
  have hlast : Delivers leaving (ascii "c") [] :=
    delivers_framed hnil (by decide) (by decide) (by decide) []
  have hsecond : Delivers reading (ascii "m8900000,2") (0x2B :: leaving) :=
    delivers_framed hnil (by decide) (by decide) (by decide) _
  have hwrite : Delivers (framed (ascii "M8900000,2:1223") ++ 0x2B :: reading)
      (ascii "M8900000,2:1223") (0x2B :: reading) :=
    delivers_framed hnil (by decide) (by decide) (by decide) _
  have hfirst : Delivers writing (ascii "M8900000,2:1223") (0x2B :: reading) :=
    hwrite.behind hquiet ⟨(by decide : dollar &&& 0x7F = dollar), by decide, by decide⟩
      (by decide : checksumOf (ascii "M8900000,2:1223") ≠ xmitcsum 0x30 0x30)
  exact session_answers plainEnv _ plainState _ hplus
    (.request hwrites hfirst hplus (.request hreads hsecond hplus (.resume (.resume false) hlast)))

example : (Target.run plainEnv (fun _ => plainKernel) sigtrap 0 (target plainState)
    [.writeMemory 0x8900000 [0x12, 0x23], .readMemory 0x8900000 2]).1 =
      [ascii "OK", ascii "1223"] := by
  decide +kernel

end PsplinkUsb.UsbGdb.DebugSession
