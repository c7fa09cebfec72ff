import Mathlib.Data.List.Induction
import PsplinkUsb.HostFs.Requests
import PsplinkUsb.UsbHostfsPc.PlainFile

namespace PsplinkUsb.HostFs.Framing

open PsplinkUsb.Library.Duplex
open PsplinkUsb.Library.Settling
open PsplinkUsb.HostFs.Wire
open PsplinkUsb.HostFs.Exchange
open PsplinkUsb.HostFs.Answers
open PsplinkUsb.HostFs.Requests
open PsplinkUsb.UsbHostfs.CommandXchg
open PsplinkUsb.UsbHostfs.HostDriver
open PsplinkUsb.UsbHostfsPc.OsCalls
open PsplinkUsb.UsbHostfsPc.HostFiles
open PsplinkUsb.UsbHostfsPc.Handlers
open PsplinkUsb.UsbHostfsPc.PlainFile

variable {σ : Type} {os : HostOs σ}

/-- One exchange, as it was carried out. -/
structure Entry (σ : Type) where
  req : XchgRequest
  before : Host σ
  answer : List Bytes
  result : XchgResult
  after : Host σ

/-- `do_hostfs` takes the request struct and exactly its data, `command_xchg` takes
exactly the answer, and both have the lengths their headers announce. -/
structure Entry.Exact (os : HostOs σ) (e : Entry σ) : Prop where
  exchanged : Exchanged os e.req e.before e.answer e.result e.after
  framed : Framed e.req e.answer

def requestPackets (log : List (Entry σ)) : List Bytes :=
  log.flatMap fun e => e.req.outcmd :: pieces e.req.outdata

def answerPackets (log : List (Entry σ)) : List Bytes := log.flatMap fun e => e.answer

/-- The headers `start_hostfs` reads. -/
def headers (log : List (Entry σ)) : List Bytes := log.map fun e => e.req.outcmd

/-- The link empty, the PC at a header boundary, and the driver at `client`, after the
exchanges of the log. -/
def atRest {A : Type} (client : Proc UInt8 A) (h : Host σ) (log : List (Entry σ)) :
    Config UInt8 A (Host σ) :=
  idle client h (requestPackets log) (answerPackets log) (headers log)

/-- The program runs from `h` to `h'` in the exchanges of the log. -/
inductive Ran (os : HostOs σ) {A : Type} : IoProg A → Host σ → A → Host σ → List (Entry σ) → Prop
  | ret (a : A) (h : Host σ) : Ran os (.ret a) h a h []
  | xchg {req : XchgRequest} {next : XchgResult → IoProg A} {a : A} {e : Entry σ} {h' : Host σ}
      {log : List (Entry σ)} (hreq : e.req = req) (hexact : e.Exact os)
      (hrest : Ran os (next e.result) e.after a h' log) :
      Ran os (.xchg req next) e.before a h' (e :: log)

theorem Ran.exact {A : Type} {prog : IoProg A} {h h' : Host σ} {a : A} {log : List (Entry σ)}
    (hran : Ran os prog h a h' log) : ∀ e ∈ log, e.Exact os := by
  induction hran with
  | ret => simp
  | xchg _ hexact _ ih =>
      rintro e (_ | ⟨_, he⟩)
      · exact hexact
      · exact ih e he

theorem atRest_append_cons {A : Type} (client : Proc UInt8 A) (h : Host σ) (before : List (Entry σ))
    (e : Entry σ) :
    atRest client h (before ++ [e]) =
      idle client h (requestPackets before ++ e.req.outcmd :: pieces e.req.outdata)
        (answerPackets before ++ e.answer) (headers before ++ [e.req.outcmd]) := by
  simp [atRest, requestPackets, answerPackets, headers]

theorem cmdSize_le (command : HostFsCommand) : command.cmdSize ≤ requestBuffer := by
  cases command <;> decide

theorem concludes_commandXchg (sizes : RecvSizes) {e : Entry σ} (he : e.Exact os)
    (before : List (Entry σ)) :
    Concludes (startHostfs os) requestBuffer (atRest (commandXchg sizes e.req) e.before before)
      (atRest (.done e.result) e.after (before ++ [e])) := by
  have hlimit : e.req.outcmd.length ≤ requestBuffer := by
    rw [he.exchanged.outcmd_length]
    exact cmdSize_le _
  rw [atRest_append_cons, commandXchg_eq sizes (hlimit.trans (by decide))]
  exact concludes_exchange hlimit (pieces_proper _) he.exchanged.proper
    (by rw [pieces_flatten, he.exchanged.served]) he.exchanged.endsSending
    (he.exchanged.received sizes)

/-- A program that runs in the exchanges of a log does so on the link, whatever the
sizes of the transfers and the order of steps. -/
theorem Ran.concludes {A : Type} {prog : IoProg A} {h h' : Host σ} {a : A}
    {log : List (Entry σ)} (hran : Ran os prog h a h' log) (sizes : ℕ → RecvSizes) (k : ℕ)
    (before : List (Entry σ)) :
    Concludes (startHostfs os) requestBuffer (atRest (prog.toProc sizes k) h before)
      (atRest (.done a) h' (before ++ log)) := by
  induction hran generalizing k before with
  | ret a h =>
      rw [List.append_nil]
      exact concludes_done a h
  | @xchg req next a e h' log hreq hexact hrest ih =>
      subst hreq
      have hafter := ih (k + 1) (before ++ [e])
      rw [List.append_assoc, List.singleton_append] at hafter
      exact (concludes_commandXchg (sizes k) hexact before).bind hafter

/-- The program runs from `h` to `h'` in some exchanges. -/
def Runs (os : HostOs σ) {A : Type} (prog : IoProg A) (h : Host σ) (a : A) (h' : Host σ) : Prop :=
  ∃ log, Ran os prog h a h' log

theorem runs_ret {A : Type} (a : A) (h : Host σ) : Runs os (.ret a) h a h := ⟨[], .ret a h⟩

theorem runs_of_answers {A : Type} {req : XchgRequest} {next : XchgResult → IoProg A} {a : A}
    {h h' : Host σ} {command : HostFsCommand} {reply : Reply × Host σ} (hreq : Sendable req)
    (hanswers : Answers command (doHostfs os h req.outcmd) req.outdata reply)
    (hok : ReplyOk req reply.1) (hrest : Runs os (next (takenReply command reply.1)) reply.2 a h') :
    Runs os (.xchg req next) h a h' := by
  obtain ⟨log, hran⟩ := hrest
  let e : Entry σ :=
    { req := req, before := h, answer := replyPackets command reply.1
      result := takenReply command reply.1, after := reply.2 }
  have hexact : e.Exact os :=
    { exchanged := exchanged_of_answers hreq.outcmd_length hanswers hok
      framed := replyPackets_framed hok hreq.outdata_length hreq.fits }
  exact ⟨e :: log, @Ran.xchg σ os A req next a e h' log rfl hexact hran⟩

theorem runs_exchangeOnce (arg : PspIoDrvFileArg) {req : XchgRequest} {h : Host σ}
    {command : HostFsCommand} {reply : Reply × Host σ} (hreq : Sendable req)
    (hanswers : Answers command (doHostfs os h req.outcmd) req.outdata reply)
    (hok : ReplyOk req reply.1) (onResponse : XchgResult → IoResult) :
    Runs os (exchangeOnce true arg req onResponse) h
      (onResponse (takenReply command reply.1)) reply.2 :=
  runs_of_answers hreq hanswers hok (runs_ret _ _)

/-- A program has one way to run from a state of the PC. -/
theorem Runs.unique {A : Type} {prog : IoProg A} {h h' h'' : Host σ} {a a' : A}
    (hruns : Runs os prog h a h') (hruns' : Runs os prog h a' h'') : a = a' ∧ h' = h'' := by
  obtain ⟨log, hran⟩ := hruns
  obtain ⟨log', hran'⟩ := hruns'
  have hend := (hran.concludes (fun _ => ⟨id, id⟩) 0 []).settles.unique
    (hran'.concludes (fun _ => ⟨id, id⟩) 0 []).settles
  have hclient := congrArg Config.client hend
  have hserver := congrArg Config.server hend
  simp only [atRest, idle, Proc.done.injEq] at hclient hserver
  exact ⟨hclient, hserver⟩

/-- An exchange that is carried out takes the data its header announces. -/
theorem Runs.framed {arg : PspIoDrvFileArg} {req : XchgRequest} {h h' : Host σ} {r : IoResult}
    {onResponse : XchgResult → IoResult}
    (hruns : Runs os (exchangeOnce true arg req onResponse) h r h') :
    req.outcmd.length = req.command.cmdSize ∧
      req.outdata.length = req.extralen.toInt.toNat ∧
      req.outdata.length ≤ dataBuffer req.command := by
  obtain ⟨log, hran⟩ := hruns
  rw [exchangeOnce, if_pos rfl] at hran
  cases hran with
  | @xchg _ _ _ e _ _ hreq hexact =>
      subst hreq
      exact ⟨hexact.exchanged.outcmd_length, hexact.framed.request, hexact.framed.fits⟩

theorem Runs.sendable_path {arg : PspIoDrvFileArg} {command : HostFsCommand}
    {fields name : Bytes} {inlen : ℤ} {h h' : Host σ} {r : IoResult}
    {onResponse : XchgResult → IoResult}
    (hruns : Runs os (exchangeOnce true arg (pathRequest command fields name inlen) onResponse)
      h r h') (hcommand : NamesPath command) (hinlen : command = .getstat → 0 < inlen) :
    Sendable (pathRequest command fields name inlen) := by
  obtain ⟨houtcmd, houtdata, hfits⟩ := hruns.framed
  refine ⟨houtcmd, houtdata, hfits, ?_⟩
  have hlength : (pathRequest command fields name inlen).outdata.length = name.length + 1 := by
    simp [pathRequest, terminated]
  have hpos : 0 < (pathRequest command fields name inlen).extralen.toInt := by omega
  cases command with
  | getstat => exact ⟨hpos, hinlen rfl⟩
  | _ => first | exact hpos | exact hcommand.elim

/-- A program of requests as the PC expects them runs to its end, whatever the state of
the PC and the operating system. -/
theorem runs_of_sends {A : Type} {prog : IoProg A} (hprog : Sends Sendable prog) (h : Host σ) :
    ∃ a h', Runs os prog h a h' := by
  induction prog generalizing h with
  | ret a => exact ⟨a, h, runs_ret a h⟩
  | xchg req next ih =>
      obtain ⟨hreq, hnext⟩ := hprog
      obtain ⟨command, reply, hanswers, hok⟩ := @answered_of_sendable σ os req hreq h
      obtain ⟨a, h', hrest⟩ := ih _ (hnext (takenReply command reply.1)) reply.2
      exact ⟨a, h', runs_of_answers hreq hanswers hok hrest⟩

/-- A call of the driver, and whether the PC is connected when it is made. -/
structure Made where
  connected : Bool
  arg : PspIoDrvFileArg
  call : IoCall

/-- The calls run one after the other from `h` to `h'`, each in exchanges of its own, and the log
is all of these. -/
inductive RanCalls (os : HostOs σ) (h : Host σ) : List Made → Host σ → List (Entry σ) → Prop
  | start : RanCalls os h [] h []
  | call {calls : List Made} {h₁ h₂ : Host σ} {log log' : List (Entry σ)} {made : Made}
      (hcalls : RanCalls os h calls h₁ log)
      (hran : Ran os (made.call.prog made.connected made.arg) h₁ () h₂ log') :
      RanCalls os h (calls ++ [made]) h₂ (log ++ log')

theorem RanCalls.exact {calls : List Made} {h h' : Host σ} {log : List (Entry σ)}
    (hran : RanCalls os h calls h' log) : ∀ e ∈ log, e.Exact os := by
  induction hran with
  | start => simp
  | call _ hran ih =>
      intro e he
      rcases List.mem_append.mp he with he | he
      · exact ih e he
      · exact hran.exact e he

/-- The states of a session with the calls made so far: it starts with an empty link and any
state of the PC; the driver, when no call is running, makes a call; and driver and PC take steps
in any order. The transfers of each call complete in sizes of their own. -/
inductive Session (os : HostOs σ) (h : Host σ) : List Made → Config UInt8 Unit (Host σ) → Prop
  | start : Session os h [] (atRest (.done ()) h [])
  | call {calls : List Made} {c : Config UInt8 Unit (Host σ)} (hc : Session os h calls c)
      (hreturned : c.client = .done ()) {made : Made} (hcall : Valid made.call)
      (sizes : ℕ → RecvSizes) :
      Session os h (calls ++ [made])
        { c with client := (made.call.prog made.connected made.arg).toProc sizes 0 }
  | step {calls : List Made} {c d : Config UInt8 Unit (Host σ)} (hc : Session os h calls c)
      (hstep : Step (startHostfs os) requestBuffer c d) : Session os h calls d

/-- In every state of a session the running call comes to its end, in whatever order the steps
are taken, with the link empty and the PC waiting for a header; what went over the link are the
exchanges of each call in turn, one for each request that it makes, and each took exactly what
was sent. When no call is running, that is the state. -/
theorem exchange_framing {h : Host σ} {calls : List Made} {c : Config UInt8 Unit (Host σ)}
    (hc : Session os h calls c) :
    ∃ h' log, RanCalls os h calls h' log ∧ (∀ e ∈ log, Entry.Exact os e) ∧
      Settles (Step (startHostfs os) requestBuffer) c (atRest (.done ()) h' log) ∧
      (∀ a, c.client = .done a → c = atRest (.done ()) h' log) := by
  suffices hconcludes : ∃ h' log, RanCalls os h calls h' log ∧
      Concludes (startHostfs os) requestBuffer c (atRest (.done ()) h' log) by
    obtain ⟨h', log, hran, hc⟩ := hconcludes
    exact ⟨h', log, hran, hran.exact, hc.settles, fun a => hc.returned 0 c a (.refl c)⟩
  induction hc with
  | start => exact ⟨h, [], .start, concludes_done () h⟩
  | @call calls c _ hreturned made hcall sizes ih =>
      obtain ⟨h₁, log, hcalls, hc⟩ := ih
      obtain rfl := hc.returned 0 c () (.refl c) hreturned
      obtain ⟨_, h₂, log', hran⟩ :=
        @runs_of_sends σ os _ _ (sends_call made.connected made.arg hcall) h₁
      exact ⟨h₂, log ++ log', .call hcalls hran, hran.concludes sizes 0 log⟩
  | step _ hstep ih =>
      obtain ⟨h', log, hran, hc⟩ := ih
      exact ⟨h', log, hran, hc.step hstep⟩

theorem Session.steps {h : Host σ} {calls : List Made} {n : ℕ} {c d : Config UInt8 Unit (Host σ)}
    (hc : Session os h calls c) (hsteps : Steps (Step (startHostfs os) requestBuffer) n c d) :
    Session os h calls d := by
  induction hsteps with
  | refl c => exact hc
  | head hstep _ ih => exact ih (hc.step hstep)

/-- Any calls can be made one after the other. -/
theorem session_calls (os : HostOs σ) (h : Host σ) {calls : List Made}
    (hcalls : ∀ made ∈ calls, Valid made.call) :
    ∃ h' log, Session os h calls (atRest (.done ()) h' log) := by
  induction calls using List.reverseRecOn with
  | nil => exact ⟨h, [], .start⟩
  | append_singleton calls made ih =>
      obtain ⟨h₁, log, hc⟩ := ih fun made hmade => hcalls made (List.mem_append_left _ hmade)
      have hcall : Valid made.call :=
        hcalls made (List.mem_append_right _ (List.mem_singleton_self made))
      obtain ⟨_, h₂, log', hran⟩ :=
        @runs_of_sends σ os _ _ (sends_call made.connected made.arg hcall) h₁
      have hsizes : ℕ → RecvSizes := fun _ => ⟨id, id⟩
      obtain ⟨n, hrun⟩ := (hran.concludes hsizes 0 log).run
      exact ⟨h₂, log ++ log', (hc.call rfl hcall hsizes).steps hrun⟩

/-- Two bytes are read from a file, the rest is asked for, and the file is closed. -/
def readCalls : List Made :=
  [⟨true, ⟨0, 3⟩, .read (some fun _ => 0) 2⟩, ⟨true, ⟨0, 3⟩, .read (some fun _ => 0) 70000⟩,
    ⟨true, ⟨0, 3⟩, .close⟩]

theorem exchange_framing_read :
    ∃ h' log, RanCalls fileOs (oneFile [1, 2, 3] []) readCalls h' log ∧
      (∀ e ∈ log, Entry.Exact fileOs e) ∧
      Settles (Step (startHostfs fileOs) requestBuffer) (atRest (.done ()) h' log)
        (atRest (.done ()) h' log) := by
  have hvalid : ∀ made ∈ readCalls, Valid made.call := by simp [readCalls, Valid]
  obtain ⟨h', log, hc⟩ := session_calls fileOs (oneFile [1, 2, 3] []) hvalid
  obtain ⟨h'', log', hran, hexact, hsettles, hrest⟩ := exchange_framing hc
  rw [hrest () rfl] at hsettles
  exact ⟨h'', log', hran, hexact, hsettles⟩

end PsplinkUsb.HostFs.Framing
