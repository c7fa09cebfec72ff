import PsplinkUsb.Library.Run
import PsplinkUsb.Psplink.ParseThread
import PsplinkUsb.Pspsh.ScriptRunning

namespace PsplinkUsb.Pspsh.Lockstep

open PsplinkUsb.Library.CString
open PsplinkUsb.Library.Run
open PsplinkUsb.Psplink.UsbShell hiding Bytes
open PsplinkUsb.Psplink.ParseThread (CmdResult Outcome Phase argvOf hexWord reply shellExecute
  readInput_command readInput_empty)
open PsplinkUsb.Pspsh.Operands (text)
open PsplinkUsb.Pspsh.ParseArgs (Bytes)
open PsplinkUsb.Pspsh.PlainWords
open PsplinkUsb.Pspsh.ExecuteLine
open PsplinkUsb.Pspsh.LineSending
open PsplinkUsb.Pspsh.ScriptRunning

/-- A frame on its way to `pspsh`, and the command it answers. -/
structure Frame where
  str : Bytes
  answers : Option (List Bytes)
deriving DecidableEq, Repr

structure System where
  pc : GlobalContext
  phase : Phase
  cli : Buffer
  frames : List Frame
  connected : Bool

/-- How `pspsh` is started: for what is typed, for a script, or for a command line. -/
structure Started where
  vars : Bytes → Option CStr
  script : Bool
  exec : CStr
  fscript : Option (List CStr)
  sargv : List CStr
  typed : script = false → exec.val = [] ∧ fscript = none

def start (p : Started) (cli : Buffer) : System where
  pc :=
    { vars := p.vars, sargv := p.sargv, fscript := p.fscript, exec := p.exec, script := p.script
      exit := false, lasterr := false, asmmode := false, asmaddr := 0, ttymode := false
      crashed := false, sock := [], log := [] }
  phase := .starting
  cli := cli
  frames := []
  connected := false

/-- The keys that are bound to a command. -/
inductive Key where
  | reset | step | skip
deriving DecidableEq, Repr

def Key.word : Key → Bytes
  | .reset => text "reset"
  | .step => text "step"
  | .skip => text "skip"

inductive Action where
  | prompt (currdir : Bytes)
  | connect
  | readInput
  | output (str : Bytes)
  | answer (outcome : Outcome)
  | receive
  | typeLine (buf : CStr) (file : Option (List CStr))
  | key (key : Key)

def commandsOf (log : List Event) : List (List Bytes) :=
  log.filterMap fun
    | .sent _ argv => some argv
    | .answered _ => none

def answersOf (log : List Event) : List (List Bytes) :=
  log.filterMap fun
    | .sent _ _ => none
    | .answered argv => some argv

/-- `pspsh` notes which command a frame answers. -/
def heard (f : Frame) (pc : GlobalContext) : GlobalContext :=
  match f.answers with
  | none => pc
  | some argv => { pc with log := pc.log ++ [.answered argv] }

/-- The line that `shell` executes first. -/
def cdDot : CStr := toCStr (text "cd .")

/-- There is somebody at the keyboard, and `shell` still looks. -/
def AtPrompt (s : System) : Prop :=
  s.connected = true ∧ s.pc.script = false ∧ s.pc.exit = false ∧ s.pc.crashed = false

instance (s : System) : Decidable (AtPrompt s) := inferInstanceAs (Decidable (_ ∧ _ ∧ _ ∧ _))

def step (commands : List Psplink.ParseThread.ShCommand) (s : System) : Action → Option System
  | .prompt currdir =>
      if s.phase = .starting then
        some { s with
          phase := .reading
          -- without a client the frames of `psplinkPrintPrompt` are lost
          frames := s.frames ++
            if s.connected then
              [⟨shellCmdCwd :: currdir, none⟩, ⟨shellCmdSuccess :: hexWord 0, none⟩]
            else [] }
      else none
  | .connect =>
      if s.connected then none
      else some { s with connected := true, pc := (executeLine false cdDot s.pc).2 }
  | .readInput =>
      if s.phase = .reading then
        (usbShellReadInput s.cli maxCli Psplink.ParseThread.maxArgs (s.pc.sock.map some)).map
          fun p =>
            { s with
              pc := { s.pc with sock := p.2.reduceOption }
              cli := p.1.cli
              phase := if argvOf p.1 = [] then .reading else .executing (argvOf p.1) }
      else none
  | .output str =>
      match s.phase with
      | .executing _ =>
          if IsReply str then none else some { s with frames := s.frames ++ [⟨str, none⟩] }
      | _ => none
  | .answer outcome =>
      match s.phase with
      | .executing argv =>
          match reply (shellExecute commands argv outcome) with
          | some str => some { s with frames := s.frames ++ [⟨str, some argv⟩], phase := .reading }
          | none => some { s with phase := .exited argv }
      | _ => none
  | .receive =>
      match s.frames with
      | f :: frames =>
          if s.pc.crashed then none
          else some { s with frames := frames, pc := processCmd f.str (heard f s.pc) }
      | [] => none
  | .typeLine buf file =>
      if AtPrompt s then some { s with pc := cliHandler buf file s.pc } else none
  | .key key =>
      if AtPrompt s then some { s with pc := (executeLine false (toCStr key.word) s.pc).2 } else none

/-- Every command sent has been answered. -/
def Answered (log : List Event) : Prop := (answersOf log).length = (commandsOf log).length

instance (log : List Event) : Decidable (Answered log) := inferInstanceAs (Decidable (_ = _))

/-- A typed line is a command the PSP can read, or starts a script fit to be run, when no
command is under way. -/
def RequestOk (buf : CStr) (file : Option (List CStr)) (s : GlobalContext) : Prop :=
  match request buf s with
  | .settled _ => True
  | .line line => LineOk s.env line
  | .script cmd => Answered s.log ∧
      ((openedScript cmd file s).1 = true → RunOk (openedScript cmd file s).2)

instance (buf : CStr) (file : Option (List CStr)) (s : GlobalContext) :
    Decidable (RequestOk buf file s) :=
  match h : request buf s with
  | .settled _ => .isTrue (by simp [RequestOk, h])
  | .line line => decidable_of_iff (LineOk s.env line) (by simp [RequestOk, h])
  | .script cmd =>
      decidable_of_iff (Answered s.log ∧
        ((openedScript cmd file s).1 = true → RunOk (openedScript cmd file s).2))
        (by simp [RequestOk, h])

/-- Scripts are started with no command under way, have no `asm` lines and no lines without a
first word; no key sends a command while one runs; and `pspsh` connects to a shell that has
shown its prompt. -/
def Disciplined (s : System) : Action → Prop
  | .connect => s.phase ≠ .starting
  | .receive => ∀ f ∈ s.frames.head?, IsReply f.str → RunOk (replied f.str (heard f s.pc))
  | .typeLine buf file => RequestOk buf file s.pc
  | .key _ => ¬InScript s.pc
  | _ => True

instance decidableDisciplined (s : System) : (a : Action) → Decidable (Disciplined s a)
  | .prompt _ => inferInstanceAs (Decidable True)
  | .connect => inferInstanceAs (Decidable (_ ≠ _))
  | .readInput => inferInstanceAs (Decidable True)
  | .output _ => inferInstanceAs (Decidable True)
  | .answer _ => inferInstanceAs (Decidable True)
  | .receive => inferInstanceAs (Decidable (∀ f ∈ s.frames.head?, (_ → _)))
  | .typeLine buf file => inferInstanceAs (Decidable (RequestOk buf file s.pc))
  | .key _ => inferInstanceAs (Decidable (¬_))

/-- When a line of a script was sent, every command sent before had been answered. -/
def ScriptsWait (log : List Event) : Prop :=
  ∀ before argv after, log = before ++ .sent true argv :: after → Answered before

/-- Nothing is under way between the two. -/
def Idle (s : System) : Prop := s.pc.sock = [] ∧ s.frames = [] ∧ s.phase = .reading

/-- The frames answer the commands in order, each command once; and a script waits for each of
its lines, and is not left waiting for nothing. -/
structure InLockstep (commands : List Psplink.ParseThread.ShCommand) (s : System) : Prop where
  order : answersOf s.pc.log <+: commandsOf s.pc.log
  all : Idle s → answersOf s.pc.log = commandsOf s.pc.log
  goesOn : s.connected = true → s.pc.crashed = false → (∀ argv, s.phase ≠ .exited argv) →
    Idle s ∨ ∃ a, (a = .readInput ∨ a = .receive ∨ ∃ outcome, a = .answer outcome) ∧
      (step commands s a).isSome
  scripts : ScriptsWait s.pc.log
  running : s.connected = true → InScript s.pc → s.pc.exit = false →
    s.pc.crashed = false ∧ (commandsOf s.pc.log).length = (answersOf s.pc.log).length + 1

/-- What the PSP has yet to read: commands, and what is left of words with a byte 1 in them. -/
inductive Pending : Bytes → List (List Bytes) → Prop
  | nil : Pending [] []
  | rest {left sock : Bytes} {cmds : List (List Bytes)} (hleft : 0 ∉ left)
      (h : Pending sock cmds) : Pending (left ++ 1 :: sock) cmds
  | command {m : Message} {sock : Bytes} {cmds : List (List Bytes)} (hm : m.Clean)
      (h : Pending sock cmds) : Pending (m.bytes ++ sock) (m.argv :: cmds)

def working : Phase → List (List Bytes)
  | .executing argv => [argv]
  | .exited argv => [argv]
  | _ => []

/-- Every command sent is answered, on its way as a frame, executed or waiting to be read. -/
def Accounted (s : System) : Prop :=
  ∃ cmds, Pending s.pc.sock cmds ∧
    commandsOf s.pc.log =
      answersOf s.pc.log ++ s.frames.filterMap Frame.answers ++ working s.phase ++ cmds

structure Inv (s : System) : Prop where
  accounted : Accounted s
  frames : ∀ f ∈ s.frames, IsReply f.str ↔ f.answers ≠ none
  starting : s.phase = .starting → s.connected = false
  fresh : s.connected = false → s.pc.log = [] ∧ s.pc.sock = [] ∧ s.frames = [] ∧
    s.pc.crashed = false
  scripts : ScriptsWait s.pc.log
  mode : s.pc.exec.val ≠ [] → s.pc.script = true
  running : s.connected = true → InScript s.pc → s.pc.crashed = false ∧
    ((commandsOf s.pc.log).length = (answersOf s.pc.log).length + 1 ∨
      Answered s.pc.log ∧ s.pc.exit = true)

variable {commands : List Psplink.ParseThread.ShCommand} {s s' : System} {pc pc' : GlobalContext}
  {a : Action} {sock : Bytes} {cmds : List (List Bytes)} {msgs : List Message} {log : List Event}
  {script : Bool}

theorem commandsOf_append (log more : List Event) :
    commandsOf (log ++ more) = commandsOf log ++ commandsOf more := List.filterMap_append ..

theorem answersOf_append (log more : List Event) :
    answersOf (log ++ more) = answersOf log ++ answersOf more := List.filterMap_append ..

theorem commandsOf_sent (script : Bool) (msgs : List Message) :
    commandsOf (msgs.map fun m => .sent script m.argv) = msgs.map Message.argv := by
  rw [commandsOf, List.filterMap_map]
  exact congrFun List.filterMap_eq_map msgs

theorem answersOf_sent (script : Bool) (msgs : List Message) :
    answersOf (msgs.map fun m => .sent script m.argv) = [] := by
  rw [answersOf, List.filterMap_map]
  exact List.filterMap_eq_nil_iff.mpr fun _ _ => rfl

theorem Pending.append (h : Pending sock cmds) (hclean : ∀ m ∈ msgs, m.Clean) :
    Pending (sock ++ msgs.flatMap Message.bytes) (cmds ++ msgs.map Message.argv) := by
  induction h with
  | nil =>
      induction msgs with
      | nil => exact .nil
      | cons m msgs ih =>
          rw [List.flatMap_cons, List.map_cons]
          exact .command (hclean m List.mem_cons_self)
            (ih fun m hm => hclean m (List.mem_cons_of_mem _ hm))
  | rest hleft _ ih =>
      rw [List.append_assoc, List.cons_append]
      exact .rest hleft ih
  | command hm _ ih =>
      rw [List.append_assoc, List.cons_append]
      exact .command hm ih

theorem split_one {left : Bytes} (hleft : 0 ∉ left) (h : Pending sock cmds) :
    ∃ front back, left ++ 1 :: sock = front ++ 1 :: back ∧ 0 ∉ front ∧ 1 ∉ front ∧
      front.length ≤ left.length ∧ Pending back cmds := by
  by_cases hone : 1 ∈ left
  · obtain ⟨front, back, rfl, hfront⟩ := List.eq_append_cons_of_mem hone
    rw [List.mem_append, List.mem_cons, not_or, not_or] at hleft
    refine ⟨front, back ++ 1 :: sock, by simp, hleft.1, hfront, by simp, ?_⟩
    exact .rest hleft.2.2 h
  · exact ⟨left, sock, rfl, hleft, hone, le_rfl, h⟩

theorem Pending.read (h : Pending sock cmds) (hsome : sock ≠ []) (cli : Buffer) :
    ∃ t later, usbShellReadInput cli maxCli Psplink.ParseThread.maxArgs (sock.map some) =
        some (t, later) ∧
      ∃ cmds', Pending later.reduceOption cmds' ∧
        cmds = working (if argvOf t = [] then .reading else .executing (argvOf t)) ++ cmds' := by
  have hreads : (sock.map some).reduceOption = sock := by
    rw [List.reduceOption, List.filterMap_map]
    exact List.filterMap_some
  cases h with
  | nil => exact absurd rfl hsome
  | @rest left sock _ hleft h =>
      obtain ⟨front, back, hsplit, hzero, hone, -, hback⟩ := split_one hleft h
      obtain ⟨t, later, hread, hargv, hlater⟩ := @readInput_empty front back _ cli hzero hone
        (hreads.trans hsplit)
      refine ⟨t, later, hread, cmds, hlater ▸ hback, ?_⟩
      rw [if_pos hargv]
      rfl
  | @command m sock cmds hm h =>
      obtain ⟨front, back, hsplit, hzero, hone, hle, hback⟩ := split_one hm.left h
      have hfits := hm.fits
      have hcommand : m.bytes ++ sock = strings m.argv ++ front ++ 1 :: back := by
        rw [Message.bytes, List.append_assoc, List.append_assoc, List.singleton_append, hsplit,
          List.append_assoc]
      obtain ⟨t, later, hread, hargv, hlater⟩ := @readInput_command front back m.argv _ cli hm.args
        hm.count hzero hone (by omega) (hreads.trans hcommand)
      refine ⟨t, later, hread, cmds, hlater ▸ hback, ?_⟩
      rw [hargv, if_neg hm.some]
      rfl

theorem scriptsWait_append_sent (h : ScriptsWait log) (hmsgs : msgs.length ≤ 1)
    (hanswered : script = true → msgs ≠ [] → Answered log) :
    ScriptsWait (log ++ msgs.map fun m => .sent script m.argv) := by
  intro before argv after hsplit
  rcases List.eq_nil_or_concat' after with rfl | ⟨after, e, rfl⟩
  · cases msgs with
    | nil =>
        rw [List.map_nil, List.append_nil] at hsplit
        exact h before argv [] hsplit
    | cons m msgs =>
        obtain rfl : msgs = [] := by
          rw [List.length_cons] at hmsgs
          exact List.length_eq_zero_iff.mp (by omega)
        obtain ⟨rfl, hlast⟩ := List.append_inj' hsplit rfl
        obtain ⟨rfl, -⟩ := Event.sent.inj (List.singleton_inj.mp hlast)
        exact hanswered rfl (List.cons_ne_nil _ _)
  · cases msgs with
    | nil =>
        rw [List.map_nil, List.append_nil] at hsplit
        exact h before argv (after ++ [e]) hsplit
    | cons m msgs =>
        obtain rfl : msgs = [] := by
          rw [List.length_cons] at hmsgs
          exact List.length_eq_zero_iff.mp (by omega)
        rw [← List.cons_append, ← List.append_assoc] at hsplit
        exact h before argv after (List.append_inj_left' hsplit rfl)

theorem scriptsWait_append_answered (h : ScriptsWait log) (argv : List Bytes) :
    ScriptsWait (log ++ [.answered argv]) := by
  intro before argv' after hsplit
  rcases List.eq_nil_or_concat' after with rfl | ⟨after, e, rfl⟩
  · obtain ⟨-, hlast⟩ := List.append_inj' hsplit rfl
    cases List.singleton_inj.mp hlast
  · rw [← List.cons_append, ← List.append_assoc] at hsplit
    exact h before argv' after (List.append_inj_left' hsplit rfl)

/-- `pspsh` sends what the PSP can read: for a script once all is answered. -/
structure Adds (script : Bool) (pc pc' : GlobalContext) : Prop where
  sends : ∃ msgs : List Message, msgs.length ≤ 1 ∧ (∀ m ∈ msgs, m.Clean) ∧
    pc'.sock = pc.sock ++ msgs.flatMap Message.bytes ∧
    pc'.log = pc.log ++ msgs.map fun m => .sent script m.argv
  answered : script = true → Answered pc.log

theorem Adds.accounted (h : Adds script s.pc pc') (hacc : Accounted s) :
    Accounted { s with pc := pc' } := by
  obtain ⟨⟨msgs, -, hclean, hsock, hlog⟩, -⟩ := h
  obtain ⟨cmds, hpending, hcommands⟩ := hacc
  refine ⟨cmds ++ msgs.map Message.argv, ?_, ?_⟩
  · rw [hsock]
    exact hpending.append hclean
  · rw [hlog, commandsOf_append, commandsOf_sent, answersOf_append, answersOf_sent, hcommands,
      List.append_nil]
    simp only [List.append_assoc]

theorem Adds.scripts (h : Adds script pc pc') (hwait : ScriptsWait pc.log) :
    ScriptsWait pc'.log := by
  obtain ⟨⟨msgs, hlength, -, -, hlog⟩, hanswered⟩ := h
  rw [hlog]
  exact scriptsWait_append_sent hwait hlength fun hscript _ => hanswered hscript

theorem Sends.adds (h : Sends false msgs pc pc') (hlength : msgs.length ≤ 1) : Adds false pc pc' :=
  ⟨⟨msgs, hlength, h.clean, h.sock, h.log⟩, fun h => absurd h Bool.false_ne_true⟩

/-- A run of `execute_script_line` leaves the script waiting for an answer, or over. -/
theorem Ran.running {sent : Bool} (h : Ran pc sent pc') (hanswered : Answered pc.log)
    (hin : InScript pc') :
    (commandsOf pc'.log).length = (answersOf pc'.log).length + 1 ∨
      Answered pc'.log ∧ pc'.exit = true := by
  obtain ⟨msgs, hlength, -, -, hlog⟩ := h.sends
  rw [Answered] at hanswered
  rw [Answered, hlog, commandsOf_append, commandsOf_sent, answersOf_append, answersOf_sent,
    List.append_nil, List.length_append, List.length_map, hlength]
  cases sent with
  | true =>
      left
      rw [hanswered]
      rfl
  | false => exact .inr ⟨hanswered, h.stopped rfl hin⟩

theorem not_inScript_iff : ¬InScript pc ↔ pc.exec.val = [] ∧ pc.fscript = none := by
  rw [InScript, not_or, not_not, not_not]

theorem executeScriptLine_of_not_inScript (h : ¬InScript pc) :
    executeScriptLine pc = (false, pc) := by
  obtain ⟨hexec, hnone⟩ := not_inScript_iff.mp h
  rw [executeScriptLine, if_neg (not_not.mpr hexec), hnone]

theorem Sends.not_inScript (h : Sends script msgs pc pc') (hout : ¬InScript pc) :
    ¬InScript pc' := by
  rw [not_inScript_iff] at hout ⊢
  rwa [h.exec, h.fscript]

theorem request_settled {buf : CStr} (h : request buf pc = .settled pc')
    (hmode : pc.exec.val ≠ [] → pc.script = true) (htyped : pc.script = false) :
    pc'.sock = pc.sock ∧ pc'.log = pc.log ∧ pc'.exec = pc.exec ∧ pc'.script = pc.script ∧
      (InScript pc' → InScript pc ∧ pc'.crashed = pc.crashed ∧ pc'.exit = pc.exit) := by
  have hexec : pc.exec.val = [] := by
    by_contra hne
    rw [hmode hne] at htyped
    cases htyped
  rw [request] at h
  split at h
  · obtain rfl := Request.settled.inj h
    split
    · exact ⟨rfl, rfl, rfl, rfl, fun hin => ⟨hin, rfl, rfl⟩⟩
    · exact ⟨rfl, rfl, rfl, rfl, fun hin => ⟨hin, rfl, rfl⟩⟩
  · split at h
    · obtain rfl := Request.settled.inj h
      split
      · exact ⟨rfl, rfl, rfl, rfl, fun hin => ⟨hin, rfl, rfl⟩⟩
      · exact ⟨rfl, rfl, rfl, rfl, fun hin => ⟨hin, rfl, rfl⟩⟩
    · split at h
      · obtain rfl := Request.settled.inj h
        split
        · exact ⟨rfl, rfl, rfl, rfl, fun hin => absurd hin (not_inScript_closeScript hexec)⟩
        · exact ⟨rfl, rfl, rfl, rfl, fun hin => ⟨hin, rfl, rfl⟩⟩
      · rename_i hout
        split at h
        · split at h
          · cases h
          · obtain rfl := Request.settled.inj h
            exact ⟨rfl, rfl, rfl, rfl, fun hin => ⟨hin, rfl, rfl⟩⟩
          · obtain rfl := Request.settled.inj h
            exact ⟨rfl, rfl, rfl, rfl, fun hin => absurd hin hout⟩
        · split at h
          · obtain rfl := Request.settled.inj h
            exact ⟨rfl, rfl, rfl, rfl, fun hin => ⟨hin, rfl, rfl⟩⟩
          · split at h
            · cases h
            · cases h

theorem request_not_inScript {buf : CStr} (h : ∀ pc', request buf pc ≠ .settled pc') :
    ¬InScript pc := by
  intro hin
  rw [request] at h
  split at h
  · exact h _ rfl
  · split at h
    · exact h _ rfl
    · exact h _ rfl

theorem openedScript_spec (cmd : CStr) (file : Option (List CStr)) (hout : ¬InScript pc) :
    (openedScript cmd file pc).2.sock = pc.sock ∧ (openedScript cmd file pc).2.log = pc.log ∧
      (openedScript cmd file pc).2.exec = pc.exec ∧
      (openedScript cmd file pc).2.script = pc.script ∧
      ((openedScript cmd file pc).1 = true → (openedScript cmd file pc).2.crashed = pc.crashed) ∧
      ((openedScript cmd file pc).1 = false → ¬InScript (openedScript cmd file pc).2) := by
  rw [openedScript]
  dsimp only
  split
  · split
    · exact ⟨rfl, rfl, rfl, rfl, fun h => absurd h Bool.false_ne_true, fun _ => hout⟩
    · cases file with
      | none =>
          exact ⟨rfl, rfl, rfl, rfl, fun h => absurd h Bool.false_ne_true,
            fun _ => not_inScript_closeScript (not_inScript_iff.mp hout).1⟩
      | some lines => exact ⟨rfl, rfl, rfl, rfl, fun _ => rfl, fun h => absurd h.symm Bool.false_ne_true⟩
  · exact ⟨rfl, rfl, rfl, rfl, fun h => absurd h Bool.false_ne_true, fun _ => hout⟩

theorem Adds.refl (pc : GlobalContext) : Adds false pc pc :=
  ⟨⟨[], Nat.zero_le _, by simp, by simp, by simp⟩, fun h => absurd h Bool.false_ne_true⟩

theorem Adds.of_eq {pc'' : GlobalContext} (h : Adds script pc pc') (hsock : pc''.sock = pc'.sock)
    (hlog : pc''.log = pc'.log) : Adds script pc pc'' where
  sends := by
    rw [hsock, hlog]
    exact h.sends
  answered := h.answered

theorem Inv.adds (h : Inv s) (hadds : Adds script s.pc pc') (hconnected : s.connected = true)
    (hmode : pc'.exec.val ≠ [] → pc'.script = true)
    (hrunning : InScript pc' → pc'.crashed = false ∧
      ((commandsOf pc'.log).length = (answersOf pc'.log).length + 1 ∨
        Answered pc'.log ∧ pc'.exit = true)) :
    Inv { s with pc := pc' } where
  accounted := hadds.accounted h.accounted
  frames := h.frames
  starting := h.starting
  fresh := fun hnot => by simp [hconnected] at hnot
  scripts := hadds.scripts h.scripts
  mode := hmode
  running := fun _ => hrunning

theorem executeScript_inv (cmd : CStr) (file : Option (List CStr)) (h : Inv s)
    (hprompt : AtPrompt s) (hout : ¬InScript s.pc) (hanswered : Answered s.pc.log)
    (hok : (openedScript cmd file s.pc).1 = true → RunOk (openedScript cmd file s.pc).2) :
    Inv { s with pc := executeScript cmd file s.pc } := by
  obtain ⟨hsock, hlog, hexec, -, hcrashed, hclosed⟩ := openedScript_spec cmd file hout
  have hempty : (openedScript cmd file s.pc).2.exec.val = [] := by
    rw [hexec]
    exact (not_inScript_iff.mp hout).1
  have hmode : (openedScript cmd file s.pc).2.exec.val ≠ [] →
      (openedScript cmd file s.pc).2.script = true := fun hne => absurd hempty hne
  rw [executeScript]
  generalize openedScript cmd file s.pc = result at *
  obtain ⟨isOpen, opened⟩ := result
  dsimp only at *
  cases isOpen with
  | false =>
      rw [if_neg Bool.false_ne_true]
      exact h.adds ((Adds.refl s.pc).of_eq hsock hlog) hprompt.1 hmode
        fun hin => absurd hin (hclosed rfl)
  | true =>
      rw [if_pos rfl]
      have hcrash := (hcrashed rfl).trans hprompt.2.2.2
      have hanswered' : Answered opened.log := by rwa [hlog]
      have hran := executeScriptLine_ran (hok rfl) hmode hcrash
      obtain ⟨msgs, hlength, hclean, hsock', hlog'⟩ := hran.sends
      have hadds : Adds true s.pc (executeScriptLine opened).2 :=
        ⟨⟨msgs, hlength.trans_le (Bool.toNat_le _), hclean, hsock'.trans (by rw [hsock]),
          hlog'.trans (by rw [hlog])⟩, fun _ => hanswered⟩
      exact h.adds hadds hprompt.1 (fun hne => absurd hempty (hran.exec hne))
        fun hin => ⟨hran.crashed.trans hcrash, Ran.running hran hanswered' hin⟩

theorem typeLine_inv {buf : CStr} {file : Option (List CStr)} (h : Inv s) (hprompt : AtPrompt s)
    (hok : RequestOk buf file s.pc) : Inv { s with pc := cliHandler buf file s.pc } := by
  rw [cliHandler]
  rw [RequestOk] at hok
  cases hrequest : request buf s.pc with
  | settled pc' =>
      obtain ⟨hsock, hlog, hexec, hscript, hin⟩ := request_settled hrequest h.mode hprompt.2.1
      refine h.adds ((Adds.refl s.pc).of_eq hsock hlog) hprompt.1 ?_ fun hin' => ?_
      · rw [hexec, hscript]
        exact h.mode
      · obtain ⟨hin, hcrashed, hexit⟩ := hin hin'
        rw [hcrashed, hexit, hlog]
        exact h.running hprompt.1 hin
  | line line =>
      rw [hrequest] at hok
      have hout : ¬InScript s.pc := @request_not_inScript s.pc buf fun pc' => by simp [hrequest]
      obtain ⟨msgs, hsends, hlength⟩ := @executeLine_sends line s.pc false hok
      refine h.adds (Sends.adds hsends hlength) hprompt.1 ?_ fun hin => ?_
      · rw [hsends.exec, hsends.script]
        exact h.mode
      · exact absurd hin (Sends.not_inScript hsends hout)
  | script cmd =>
      rw [hrequest] at hok
      have hout : ¬InScript s.pc := @request_not_inScript s.pc buf fun pc' => by simp [hrequest]
      exact executeScript_inv cmd file h hprompt hout hok.1 hok.2

theorem key_word (key : Key) : PlainWord key.word ∧ key.word.head? ≠ some numberSign ∧
    ¬(dot ∈ key.word ∨ slash ∈ key.word) ∧ findCommand key.word = none ∧
    (toCStr key.word).val = spaced [key.word] ∧ (0 ∉ key.word ∧ 1 ∉ key.word) ∧
    (strings [key.word]).length < maxCli := by
  cases key with
  | reset =>
      exact ⟨plainWord_of_all (by decide) (by decide), by decide, by decide, by decide, rfl,
        by decide, by decide⟩
  | step =>
      exact ⟨plainWord_of_all (by decide) (by decide), by decide, by decide, by decide, rfl,
        by decide, by decide⟩
  | skip =>
      exact ⟨plainWord_of_all (by decide) (by decide), by decide, by decide, by decide, rfl,
        by decide, by decide⟩

theorem executeLine_sends_words {words : List Bytes} {line : CStr}
    (h : ∀ word ∈ words, PlainWord word ∧ 0 ∉ word ∧ 1 ∉ word) (hsome : words ≠ [])
    (hroom : words.length < Psplink.ParseThread.maxArgs)
    (hfirst : (words.headD []).head? ≠ some numberSign)
    (hpath : ¬(dot ∈ words.headD [] ∨ slash ∈ words.headD []))
    (hcmd : findCommand (words.headD []) = none) (hline : line.val = spaced words)
    (hfits : (strings words).length < maxCli) :
    Adds false pc (executeLine false line pc).2 ∧
      (executeLine false line pc).2 = pc.send false (strings words ++ [1]) words := by
  have hsent := @executeLine_words line pc false words (fun word hword => (h word hword).1) hsome
    hroom hfirst hpath hcmd hline
  rw [hsent]
  have hclean : Message.Clean ⟨words, []⟩ :=
    ⟨hsome, fun word hword => (h word hword).2, List.not_mem_nil, hroom.le, by simpa using hfits⟩
  refine ⟨⟨⟨[⟨words, []⟩], le_rfl, ?_, ?_, ?_⟩, fun h => absurd h Bool.false_ne_true⟩, rfl⟩
  · simpa using hclean
  · simp [GlobalContext.send, Message.bytes]
  · simp [GlobalContext.send]

theorem key_inv (key : Key) (h : Inv s) (hprompt : AtPrompt s) (hout : ¬InScript s.pc) :
    Inv { s with pc := (executeLine false (toCStr key.word) s.pc).2 } := by
  obtain ⟨hplain, hfirst, hpath, hcmd, hline, hbytes, hfits⟩ := key_word key
  obtain ⟨hadds, hsent⟩ := @executeLine_sends_words s.pc [key.word] (toCStr key.word)
    (by simpa using ⟨hplain, hbytes⟩) (List.cons_ne_nil _ _) (show 1 < 16 by decide) hfirst hpath
    hcmd hline hfits
  refine h.adds hadds hprompt.1 ?_ fun hin => ?_
  · rw [hsent]
    exact h.mode
  · rw [hsent] at hin
    exact absurd hin hout

theorem connect_inv (h : Inv s) (hnot : s.connected = false) (hstarted : s.phase ≠ .starting) :
    Inv { s with connected := true, pc := (executeLine false cdDot s.pc).2 } := by
  obtain ⟨hlog, hsock, hframes, hcrashed⟩ := h.fresh hnot
  have hplain : ∀ word ∈ [text "cd", text "."], PlainWord word ∧ 0 ∉ word ∧ 1 ∉ word := by
    intro word hword
    rcases List.mem_pair.mp hword with rfl | rfl
    · exact ⟨plainWord_of_all (by decide) (by decide), by decide, by decide⟩
    · exact ⟨plainWord_of_all (by decide) (by decide), by decide, by decide⟩
  obtain ⟨hadds, hsent⟩ := @executeLine_sends_words s.pc [text "cd", text "."] cdDot hplain
    (List.cons_ne_nil _ _) (by decide) (by decide) (by decide) (by decide) rfl (by decide)
  exact {
    accounted := hadds.accounted h.accounted
    frames := h.frames
    starting := fun hstarting => absurd hstarting hstarted
    fresh := fun hfalse => by cases hfalse
    scripts := hadds.scripts h.scripts
    mode := by
      rw [hsent]
      exact h.mode
    running := by
      intro _ _
      rw [hsent]
      refine ⟨hcrashed, .inl ?_⟩
      simp [GlobalContext.send, hlog, commandsOf, answersOf] }

theorem readInput_nil (cli : Buffer) : usbShellReadInput cli maxCli Psplink.ParseThread.maxArgs [] =
    none := rfl

theorem readInput_inv {p : ReadInput × Reads} (h : Inv s) (hreading : s.phase = .reading)
    (hread : usbShellReadInput s.cli maxCli Psplink.ParseThread.maxArgs (s.pc.sock.map some) =
      some p) :
    Inv { s with
      pc := { s.pc with sock := p.2.reduceOption }
      cli := p.1.cli
      phase := if argvOf p.1 = [] then .reading else .executing (argvOf p.1) } := by
  obtain ⟨cmds, hpending, hcommands⟩ := h.accounted
  have hsome : s.pc.sock ≠ [] := by
    intro hnil
    rw [hnil, List.map_nil, readInput_nil] at hread
    cases hread
  obtain ⟨t, later, hread', cmds', hpending', hcmds⟩ := hpending.read hsome s.cli
  obtain rfl : (t, later) = p := Option.some.inj (hread'.symm.trans hread)
  refine ⟨⟨cmds', hpending', ?_⟩, h.frames, fun hstarting => ?_, fun hnot => ?_, h.scripts, h.mode,
    h.running⟩
  · have hnone : working .reading = [] := rfl
    rw [hcommands, hreading, hnone, hcmds, List.append_nil, ← List.append_assoc]
  · dsimp only at hstarting
    split at hstarting
    · cases hstarting
    · cases hstarting
  · exact absurd (h.fresh hnot).2.1 hsome

theorem isReply_of_reply {result : CmdResult × Psplink.ParseThread.Word} {str : Bytes}
    (h : reply result = some str) : IsReply str := by
  obtain ⟨ret, vRet⟩ := result
  cases ret with
  | ok =>
      obtain rfl := Option.some.inj h
      exact .inl rfl
  | error =>
      obtain rfl := Option.some.inj h
      exact .inr rfl
  | exitShell => cases h

theorem answer_inv {argv : List Bytes} {outcome : Outcome} (h : Inv s)
    (hphase : s.phase = .executing argv) (hstep : step commands s (.answer outcome) = some s') :
    Inv s' := by
  obtain ⟨cmds, hpending, hcommands⟩ := h.accounted
  have hstarted : s.phase ≠ .starting := by simp [hphase]
  have hconnected : s.connected = true := by
    by_contra hnot
    obtain ⟨hlog, -⟩ := h.fresh (Bool.eq_false_of_not_eq_true hnot)
    simp [hlog, hphase, commandsOf, answersOf, working] at hcommands
  simp only [step, hphase] at hstep
  split at hstep
  · rename_i str hreply
    obtain rfl := Option.some.inj hstep
    refine ⟨⟨cmds, hpending, ?_⟩, fun f hf => ?_, fun h => (by cases h), fun hnot => ?_, h.scripts,
      h.mode, h.running⟩
    · simp [hcommands, hphase, working]
    · rcases List.mem_append.mp hf with hf | hf
      · exact h.frames f hf
      · obtain rfl := List.mem_singleton.mp hf
        exact iff_of_true (isReply_of_reply hreply) (Option.some_ne_none _)
    · simp [hconnected] at hnot
  · obtain rfl := Option.some.inj hstep
    refine ⟨⟨cmds, hpending, ?_⟩, h.frames, fun h => (by cases h), h.fresh, h.scripts, h.mode,
      h.running⟩
    rw [hcommands, hphase]
    rfl

theorem output_inv {argv : List Bytes} {str : Bytes} (h : Inv s)
    (hphase : s.phase = .executing argv) (hreply : ¬IsReply str) :
    Inv { s with frames := s.frames ++ [⟨str, none⟩] } := by
  obtain ⟨cmds, hpending, hcommands⟩ := h.accounted
  have hconnected : s.connected = true := by
    by_contra hnot
    obtain ⟨hlog, -⟩ := h.fresh (Bool.eq_false_of_not_eq_true hnot)
    simp [hlog, hphase, commandsOf, answersOf, working] at hcommands
  refine ⟨⟨cmds, hpending, ?_⟩, fun f hf => ?_, h.starting, fun hnot => ?_, h.scripts, h.mode,
    h.running⟩
  · simpa using hcommands
  · rcases List.mem_append.mp hf with hf | hf
    · exact h.frames f hf
    · obtain rfl := List.mem_singleton.mp hf
      exact iff_of_false hreply fun hne => hne rfl
  · simp [hconnected] at hnot

theorem prompt_inv {currdir : Bytes} (hstart : s.phase = .starting) (h : Inv s) :
    Inv { s with
      phase := .reading
      frames := s.frames ++
        if s.connected then [⟨shellCmdCwd :: currdir, none⟩, ⟨shellCmdSuccess :: hexWord 0, none⟩]
        else [] } := by
  obtain ⟨cmds, hpending, hcommands⟩ := h.accounted
  have hnot := h.starting hstart
  rw [hnot, if_neg Bool.false_ne_true, List.append_nil]
  refine ⟨⟨cmds, hpending, ?_⟩, h.frames, fun h => (by cases h), fun _ => h.fresh hnot, h.scripts,
    h.mode, fun h => (by cases h)⟩
  rw [hcommands, hstart]
  rfl

theorem processCmd_reply {str : Bytes} (h : IsReply str) (pc : GlobalContext) :
    (processCmd str pc).sock = (executeScriptLine (replied str pc)).2.sock ∧
      (processCmd str pc).log = (executeScriptLine (replied str pc)).2.log ∧
      (processCmd str pc).exec = (executeScriptLine (replied str pc)).2.exec ∧
      (processCmd str pc).fscript = (executeScriptLine (replied str pc)).2.fscript ∧
      (processCmd str pc).script = (executeScriptLine (replied str pc)).2.script ∧
      (processCmd str pc).exit = (executeScriptLine (replied str pc)).2.exit ∧
      (processCmd str pc).crashed = (executeScriptLine (replied str pc)).2.crashed := by
  have hcwd : str.head? ≠ some shellCmdCwd := by
    rcases h with h | h
    · rw [h]
      decide
    · rw [h]
      decide
  rw [processCmd, if_neg hcwd, if_pos h]
  dsimp only
  split
  · split
    · exact ⟨rfl, rfl, rfl, rfl, rfl, rfl, rfl⟩
    · exact ⟨rfl, rfl, rfl, rfl, rfl, rfl, rfl⟩
  · exact ⟨rfl, rfl, rfl, rfl, rfl, rfl, rfl⟩

theorem processCmd_other {str : Bytes} (h : ¬IsReply str) (pc : GlobalContext) :
    ∃ vars, processCmd str pc = { pc with vars := vars } := by
  rw [processCmd, if_neg h]
  split
  · exact ⟨_, rfl⟩
  · exact ⟨pc.vars, rfl⟩

theorem replied_spec (str : Bytes) (pc : GlobalContext) :
    (replied str pc).sock = pc.sock ∧ (replied str pc).log = pc.log ∧
      (replied str pc).exec = pc.exec ∧ (replied str pc).script = pc.script ∧
      (replied str pc).crashed = pc.crashed ∧ (¬InScript pc → ¬InScript (replied str pc)) := by
  simp only [replied]
  split
  · split
    · rename_i hin
      exact ⟨rfl, rfl, rfl, rfl, rfl, fun hout => absurd hin hout⟩
    · exact ⟨rfl, rfl, rfl, rfl, rfl, id⟩
  · exact ⟨rfl, rfl, rfl, rfl, rfl, id⟩

theorem processCmd_adds {str : Bytes} (hreply : IsReply str) (hok : RunOk (replied str pc))
    (hmode : pc.exec.val ≠ [] → pc.script = true) (hcrashed : pc.crashed = false)
    (hanswered : InScript pc → Answered pc.log) :
    (∃ script, Adds script pc (processCmd str pc)) ∧
      ((processCmd str pc).exec.val ≠ [] → (processCmd str pc).script = true) ∧
      (InScript (processCmd str pc) → (processCmd str pc).crashed = false ∧
        ((commandsOf (processCmd str pc).log).length =
            (answersOf (processCmd str pc).log).length + 1 ∨
          Answered (processCmd str pc).log ∧ (processCmd str pc).exit = true)) := by
  obtain ⟨hsock, hlog, hexec, hfscript, hscript, hexit, hcrash⟩ := processCmd_reply hreply pc
  obtain ⟨hsock', hlog', hexec', hscript', hcrash', hout'⟩ := replied_spec str pc
  have hin_iff : InScript (processCmd str pc) ↔
      InScript (executeScriptLine (replied str pc)).2 := by
    rw [InScript, InScript, hexec, hfscript]
  rw [hin_iff, hlog, hexec, hscript, hexit, hcrash]
  by_cases hin : InScript pc
  · have hran := executeScriptLine_ran hok (by rwa [hexec', hscript']) (hcrash'.trans hcrashed)
    have hdone : Answered (replied str pc).log := by
      rw [hlog']
      exact hanswered hin
    obtain ⟨msgs, hlength, hclean, hsock'', hlog''⟩ := hran.sends
    refine ⟨⟨true, ⟨⟨msgs, hlength.trans_le (Bool.toNat_le _), hclean, ?_, ?_⟩,
      fun _ => hanswered hin⟩⟩, fun hne => ?_, fun hin' => ?_⟩
    · rw [hsock, hsock'', hsock']
    · rw [hlog, hlog'', hlog']
    · rw [hran.script, hscript']
      exact hmode (by rw [← hexec']; exact hran.exec hne)
    · exact ⟨hran.crashed.trans (hcrash'.trans hcrashed), Ran.running hran hdone hin'⟩
  · rw [executeScriptLine_of_not_inScript (hout' hin)] at hsock hlog ⊢
    refine ⟨⟨false, (Adds.refl pc).of_eq (hsock.trans hsock') (hlog.trans hlog')⟩, ?_, fun hin' => ?_⟩
    · dsimp only
      rwa [hexec', hscript']
    · exact absurd hin' (hout' hin)

theorem receive_inv {f : Frame} {frames : List Frame} (h : Inv s) (hframes : s.frames = f :: frames)
    (hcrashed : s.pc.crashed = false)
    (hok : IsReply f.str → RunOk (replied f.str (heard f s.pc))) :
    Inv { s with frames := frames, pc := processCmd f.str (heard f s.pc) } := by
  obtain ⟨cmds, hpending, hcommands⟩ := h.accounted
  have hf := h.frames f (by simp [hframes])
  have hrest : ∀ f ∈ frames, IsReply f.str ↔ f.answers ≠ none :=
    fun f hf => h.frames f (by simp [hframes, hf])
  have hconnected : s.connected = true := by
    by_contra hnot
    obtain ⟨-, -, hnil, -⟩ := h.fresh (Bool.eq_false_of_not_eq_true hnot)
    rw [hnil] at hframes
    cases hframes
  rw [hframes] at hcommands
  cases hanswers : f.answers with
  | none =>
      have hother : ¬IsReply f.str := fun hreply => hf.mp hreply hanswers
      obtain ⟨vars, heq⟩ := processCmd_other hother s.pc
      have hheard : heard f s.pc = s.pc := by simp [heard, hanswers]
      rw [hheard, heq]
      refine ⟨⟨cmds, hpending, ?_⟩, hrest, h.starting, fun hnot => ?_, h.scripts, h.mode,
        h.running⟩
      · rw [hcommands, List.filterMap_cons_none hanswers]
      · simp [hconnected] at hnot
  | some argv =>
      have hreply : IsReply f.str := hf.mpr (by simp [hanswers])
      have hheard : heard f s.pc = { s.pc with log := s.pc.log ++ [.answered argv] } := by
        simp [heard, hanswers]
      specialize hok hreply
      rw [hheard] at hok ⊢
      have hcommands' : commandsOf (s.pc.log ++ [.answered argv]) =
          answersOf (s.pc.log ++ [.answered argv]) ++ frames.filterMap Frame.answers ++
            working s.phase ++ cmds := by
        have hone : commandsOf [.answered argv] = [] := rfl
        have hanswer : answersOf [.answered argv] = [argv] := rfl
        rw [commandsOf_append, answersOf_append, hcommands, hone, hanswer,
          List.filterMap_cons_some hanswers]
        simp
      have hlast : InScript s.pc → Answered (s.pc.log ++ [.answered argv]) := by
        intro hin
        have hlength := congrArg List.length hcommands
        rw [List.filterMap_cons_some hanswers] at hlength
        simp only [List.length_append, List.length_cons] at hlength
        rw [Answered, commandsOf_append, answersOf_append, List.length_append, List.length_append]
        change (answersOf s.pc.log).length + 1 = (commandsOf s.pc.log).length + 0
        rcases (h.running hconnected hin).2 with hone | ⟨hdone, -⟩
        · omega
        · rw [Answered] at hdone
          omega
      obtain ⟨⟨script, hadds⟩, hmode, hrunning⟩ :=
        @processCmd_adds { s.pc with log := s.pc.log ++ [.answered argv] } f.str hreply hok h.mode
          hcrashed hlast
      exact {
        accounted := @Adds.accounted
          { s with frames := frames, pc := { s.pc with log := s.pc.log ++ [.answered argv] } } _ _
          hadds ⟨cmds, hpending, hcommands'⟩
        frames := hrest
        starting := h.starting
        fresh := fun hnot => by simp [hconnected] at hnot
        scripts := hadds.scripts (scriptsWait_append_answered h.scripts argv)
        mode := hmode
        running := fun _ => hrunning }

theorem start_inv (p : Started) (cli : Buffer) : Inv (start p cli) where
  accounted := ⟨[], .nil, rfl⟩
  frames := fun f hf => absurd hf List.not_mem_nil
  starting := fun _ => rfl
  fresh := fun _ => ⟨rfl, rfl, rfl, rfl⟩
  scripts := by
    intro before argv after hsplit
    cases before with
    | nil => cases hsplit
    | cons e before => cases hsplit
  mode := by
    intro hne
    by_contra hnot
    exact hne (p.typed (Bool.eq_false_of_not_eq_true hnot)).1
  running := fun h => by cases h

theorem step_inv (h : Inv s) (hok : Disciplined s a) (hstep : step commands s a = some s') :
    Inv s' := by
  cases a with
  | prompt currdir =>
      simp only [step] at hstep
      split at hstep
      · rename_i hstarting
        obtain rfl := Option.some.inj hstep
        exact prompt_inv hstarting h
      · cases hstep
  | connect =>
      simp only [step] at hstep
      split at hstep
      · cases hstep
      · rename_i hnot
        obtain rfl := Option.some.inj hstep
        exact connect_inv h (Bool.eq_false_of_not_eq_true hnot) hok
  | readInput =>
      simp only [step] at hstep
      split at hstep
      · rename_i hreading
        obtain ⟨p, hread, rfl⟩ := Option.map_eq_some_iff.mp hstep
        exact readInput_inv h hreading hread
      · cases hstep
  | output str =>
      simp only [step] at hstep
      split at hstep
      · rename_i hphase
        split at hstep
        · cases hstep
        · rename_i hreply
          obtain rfl := Option.some.inj hstep
          exact output_inv h hphase hreply
      · cases hstep
  | answer outcome =>
      cases hphase : s.phase with
      | executing argv => exact answer_inv h hphase hstep
      | starting => simp [step, hphase] at hstep
      | reading => simp [step, hphase] at hstep
      | exited argv => simp [step, hphase] at hstep
  | receive =>
      simp only [step] at hstep
      split at hstep
      · rename_i f frames hframes
        split at hstep
        · cases hstep
        · rename_i hcrashed
          obtain rfl := Option.some.inj hstep
          exact receive_inv h hframes (Bool.eq_false_of_not_eq_true hcrashed)
            (hok f (by simp [hframes]))
      · cases hstep
  | typeLine buf file =>
      simp only [step] at hstep
      split at hstep
      · rename_i hprompt
        obtain rfl := Option.some.inj hstep
        exact typeLine_inv h hprompt hok
      · cases hstep
  | key key =>
      simp only [step] at hstep
      split at hstep
      · rename_i hprompt
        obtain rfl := Option.some.inj hstep
        exact key_inv key h hprompt hok
      · cases hstep

theorem Pending.nil_eq (h : Pending [] cmds) : cmds = [] := by
  generalize hsock : ([] : Bytes) = sock at h
  cases h with
  | nil => rfl
  | rest => simp at hsock
  | command => simp [Message.bytes] at hsock

theorem Inv.goesOn (h : Inv s) (hconnected : s.connected = true) (hcrashed : s.pc.crashed = false)
    (hhere : ∀ argv, s.phase ≠ .exited argv) :
    Idle s ∨ ∃ a, (a = .readInput ∨ a = .receive ∨ ∃ outcome, a = .answer outcome) ∧
      (step commands s a).isSome := by
  obtain ⟨cmds, hpending, -⟩ := h.accounted
  cases hphase : s.phase with
  | starting => simp [h.starting hphase] at hconnected
  | exited argv => exact absurd hphase (hhere argv)
  | executing argv =>
      refine .inr ⟨.answer (.returns .ok 0), .inr (.inr ⟨_, rfl⟩), ?_⟩
      simp only [step, hphase]
      split
      · rfl
      · rfl
  | reading =>
      rcases eq_or_ne s.pc.sock [] with hsock | hsock
      · cases hframes : s.frames with
        | nil => exact .inl ⟨hsock, hframes, hphase⟩
        | cons f frames =>
            refine .inr ⟨.receive, .inr (.inl rfl), ?_⟩
            simp [step, hframes, hcrashed]
      · obtain ⟨t, later, hread, -⟩ := hpending.read hsock s.cli
        refine .inr ⟨.readInput, .inl rfl, ?_⟩
        simp [step, hphase, hread]

theorem Inv.inLockstep (h : Inv s) : InLockstep commands s where
  order := by
    obtain ⟨cmds, -, hcommands⟩ := h.accounted
    rw [hcommands, List.append_assoc, List.append_assoc]
    exact List.prefix_append _ _
  all := by
    rintro ⟨hsock, hframes, hphase⟩
    obtain ⟨cmds, hpending, hcommands⟩ := h.accounted
    rw [hsock] at hpending
    rw [hcommands, hframes, hphase, hpending.nil_eq]
    simp [working]
  goesOn := h.goesOn
  scripts := h.scripts
  running := by
    intro hconnected hin hexit
    obtain ⟨hcrashed, hone | ⟨-, hleft⟩⟩ := h.running hconnected hin
    · exact ⟨hcrashed, hone⟩
    · simp [hexit] at hleft

/-- In a disciplined run, commands and answers go in lockstep. -/
theorem shell_lockstep (p : Started) (commands : List Psplink.ParseThread.ShCommand) (cli : Buffer)
    {actions : List Action} {s : System}
    (hrun : Reaches (step commands) Disciplined (start p cli) actions s) :
    InLockstep commands s :=
  Inv.inLockstep (hrun.invariant (start_inv p cli) fun _ _ _ => step_inv)

/-- `pspsh` started for a script. -/
def scripted (lines : List CStr) : Started where
  vars := fun _ => none
  script := true
  exec := emptyStr
  fscript := some lines
  sargv := []
  typed := fun h => by cases h

def anyCli : Buffer := fun _ => 0

/-- Some of the commands on the PSP. -/
def someCommands : List Psplink.ParseThread.ShCommand :=
  [⟨text "ls", some (text "dir"), 0⟩, ⟨text "chdir", some (text "cd"), 1⟩,
   ⟨text "calc", none, 1⟩]

/-- A comment and a command, up to the answer to the command. -/
theorem shell_lockstep_comment :
    ∃ s, Reaches (step someCommands) Disciplined
        (start (scripted [toCStr (text "# list"), toCStr (text "ls")]) anyCli)
        [.prompt (text "ms0:/"), .connect, .readInput, .answer (.returns .ok 0), .receive,
          .readInput, .answer (.returns .ok 0), .receive] s ∧
      s.pc.log = [.sent false [text "cd", text "."], .answered [text "cd", text "."],
        .sent true [text "ls"], .answered [text "ls"]] ∧
      InLockstep someCommands s := by
  have hfound : ∃ s, Reaches (step someCommands) Disciplined
      (start (scripted [toCStr (text "# list"), toCStr (text "ls")]) anyCli)
      [.prompt (text "ms0:/"), .connect, .readInput, .answer (.returns .ok 0), .receive,
        .readInput, .answer (.returns .ok 0), .receive] s ∧
      decide (s.pc.log = [.sent false [text "cd", text "."], .answered [text "cd", text "."],
        .sent true [text "ls"], .answered [text "ls"]]) = true :=
    exists_reaches (by decide +kernel)
  obtain ⟨s, hrun, hlog⟩ := hfound
  exact ⟨s, hrun, of_decide_eq_true hlog, shell_lockstep _ _ _ hrun⟩

/-- The line after `asm` is sent before `calc` has been answered. -/
theorem asm_line_overtaken :
    ∃ s, Reaches (step someCommands) anyStep
        (start (scripted [toCStr (text "asm 4"), toCStr (text "ls")]) anyCli)
        [.prompt (text "ms0:/"), .connect, .readInput, .answer (.returns .ok 0), .receive] s ∧
      s.pc.log = [.sent false [text "cd", text "."], .answered [text "cd", text "."],
        .sent true [text "calc", text "4"], .sent true [text "ls"]] ∧
      ¬ScriptsWait s.pc.log := by
  have hfound : ∃ s, Reaches (step someCommands) anyStep
      (start (scripted [toCStr (text "asm 4"), toCStr (text "ls")]) anyCli)
      [.prompt (text "ms0:/"), .connect, .readInput, .answer (.returns .ok 0), .receive] s ∧
      decide (s.pc.log = [.sent false [text "cd", text "."], .answered [text "cd", text "."],
        .sent true [text "calc", text "4"], .sent true [text "ls"]]) = true :=
    exists_reaches (by decide +kernel)
  obtain ⟨s, hrun, hend⟩ := hfound
  have hlog := of_decide_eq_true hend
  refine ⟨s, hrun, hlog, fun hwait => ?_⟩
  have hbefore := hwait [.sent false [text "cd", text "."], .answered [text "cd", text "."],
    .sent true [text "calc", text "4"]] [text "ls"] [] hlog
  exact absurd hbefore (by decide)

end PsplinkUsb.Pspsh.Lockstep
