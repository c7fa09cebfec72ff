import PsplinkUsb.Pspsh.LineSending

/-!
Scripts in `pspsh/pspsh.C`: `execute_script_line` sends the next line, at the start of a script and
from `process_cmd` when a command is answered; `cli_handler` takes what is typed.
-/

namespace PsplinkUsb.Pspsh.ScriptRunning

open PsplinkUsb.Library.Ascii
open PsplinkUsb.Library.CString
open PsplinkUsb.Library.Numerals
open PsplinkUsb.Pspsh.Asm (asmAssemble)
open PsplinkUsb.Pspsh.Operands (text)
open PsplinkUsb.Pspsh.ParseArgs
open PsplinkUsb.Pspsh.ExecuteLine
open PsplinkUsb.Pspsh.LineSending

def shellCmdSuccess : UInt8 := 0xFD
def shellCmdError : UInt8 := 0xFC
def shellCmdCwd : UInt8 := 0xFB

/-- `PATH_MAX` on the PC. -/
def pathMax : ℕ := 4096

theorem zero_not_mem_nil : (0 : UInt8) ∉ ([] : Bytes) := List.not_mem_nil

def emptyStr : CStr := ⟨[], zero_not_mem_nil⟩

def closeScript (s : GlobalContext) : GlobalContext :=
  { s with fscript := none, sargv := [], exit := s.exit ∨ s.script }

/-- `open_script`, by what `fopen` gives. There is memory for the arguments. -/
def openScript (file : Option (List CStr)) (args : List Bytes) (s : GlobalContext) :
    Bool × GlobalContext :=
  match file with
  | none => (false, closeScript s)
  | some lines => (true, { closeScript s with fscript := some lines, sargv := args.map toCStr })

def InScript (s : GlobalContext) : Prop := s.exec.val ≠ [] ∨ s.fscript ≠ none

instance (s : GlobalContext) : Decidable (InScript s) :=
  match h : s.fscript with
  | none => decidable_of_iff (s.exec.val ≠ []) (by simp [InScript, h])
  | some _ => .isTrue (.inr (by simp [h]))

/-- The loop of `execute_script_line` over the lines of the script. -/
def executeLines : List CStr → GlobalContext → Bool × GlobalContext
  | [], s => (false, closeScript { s with fscript := some [] })
  | line :: lines, s =>
      let (sent, s) := executeLine true line { s with fscript := some lines }
      if s.crashed ∨ sent then (sent, s) else executeLines lines s

/-- Whether a line was sent, by `execute_script_line`. -/
def executeScriptLine (s : GlobalContext) : Bool × GlobalContext :=
  if s.exec.val ≠ [] then
    let (sent, s) := executeLine true s.exec s
    let s := { s with exec := toCStr [0x20] }
    if s.crashed ∨ sent then (sent, s) else (false, closeScript s)
  else
    match s.fscript with
    | none => (false, s)
    | some lines => executeLines lines s

/-- The part of `execute_script` before the first line: whether the script is open. -/
def openedScript (cmd : CStr) (file : Option (List CStr)) (s : GlobalContext) :
    Bool × GlobalContext :=
  let cli := parseCli { s.env with sargc := 0, sargv := none } maxArgs cmd
  if 0 < cli.1 then
    match argvStrings cli.2 with
    | [] => (false, { s with crashed := true })
    | arg :: args => openScript file (arg :: args) s
  else (false, s)

def executeScript (cmd : CStr) (file : Option (List CStr)) (s : GlobalContext) : GlobalContext :=
  let (isOpen, s) := openedScript cmd file s
  if isOpen then (executeScriptLine s).2 else s

/-- What a typed line is taken for: settled at once, a line to execute, or a script to run. -/
inductive Request where
  | settled (s : GlobalContext)
  | line (line : CStr)
  | script (cmd : CStr)

def request (buf : CStr) (s : GlobalContext) : Request :=
  if s.ttymode then
    .settled (if buf.val.take 2 = text "~." then { s with ttymode := false } else s)
  else
    match buf.val.dropWhile isSpace with
    | [] => .settled (if s.asmmode then { s with asmmode := false, asmaddr := 0 } else s)
    | ch :: rest =>
        if InScript s then .settled (if ch :: rest = text "stop" then closeScript s else s)
        else if s.asmmode then
          match asmAssemble (ch :: rest) s.asmaddr with
          | .ok opcode =>
              .line (toCStr (text "pokew 0x" ++ padded 8 16 s.asmaddr.toNat ++ text " 0x" ++
                padded 8 16 opcode.toNat ++ [0x20]))
          | .error .rejected => .settled s
          | .error .nullDereference => .settled { s with crashed := true }
        -- a command of the PC, and one for `usbhostfs_pc`
        else if ch = 0x21 ∨ ch = atSign then .settled s
        else if ch = 0x25 then .script (toCStr rest)
        else .line (toCStr (ch :: rest))

/-- `cli_handler`; a script that is opened has the lines `file`. -/
def cliHandler (buf : CStr) (file : Option (List CStr)) (s : GlobalContext) : GlobalContext :=
  match request buf s with
  | .settled s => s
  | .line line => (executeLine false line s).2
  | .script cmd => executeScript cmd file s

def IsReply (str : Bytes) : Prop :=
  str.head? = some shellCmdSuccess ∨ str.head? = some shellCmdError

instance (str : Bytes) : Decidable (IsReply str) := inferInstanceAs (Decidable (_ ∨ _))

/-- `process_cmd` before it goes on with the script. -/
def replied (str : Bytes) (s : GlobalContext) : GlobalContext :=
  let s :=
    if str.head? = some shellCmdError then
      { (if InScript s then closeScript s else s) with lasterr := true }
    else { s with lasterr := false }
  s.setenv (text "?") (str.drop 1)

/-- `process_cmd`, but for what it prints. -/
def processCmd (str : Bytes) (s : GlobalContext) : GlobalContext :=
  if str.head? = some shellCmdCwd then
    s.setenv (text "PSPPWD") ((cstr (str.drop 1)).take (pathMax - 1))
  else if IsReply str then
    let (sent, s) := executeScriptLine (replied str s)
    if ¬sent ∧ ¬s.script then
      if s.asmmode then
        let addr := ((strtoul 0 (str.drop 1)).map Prod.fst).getD 0
        { s with asmaddr := if s.asmaddr = 0 then BitVec.ofNat 32 addr else s.asmaddr + 4 }
      else { s with ttymode := false }
    else s
  else s

/-- Every line of a script that is executed up to the next one sent is fit for a script. -/
def LinesOk : List CStr → GlobalContext → Prop
  | [], _ => True
  | line :: lines, s =>
      ScriptLineOk s.env line ∧
        ((executeLine true line { s with fscript := some lines }).1 = false →
          LinesOk lines (executeLine true line { s with fscript := some lines }).2)

instance decidableLinesOk : (lines : List CStr) → (s : GlobalContext) → Decidable (LinesOk lines s)
  | [], _ => .isTrue trivial
  | line :: lines, s =>
      have := decidableLinesOk lines (executeLine true line { s with fscript := some lines }).2
      inferInstanceAs (Decidable (_ ∧ (_ → _)))

/-- What `execute_script_line` executes is fit for a script. -/
def RunOk (s : GlobalContext) : Prop :=
  (s.exec.val ≠ [] → ScriptLineOk s.env s.exec) ∧
    (s.exec.val = [] → ∀ lines ∈ s.fscript, LinesOk lines s)

instance (s : GlobalContext) : Decidable (RunOk s) :=
  inferInstanceAs (Decidable ((_ → _) ∧ (_ → ∀ lines ∈ s.fscript, _)))

/-- At most one command is sent, and if none is then no script goes on. -/
structure Ran (s : GlobalContext) (sent : Bool) (s' : GlobalContext) : Prop where
  script : s'.script = s.script
  exec : s'.exec.val ≠ [] → s.exec.val ≠ []
  crashed : s'.crashed = s.crashed
  sends : ∃ msgs : List Message, msgs.length = sent.toNat ∧ (∀ m ∈ msgs, m.Clean) ∧
    s'.sock = s.sock ++ msgs.flatMap Message.bytes ∧
    s'.log = s.log ++ msgs.map fun m => .sent true m.argv
  stopped : sent = false → InScript s' → s'.exit = true

variable {s : GlobalContext} {line : CStr} {lines : List CStr} {msgs : List Message}

theorem not_inScript_closeScript (hexec : s.exec.val = []) : ¬InScript (closeScript s) := by
  rintro (h | h)
  · exact h hexec
  · exact h rfl

theorem scriptLine_sends (hline : ScriptLineOk s.env line) (hcrashed : s.crashed = false) :
    ∃ msgs, Sends true msgs s (executeLine true line s).2 ∧
      msgs.length = (executeLine true line s).1.toNat ∧
      (executeLine true line s).2.crashed = false := by
  obtain ⟨hcommand, hasm, hwords⟩ := hline
  obtain ⟨msgs, hsends, hlength, hcrash⟩ := executeLineWith_sends hcommand hasm
  exact ⟨msgs, hsends, hlength, (hcrash hwords).trans hcrashed⟩

theorem executeLines_ran (lines : List CStr) {s : GlobalContext} (hok : LinesOk lines s)
    (hexec : s.exec.val = []) (hcrashed : s.crashed = false) :
    Ran s (executeLines lines s).1 (executeLines lines s).2 := by
  induction lines generalizing s with
  | nil =>
      refine ⟨rfl, id, rfl, ⟨[], rfl, by simp, by simp [executeLines, closeScript], ?_⟩, fun _ h => ?_⟩
      · simp [executeLines, closeScript]
      · exact absurd h (not_inScript_closeScript hexec)
  | cons line lines ih =>
      obtain ⟨hline, hrest⟩ := hok
      obtain ⟨msgs, hsends, hlength, hcrash⟩ :=
        @scriptLine_sends { s with fscript := some lines } line hline hcrashed
      rw [executeLines]
      generalize executeLine true line { s with fscript := some lines } = result at *
      obtain ⟨sent, s'⟩ := result
      dsimp only at *
      cases sent with
      | true =>
          rw [if_pos (.inr rfl)]
          refine ⟨hsends.script, fun h => ?_, hcrash.trans hcrashed.symm,
            ⟨msgs, hlength, hsends.clean, hsends.sock, hsends.log⟩, fun h => by cases h⟩
          rw [hsends.exec] at h
          exact h
      | false =>
          rw [if_neg (by simp [hcrash])]
          obtain rfl := List.length_eq_zero_iff.mp hlength
          have hexec' : s'.exec.val = [] := by
            rw [hsends.exec]
            exact hexec
          obtain ⟨hscript, hexec'', hcrashed', ⟨msgs, hcount, hclean, hsock, hlog⟩, hstop⟩ :=
            ih (hrest rfl) hexec' hcrash
          have hsock' := hsends.sock
          have hlog' := hsends.log
          rw [List.flatMap_nil, List.append_nil] at hsock'
          rw [List.map_nil, List.append_nil] at hlog'
          refine ⟨hscript.trans hsends.script, fun h => absurd hexec' (hexec'' h),
            hcrashed'.trans (hcrash.trans hcrashed.symm), ⟨msgs, hcount, hclean, ?_, ?_⟩, hstop⟩
          · rw [hsock, hsock']
          · rw [hlog, hlog']

theorem executeScriptLine_ran (hok : RunOk s) (hmode : s.exec.val ≠ [] → s.script = true)
    (hcrashed : s.crashed = false) :
    Ran s (executeScriptLine s).1 (executeScriptLine s).2 := by
  rw [executeScriptLine]
  split
  · rename_i hexec
    obtain ⟨msgs, hsends, hlength, hcrash⟩ := scriptLine_sends (hok.1 hexec) hcrashed
    generalize executeLine true s.exec s = result at *
    obtain ⟨sent, s'⟩ := result
    dsimp only at *
    cases sent with
    | true =>
        rw [if_pos (.inr rfl)]
        exact ⟨hsends.script, fun _ => hexec, hcrash.trans hcrashed.symm,
          ⟨msgs, hlength, hsends.clean, hsends.sock, hsends.log⟩, fun h => by cases h⟩
    | false =>
        rw [if_neg (by simp [hcrash])]
        refine ⟨hsends.script, fun _ => hexec, hcrash.trans hcrashed.symm,
          ⟨msgs, hlength, hsends.clean, hsends.sock, hsends.log⟩, fun _ _ => ?_⟩
        have hscript : s'.script = true := hsends.script.trans (hmode hexec)
        simp [closeScript, hscript]
  · rename_i hexec
    have hempty := not_not.mp hexec
    split
    · rename_i hnone
      refine ⟨rfl, id, rfl, ⟨[], rfl, by simp, by simp, by simp⟩, fun _ h => ?_⟩
      rcases h with h | h
      · exact absurd hempty h
      · exact absurd hnone h
    · rename_i lines hsome
      exact executeLines_ran lines (hok.2 hempty lines hsome) hempty hcrashed

end PsplinkUsb.Pspsh.ScriptRunning
