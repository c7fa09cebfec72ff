import PsplinkUsb.Library.Lines
import PsplinkUsb.Library.Numerals
import PsplinkUsb.Pspsh.Asm
import PsplinkUsb.Pspsh.ParseArgs

namespace PsplinkUsb.Pspsh.ExecuteLine

open PsplinkUsb.Library.Ascii
open PsplinkUsb.Library.CString
open PsplinkUsb.Library.Numerals
open PsplinkUsb.Pspsh.Asm (AsmError asmAssemble)
open PsplinkUsb.Pspsh.Operands (text)
open PsplinkUsb.Pspsh.ParseArgs

abbrev Word := BitVec 32

def numberSign : UInt8 := 0x23
def dot : UInt8 := 0x2E
def slash : UInt8 := 0x2F
def equals : UInt8 := 0x3D
def atSign : UInt8 := 0x40

/-- The size of `argv` in `execute_line`. -/
def maxArgs : ℕ := 16

/-- The functions in `g_commands`. -/
inductive Func where
  | asm | disopts | exit | close | tty | env | set | unset | echo | error | strlen | symload | help
deriving DecidableEq, Repr

structure ShCommand where
  name : String
  syn : Option String
  func : Func
  minArgs : ℕ

/-- The commands that have a function on the PC. -/
def commands : List ShCommand :=
  [⟨"asm", none, .asm, 1⟩,
   ⟨"disopts", none, .disopts, 0⟩,
   ⟨"exit", some "quit", .exit, 0⟩,
   ⟨"close", none, .close, 0⟩,
   ⟨"tty", none, .tty, 0⟩,
   ⟨"env", none, .env, 0⟩,
   ⟨"set", none, .set, 1⟩,
   ⟨"unset", none, .unset, 1⟩,
   ⟨"echo", none, .echo, 0⟩,
   ⟨"error", none, .error, 1⟩,
   ⟨"strlen", none, .strlen, 1⟩,
   ⟨"symload", none, .symload, 0⟩,
   ⟨"help", some "?", .help, 0⟩]

def findCommand (cmd : Bytes) : Option ShCommand :=
  commands.find? fun c => cmd = text c.name ∨ some cmd = c.syn.map text

/-- What goes over the socket: a command with its arguments, sent for a script or not, and the
arguments that a SUCCESS or ERROR frame answers. -/
inductive Event where
  | sent (script : Bool) (argv : List Bytes)
  | answered (argv : List Bytes)
deriving DecidableEq, Repr

/-- The parts of `g_context` that decide what is sent. `fscript` has the lines `fgets` still
gives, `sock` the bytes the PSP has not read, and `log` tells what happened. -/
structure GlobalContext where
  vars : Bytes → Option CStr
  sargv : List CStr
  fscript : Option (List CStr)
  exec : CStr
  script : Bool
  exit : Bool
  lasterr : Bool
  asmmode : Bool
  asmaddr : Word
  ttymode : Bool
  crashed : Bool
  sock : Bytes
  log : List Event

/-- Bytes as a C string. -/
def toCStr (data : Bytes) : CStr := ⟨cstr data, not_mem_cstr⟩

namespace GlobalContext

def env (s : GlobalContext) : Env where
  getenv := s.vars
  sargc := s.sargv.length
  sargv := if s.sargv = [] then none else some fun i => if 0 ≤ i then s.sargv[i.toNat]? else none

def setenv (s : GlobalContext) (name value : Bytes) : GlobalContext :=
  { s with vars := Function.update s.vars name (some (toCStr value)) }

def unsetenv (s : GlobalContext) (name : Bytes) : GlobalContext :=
  { s with vars := Function.update s.vars name none }

def send (s : GlobalContext) (script : Bool) (out : Bytes) (argv : List Bytes) : GlobalContext :=
  { s with sock := s.sock ++ out, log := s.log ++ [.sent script argv] }

end GlobalContext

def setCmd (args : List Bytes) (s : GlobalContext) : GlobalContext :=
  match Library.Lines.cut equals (args.headD []) with
  | none => s
  | some (name, value) =>
      -- a bad character further on is only complained about
      if name.head?.any fun c => isLower c ∨ isUpper c then s.setenv name value else s

/-- The words of `asm_cmd`, up to the first that does not assemble. -/
def assembleWords : List Bytes → Except AsmError Bytes
  | [] => .ok []
  | inst :: insts => do
      let opcode ← asmAssemble inst 0
      let words ← assembleWords insts
      return text "0x" ++ padded 8 16 opcode.toNat ++ 0x20 :: words

/-- `asm_cmd`, which makes a line of its own and executes it. -/
def asmCmd (execute : CStr → GlobalContext → GlobalContext) (args : List Bytes) (s : GlobalContext) : GlobalContext :=
  match args with
  | [] => s
  | [addr] =>
      { execute (toCStr ((text "calc '" ++ addr ++ text "'").take 1023)) s with
        asmmode := true
        asmaddr := 0 }
  | addr :: inst :: insts =>
      match assembleWords (inst :: insts) with
      | .ok words => execute (toCStr ((text "pokew '" ++ addr ++ text "' ").take 1023 ++ words)) s
      | .error .rejected => s
      | .error .nullDereference => { s with crashed := true }

/-- `cmd->func`: whether the line goes on to the PSP. -/
def runFunc (asmCmd : List Bytes → GlobalContext → GlobalContext) (args : List Bytes) (s : GlobalContext) :
    Func → Bool × GlobalContext
  | .asm => (false, asmCmd args s)
  | .exit => (true, { s with exit := true })
  | .close => (false, { s with exit := true })
  | .tty => (false, { s with ttymode := true })
  | .set => (false, setCmd args s)
  | .unset => (false, s.unsetenv (args.headD []))
  | .strlen => (false, s.setenv (text "?") (decimalInt (args.headD []).length))
  | .symload => (args = [] ∨ (args.headD []).head? = some atSign, s)
  | .disopts => (false, s)
  | .env => (false, s)
  | .echo => (false, s)
  | .error => (false, s)
  | .help => (false, s)

def argvStrings (cli : Cli) : List Bytes := cli.argv.map fun i => cstr (cli.out.drop i)

/-- The output of `parse_cli` and the arguments in it, unless there are none or it starts
with `#`. -/
def parsed (env : Env) (line : CStr) : Option (Bytes × List Bytes) :=
  let cli := (parseCli env maxArgs line).2
  if 0 < (parseCli env maxArgs line).1 ∧ cli.out.head? ≠ some numberSign then
    some (cli.out, argvStrings cli)
  else none

/-- Whether something was sent, by `execute_line`. The calls of the kernel succeed. -/
def executeLineWith (asmCmd : List Bytes → GlobalContext → GlobalContext) (script : Bool) (line : CStr)
    (s : GlobalContext) : Bool × GlobalContext :=
  match parsed s.env line with
  | none => (false, s)
  -- `strchr` is given the null pointer in `argv[0]`
  | some (_, []) => (false, { s with crashed := true })
  | some (out, name :: args) =>
      if dot ∈ name ∨ slash ∈ name then
        (true, s.send script (text "ld" ++ 0 :: out) (text "ld" :: name :: args))
      else
        match findCommand name with
        | none => (true, s.send script out (name :: args))
        | some cmd =>
            if args.length < cmd.minArgs then (false, s)
            else
              let (more, s) := runFunc asmCmd args s cmd.func
              if more then (true, s.send script out (name :: args)) else (false, s)

/-- `execute_line`. The lines that `asm_cmd` executes are no `asm` lines. -/
def executeLine (script : Bool) : CStr → GlobalContext → Bool × GlobalContext :=
  executeLineWith (asmCmd fun line s => (executeLineWith (fun _ s => s) script line s).2) script

end PsplinkUsb.Pspsh.ExecuteLine
