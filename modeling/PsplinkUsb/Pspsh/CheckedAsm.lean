import PsplinkUsb.Library.TableSearch
import PsplinkUsb.Pspsh.Asm

/-!
The assembler of `pspsh/asm.C` with every pointer it follows and every index it uses checked.
-/

namespace PsplinkUsb.Pspsh.CheckedAsm

open PsplinkUsb.Library.Ascii
open PsplinkUsb.Library.Lines
open PsplinkUsb.Library.TableSearch
open PsplinkUsb.Psplink.ProgramMemory
open PsplinkUsb.Pspsh.Asm (AsmError dollar comma openParen closeParen maxArgs parseRegnum findInst
  isOpDelim)
open PsplinkUsb.Pspsh.Operands

/-- What C leaves undefined. -/
inductive Fault where
  | nullName
  | nullToken
  | outOfRange

/-- How a call ends that returns no instruction: with -1 and a message, or not at all. -/
inductive Stop where
  | rejected
  | fault (f : Fault)

abbrev Checked := Except Stop

def index {α : Type} (table : List α) (i : ℕ) : Checked α := entry (.fault .outOfRange) table i

/-- Following a pointer to a token. -/
def deref {α : Type} : Option α → Checked α
  | some a => .ok a
  | none => .error (.fault .nullToken)

def orRejected {α : Type} : Option α → Checked α
  | some a => .ok a
  | none => .error .rejected

/-- Whether `strcasecmp` finds no difference. -/
def sameName (name : Option String) (reg : Bytes) : Checked Bool :=
  match name with
  | some name => .ok (SameLetters (text name) reg)
  | none => .error (.fault .nullName)

/-- `snprintf` into a buffer, where it stores up to the zero byte, and the test of its result. -/
def copied (size : ℕ) (str : Bytes) : Checked Bytes :=
  if size ≤ min str.length (size - 1) then .error (.fault .outOfRange)
  else if size ≤ str.length then .error .rejected
  else .ok str

/-- The first loop of `strip_wsp`, which looks at the byte before the place given. -/
def stripEnd : ℕ → Bytes → Checked Bytes
  | 0, buf => .ok buf
  | i + 1, buf => do
      if isSpace (← index buf i) then stripEnd i (buf.take i) else .ok buf

def stripWsp (buf : Bytes) : Checked (Option Bytes) := do
  let buf ← stripEnd buf.length buf
  match buf.dropWhile isSpace with
  | [] => .ok none
  | ret => .ok (some ret)

def parseGpr : Bytes → Checked (Option ℕ)
  | [] => .ok none
  | c :: reg =>
      if c = dollar then do
        let ret ← search (fun i => do sameName (some (← index regName i)) reg) 0 32
        .ok (ret.or (parseRegnum reg 32))
      else if c = byte 'r' then .ok (parseRegnum reg 32)
      else .ok none

/-- The test in the loop of `set_cop0`. -/
def isCop0 (reg : Bytes) (i : ℕ) : Checked Bool := do
  match ← index cop0Regs i with
  | some name => sameName (some name) reg
  | none => .ok false

def cop0Number (reg : Bytes) : Checked (Option ℕ) :=
  if reg.head? = some dollar then .ok (parseRegnum reg.tail 32)
  else search (isCop0 reg) 0 32

/-- The test in the loop of `set_dr`: of a name in `dr_regs`, with the one in `cop0_regs`. -/
def isDr (reg : Bytes) (i : ℕ) : Checked Bool := do
  if (← index drRegs i).isSome then sameName (← index cop0Regs i) reg else .ok false

def drNumber (reg : Bytes) : Checked (Option ℕ) :=
  if reg.head? = some dollar then .ok (parseRegnum reg.tail 16)
  else search (isDr reg) 0 16

section

variable (pc opcode : Word)

def setGpr (reg : Bytes) (type : Char) : Checked Word := do
  let regval ← orRejected (← parseGpr reg)
  match type with
  | 'd' => .ok (opcode ||| BitVec.ofNat 32 regval <<< 11)
  | 's' => .ok (opcode ||| BitVec.ofNat 32 regval <<< 21)
  | 't' => .ok (opcode ||| BitVec.ofNat 32 regval <<< 16)
  | _ => .error .rejected

def setCop0 (reg : Bytes) : Checked Word := do
  let regval ← orRejected (← cop0Number reg)
  .ok (opcode ||| BitVec.ofNat 32 regval <<< 11)

def setDr (reg : Bytes) : Checked Word := do
  let regval ← orRejected (← drNumber reg)
  .ok (opcode ||| BitVec.ofNat 32 regval <<< 11)

/-- What stops the unchecked functions. -/
def stop : AsmError → Stop
  | .rejected => .rejected
  | .nullDereference => .fault .nullName

/-- The `set_` functions without tables and tokens of their own. -/
def unchecked (result : Except AsmError Word) : Checked Word := result.mapError stop

def setRegofs (ofs : Bytes) : Checked Word := do
  let buffer ← copied 128 ofs
  let (imm, behind) ← orRejected (cut openParen buffer)
  let (reg, _) ← orRejected (cut closeParen behind)
  let imm ← stripWsp imm
  if imm = none then .error .rejected
  let reg ← stripWsp reg
  if reg = none then .error .rejected
  let opcode ← unchecked (Asm.setImm opcode (← deref imm) true)
  setGpr opcode (← deref reg) 's'

/-- The `switch` of `encode_args`. -/
def setOperand (letter : Char) (arg : Bytes) : Checked Word :=
  match letter with
  | 'd' => setGpr opcode arg 'd'
  | 't' => setGpr opcode arg 't'
  | 's' => setGpr opcode arg 's'
  | 'i' => unchecked (Asm.setImm opcode arg true)
  | 'I' => unchecked (Asm.setImm opcode arg false)
  | 'o' => setRegofs opcode arg
  | 'O' => unchecked (Asm.setPcofs pc opcode arg)
  | 'j' => unchecked (Asm.setJump opcode arg)
  | 'a' => unchecked (Asm.setSa opcode arg)
  | '0' => setCop0 opcode arg
  | 'n' => unchecked (Asm.setN opcode arg)
  | 'k' => unchecked (Asm.setK opcode arg)
  | 'r' => setDr opcode arg
  | _ => .error .rejected

end

/-- The loop of `encode_args`, with the pointers in `args`. -/
def encodeArgs (pc : Word) (args : List (Option Bytes)) : List Char → ℕ → Word → Checked Word
  | [], _, opcode => .ok opcode
  | c :: fmt, argpos, opcode =>
      if c = '%' then
        if argpos = args.length then .ok opcode
        else
          match fmt with
          | [] => .ok opcode
          | letter :: fmt => do
              let arg ← deref (← index args argpos)
              let opcode ← setOperand pc opcode letter arg
              encodeArgs pc args fmt (argpos + 1) opcode
      else encodeArgs pc args fmt argpos opcode

def assembleOp (op : Bytes) (args : List (Option Bytes)) (pc : Word) : Checked Word := do
  let set ← orRejected (findInst op args.length)
  encodeArgs pc args set.fmt.toList 0 set.opcode

/-- `args[argcount++] = tok`. -/
def storeArg (args : List (Option Bytes)) (tok : Option Bytes) : Checked (List (Option Bytes)) :=
  if args.length < maxArgs then .ok (args ++ [tok]) else .error (.fault .outOfRange)

/-- The operands between commas, up to the number there is room for. -/
def splitArgs : ℕ → List (Option Bytes) → Bytes → Checked (List (Option Bytes))
  | 0, args, _ => .ok args
  | room + 1, args, rest =>
      match strtok (fun c => c = comma) rest with
      | none => .ok args
      | some (tok, rest) => do
          let tok ← stripWsp tok
          if tok = none then .error .rejected
          let args ← storeArg args tok
          splitArgs room args rest

def asmAssemble (str : Bytes) (pc : Word) : Checked Word := do
  let buf ← copied 1024 str
  let (op, arghead) ← orRejected (strtok isOpDelim buf)
  let args ← splitArgs maxArgs [] (arghead.dropWhile isSpace)
  assembleOp op args pc

end PsplinkUsb.Pspsh.CheckedAsm
