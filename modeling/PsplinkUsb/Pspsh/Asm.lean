import PsplinkUsb.Library.Lines
import PsplinkUsb.Pspsh.Operands

namespace PsplinkUsb.Pspsh.Asm

open PsplinkUsb.Library.Ascii
open PsplinkUsb.Library.Lines
open PsplinkUsb.Library.Numerals
open PsplinkUsb.Psplink.ProgramMemory
open PsplinkUsb.Pspsh.Operands

structure Instruction where
  name : String
  opcode : Word
  mask : Word
  fmt : String
  operands : ℕ
  deriving DecidableEq

def asmMacro : List Instruction :=
  [⟨"nop", 0x00000000, 0xFFFFFFFF, "", 0⟩,
   ⟨"li", 0x24000000, 0xFFE00000, "%t, %i", 2⟩,
   ⟨"li", 0x34000000, 0xFFE00000, "%t, %I", 2⟩,
   ⟨"move", 0x00000021, 0xFC1F07FF, "%d, %s", 2⟩,
   ⟨"move", 0x00000025, 0xFC1F07FF, "%d, %s", 2⟩,
   ⟨"b", 0x10000000, 0xFFFF0000, "%O", 1⟩,
   ⟨"b", 0x04010000, 0xFFFF0000, "%O", 1⟩,
   ⟨"bal", 0x04110000, 0xFFFF0000, "%O", 1⟩,
   ⟨"bnez", 0x14000000, 0xFC1F0000, "%s, %O", 2⟩,
   ⟨"bnezl", 0x54000000, 0xFC1F0000, "%s, %O", 2⟩,
   ⟨"beqz", 0x10000000, 0xFC1F0000, "%s, %O", 2⟩,
   ⟨"beqzl", 0x50000000, 0xFC1F0000, "%s, %O", 2⟩,
   ⟨"neg", 0x00000022, 0xFFE007FF, "%d, %t", 2⟩,
   ⟨"negu", 0x00000023, 0xFFE007FF, "%d, %t", 2⟩,
   ⟨"not", 0x00000027, 0xFC1F07FF, "%d, %s", 2⟩,
   ⟨"jalr", 0x0000F809, 0xFC1FFFFF, "%s", 1⟩]

def asmInst : List Instruction :=
  [⟨"add", 0x00000020, 0xFC0007FF, "%d, %s, %t", 3⟩,
   ⟨"addi", 0x20000000, 0xFC000000, "%t, %s, %i", 3⟩,
   ⟨"addiu", 0x24000000, 0xFC000000, "%t, %s, %i", 3⟩,
   ⟨"addu", 0x00000021, 0xFC0007FF, "%d, %s, %t", 3⟩,
   ⟨"and", 0x00000024, 0xFC0007FF, "%d, %s, %t", 3⟩,
   ⟨"andi", 0x30000000, 0xFC000000, "%t, %s, %I", 3⟩,
   ⟨"beq", 0x10000000, 0xFC000000, "%s, %t, %O", 3⟩,
   ⟨"beql", 0x50000000, 0xFC000000, "%s, %t, %O", 3⟩,
   ⟨"bgez", 0x04010000, 0xFC1F0000, "%s, %O", 2⟩,
   ⟨"bgezal", 0x04110000, 0xFC1F0000, "%s, %0", 2⟩,
   ⟨"bgezl", 0x04030000, 0xFC1F0000, "%s, %O", 2⟩,
   ⟨"bgtz", 0x1C000000, 0xFC1F0000, "%s, %O", 2⟩,
   ⟨"bgtzl", 0x5C000000, 0xFC1F0000, "%s, %O", 2⟩,
   ⟨"bitrev", 0x7C000520, 0xFFE007FF, "%d, %t", 2⟩,
   ⟨"blez", 0x18000000, 0xFC1F0000, "%s, %O", 2⟩,
   ⟨"blezl", 0x58000000, 0xFC1F0000, "%s, %O", 2⟩,
   ⟨"bltz", 0x04000000, 0xFC1F0000, "%s, %O", 2⟩,
   ⟨"bltzl", 0x04020000, 0xFC1F0000, "%s, %O", 2⟩,
   ⟨"bltzal", 0x04100000, 0xFC1F0000, "%s, %O", 2⟩,
   ⟨"bltzall", 0x04120000, 0xFC1F0000, "%s, %O", 2⟩,
   ⟨"bne", 0x14000000, 0xFC000000, "%s, %t, %O", 3⟩,
   ⟨"bnel", 0x54000000, 0xFC000000, "%s, %t, %O", 3⟩,
   ⟨"break", 0x0000000D, 0xFC00003F, "%c", 1⟩,
   ⟨"cache", 0xBC000000, 0xFC000000, "%k, %o", 2⟩,
   ⟨"cfc0", 0x40400000, 0xFFE007FF, "%t, %p", 2⟩,
   ⟨"clo", 0x00000017, 0xFC1F07FF, "%d, %s", 2⟩,
   ⟨"clz", 0x00000016, 0xFC1F07FF, "%d, %s", 2⟩,
   ⟨"ctc0", 0x40C00000, 0xFFE007FF, "%t, %p", 2⟩,
   ⟨"max", 0x0000002C, 0xFC0007FF, "%d, %s, %t", 3⟩,
   ⟨"min", 0x0000002D, 0xFC0007FF, "%d, %s, %t", 3⟩,
   ⟨"dbreak", 0x7000003F, 0xFFFFFFFF, "", 0⟩,
   ⟨"div", 0x0000001A, 0xFC00FFFF, "%s, %t", 2⟩,
   ⟨"divu", 0x0000001B, 0xFC00FFFF, "%s, %t", 2⟩,
   ⟨"dret", 0x7000003E, 0xFFFFFFFF, "", 0⟩,
   ⟨"eret", 0x42000018, 0xFFFFFFFF, "", 0⟩,
   ⟨"ext", 0x7C000000, 0xFC00003F, "%t, %s, %a, %n", 4⟩,
   ⟨"ins", 0x7C000004, 0xFC00003F, "%t, %s, %a, %n", 4⟩,
   ⟨"j", 0x08000000, 0xFC000000, "%j", 1⟩,
   ⟨"jr", 0x00000008, 0xFC1FFFFF, "%s", 1⟩,
   ⟨"jalr", 0x00000009, 0xFC1F07FF, "%s, %d", 2⟩,
   ⟨"jal", 0x0C000000, 0xFC000000, "%j", 1⟩,
   ⟨"lb", 0x80000000, 0xFC000000, "%t, %o", 2⟩,
   ⟨"lbu", 0x90000000, 0xFC000000, "%t, %o", 2⟩,
   ⟨"lh", 0x84000000, 0xFC000000, "%t, %o", 2⟩,
   ⟨"lhu", 0x94000000, 0xFC000000, "%t, %o", 2⟩,
   ⟨"ll", 0xC0000000, 0xFC000000, "%t, %O", 2⟩,
   ⟨"lui", 0x3C000000, 0xFFE00000, "%t, %I", 2⟩,
   ⟨"lw", 0x8C000000, 0xFC000000, "%t, %o", 2⟩,
   ⟨"lwl", 0x88000000, 0xFC000000, "%t, %o", 2⟩,
   ⟨"lwr", 0x98000000, 0xFC000000, "%t, %o", 2⟩,
   ⟨"madd", 0x0000001C, 0xFC00FFFF, "%s, %t", 2⟩,
   ⟨"maddu", 0x0000001D, 0xFC00FFFF, "%s, %t", 2⟩,
   ⟨"mfc0", 0x40000000, 0xFFE007FF, "%t, %0", 2⟩,
   ⟨"mfdr", 0x7000003D, 0xFFE007FF, "%t, %r", 2⟩,
   ⟨"mfhi", 0x00000010, 0xFFFF07FF, "%d", 1⟩,
   ⟨"mfic", 0x70000024, 0xFFE007FF, "%t, %p", 2⟩,
   ⟨"mflo", 0x00000012, 0xFFFF07FF, "%d", 1⟩,
   ⟨"movn", 0x0000000B, 0xFC0007FF, "%d, %s, %t", 3⟩,
   ⟨"movz", 0x0000000A, 0xFC0007FF, "%d, %s, %t", 3⟩,
   ⟨"msub", 0x0000002E, 0xFC00FFFF, "%d, %t", 2⟩,
   ⟨"msubu", 0x0000002F, 0xFC00FFFF, "%d, %t", 2⟩,
   ⟨"mtc0", 0x40800000, 0xFFE007FF, "%t, %0", 2⟩,
   ⟨"mtdr", 0x7080003D, 0xFFE007FF, "%t, %r", 2⟩,
   ⟨"mtic", 0x70000026, 0xFFE007FF, "%t, %p", 2⟩,
   ⟨"halt", 0x70000000, 0xFFFFFFFF, "", 0⟩,
   ⟨"mthi", 0x00000011, 0xFC1FFFFF, "%s", 1⟩,
   ⟨"mtlo", 0x00000013, 0xFC1FFFFF, "%s", 1⟩,
   ⟨"mult", 0x00000018, 0xFC00FFFF, "%s, %t", 2⟩,
   ⟨"multu", 0x00000019, 0xFC0007FF, "%s, %t", 2⟩,
   ⟨"nor", 0x00000027, 0xFC0007FF, "%d, %s, %t", 3⟩,
   ⟨"or", 0x00000025, 0xFC0007FF, "%d, %s, %t", 3⟩,
   ⟨"ori", 0x34000000, 0xFC000000, "%t, %s, %I", 3⟩,
   ⟨"rotr", 0x00200002, 0xFFE0003F, "%d, %t, %a", 3⟩,
   ⟨"rotv", 0x00000046, 0xFC0007FF, "%d, %t, %s", 3⟩,
   ⟨"seb", 0x7C000420, 0xFFE007FF, "%d, %t", 2⟩,
   ⟨"seh", 0x7C000620, 0xFFE007FF, "%d, %t", 2⟩,
   ⟨"sb", 0xA0000000, 0xFC000000, "%t, %o", 2⟩,
   ⟨"sh", 0xA4000000, 0xFC000000, "%t, %o", 2⟩,
   ⟨"sllv", 0x00000004, 0xFC0007FF, "%d, %t, %s", 3⟩,
   ⟨"sll", 0x00000000, 0xFFE0003F, "%d, %t, %a", 3⟩,
   ⟨"slt", 0x0000002A, 0xFC0007FF, "%d, %s, %t", 3⟩,
   ⟨"slti", 0x28000000, 0xFC000000, "%t, %s, %i", 3⟩,
   ⟨"sltiu", 0x2C000000, 0xFC000000, "%t, %s, %i", 3⟩,
   ⟨"sltu", 0x0000002B, 0xFC0007FF, "%d, %s, %t", 3⟩,
   ⟨"sra", 0x00000003, 0xFFE0003F, "%d, %t, %a", 3⟩,
   ⟨"srav", 0x00000007, 0xFC0007FF, "%d, %t, %s", 3⟩,
   ⟨"srlv", 0x00000006, 0xFC0007FF, "%d, %t, %s", 3⟩,
   ⟨"srl", 0x00000002, 0xFFE0003F, "%d, %t, %a", 3⟩,
   ⟨"sw", 0xAC000000, 0xFC000000, "%t, %o", 2⟩,
   ⟨"swl", 0xA8000000, 0xFC000000, "%t, %o", 2⟩,
   ⟨"swr", 0xB8000000, 0xFC000000, "%t, %o", 2⟩,
   ⟨"sub", 0x00000022, 0xFC0007FF, "%d, %s, %t", 3⟩,
   ⟨"subu", 0x00000023, 0xFC0007FF, "%d, %s, %t", 3⟩,
   ⟨"sync", 0x0000000F, 0xFFFFFFFF, "", 0⟩,
   ⟨"syscall", 0x0000000C, 0xFC00003F, "%C", 1⟩,
   ⟨"xor", 0x00000026, 0xFC0007FF, "%d, %s, %t", 3⟩,
   ⟨"xori", 0x38000000, 0xFC000000, "%t, %s, %I", 3⟩,
   ⟨"wsbh", 0x7C0000A0, 0xFFE007FF, "%d, %t", 2⟩,
   ⟨"wsbw", 0x7C0000E0, 0xFFE007FF, "%d, %t", 2⟩]

/-- How a call ends that returns no instruction: with -1 and a message, or not at all. -/
inductive AsmError where
  | rejected
  | nullDereference
  deriving DecidableEq

def dollar : UInt8 := 0x24
def comma : UInt8 := 0x2C
def openParen : UInt8 := 0x28
def closeParen : UInt8 := 0x29

/-- A `long` kept in an `int`. -/
def toInt32 (n : ℤ) : ℤ := (BitVec.ofInt 32 n).toInt

def parseRegnum (reg : Bytes) (bound : ℤ) : Option ℕ :=
  match strtoul 10 reg with
  | some (n, []) =>
      let ret := toInt32 n
      if 0 ≤ ret ∧ ret < bound then some ret.toNat else none
  | _ => none

def findName (reg : Bytes) (names : List String) : Option ℕ :=
  names.findIdx? fun name => SameLetters reg (text name)

/-- Every caller of `parse_gpr` gives 32 as the bound, and so does the function. -/
def parseGpr : Bytes → Option ℕ
  | [] => none
  | c :: reg =>
      if c = dollar then (findName reg regName).or (parseRegnum reg 32)
      else if c = byte 'r' then parseRegnum reg 32
      else none

/-- The first row of the name with as many operands, the macros before the instructions. -/
def findInst (op : Bytes) (argcount : ℕ) : Option Instruction :=
  let found : Instruction → Bool :=
    fun inst => SameLetters (text inst.name) op ∧ inst.operands = argcount
  (asmMacro.find? found).or (asmInst.find? found)

/-- The text without the space around it, when there is more than space. -/
def stripWsp (buf : Bytes) : Option Bytes :=
  match (buf.rdropWhile isSpace).dropWhile isSpace with
  | [] => none
  | ret => some ret

def orRejected {α : Type} : Option α → Except AsmError α
  | some a => .ok a
  | none => .error .rejected

/-- The register that `set_cop0` finds. -/
def cop0Number : Bytes → Option ℕ
  | [] => none
  | c :: number =>
      if c = dollar then parseRegnum number 32
      else cop0Regs.findIdx? fun name => name.any fun name => SameLetters (text name) (c :: number)

/-- The loop of `set_dr`: it goes over the places of `dr_regs` and compares with the names of
`cop0_regs`. -/
def findDr (reg : Bytes) (i : ℕ) : List (Option String × Option String) → Except AsmError ℕ
  | [] => .error .rejected
  | (none, _) :: places => findDr reg (i + 1) places
  | (some _, none) :: _ => .error .nullDereference
  | (some _, some name) :: places =>
      if SameLetters (text name) reg then .ok i else findDr reg (i + 1) places

/-- The register that `set_dr` finds. -/
def drNumber (reg : Bytes) : Except AsmError ℕ :=
  if reg.head? = some dollar then orRejected (parseRegnum reg.tail 16)
  else findDr reg 0 (drRegs.zip cop0Regs)

def clampShort (i : ℤ) : ℤ := max (-0x8000) (min 0x7FFF i)

section

variable (pc opcode : Word)

def setImm (imm : Bytes) (sign : Bool) : Except AsmError Word :=
  match strtol 0 imm with
  | some (val, []) =>
      let val := toInt32 val
      .ok (opcode ||| BitVec.ofInt 32 (if sign then clampShort val else val) &&& 0xFFFF)
  | _ => .error .rejected

def setGpr (reg : Bytes) (type : Char) : Except AsmError Word := do
  let regval ← orRejected (parseGpr reg)
  match type with
  | 'd' => .ok (opcode ||| BitVec.ofNat 32 regval <<< 11)
  | 's' => .ok (opcode ||| BitVec.ofNat 32 regval <<< 21)
  | 't' => .ok (opcode ||| BitVec.ofNat 32 regval <<< 16)
  | _ => .error .rejected

def setCop0 (reg : Bytes) : Except AsmError Word := do
  let regval ← orRejected (cop0Number reg)
  .ok (opcode ||| BitVec.ofNat 32 regval <<< 11)

def setDr (reg : Bytes) : Except AsmError Word := do
  let regval ← drNumber reg
  .ok (opcode ||| BitVec.ofNat 32 regval <<< 11)

def setSa (sa : Bytes) : Except AsmError Word := do
  let val ← orRejected (parseRegnum sa 32)
  .ok (opcode ||| BitVec.ofNat 32 val <<< 6)

def setN (n : Bytes) : Except AsmError Word := do
  let val ← orRejected (parseRegnum n 33)
  if val = 0 then .error .rejected else .ok (opcode ||| BitVec.ofNat 32 (val - 1) <<< 11)

def setK (n : Bytes) : Except AsmError Word := do
  let val ← orRejected (parseRegnum n 32)
  .ok (opcode ||| BitVec.ofNat 32 val <<< 16)

/-- The offset is copied into a buffer of 128 bytes first. -/
def setRegofs (ofs : Bytes) : Except AsmError Word := do
  if 128 ≤ ofs.length then .error .rejected
  let (imm, behind) ← orRejected (cut openParen ofs)
  let (reg, _) ← orRejected (cut closeParen behind)
  let imm ← orRejected (stripWsp imm)
  let reg ← orRejected (stripWsp reg)
  let opcode ← setImm opcode imm true
  setGpr opcode reg 's'

def setPcofs (jump : Bytes) : Except AsmError Word :=
  match strtoul 0 jump with
  | some (addr, []) =>
      let ofs := (BitVec.ofNat 32 addr - pc - 4).toInt.tdiv 4
      .ok (opcode ||| BitVec.ofInt 32 (clampShort ofs) &&& 0xFFFF)
  | _ => .error .rejected

def setJump (jump : Bytes) : Except AsmError Word :=
  match strtoul 0 jump with
  | some (addr, []) => .ok (opcode ||| (BitVec.ofNat 32 addr &&& 0x0FFFFFFF) >>> 2)
  | _ => .error .rejected

/-- The `switch` of `encode_args`. -/
def setOperand (letter : Char) (arg : Bytes) : Except AsmError Word :=
  match letter with
  | 'd' => setGpr opcode arg 'd'
  | 't' => setGpr opcode arg 't'
  | 's' => setGpr opcode arg 's'
  | 'i' => setImm opcode arg true
  | 'I' => setImm opcode arg false
  | 'o' => setRegofs opcode arg
  | 'O' => setPcofs pc opcode arg
  | 'j' => setJump opcode arg
  | 'a' => setSa opcode arg
  | '0' => setCop0 opcode arg
  | 'n' => setN opcode arg
  | 'k' => setK opcode arg
  | 'r' => setDr opcode arg
  | _ => .error .rejected

end

/-- The loop of `encode_args` over the format. A format that asks for more operands than there
are is cut short without an error. -/
def encodeArgs (pc : Word) : List Char → List Bytes → Word → Except AsmError Word
  | [], _, opcode => .ok opcode
  | c :: fmt, args, opcode =>
      if c = '%' then
        match fmt, args with
        | letter :: fmt, arg :: args => do
            let opcode ← setOperand pc opcode letter arg
            encodeArgs pc fmt args opcode
        | _, _ => .ok opcode
      else encodeArgs pc fmt args opcode

def assembleOp (op : Bytes) (args : List Bytes) (pc : Word) : Except AsmError Word := do
  let set ← orRejected (findInst op args.length)
  encodeArgs pc set.fmt.toList args set.opcode

def isOpDelim (c : UInt8) : Bool := c = 0x20 ∨ c = 0x09 ∨ c = 0x0D ∨ c = 0x0A

def maxArgs : ℕ := 32

/-- The operands between commas, up to the number there is room for. -/
def splitArgs : ℕ → Bytes → Except AsmError (List Bytes)
  | 0, _ => .ok []
  | room + 1, args =>
      match strtok (fun c => c = comma) args with
      | none => .ok []
      | some (tok, args) => do
          let arg ← orRejected (stripWsp tok)
          let args ← splitArgs room args
          .ok (arg :: args)

/-- `asmAssemble` copies the line into a buffer of 1024 bytes. -/
def asmAssemble (str : Bytes) (pc : Word) : Except AsmError Word := do
  if 1024 ≤ str.length then .error .rejected
  let (op, arghead) ← orRejected (strtok isOpDelim str)
  let args ← splitArgs maxArgs (arghead.dropWhile isSpace)
  assembleOp op args pc

end PsplinkUsb.Pspsh.Asm
