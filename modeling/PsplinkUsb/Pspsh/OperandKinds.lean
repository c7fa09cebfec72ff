import PsplinkUsb.Library.BitFields
import PsplinkUsb.Pspsh.Asm
import PsplinkUsb.Pspsh.Disasm

namespace PsplinkUsb.Pspsh.OperandKinds

open PsplinkUsb.Library.Ascii
open PsplinkUsb.Library.BitFields
open PsplinkUsb.Library.Lines
open PsplinkUsb.Library.Numerals
open PsplinkUsb.Psplink.ProgramMemory
open PsplinkUsb.Pspsh.Asm
open PsplinkUsb.Pspsh.BranchTargets (imm)
open PsplinkUsb.Pspsh.Disasm
open PsplinkUsb.Pspsh.Operands

inductive OperandKind where
  | rd
  | rt
  | rs
  | jumpr
  | simm
  | uimm
  | regofs
  | pcofs
  | jump
  | sa
  | cop0
  | extSize
  | insSize
  | debug
  | cop
  | cache
  | code
  | syscall
  deriving DecidableEq

namespace OperandKind

def all : List OperandKind :=
  [rd, rt, rs, jumpr, simm, uimm, regofs, pcofs, jump, sa, cop0, extSize, insSize, debug, cop,
   cache, code, syscall]

/-- What stands for it behind the `%` in a format of the disassembler. -/
def spec : OperandKind → List Char
  | rd => ['d']
  | rt => ['t']
  | rs => ['s']
  | jumpr => ['J']
  | simm => ['i']
  | uimm => ['I']
  | regofs => ['o']
  | pcofs => ['O']
  | jump => ['j']
  | sa => ['a']
  | cop0 => ['0']
  | extSize => ['n', 'e']
  | insSize => ['n', 'i']
  | debug => ['r']
  | cop => ['p']
  | cache => ['k']
  | code => ['c']
  | syscall => ['C']

/-- What stands for it in a format of the assembler. -/
def letter : OperandKind → Char
  | rd => 'd'
  | rt => 't'
  | rs => 's'
  | jumpr => 's'
  | simm => 'i'
  | uimm => 'I'
  | regofs => 'o'
  | pcofs => 'O'
  | jump => 'j'
  | sa => 'a'
  | cop0 => '0'
  | extSize => 'n'
  | insSize => 'n'
  | debug => 'r'
  | cop => 'p'
  | cache => 'k'
  | code => 'c'
  | syscall => 'C'

/-- The bits of the word it shows. -/
def mask : OperandKind → Word
  | rd => 0xF800
  | rt => 0x1F0000
  | rs => 0x3E00000
  | jumpr => 0x3E00000
  | simm => 0xFFFF
  | uimm => 0xFFFF
  | regofs => 0x3E0FFFF
  | pcofs => 0xFFFF
  | jump => 0x3FFFFFF
  | sa => 0x7C0
  | cop0 => 0xF800
  | extSize => 0xF800
  | insSize => 0xFFC0
  | debug => 0xF800
  | cop => 0xF800
  | cache => 0x1F0000
  | code => 0x3FFFFC0
  | syscall => 0x3FFFFC0

/-- What the disassembler prints for it with its default options. -/
def print (opcode pc : Word) : OperandKind → Bytes
  | rd => printCpureg {} (Operands.rd opcode)
  | rt => printCpureg {} (Operands.rt opcode)
  | rs => printCpureg {} (Operands.rs opcode)
  | jumpr => printJumpr {} none (Operands.rs opcode)
  | simm => printImm {} (imm opcode).toInt
  | uimm => printHex (immu opcode)
  | regofs => printOfs {} none (imm opcode) (Operands.rs opcode)
  | pcofs => printPcofs {} (imm opcode) pc
  | jump => printJump {} (Operands.jump opcode pc)
  | sa => printInt (Operands.sa opcode)
  | cop0 => printCop0 (Operands.rd opcode)
  | extSize => printInt (Operands.rd opcode + 1)
  | insSize => printInt (Operands.rd opcode - Operands.sa opcode + 1)
  | debug => printDebugreg (Operands.rd opcode)
  | cop => Operands.text "$" ++ printInt (Operands.rd opcode)
  | cache => printHex (Operands.rt opcode)
  | code => printHex (Operands.code opcode)
  | syscall => printSyscall (Operands.code opcode)

/-- The printed operand as the assembler takes it from a line. -/
def arg (opcode pc : Word) (k : OperandKind) : Bytes := (k.print opcode pc).rdropWhile isSpace

end OperandKind

/-- Operands with a comma and a blank between them, in a format or in a line. -/
def listed {α : Type} (comma blank : α) : List (List α) → List α
  | [] => []
  | t :: ts => t ++ ts.flatMap fun u => comma :: blank :: u

def disasmFmt (kinds : List OperandKind) : List Char :=
  listed ',' ' ' (kinds.map fun k => '%' :: k.spec)

def asmFmt (kinds : List OperandKind) : List Char :=
  listed ',' ' ' (kinds.map fun k => ['%', k.letter])

/-- The bits a list of operands shows. -/
def shown : List OperandKind → Word
  | [] => 0
  | k :: kinds => k.mask ||| shown kinds

theorem listed_last {α : Type} {comma blank : α} {ts : List (List α)} {s t : List α}
    (hts : ts ≠ []) (h : listed comma blank (ts ++ [s]) = listed comma blank (ts ++ [t])) :
    s = t := by
  cases ts with
  | nil => exact absurd rfl hts
  | cons u ts =>
      simp only [List.cons_append, listed, List.flatMap_append, List.flatMap_singleton] at h
      have hrest := List.append_cancel_left (List.append_cancel_left h)
      exact (List.cons.inj (List.cons.inj hrest).2).2

section

variable {opcode opcode' pc : Word} {realregs : Option (ℕ → Word)} {k : OperandKind}
  {kinds : List OperandKind}

theorem decodeArgs_percent (printG : Word → Bytes) (letter : Char) (fmt : List Char) :
    decodeArgs {} printG opcode pc realregs false ('%' :: letter :: fmt) =
      (operand {} printG opcode pc realregs (letter = '?') letter fmt).1 ++
        decodeArgs {} printG opcode pc realregs (letter = '?')
          (fmt.drop (operand {} printG opcode pc realregs (letter = '?') letter fmt).2) := by
  rw [decodeArgs, if_pos rfl, Bool.false_or]

theorem operand_spec (printG : Word → Bytes) (fmt : List Char) :
    decodeArgs {} printG opcode pc realregs false ('%' :: k.spec ++ fmt) =
      k.print opcode pc ++ decodeArgs {} printG opcode pc realregs false fmt := by
  cases k <;> exact decodeArgs_percent printG _ _

theorem decodeArgs_rest (printG : Word → Bytes) :
    decodeArgs {} printG opcode pc realregs false
        (kinds.flatMap fun k => ',' :: ' ' :: '%' :: k.spec) =
      kinds.flatMap fun k => comma :: blank :: k.print opcode pc := by
  induction kinds with
  | nil => rw [List.flatMap_nil, decodeArgs, List.flatMap_nil]
  | cons k kinds ih =>
      rw [List.flatMap_cons, List.flatMap_cons, ← ih]
      simp only [List.cons_append]
      rw [decodeArgs, if_neg (by decide), decodeArgs, if_neg (by decide), ← List.cons_append,
        operand_spec]
      rfl

theorem decodeArgs_disasmFmt (printG : Word → Bytes) :
    decodeArgs {} printG opcode pc realregs false (disasmFmt kinds) =
      listed comma blank (kinds.map (·.print opcode pc)) := by
  cases kinds with
  | nil => rw [disasmFmt, List.map_nil, listed, decodeArgs, List.map_nil, listed]
  | cons k kinds =>
      rw [disasmFmt, List.map_cons, listed, List.flatMap_map, operand_spec, decodeArgs_rest,
        List.map_cons, listed, List.flatMap_map]

theorem field_and {m f : Word} {n : ℕ} (h : m >>> n &&& f = f) :
    ((opcode &&& m) >>> n &&& f).toNat = (opcode >>> n &&& f).toNat := by
  rw [BitVec.ushiftRight_and_distrib, BitVec.and_assoc, h]

theorem imm_and {m : Word} (h : m.setWidth 16 = BitVec.allOnes 16) :
    imm (opcode &&& m) = imm opcode := by
  rw [imm, imm, BitVec.setWidth_and, h, BitVec.and_allOnes]

theorem immu_and : immu (opcode &&& 0xFFFF) = immu opcode := by
  rw [immu, immu, BitVec.and_assoc, BitVec.and_self]

theorem jump_and : Operands.jump (opcode &&& 0x3FFFFFF) pc = Operands.jump opcode pc := by
  rw [Operands.jump, Operands.jump, BitVec.and_assoc, BitVec.and_self]

theorem print_and : k.print (opcode &&& k.mask) pc = k.print opcode pc := by
  cases k <;>
    simp (disch := decide) only [OperandKind.print, OperandKind.mask, Operands.rd, Operands.rt,
      Operands.rs, Operands.sa, Operands.code, field_and, imm_and, immu_and, jump_and]

theorem print_congr (h : opcode &&& k.mask = opcode' &&& k.mask) :
    k.print opcode pc = k.print opcode' pc := by
  rw [← print_and, h, print_and]

end

end PsplinkUsb.Pspsh.OperandKinds
