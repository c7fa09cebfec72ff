import PsplinkUsb.Library.Numerals
import PsplinkUsb.Pspsh.BranchTargets

/-!
The fields of an instruction, and the `print_` functions of `pspsh/disasm.C`, each with the
text it puts out.
-/

namespace PsplinkUsb.Pspsh.Operands

open PsplinkUsb.Library.Numerals
open PsplinkUsb.Psplink.ProgramMemory
open PsplinkUsb.Pspsh.BranchTargets (imm)

abbrev Bytes := List UInt8

def byte (c : Char) : UInt8 := UInt8.ofNat c.toNat

def text (s : String) : Bytes := s.toByteArray.data.toList

def rt (op : Word) : ℕ := (op >>> 16 &&& 0x1F).toNat
def rs (op : Word) : ℕ := (op >>> 21 &&& 0x1F).toNat
def rd (op : Word) : ℕ := (op >>> 11 &&& 0x1F).toNat
def ft (op : Word) : ℕ := (op >>> 16 &&& 0x1F).toNat
def fs (op : Word) : ℕ := (op >>> 11 &&& 0x1F).toNat
def fd (op : Word) : ℕ := (op >>> 6 &&& 0x1F).toNat
def sa (op : Word) : ℕ := (op >>> 6 &&& 0x1F).toNat
def immu (op : Word) : ℕ := (op &&& 0xFFFF).toNat
def jump (op pc : Word) : Word :=
  pc &&& (0xF0000000 : Word) ||| (op &&& (0x3FFFFFF : Word)) <<< (2 : ℕ)
def code (op : Word) : ℕ := (op >>> 6 &&& 0xFFFFF).toNat
def vo (op : Word) : ℕ := ((op &&& (3 : Word)) <<< (5 : ℕ) ||| (op >>> 16 &&& 0x1F)).toNat
def vcc (op : Word) : ℕ := (op >>> 18 &&& 7).toNat
def vd (op : Word) : ℕ := (op &&& 0x7F).toNat
def vs (op : Word) : ℕ := (op >>> 8 &&& 0x7F).toNat
def vt (op : Word) : ℕ := (op >>> 16 &&& 0x7F).toNat
def ved (op : Word) : ℕ := (op &&& 0xFF).toNat
def ves (op : Word) : ℕ := (op >>> 8 &&& 0xFF).toNat
def vcn (op : Word) : ℕ := (op &&& 0x0F).toNat
def vi3 (op : Word) : ℕ := (op >>> 16 &&& 0x07).toNat
def vi5 (op : Word) : ℕ := (op >>> 16 &&& 0x1F).toNat
def vi8 (op : Word) : ℕ := (op >>> 16 &&& 0xFF).toNat

def regName : List String :=
  ["zr", "at", "v0", "v1", "a0", "a1", "a2", "a3", "t0", "t1", "t2", "t3", "t4", "t5", "t6", "t7",
   "s0", "s1", "s2", "s3", "s4", "s5", "s6", "s7", "t8", "t9", "k0", "k1", "gp", "sp", "fp", "ra"]

def cop0Regs : List (Option String) :=
  [none, none, none, none, none, none, none, none,
   some "BadVaddr", some "Count", none, some "Compare", some "Status", some "Cause", some "EPC",
   some "PrID", some "Config", none, none, none, none, none, none, none,
   none, some "EBase", none, none, some "TagLo", some "TagHi", some "ErrorPC", none]

def drRegs : List (Option String) :=
  [some "DRCNTL", some "DEPC", some "DDATA0", some "DDATA1", some "IBC", some "DBC", none, none,
   some "IBA", some "IBAM", none, none, some "DBA", some "DBAM", some "DBD", some "DBDM"]

/-- What `disasmResolveSymbol` finds: a type that is not 0, and a name. -/
structure SymbolEntry where
  type : ℕ
  name : Bytes

/-- The options of the disassembler, and the symbols when there are any. -/
structure DisasmOpts where
  hexints : Bool := false
  mregs : Bool := false
  symaddr : Bool := false
  macroon : Bool := false
  printreal : Bool := false
  printswap : Bool := false
  signedhex : Bool := false
  syms : Option (Word → Option SymbolEntry) := none

/-- `disasmResolveSymbol` into a buffer of 128 bytes. -/
def disasmResolveSymbol (opts : DisasmOpts) (pc : Word) : Option Bytes := do
  let syms ← opts.syms
  let s ← syms pc
  if s.type = 0 then none else some (s.name.take 127)

def printInt (i : ℤ) : Bytes := decimalInt i

def printHex (i : ℕ) : Bytes := hex i

def printCpureg (opts : DisasmOpts) (reg : ℕ) : Bytes :=
  if opts.mregs then if 0 < reg then text "r" ++ decimalInt reg else text "0"
  else text "$" ++ text (regName.getD reg "")

def printImm (opts : DisasmOpts) (ofs : ℤ) : Bytes :=
  if opts.hexints then
    if opts.signedhex ∧ ofs < 0 then minus :: hex ofs.natAbs else hex (ofs % 0x10000).toNat
  else decimalInt ofs

def printJump (opts : DisasmOpts) (addr : Word) : Bytes :=
  match disasmResolveSymbol opts addr with
  | some symbol => symbol
  | none => zero :: lowerX :: padded 8 16 addr.toNat

section

variable (opts : DisasmOpts) (realregs : Option (ℕ → Word))

def printOfs (ofs : Word) (reg : ℕ) : Bytes :=
  match if opts.printreal then realregs else none with
  | some regs => printJump opts (regs reg + ofs)
  | none => printImm opts ofs.toInt ++ text "(" ++ printCpureg opts reg ++ text ")"

def printPcofs (ofs pc : Word) : Bytes := printJump opts (pc + 4 + ofs * 4)

def printJumpr (reg : ℕ) : Bytes :=
  match if opts.printreal then realregs else none with
  | some regs => printJump opts (regs reg)
  | none => printCpureg opts reg

end

def printSyscall (syscall : ℕ) : Bytes := hex syscall

def printCop0 (reg : ℕ) : Bytes :=
  match cop0Regs.getD reg none with
  | some name => text name
  | none => text "$" ++ decimalInt reg

def printCop1 (reg : ℕ) : Bytes := text "$fcr" ++ decimalInt reg

def vfpuExtraRegs : List (Option String) :=
  [some "VFPU_PFXS", some "VFPU_PFXT", some "VFPU_PFXD", some "VFPU_CC ", some "VFPU_INF4", none,
   none, some "VFPU_REV", some "VFPU_RCX0", some "VFPU_RCX1", some "VFPU_RCX2", some "VFPU_RCX3",
   some "VFPU_RCX4", some "VFPU_RCX5", some "VFPU_RCX6", some "VFPU_RCX7"]

def printCop2 (reg : ℕ) : Bytes :=
  match if 128 ≤ reg then vfpuExtraRegs.getD (reg - 128) none else none with
  | some name => text name
  | none => text "$" ++ decimalInt reg

def vfpuCondNames : List String :=
  ["FL", "EQ", "LT", "LE", "TR", "NE", "GE", "GT", "EZ", "EN", "EI", "ES", "NZ", "NN", "NI", "NS"]

def printVfpuCond (cond : ℕ) : Bytes :=
  match vfpuCondNames[cond]? with
  | some name => text name
  | none => decimalInt cond

def vfpuConstNames : List String :=
  ["", "VFPU_HUGE", "VFPU_SQRT2", "VFPU_SQRT1_2", "VFPU_2_SQRTPI", "VFPU_2_PI", "VFPU_1_PI",
   "VFPU_PI_4", "VFPU_PI_2", "VFPU_PI", "VFPU_E", "VFPU_LOG2E", "VFPU_LOG10E", "VFPU_LN2",
   "VFPU_LN10", "VFPU_2PI", "VFPU_PI_6", "VFPU_LOG10TWO", "VFPU_LOG2TEN", "VFPU_SQRT3_2"]

def printVfpuConst (k : ℕ) : Bytes :=
  match if 0 < k then vfpuConstNames[k]? else none with
  | some name => text name
  | none => decimalInt k

/-- The loop of `print_vfpu_halffloat` over a fraction of ten bits: the highest one moves up to
bit 10, which takes ten turns at most. -/
def normalizeHalf : ℕ → Word → Word → Word × Word
  | 0, fraction, exponent => (fraction, exponent)
  | n + 1, fraction, exponent =>
      let fraction := fraction <<< 1
      let exponent := exponent - 1
      if fraction &&& 0x400 = 0 then normalizeHalf n fraction exponent else (fraction, exponent)

/-- `printG` is what `%g` prints for the number with the bits given. -/
def printVfpuHalffloat (printG : Word → Bytes) (l : Word) : Bytes :=
  let sign := l >>> 15 &&& 0x1
  let exponent := l >>> 10 &&& 0x1F
  let fraction := l &&& 0x3FF
  let signchar : UInt8 := if sign = 1 then minus else plus
  if exponent = 0x1F then
    if fraction = 0 then signchar :: text "Inf" else signchar :: text "NaN"
  else if exponent = 0 ∧ fraction = 0 then [signchar, zero]
  else
    let (fraction, exponent) :=
      if exponent = 0 then
        let (fraction, exponent) := normalizeHalf 10 fraction exponent
        (fraction &&& 0x3FF, exponent)
      else (fraction, exponent)
    printG (sign <<< 31 ||| (exponent + 112) <<< 23 ||| fraction <<< 13)

def pfxCstNames : List String := ["0", "1", "2", "1/2", "3", "1/3", "1/4", "1/6"]
def pfxSwzNames : List String := ["x", "y", "z", "w"]
def pfxSatNames : List String := ["", "[0:1]", "", "[-1:1]"]

def printVfpuPrefix (l : Word) (pos : Char) : Bytes :=
  let pos := pos.toNat - 0x30
  if pos < 4 then
    let negation := l >>> (pos + 16) &&& 0x1
    let constant := l >>> (pos + 12) &&& 0x1
    let absConsthi := l >>> (pos + 8) &&& 0x1
    let swzConstlo := (l >>> (pos * 2) &&& 0x3).toNat
    (if negation = 0 then [] else text "-") ++
      if constant = 0 then
        if absConsthi = 0 then text (pfxSwzNames.getD swzConstlo "")
        else text "|" ++ text (pfxSwzNames.getD swzConstlo "") ++ text "|"
      else text (pfxCstNames.getD (absConsthi.toNat * 4 + swzConstlo) "")
  else if pos < 8 then
    let mask := l >>> (pos - 4 + 8) &&& 0x1
    let saturation := (l >>> ((pos - 4) * 2) &&& 0x3).toNat
    if mask = 0 then text (pfxSatNames.getD saturation "") else text "m"
  else []

/-- Every `sprintf` of `print_vfpu_rotator` writes to the start of its place, and the string ends
behind the last: what stays is the closing bracket. -/
def printVfpuRotator (_l : Word) : Bytes := text "]"

def printFpureg (reg : ℕ) : Bytes := text "$fpr" ++ padded 2 10 reg

def printDebugreg (reg : ℕ) : Bytes :=
  match drRegs.getD reg none with
  | some name => text name
  | none => text "$" ++ padded 2 10 reg ++ text "\n"

def printVfpuMatrixOf (reg : ℕ) : Bytes := decimalInt ↑(reg >>> 2 &&& 7)

def printVfpuColumnOf (reg : ℕ) : Bytes := decimalInt ↑(reg &&& 3)

def printVfpusingle (reg : ℕ) : Bytes :=
  text "S" ++ printVfpuMatrixOf reg ++ printVfpuColumnOf reg ++ decimalInt ↑(reg >>> 5 &&& 3)

def printVfpuReg (reg offset : ℕ) (one two : String) : Bytes :=
  if reg >>> 5 &&& 1 = 0 then
    text one ++ printVfpuMatrixOf reg ++ printVfpuColumnOf reg ++ decimalInt offset
  else text two ++ printVfpuMatrixOf reg ++ decimalInt offset ++ printVfpuColumnOf reg

def printVfpuquad (reg : ℕ) : Bytes := printVfpuReg reg 0 "C" "R"

def printVfpupair (reg : ℕ) : Bytes :=
  printVfpuReg reg (if reg >>> 6 &&& 1 = 0 then 0 else 2) "C" "R"

def printVfputriple (reg : ℕ) : Bytes :=
  printVfpuReg reg (if reg >>> 6 &&& 1 = 0 then 0 else 1) "C" "R"

def printVfpumpair (reg : ℕ) : Bytes :=
  printVfpuReg reg (if reg >>> 6 &&& 1 = 0 then 0 else 2) "M" "E"

def printVfpumtriple (reg : ℕ) : Bytes :=
  printVfpuReg reg (if reg >>> 6 &&& 1 = 0 then 0 else 1) "M" "E"

def printVfpumatrix (reg : ℕ) : Bytes := printVfpuReg reg 0 "M" "E"

def printVfpureg (reg : ℕ) (type : Char) : Bytes :=
  match type with
  | 's' => printVfpusingle reg
  | 'q' => printVfpuquad reg
  | 'p' => printVfpupair reg
  | 't' => printVfputriple reg
  | 'm' => printVfpumpair reg
  | 'n' => printVfpumtriple reg
  | 'o' => printVfpumatrix reg
  | _ => []

end PsplinkUsb.Pspsh.Operands
