import PsplinkUsb.Pspsh.Operands

namespace PsplinkUsb.Pspsh.Disasm

open PsplinkUsb.Library.Numerals
open PsplinkUsb.Psplink.ProgramMemory
open PsplinkUsb.Pspsh.BranchTargets (imm)
open PsplinkUsb.Pspsh.InstructionTable
open PsplinkUsb.Pspsh.Operands

section

variable (opts : DisasmOpts) (printG : Word → Bytes) (opcode pc : Word)
  (realregs : Option (ℕ → Word))

/-- `%z`, `%x` and their like name the kind of the register in the character behind. -/
def vfpuOperand (reg : ℕ) : List Char → Bytes × ℕ
  | type :: _ => (printVfpureg reg type, 1)
  | [] => ([], 0)

/-- What the letter behind a `%` prints, and how many characters of the format it takes behind
it. -/
def operand (vmmul : Bool) (letter : Char) (next : List Char) : Bytes × ℕ :=
  match letter with
  | 'd' => (printCpureg opts (rd opcode), 0)
  | 't' => (printCpureg opts (rt opcode), 0)
  | 's' => (printCpureg opts (rs opcode), 0)
  | 'i' => (printImm opts (imm opcode).toInt, 0)
  | 'I' => (printHex (immu opcode), 0)
  | 'o' => (printOfs opts realregs (imm opcode) (rs opcode), 0)
  | 'O' => (printPcofs opts (imm opcode) pc, 0)
  | 'V' => (printOfs opts realregs (imm opcode) (rs opcode), 0)
  | 'j' => (printJump opts (jump opcode pc), 0)
  | 'J' => (printJumpr opts realregs (rs opcode), 0)
  | 'a' => (printInt (sa opcode), 0)
  | '0' => (printCop0 (rd opcode), 0)
  | '1' => (printCop1 (rd opcode), 0)
  | 'p' => (text "$" ++ printInt (rd opcode), 0)
  | '2' =>
      match next with
      | 'd' :: _ => (printCop2 (ved opcode), 1)
      | 's' :: _ => (printCop2 (ves opcode), 1)
      | _ => ([], 0)
  | 'k' => (printHex (rt opcode), 0)
  | 'D' => (printFpureg (fd opcode), 0)
  | 'T' => (printFpureg (ft opcode), 0)
  | 'S' => (printFpureg (fs opcode), 0)
  | 'r' => (printDebugreg (rd opcode), 0)
  | 'n' =>
      match next with
      | 'e' :: _ => (printInt (rd opcode + 1), 1)
      | 'i' :: _ => (printInt (rd opcode - sa opcode + 1), 1)
      | _ => ([], 0)
  | 'x' => vfpuOperand (vt opcode) next
  | 'y' =>
      let reg := vs opcode
      vfpuOperand
        (if vmmul then if reg &&& 0x20 = 0 then reg ||| 0x20 else reg &&& 0x5F else reg) next
  | 'z' => vfpuOperand (vd opcode) next
  | 'v' =>
      match next with
      | '3' :: _ => (printInt (vi3 opcode), 1)
      | '5' :: _ => (printInt (vi5 opcode), 1)
      | '8' :: _ => (printInt (vi8 opcode), 1)
      | 'k' :: _ => (printVfpuConst (vi5 opcode), 1)
      | 'i' :: _ => (printInt (imm opcode).toInt, 1)
      | 'h' :: _ => (printVfpuHalffloat printG opcode, 1)
      | 'r' :: _ => (printVfpuRotator opcode, 1)
      | 'p' :: pos :: _ => (printVfpuPrefix opcode pos, 2)
      | _ => ([], 0)
  | 'X' => vfpuOperand (vo opcode) next
  | 'Z' =>
      match next with
      | 'c' :: _ => (printImm opts (vcc opcode), 1)
      | 'n' :: _ => (printVfpuCond (vcn opcode), 1)
      | _ => ([], 0)
  | 'c' => (printHex (code opcode), 0)
  | 'C' => (printSyscall (code opcode), 0)
  | 'Y' => (printOfs opts realregs (imm opcode &&& ~~~3) (rs opcode), 0)
  | _ => ([], 0)

/-- The loop of `decode_args` over the format. -/
def decodeArgs (vmmul : Bool) : List Char → Bytes
  | [] => []
  | c :: fmt =>
      if c = '%' then
        match fmt with
        | [] => []
        | letter :: fmt =>
            let vmmul := vmmul || letter = '?'
            let out := operand opts printG opcode pc realregs vmmul letter fmt
            out.1 ++ decodeArgs vmmul (fmt.drop out.2)
      else byte c :: decodeArgs vmmul fmt
termination_by fmt => fmt.length
decreasing_by
  all_goals simp only [List.length_cons, List.length_drop]; omega

end

def blank : UInt8 := 0x20

/-- `%-10s` and its like. -/
def leftJustified (width : ℕ) (s : Bytes) : Bytes := s ++ List.replicate (width - s.length) blank

/-- The bytes of a word as characters, the lowest first, with a dot for those that do not
print. -/
def ascii (opcode : Word) : Bytes :=
  (List.range 4).map fun i =>
    let ch := (opcode >>> (i * 8) &&& 0xFF).toNat
    UInt8.ofNat (if ch < 32 ∨ 126 < ch then 0x2E else ch)

/-- The buffer of `disasmInstruction` has 1024 bytes. -/
def formatLine (opts : DisasmOpts) (addr : Bytes) (opcode : Word) (name args : Bytes)
    (noaddr : Bool) : Bytes :=
  let line := leftJustified 10 name ++ blank :: args
  let word := zero :: lowerX :: padded 8 16 opcode.toNat
  List.take 1023 <|
    if noaddr then line
    else if opts.printswap then
      leftJustified 10 name ++ blank :: leftJustified 30 args ++ text " ; " ++ addr ++ text ": " ++
        word ++ text " '" ++ ascii opcode ++ text "'"
    else
      addr ++ text ": " ++ word ++ text " '" ++ ascii opcode ++ text "' - " ++ line

/-- The entry the disassembler takes: the first that matches, the macros before the
instructions. -/
def disasmEntry (opts : DisasmOpts) (opcode : Word) : Option Instruction :=
  let matching : Instruction → Bool := fun inst => inst.Matches opcode
  (if opts.macroon then none else gMacro.find? matching).or (gInst.find? matching)

def disasmInstruction (opts : DisasmOpts) (printG : Word → Bytes) (opcode pc : Word)
    (realregs : Option (ℕ → Word)) (noaddr : Bool) : Bytes :=
  let symbol := if opts.symaddr then disasmResolveSymbol opts pc else none
  let addr :=
    match symbol with
    | some name => leftJustified 20 name
    | none => zero :: lowerX :: padded 8 16 pc.toNat
  match disasmEntry opts opcode with
  | some inst =>
      formatLine opts addr opcode (text inst.name)
        (decodeArgs opts printG opcode pc realregs false inst.fmt.toList) noaddr
  | none => formatLine opts addr opcode (text "Unknown") [] noaddr

end PsplinkUsb.Pspsh.Disasm
