import PsplinkUsb.Library.FloatText
import PsplinkUsb.Library.Printing
import PsplinkUsb.Pspsh.Disasm
import PsplinkUsb.Pspsh.FormatCodes

/-!
`decode_args` of `pspsh/disasm.C` and the `print_` functions on the buffer they write to. Each
`print_` function leaves the text that `Operands` has for it, and all but `print_vfpu_rotator`
return the place behind it.
-/

namespace PsplinkUsb.Pspsh.ArgsBuffer

open PsplinkUsb.Library.CString
open PsplinkUsb.Library.FloatText
open PsplinkUsb.Library.Numerals
open PsplinkUsb.Library.Printing
open PsplinkUsb.Psplink.ProgramMemory
open PsplinkUsb.Pspsh.BranchTargets (imm)
open PsplinkUsb.Pspsh.FormatCodes
open PsplinkUsb.Pspsh.Operands

section

variable (opts : DisasmOpts) (realregs : Option (ℕ → Word))

def printCpureg (reg : ℕ) : Printer :=
  if opts.mregs then
    if 0 < reg then put (text "r" ++ decimalInt reg)
    else fun output page => (output + 1, (page.store output zero).store (output + 1) 0)
  else put (text "$" ++ text (regName.getD reg ""))

def printInt (i : ℤ) : Printer := put (Operands.printInt i)

def printHex (i : ℕ) : Printer := put (Operands.printHex i)

def printImm (ofs : ℤ) : Printer := put (Operands.printImm opts ofs)

def printJump (addr : Word) : Printer := put (Operands.printJump opts addr)

def printOfs (ofs : Word) (reg : ℕ) : Printer :=
  match if opts.printreal then realregs else none with
  | some regs => printJump opts (regs reg + ofs)
  | none =>
      (((printImm opts ofs.toInt).andThen (putChar (byte '('))).andThen
        (printCpureg opts reg)).andThen (putChar (byte ')'))

def printPcofs (ofs pc : Word) : Printer := printJump opts (pc + 4 + ofs * 4)

def printJumpr (reg : ℕ) : Printer :=
  match if opts.printreal then realregs else none with
  | some regs => printJump opts (regs reg)
  | none => printCpureg opts reg

def printSyscall (syscall : ℕ) : Printer := put (Operands.printSyscall syscall)

def printCop0 (reg : ℕ) : Printer := put (Operands.printCop0 reg)

def printCop1 (reg : ℕ) : Printer := put (Operands.printCop1 reg)

def printCop2 (reg : ℕ) : Printer := put (Operands.printCop2 reg)

def printVfpuCond (cond : ℕ) : Printer := put (Operands.printVfpuCond cond)

def printVfpuConst (k : ℕ) : Printer := put (Operands.printVfpuConst k)

def printVfpuHalffloat (l : Word) : Printer := put (Operands.printVfpuHalffloat formatG l)

def printVfpuPrefix (l : Word) (pos : Char) : Printer := fun output page =>
  if '0' ≤ pos ∧ pos ≤ '3' then
    let pos := pos.toNat - 0x30
    let negation := l >>> (pos + 16) &&& 0x1
    let constant := l >>> (pos + 12) &&& 0x1
    let absConsthi := l >>> (pos + 8) &&& 0x1
    let swzConstlo := (l >>> (pos * 2) &&& 0x3).toNat
    let (len, page) := if negation = 0 then (0, page) else sprintf output (text "-") page
    let (more, page) :=
      if constant = 0 then
        if absConsthi = 0 then sprintf (output + len) (text (pfxSwzNames.getD swzConstlo "")) page
        else
          sprintf (output + len) (text "|" ++ text (pfxSwzNames.getD swzConstlo "") ++ text "|") page
      else sprintf (output + len) (text (pfxCstNames.getD (absConsthi.toNat * 4 + swzConstlo) "")) page
    (output + (len + more), page)
  else if '4' ≤ pos ∧ pos ≤ '7' then
    let pos := pos.toNat - 0x34
    let mask := l >>> (pos + 8) &&& 0x1
    let saturation := (l >>> (pos * 2) &&& 0x3).toNat
    put (if mask = 0 then text (pfxSatNames.getD saturation "") else text "m") output page
  else (output, page)

/-- The number of elements, from the size of the operands. -/
def rotatorSize (l : Word) : ℕ :=
  let opcode := l &&& 0x8080
  if opcode = 0x80 then 2 else if opcode = 0x8000 then 3 else if opcode = 0x8080 then 4 else 0

def rotatorElements (l : Word) : List Bytes :=
  let rotators := l >>> 16 &&& 0x1F
  let rothi := (rotators >>> 2 &&& 0x3).toNat
  let rotlo := (rotators &&& 0x3).toNat
  let negation := rotators >>> 4 &&& 0x1
  let sine := if negation = 0 then text "s" else text "-s"
  let elements := List.replicate 4 (if rothi = rotlo then sine else text "0")
  (elements.set rothi sine).set rotlo (text "c")

/-- The loop over the elements. All its `sprintf` write to the same place, and the length of the
separator is not counted. -/
def rotatorLoop (elements : List Bytes) (opsize output i len : ℕ) (page : Page) : ℕ × Page :=
  let (more, page) := sprintf output (elements.getD i []) page
  if opsize ≤ i + 1 then (len + more, page)
  else
    let (_, page) := sprintf output (text " ,") page
    rotatorLoop elements opsize output (i + 1) (len + more) page
termination_by opsize - i

def printVfpuRotator (l : Word) : Printer := fun output page =>
  let (len, page) := sprintf output (text "[") page
  let (len, page) := rotatorLoop (rotatorElements l) (rotatorSize l) output 0 len page
  let (more, page) := sprintf output (text "]") page
  (output + (len + more), page)

def printFpureg (reg : ℕ) : Printer := put (Operands.printFpureg reg)

def printDebugreg (reg : ℕ) : Printer := put (Operands.printDebugreg reg)

def printVfpusingle (reg : ℕ) : Printer := put (Operands.printVfpusingle reg)

def printVfpuReg (reg offset : ℕ) (one two : String) : Printer :=
  put (Operands.printVfpuReg reg offset one two)

def printVfpuquad (reg : ℕ) : Printer := printVfpuReg reg 0 "C" "R"

def printVfpupair (reg : ℕ) : Printer :=
  printVfpuReg reg (if reg >>> 6 &&& 1 = 0 then 0 else 2) "C" "R"

def printVfputriple (reg : ℕ) : Printer :=
  printVfpuReg reg (if reg >>> 6 &&& 1 = 0 then 0 else 1) "C" "R"

def printVfpumpair (reg : ℕ) : Printer :=
  printVfpuReg reg (if reg >>> 6 &&& 1 = 0 then 0 else 2) "M" "E"

def printVfpumtriple (reg : ℕ) : Printer :=
  printVfpuReg reg (if reg >>> 6 &&& 1 = 0 then 0 else 1) "M" "E"

def printVfpumatrix (reg : ℕ) : Printer := printVfpuReg reg 0 "M" "E"

def printVfpureg (reg : ℕ) (type : Char) : Printer :=
  match type with
  | 's' => printVfpusingle reg
  | 'q' => printVfpuquad reg
  | 'p' => printVfpupair reg
  | 't' => printVfputriple reg
  | 'm' => printVfpumpair reg
  | 'n' => printVfpumtriple reg
  | 'o' => printVfpumatrix reg
  | _ => keep

end

section

variable (opts : DisasmOpts) (opcode pc : Word) (realregs : Option (ℕ → Word))

/-- `if(fmt[i+1]) { output = print_vfpureg(reg, fmt[i+1], output); i++; }`. -/
def vfpuOperand (reg : ℕ) : List Char → Printer × ℕ
  | type :: _ => (printVfpureg reg type, 1)
  | [] => (keep, 0)

/-- The `switch` on the letter behind a `%`, and how many letters more it takes. -/
def operand (vmmul : Bool) (letter : Char) (next : List Char) : Printer × ℕ :=
  match letter with
  | 'd' => (printCpureg opts (rd opcode), 0)
  | 't' => (printCpureg opts (rt opcode), 0)
  | 's' => (printCpureg opts (rs opcode), 0)
  | 'i' => (printImm opts (imm opcode).toInt, 0)
  | 'I' => (printHex (immu opcode), 0)
  | 'o' => (printOfs opts realregs (imm opcode) (rs opcode), 0)
  | 'O' => (printPcofs opts (imm opcode) pc, 0)
  | 'V' => (printOfs opts realregs (imm opcode) (rs opcode), 0)
  | 'j' => (printJump opts (jump opcode pc), 0)
  | 'J' => (printJumpr opts realregs (rs opcode), 0)
  | 'a' => (printInt (sa opcode), 0)
  | '0' => (printCop0 (rd opcode), 0)
  | '1' => (printCop1 (rd opcode), 0)
  | 'p' => ((putChar (byte '$')).andThen (printInt (rd opcode)), 0)
  | '2' =>
      match next with
      | 'd' :: _ => (printCop2 (ved opcode), 1)
      | 's' :: _ => (printCop2 (ves opcode), 1)
      | _ => (keep, 0)
  | 'k' => (printHex (rt opcode), 0)
  | 'D' => (printFpureg (fd opcode), 0)
  | 'T' => (printFpureg (ft opcode), 0)
  | 'S' => (printFpureg (fs opcode), 0)
  | 'r' => (printDebugreg (rd opcode), 0)
  | 'n' =>
      match next with
      | 'e' :: _ => (printInt (rd opcode + 1), 1)
      | 'i' :: _ => (printInt (rd opcode - sa opcode + 1), 1)
      | _ => (keep, 0)
  | 'x' => vfpuOperand (vt opcode) next
  | 'y' =>
      let reg := vs opcode
      vfpuOperand
        (if vmmul then if reg &&& 0x20 = 0 then reg ||| 0x20 else reg &&& 0x5F else reg) next
  | 'z' => vfpuOperand (vd opcode) next
  | 'v' =>
      match next with
      | '3' :: _ => (printInt (vi3 opcode), 1)
      | '5' :: _ => (printInt (vi5 opcode), 1)
      | '8' :: _ => (printInt (vi8 opcode), 1)
      | 'k' :: _ => (printVfpuConst (vi5 opcode), 1)
      | 'i' :: _ => (printInt (imm opcode).toInt, 1)
      | 'h' :: _ => (printVfpuHalffloat opcode, 1)
      | 'r' :: _ => (printVfpuRotator opcode, 1)
      | 'p' :: pos :: _ => (printVfpuPrefix opcode pos, 2)
      | _ => (keep, 0)
  | 'X' => vfpuOperand (vo opcode) next
  | 'Z' =>
      match next with
      | 'c' :: _ => (printImm opts (vcc opcode), 1)
      | 'n' :: _ => (printVfpuCond (vcn opcode), 1)
      | _ => (keep, 0)
  | 'c' => (printHex (code opcode), 0)
  | 'C' => (printSyscall (code opcode), 0)
  | 'Y' => (printOfs opts realregs (imm opcode &&& ~~~3) (rs opcode), 0)
  | _ => (keep, 0)

def decodeLoop (vmmul : Bool) : List Char → Printer
  | [] => keep
  | c :: fmt =>
      if c = '%' then
        match fmt with
        | [] => keep
        | letter :: fmt =>
            let vmmul := vmmul || letter = '?'
            let out := operand opts opcode pc realregs vmmul letter fmt
            out.1.andThen (decodeLoop vmmul (fmt.drop out.2))
      else (putChar (byte c)).andThen (decodeLoop vmmul fmt)
termination_by fmt => fmt.length
decreasing_by
  all_goals simp only [List.length_cons, List.length_drop]; omega

/-- The buffer when `decode_args` returns. -/
def decodeArgs (fmt : String) (page : Page) : Page :=
  finished (decodeLoop opts opcode pc realregs false fmt.toList) page

end

section

variable {opts : DisasmOpts} {realregs : Option (ℕ → Word)} {l : Word} {reg : ℕ} {output len : ℕ}
  {page : Page}

theorem prints_printCpureg (reg : ℕ) : Prints (printCpureg opts reg) (Operands.printCpureg opts reg) := by
  rw [printCpureg, Operands.printCpureg]
  split
  · split
    · exact prints_put _
    · exact prints_put (text "0")
  · exact prints_put _

theorem prints_printOfs (ofs : Word) (reg : ℕ) :
    Prints (printOfs opts realregs ofs reg) (Operands.printOfs opts realregs ofs reg) := by
  rw [printOfs, Operands.printOfs]
  cases (if opts.printreal then realregs else none) with
  | none =>
      exact (((prints_put _).andThen (prints_putChar _)).andThen (prints_printCpureg reg)).andThen
        (prints_putChar _)
  | some regs => exact prints_put _

theorem prints_printJumpr (reg : ℕ) :
    Prints (printJumpr opts realregs reg) (Operands.printJumpr opts realregs reg) := by
  rw [printJumpr, Operands.printJumpr]
  cases (if opts.printreal then realregs else none) with
  | none => exact prints_printCpureg reg
  | some regs => exact prints_put _

theorem prints_printVfpureg (reg : ℕ) (type : Char) :
    Prints (printVfpureg reg type) (Operands.printVfpureg reg type) := by
  by_cases htype : type ∈ ['s', 'q', 'p', 't', 'm', 'n', 'o']
  · simp only [List.mem_cons, List.not_mem_nil, or_false] at htype
    rcases htype with rfl | rfl | rfl | rfl | rfl | rfl | rfl
    all_goals exact prints_put _
  · have hkeep : printVfpureg reg type = keep := by
      unfold printVfpureg
      split
      case h_8 => rfl
      all_goals exact absurd (by decide) htype
    have hempty : Operands.printVfpureg reg type = [] := by
      unfold Operands.printVfpureg
      split
      case h_8 => rfl
      all_goals exact absurd (by decide) htype
    rw [hkeep, hempty]
    exact prints_keep

theorem prints_prefix_element {pos : Char} (hlow : '0' ≤ pos) (hhigh : pos ≤ '3') :
    Prints (printVfpuPrefix l pos) (Operands.printVfpuPrefix l pos) := by
  have hpos : pos.toNat - 0x30 < 4 := by
    have hle : pos.toNat ≤ '3'.toNat := hhigh
    have hthree : '3'.toNat = 0x33 := rfl
    omega
  have hsign : Prints (if l >>> (pos.toNat - 0x30 + 16) &&& 0x1 = 0 then keep else put (text "-"))
      (if l >>> (pos.toNat - 0x30 + 16) &&& 0x1 = 0 then [] else text "-") := by
    split
    · exact prints_keep
    · exact prints_put _
  simp only [Operands.printVfpuPrefix, if_pos hpos]
  convert hsign.andThen (prints_put _) using 1
  funext output page
  simp only [printVfpuPrefix, if_pos (And.intro hlow hhigh), Printer.andThen, put, sprintf]
  split_ifs
  all_goals simp only [keep, put, sprintf, Nat.zero_add, Nat.add_zero, Nat.add_assoc]

theorem prints_prefix_mask {pos : Char} (hlow : '4' ≤ pos) (hhigh : pos ≤ '7') :
    Prints (printVfpuPrefix l pos) (Operands.printVfpuPrefix l pos) := by
  have hle : '4'.toNat ≤ pos.toNat := hlow
  have hle' : pos.toNat ≤ '7'.toNat := hhigh
  have hfour : '4'.toNat = 0x34 := rfl
  have hseven : '7'.toNat = 0x37 := rfl
  have hnot : ¬('0' ≤ pos ∧ pos ≤ '3') := by
    rintro ⟨-, hthree⟩
    have hle : pos.toNat ≤ '3'.toNat := hthree
    have hthree : '3'.toNat = 0x33 := rfl
    omega
  have hsub : pos.toNat - 0x34 = pos.toNat - 0x30 - 4 := by omega
  have hge : ¬pos.toNat - 0x30 < 4 := by omega
  have hlt : pos.toNat - 0x30 < 8 := by omega
  have heq : printVfpuPrefix l pos = put (Operands.printVfpuPrefix l pos) := by
    funext output page
    simp only [printVfpuPrefix, if_neg hnot, if_pos (And.intro hlow hhigh), Operands.printVfpuPrefix,
      if_neg hge, if_pos hlt, hsub]
  rw [heq]
  exact prints_put _

theorem rotatorLoop_spec (elements : List Bytes) (opsize output i len : ℕ) (page : Page) :
    len ≤ (rotatorLoop elements opsize output i len page).1 ∧
      ∀ j < output, (rotatorLoop elements opsize output i len page).2.buf j = page.buf j := by
  fun_induction rotatorLoop elements opsize output i len page with
  | case1 => exact ⟨Nat.le_add_right _ _, fun j hj => Page.storeAll_of_lt hj⟩
  | case2 i len page more page' hprint hlt more' page'' hprint' ih =>
      cases hprint
      cases hprint'
      obtain ⟨hlen, hkeeps⟩ := ih
      refine ⟨(Nat.le_add_right _ _).trans hlen, fun j hj => (hkeeps j hj).trans ?_⟩
      rw [Page.storeAll_of_lt hj, Page.storeAll_of_lt hj]

/-- The closing bracket is the last to be written to the one place, and the place returned is
behind the zero byte that follows it. -/
theorem leaves_printVfpuRotator (l : Word) :
    Leaves (printVfpuRotator l) (Operands.printVfpuRotator l) where
  next := by
    intro output page
    have hlen := (rotatorLoop_spec (rotatorElements l) (rotatorSize l) output 0 1
      (page.storeAll output (text "[" ++ [0]))).1
    show output + 1 < output + (_ + 1)
    exact Nat.add_lt_add_left (Nat.lt_succ_of_le hlen) output
  holds := fun _ _ => Page.holds_storeAll
  keeps := by
    intro output page j hj
    have hkeeps := (rotatorLoop_spec (rotatorElements l) (rotatorSize l) output 0 1
      (page.storeAll output (text "[" ++ [0]))).2 j hj
    rw [Page.storeAll_of_lt hj] at hkeeps
    rw [← hkeeps]
    exact Page.storeAll_of_lt hj

end

section

variable (opts : DisasmOpts) (opcode pc : Word) (realregs : Option (ℕ → Word)) (vmmul : Bool)

/-- What `decode_args` runs for a code. -/
def printer (code : FormatCode) : Printer :=
  match code.letters with
  | letter :: next => (operand opts opcode pc realregs vmmul letter next).1
  | [] => keep

/-- The text that is left of an operand in the string. -/
def left (code : FormatCode) : Bytes :=
  match code.letters with
  | letter :: next => (Disasm.operand opts formatG opcode pc realregs vmmul letter next).1
  | [] => []

def leftAll (ps : List Piece) : Bytes :=
  ps.flatMap fun
    | .literal c => [byte c]
    | .operand code => left opts opcode pc realregs vmmul code

end

section

variable {opts : DisasmOpts} {opcode pc : Word} {realregs : Option (ℕ → Word)} {vmmul : Bool}
  {code : FormatCode} {fmt : List Char} {ps : List Piece}

theorem prints_printer (hmem : code ∈ FormatCode.all) (hvrot : code ≠ .vrot) :
    Prints (printer opts opcode pc realregs vmmul code)
      (left opts opcode pc realregs vmmul code) := by
  cases code with
  | rd | rt | rs => exact prints_printCpureg _
  | ofs | ofsRs | vofs => exact prints_printOfs _ _
  | jumpr => exact prints_printJumpr _
  | cop => exact (prints_putChar _).andThen (prints_put _)
  | vt kind | vs kind | vd kind | vo kind => exact prints_printVfpureg _ kind
  | vrot => exact absurd rfl hvrot
  | vpfx pos =>
      have hpos : pos ∈ ['0', '1', '2', '3', '4', '5', '6', '7'] := by
        simpa [FormatCode.all] using hmem
      have hrange : ∀ pos ∈ ['0', '1', '2', '3', '4', '5', '6', '7'],
          '0' ≤ pos ∧ pos ≤ '3' ∨ '4' ≤ pos ∧ pos ≤ '7' := by
        decide
      rcases hrange pos hpos with ⟨hlow, hhigh⟩ | ⟨hlow, hhigh⟩
      · exact prints_prefix_element hlow hhigh
      · exact prints_prefix_mask hlow hhigh
  | vmmul => exact prints_keep
  | _ => exact prints_put _

theorem leaves_printer :
    Leaves (printer opts opcode pc realregs vmmul .vrot)
      (left opts opcode pc realregs vmmul .vrot) := leaves_printVfpuRotator opcode

theorem decodeLoop_nil : decodeLoop opts opcode pc realregs vmmul [] = keep := by
  rw [decodeLoop]

theorem decodeLoop_percent {flag : Bool} {letter : Char} (hflag : (vmmul || letter = '?') = flag)
    (fmt : List Char) :
    decodeLoop opts opcode pc realregs vmmul ('%' :: letter :: fmt) =
      (operand opts opcode pc realregs flag letter fmt).1.andThen
        (decodeLoop opts opcode pc realregs flag
          (fmt.drop (operand opts opcode pc realregs flag letter fmt).2)) := by
  rw [decodeLoop, if_pos rfl, ← hflag]

theorem decodeLoop_operand (hvmmul : code ≠ .vmmul) (fmt : List Char) :
    decodeLoop opts opcode pc realregs vmmul ('%' :: code.letters ++ fmt) =
      (printer opts opcode pc realregs vmmul code).andThen
        (decodeLoop opts opcode pc realregs vmmul fmt) := by
  cases code with
  | vmmul => exact absurd rfl hvmmul
  | _ => exact decodeLoop_percent (Bool.or_false vmmul) _

theorem decodeLoop_vmmul (fmt : List Char) :
    decodeLoop opts opcode pc realregs vmmul ('%' :: FormatCode.vmmul.letters ++ fmt) =
      keep.andThen (decodeLoop opts opcode pc realregs true fmt) :=
  decodeLoop_percent (Bool.or_true vmmul) _

theorem decodeLoop_literal {c : Char} (hc : c ≠ '%') (fmt : List Char) :
    decodeLoop opts opcode pc realregs vmmul (c :: fmt) =
      (putChar (byte c)).andThen (decodeLoop opts opcode pc realregs vmmul fmt) := by
  cases fmt with
  | nil =>
      rw [decodeLoop.eq_def]
      exact if_neg hc
  | cons letter fmt => rw [decodeLoop, if_neg hc]

theorem decodeLoop_append (hliteral : .literal '%' ∉ ps) (hall : ∀ code, .operand code ∈ ps →
      code ∈ FormatCode.all ∧ code ≠ .vrot ∧ code ≠ .vmmul) (fmt : List Char) :
    ∃ p, Prints p (leftAll opts opcode pc realregs vmmul ps) ∧
      decodeLoop opts opcode pc realregs vmmul (chars ps ++ fmt) =
        p.andThen (decodeLoop opts opcode pc realregs vmmul fmt) := by
  induction ps with
  | nil => exact ⟨keep, prints_keep, rfl⟩
  | cons piece ps ih =>
      obtain ⟨p, hprints, hloop⟩ := ih (fun h => hliteral (List.mem_cons_of_mem _ h))
        fun code hcode => hall code (List.mem_cons_of_mem _ hcode)
      cases piece with
      | literal c =>
          have hc : c ≠ '%' := by
            rintro rfl
            exact hliteral List.mem_cons_self
          refine ⟨(putChar (byte c)).andThen p, (prints_putChar _).andThen hprints, ?_⟩
          show decodeLoop opts opcode pc realregs vmmul (c :: (chars ps ++ fmt)) = _
          rw [decodeLoop_literal hc, hloop]
          rfl
      | operand code =>
          obtain ⟨hmem, hvrot, hvmmul⟩ := hall code List.mem_cons_self
          refine ⟨_, (prints_printer hmem hvrot).andThen hprints, ?_⟩
          show decodeLoop opts opcode pc realregs vmmul ('%' :: code.letters ++ chars ps ++ fmt) = _
          rw [List.append_assoc, decodeLoop_operand hvmmul, hloop]
          rfl

theorem decodeArgs_percent {flag : Bool} {letter : Char} (hflag : (vmmul || letter = '?') = flag)
    (fmt : List Char) :
    Disasm.decodeArgs opts formatG opcode pc realregs vmmul ('%' :: letter :: fmt) =
      (Disasm.operand opts formatG opcode pc realregs flag letter fmt).1 ++
        Disasm.decodeArgs opts formatG opcode pc realregs flag
          (fmt.drop (Disasm.operand opts formatG opcode pc realregs flag letter fmt).2) := by
  rw [Disasm.decodeArgs, if_pos rfl, ← hflag]

theorem decodeArgs_operand (hvmmul : code ≠ .vmmul) (fmt : List Char) :
    Disasm.decodeArgs opts formatG opcode pc realregs vmmul ('%' :: code.letters ++ fmt) =
      left opts opcode pc realregs vmmul code ++
        Disasm.decodeArgs opts formatG opcode pc realregs vmmul fmt := by
  cases code with
  | vmmul => exact absurd rfl hvmmul
  | _ => exact decodeArgs_percent (Bool.or_false vmmul) _

theorem decodeArgs_literal {c : Char} (hc : c ≠ '%') (fmt : List Char) :
    Disasm.decodeArgs opts formatG opcode pc realregs vmmul (c :: fmt) =
      byte c :: Disasm.decodeArgs opts formatG opcode pc realregs vmmul fmt := by
  cases fmt with
  | nil =>
      rw [Disasm.decodeArgs.eq_def]
      exact if_neg hc
  | cons letter fmt => rw [Disasm.decodeArgs, if_neg hc]

theorem decodeArgs_chars (hliteral : .literal '%' ∉ ps) (hvmmul : .operand .vmmul ∉ ps) :
    Disasm.decodeArgs opts formatG opcode pc realregs vmmul (chars ps) =
      leftAll opts opcode pc realregs vmmul ps := by
  induction ps with
  | nil =>
      show Disasm.decodeArgs opts formatG opcode pc realregs vmmul [] = []
      rw [Disasm.decodeArgs]
  | cons piece ps ih =>
      have hrest := ih (fun h => hliteral (List.mem_cons_of_mem _ h))
        fun h => hvmmul (List.mem_cons_of_mem _ h)
      cases piece with
      | literal c =>
          have hc : c ≠ '%' := by
            rintro rfl
            exact hliteral List.mem_cons_self
          show Disasm.decodeArgs opts formatG opcode pc realregs vmmul (c :: chars ps) = _
          rw [decodeArgs_literal hc, hrest]
          rfl
      | operand code =>
          have hcode : code ≠ .vmmul := by
            rintro rfl
            exact hvmmul List.mem_cons_self
          show Disasm.decodeArgs opts formatG opcode pc realregs vmmul
            ('%' :: code.letters ++ chars ps) = _
          rw [decodeArgs_operand hcode, hrest]
          rfl

end

/-- Whether a format has the `%?` of `vmmul`. -/
def hasVmmul (ps : List Piece) : Bool := .operand .vmmul ∈ ps

/-- The pieces behind it. -/
def body (ps : List Piece) : List Piece := if hasVmmul ps then ps.tail else ps

section

variable {opts : DisasmOpts} {opcode pc : Word} {realregs : Option (ℕ → Word)} {ps : List Piece}

theorem eq_cons_body (hformed : Formed ps) (h : hasVmmul ps = true) :
    ps = .operand .vmmul :: body ps := by
  have hmem : .operand .vmmul ∈ ps := of_decide_eq_true h
  rw [body, if_pos h]
  cases ps with
  | nil => exact absurd hmem List.not_mem_nil
  | cons piece ps =>
      rcases List.mem_cons.mp hmem with heq | hmem
      · rw [← heq, List.tail_cons]
      · exact absurd hmem hformed.vmmul_first

theorem vmmul_notMem_body (hformed : Formed ps) : .operand .vmmul ∉ body ps := by
  cases h : hasVmmul ps with
  | true =>
      rw [body, if_pos h]
      exact hformed.vmmul_first
  | false =>
      rw [body, if_neg (Bool.eq_false_iff.mp h)]
      exact of_decide_eq_false h

theorem mem_body (hformed : Formed ps) {piece : Piece} (hpiece : piece ≠ .operand .vmmul) :
    piece ∈ body ps ↔ piece ∈ ps := by
  cases h : hasVmmul ps with
  | true =>
      conv_rhs => rw [eq_cons_body hformed h]
      rw [List.mem_cons, or_iff_right hpiece]
  | false => rw [body, if_neg (Bool.eq_false_iff.mp h)]

theorem vrot_body_last (hformed : Formed ps) : .operand .vrot ∉ (body ps).dropLast := by
  intro hmem
  apply hformed.vrot_last
  cases h : hasVmmul ps with
  | true =>
      rw [eq_cons_body hformed h]
      cases hbody : body ps with
      | nil =>
          rw [hbody] at hmem
          exact absurd hmem List.not_mem_nil
      | cons piece rest =>
          rw [List.dropLast_cons_of_ne_nil (List.cons_ne_nil _ _), ← hbody]
          exact List.mem_cons_of_mem _ hmem
  | false => rwa [body, if_neg (Bool.eq_false_iff.mp h)] at hmem

theorem decodeLoop_body (hformed : Formed ps) :
    decodeLoop opts opcode pc realregs false (chars ps) =
      decodeLoop opts opcode pc realregs (hasVmmul ps) (chars (body ps)) := by
  cases h : hasVmmul ps with
  | true =>
      conv_lhs => rw [eq_cons_body hformed h]
      exact decodeLoop_vmmul (chars (body ps))
  | false => rw [body, if_neg (Bool.eq_false_iff.mp h)]

theorem decodeArgs_body (hformed : Formed ps) :
    Disasm.decodeArgs opts formatG opcode pc realregs false (chars ps) =
      Disasm.decodeArgs opts formatG opcode pc realregs (hasVmmul ps) (chars (body ps)) := by
  cases h : hasVmmul ps with
  | true =>
      conv_lhs => rw [eq_cons_body hformed h]
      exact decodeArgs_percent (Bool.or_true false) _
  | false => rw [body, if_neg (Bool.eq_false_iff.mp h)]

variable {fmt : String}

theorem percent_notMem (hformed : Formed ps) : .literal '%' ∉ ps := by
  intro hmem
  exact absurd (hformed.literals '%' hmem) (by decide)

theorem percent_notMem_body (hformed : Formed ps) : .literal '%' ∉ body ps := by
  rw [mem_body hformed Piece.noConfusion]
  exact percent_notMem hformed

/-- What `decode_args` leaves of a format, its first operand that indicates `vmmul` apart. -/
def leftText (opts : DisasmOpts) (opcode pc : Word) (realregs : Option (ℕ → Word)) (fmt : String) :
    Bytes :=
  leftAll opts opcode pc realregs (hasVmmul (pieces fmt)) (body (pieces fmt))

theorem decodeArgs_eq_leftText (hformed : Formed (pieces fmt)) :
    Disasm.decodeArgs opts formatG opcode pc realregs false fmt.toList =
      leftText opts opcode pc realregs fmt := by
  rw [← chars_pieces, decodeArgs_body hformed,
    decodeArgs_chars (percent_notMem_body hformed) (vmmul_notMem_body hformed)]
  rfl

theorem of_mem_body (hformed : Formed (pieces fmt)) {code : FormatCode}
    (hmem : .operand code ∈ body (pieces fmt)) : code ∈ FormatCode.all ∧ code ≠ .vmmul := by
  have hvmmul : code ≠ .vmmul := by
    rintro rfl
    exact vmmul_notMem_body hformed hmem
  have hne : Piece.operand code ≠ .operand .vmmul := fun h => hvmmul (Piece.operand.inj h)
  exact ⟨mem_all_of_mem_piecesFrom ((mem_body hformed hne).mp hmem), hvmmul⟩

theorem prints_decodeLoop (hformed : Formed (pieces fmt)) (hvrot : .operand .vrot ∉ pieces fmt) :
    Prints (decodeLoop opts opcode pc realregs false fmt.toList)
      (leftText opts opcode pc realregs fmt) := by
  obtain ⟨p, hprints, hloop⟩ := @decodeLoop_append opts opcode pc realregs (hasVmmul (pieces fmt))
    (body (pieces fmt)) (percent_notMem_body hformed) (fun code hcode => by
      obtain ⟨hmem, hvmmul⟩ := of_mem_body hformed hcode
      refine ⟨hmem, ?_, hvmmul⟩
      rintro rfl
      exact hvrot ((mem_body hformed (by decide)).mp hcode)) []
  rw [List.append_nil, decodeLoop_nil] at hloop
  rw [← chars_pieces, decodeLoop_body hformed, hloop]
  exact hprints

theorem exists_body_vrot (hformed : Formed (pieces fmt)) (hvrot : .operand .vrot ∈ pieces fmt) :
    ∃ qs, body (pieces fmt) = qs ++ [.operand .vrot] ∧ .operand .vrot ∉ qs := by
  have hmem : .operand .vrot ∈ body (pieces fmt) := (mem_body hformed (by decide)).mpr hvrot
  have hdrop := vrot_body_last hformed
  have hlast : .operand .vrot ∈ (body (pieces fmt)).getLast? := by
    by_contra hne
    exact hdrop (List.mem_dropLast_of_mem_of_ne_getLast? hmem fun h => hne h.symm)
  exact ⟨_, (List.dropLast_append_getLast? _ hlast).symm, hdrop⟩

theorem leaves_decodeLoop (hformed : Formed (pieces fmt)) (hvrot : .operand .vrot ∈ pieces fmt) :
    Leaves (decodeLoop opts opcode pc realregs false fmt.toList)
      (leftText opts opcode pc realregs fmt) := by
  obtain ⟨qs, hqs, hnot⟩ := exists_body_vrot hformed hvrot
  have hsub : ∀ piece ∈ qs, piece ∈ body (pieces fmt) := by
    rw [hqs]
    exact fun _ => List.mem_append_left _
  obtain ⟨p, hprints, hloop⟩ := @decodeLoop_append opts opcode pc realregs (hasVmmul (pieces fmt)) qs
    (fun h => percent_notMem_body hformed (hsub _ h))
    (fun code hcode => by
      obtain ⟨hall, hvmmul⟩ := of_mem_body hformed (hsub _ hcode)
      refine ⟨hall, ?_, hvmmul⟩
      rintro rfl
      exact hnot hcode) ('%' :: FormatCode.vrot.letters ++ [])
  have hchars : chars (body (pieces fmt)) = chars qs ++ ('%' :: FormatCode.vrot.letters ++ []) := by
    rw [hqs, chars, List.flatMap_append]
    rfl
  have hleft : leftText opts opcode pc realregs fmt =
      leftAll opts opcode pc realregs (hasVmmul (pieces fmt)) qs ++
        left opts opcode pc realregs (hasVmmul (pieces fmt)) .vrot := by
    rw [leftText, hqs, leftAll, List.flatMap_append, List.flatMap_singleton, ← leftAll]
  rw [decodeLoop_operand (by decide), decodeLoop_nil] at hloop
  rw [← chars_pieces, decodeLoop_body hformed, hchars, hloop, hleft]
  exact hprints.andThen_leaves leaves_printer

/-- The text model of `decode_args` is what stands in the buffer, up to its zero byte. -/
theorem holds_decodeArgs (hformed : Formed (pieces fmt)) (page : Page) :
    Holds (decodeArgs opts opcode pc realregs fmt page).buf 0
      (Disasm.decodeArgs opts formatG opcode pc realregs false fmt.toList ++ [0]) := by
  rw [decodeArgs_eq_leftText hformed]
  by_cases hvrot : .operand .vrot ∈ pieces fmt
  · exact (leaves_decodeLoop hformed hvrot).finished page
  · exact ((prints_decodeLoop hformed hvrot).finished page).1

theorem used_decodeArgs (hformed : Formed (pieces fmt)) (hvrot : .operand .vrot ∉ pieces fmt)
    (page : Page) :
    (decodeArgs opts opcode pc realregs fmt page).used ≤
      max page.used ((leftText opts opcode pc realregs fmt).length + 1) :=
  ((prints_decodeLoop hformed hvrot).finished page).2

end

end PsplinkUsb.Pspsh.ArgsBuffer
