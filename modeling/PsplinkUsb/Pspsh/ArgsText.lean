import PsplinkUsb.Pspsh.ArgsBuffer
import PsplinkUsb.Pspsh.ShownOperands

namespace PsplinkUsb.Pspsh.ArgsText

open PsplinkUsb.Library.Ascii
open PsplinkUsb.Library.CString
open PsplinkUsb.Library.FloatText
open PsplinkUsb.Library.Printing
open PsplinkUsb.Library.ShownText
open PsplinkUsb.Psplink.ProgramMemory
open PsplinkUsb.Pspsh.ArgsBuffer
open PsplinkUsb.Pspsh.BranchTargets (imm)
open PsplinkUsb.Pspsh.Disasm (disasmEntry)
open PsplinkUsb.Pspsh.FormatCodes
open PsplinkUsb.Pspsh.InstructionTable
open PsplinkUsb.Pspsh.OperandReading (field_lt rd_lt rt_lt rs_lt sa_lt code_lt immu_lt imm_range)
open PsplinkUsb.Pspsh.Operands
open PsplinkUsb.Pspsh.ShownOperands

/-- The list of all elements of a rotator. -/
def rotatorText (l : Word) : Bytes :=
  text "[" ++ (text " ,").intercalate ((rotatorElements l).take (rotatorSize l)) ++ text "]"

section

variable (opts : DisasmOpts) (opcode pc : Word) (realregs : Option (ℕ → Word)) (vmmul : Bool)

/-- The register of `%y`, whose matrix `vmmul` shows transposed. -/
def vsReg : ℕ :=
  if vmmul then if vs opcode &&& 0x20 = 0 then vs opcode ||| 0x20 else vs opcode &&& 0x5F
  else vs opcode

/-- The full text of an operand. -/
def codeText : FormatCode → Bytes
  | .rd => Operands.printCpureg opts (rd opcode)
  | .rt => Operands.printCpureg opts (rt opcode)
  | .rs => Operands.printCpureg opts (rs opcode)
  | .imm => Operands.printImm opts (imm opcode).toInt
  | .immu => Operands.printHex (immu opcode)
  | .ofs => Operands.printOfs opts realregs (imm opcode) (rs opcode)
  | .pcofs => Operands.printPcofs opts (imm opcode) pc
  | .ofsRs => Operands.printOfs opts realregs (imm opcode) (rs opcode)
  | .jump => Operands.printJump opts (jump opcode pc)
  | .jumpr => Operands.printJumpr opts realregs (rs opcode)
  | .sa => Operands.printInt (sa opcode)
  | .cop0 => Operands.printCop0 (rd opcode)
  | .cop1 => Operands.printCop1 (rd opcode)
  | .cop2d => Operands.printCop2 (ved opcode)
  | .cop2s => Operands.printCop2 (ves opcode)
  | .cop => text "$" ++ Operands.printInt (rd opcode)
  | .extSize => Operands.printInt (rd opcode + 1)
  | .insSize => Operands.printInt (rd opcode - sa opcode + 1)
  | .debug => Operands.printDebugreg (rd opcode)
  | .cache => Operands.printHex (rt opcode)
  | .fd => Operands.printFpureg (fd opcode)
  | .ft => Operands.printFpureg (ft opcode)
  | .fs => Operands.printFpureg (fs opcode)
  | .vt kind => Operands.printVfpureg (vt opcode) kind
  | .vs kind => Operands.printVfpureg (vsReg opcode vmmul) kind
  | .vd kind => Operands.printVfpureg (vd opcode) kind
  | .vo kind => Operands.printVfpureg (vo opcode) kind
  | .vofs => Operands.printOfs opts realregs (imm opcode &&& ~~~3) (rs opcode)
  | .vcc => Operands.printImm opts (vcc opcode)
  | .vcond => Operands.printVfpuCond (vcn opcode)
  | .vi3 => Operands.printInt (vi3 opcode)
  | .vi5 => Operands.printInt (vi5 opcode)
  | .vi8 => Operands.printInt (vi8 opcode)
  | .vconst => Operands.printVfpuConst (vi5 opcode)
  | .vimm => Operands.printInt (imm opcode).toInt
  | .vhalf => Operands.printVfpuHalffloat formatG opcode
  | .vrot => rotatorText opcode
  | .vpfx pos => Operands.printVfpuPrefix opcode pos
  | .breakCode => Operands.printHex (code opcode)
  | .syscallCode => Operands.printSyscall (code opcode)
  | .vmmul => []

def pieceText : Piece → Bytes
  | .literal c => [byte c]
  | .operand code => codeText opts opcode pc realregs vmmul code

/-- The format with the full text of each operand in it. -/
def argsText (fmt : String) : Bytes :=
  (pieces fmt).flatMap (pieceText opts opcode pc realregs (hasVmmul (pieces fmt)))

/-- The address that an operand resolves to a symbol. -/
def address : FormatCode → Option Word
  | .ofs | .ofsRs => (if opts.printreal then realregs else none).map (· (rs opcode) + imm opcode)
  | .vofs => (if opts.printreal then realregs else none).map (· (rs opcode) + (imm opcode &&& ~~~3))
  | .jumpr => (if opts.printreal then realregs else none).map (· (rs opcode))
  | .pcofs => some (pc + 4 + imm opcode * 4)
  | .jump => some (jump opcode pc)
  | _ => none

/-- The operand is no rotator, its debug register has a name, and its symbol has no control
characters. -/
structure Plain (code : FormatCode) : Prop where
  whole : code ≠ .vrot
  named : code = .debug → (drRegs.getD (rd opcode) none).isSome
  symbol : ∀ addr ∈ address opts opcode pc realregs code, PlainSymbol opts addr

/-- The string of `decode_args` in its buffer of 1024 bytes is the format with the full text of
each operand in it, and has no control characters. -/
structure Concatenated (args : Buffer) (fmt : String) : Prop where
  string : HoldsString (decodeArgs opts opcode pc realregs fmt ⟨args, 0⟩).buf 0
    (argsText opts opcode pc realregs fmt)
  chars : ∀ c ∈ argsText opts opcode pc realregs fmt, isCntrl c = false
  fits : (decodeArgs opts opcode pc realregs fmt ⟨args, 0⟩).used ≤ 1024

end

section

variable {opts : DisasmOpts} {opcode pc : Word} {realregs : Option (ℕ → Word)} {vmmul : Bool}
  {code : FormatCode} {fmt : String}

theorem left_eq_codeText (hvrot : code ≠ .vrot) :
    left opts opcode pc realregs vmmul code = codeText opts opcode pc realregs vmmul code := by
  cases code with
  | vrot => exact absurd rfl hvrot
  | _ => rfl

theorem body_flatMap (hformed : Formed (pieces fmt)) :
    (body (pieces fmt)).flatMap (pieceText opts opcode pc realregs vmmul) =
      (pieces fmt).flatMap (pieceText opts opcode pc realregs vmmul) := by
  cases h : hasVmmul (pieces fmt) with
  | true =>
      conv_rhs => rw [eq_cons_body hformed h]
      rfl
  | false => rw [body, if_neg (Bool.eq_false_iff.mp h)]

theorem leftText_eq_argsText (hformed : Formed (pieces fmt)) (hvrot : .operand .vrot ∉ pieces fmt) :
    leftText opts opcode pc realregs fmt = argsText opts opcode pc realregs fmt := by
  rw [argsText, ← body_flatMap hformed, leftText, leftAll]
  refine List.flatMap_congr fun piece hpiece => ?_
  cases piece with
  | literal c => rfl
  | operand code =>
      refine left_eq_codeText ?_
      rintro rfl
      exact hvrot ((mem_body hformed (by decide)).mp hpiece)

theorem codeText_of_address {addr : Word} (h : address opts opcode pc realregs code = some addr) :
    codeText opts opcode pc realregs vmmul code = Operands.printJump opts addr := by
  cases code with
  | ofs | ofsRs | vofs =>
      obtain ⟨regs, hregs, rfl⟩ := Option.map_eq_some_iff.mp h
      rw [codeText, Operands.printOfs, hregs]
  | jumpr =>
      obtain ⟨regs, hregs, rfl⟩ := Option.map_eq_some_iff.mp h
      rw [codeText, Operands.printJumpr, hregs]
  | pcofs | jump =>
      cases h
      rfl
  | _ => cases h

theorem low_lt {f : Word} {k : ℕ} (h : f.toNat < k) : (opcode &&& f).toNat < k :=
  Nat.lt_of_le_of_lt (BitVec.toNat_and .. ▸ Nat.and_le_right) h

theorem vsReg_lt (opcode : Word) (vmmul : Bool) : vsReg opcode vmmul < 128 := by
  have hvs : vs opcode < 2 ^ 7 := field_lt (by decide)
  rw [vsReg]
  split
  · split
    · exact Nat.or_lt_two_pow hvs (by decide : 0x20 < 2 ^ 7)
    · exact Nat.lt_of_le_of_lt Nat.and_le_left hvs
  · exact hvs

theorem vo_lt (opcode : Word) : vo opcode < 128 := by
  have hhigh : ((opcode &&& (3 : Word)) <<< (5 : ℕ)).toNat < 2 ^ 7 := by
    have hlow : (opcode &&& (3 : Word)).toNat < 4 := low_lt (by decide)
    rw [BitVec.toNat_shiftLeft, Nat.shiftLeft_eq]
    omega
  have hlow : (opcode >>> 16 &&& 0x1F).toNat < 2 ^ 7 := field_lt (by decide)
  rw [vo, BitVec.toNat_or]
  exact Nat.or_lt_two_pow hhigh hlow

theorem aligned_range (opcode : Word) :
    -2 ^ 15 ≤ (imm opcode &&& ~~~3).toInt ∧ (imm opcode &&& ~~~3).toInt < 2 ^ 15 := by
  have hsplit : imm opcode &&& ~~~3 = (opcode.setWidth 16 &&& ~~~3).signExtend 32 := by
    rw [imm, BitVec.signExtend_and]
    rfl
  rw [hsplit, BitVec.toInt_signExtend_of_le (by decide)]
  exact ⟨BitVec.le_toInt _, BitVec.toInt_lt⟩

theorem shown_printOfs {ofs : Word} {reg : ℕ} (hreg : reg < 32) (hlow : -2 ^ 15 ≤ ofs.toInt)
    (hhigh : ofs.toInt < 2 ^ 15)
    (h : ∀ addr ∈ (if opts.printreal then realregs else none).map (· reg + ofs), PlainSymbol opts addr) :
    Shown 127 (Operands.printOfs opts realregs ofs reg) := by
  rw [Operands.printOfs]
  cases hregs : (if opts.printreal then realregs else none) with
  | none => exact (shown_regofs hreg hlow hhigh).mono (by decide)
  | some regs =>
      rw [hregs] at h
      exact shown_printJump (h _ rfl)

theorem shown_printJumpr {reg : ℕ} (hreg : reg < 32)
    (h : ∀ addr ∈ (if opts.printreal then realregs else none).map (· reg), PlainSymbol opts addr) :
    Shown 127 (Operands.printJumpr opts realregs reg) := by
  rw [Operands.printJumpr]
  cases hregs : (if opts.printreal then realregs else none) with
  | none => exact (shown_printCpureg hreg).mono (by decide)
  | some regs =>
      rw [hregs] at h
      exact shown_printJump (h _ rfl)

theorem shown_codeText (h : Plain opts opcode pc realregs code) :
    Shown 127 (codeText opts opcode pc realregs vmmul code) := by
  obtain ⟨himm, himm'⟩ := imm_range opcode
  have hrd := rd_lt opcode
  have hsa := sa_lt opcode
  cases code with
  | rd => exact (shown_printCpureg hrd).mono (by decide)
  | rt => exact (shown_printCpureg (rt_lt opcode)).mono (by decide)
  | rs => exact (shown_printCpureg (rs_lt opcode)).mono (by decide)
  | imm => exact (shown_printImm himm himm').mono (by decide)
  | immu => exact (shown_printHex ((immu_lt opcode).trans (by decide))).mono (by decide)
  | ofs | ofsRs => exact shown_printOfs (rs_lt opcode) himm himm' h.symbol
  | vofs =>
      exact shown_printOfs (rs_lt opcode) (aligned_range opcode).1 (aligned_range opcode).2 h.symbol
  | pcofs | jump => exact shown_printJump (h.symbol _ rfl)
  | jumpr => exact shown_printJumpr (rs_lt opcode) h.symbol
  | sa => exact (shown_printInt (by omega) (by omega)).mono (by decide)
  | cop0 => exact (shown_printCop0 hrd).mono (by decide)
  | cop1 => exact (shown_printCop1 hrd).mono (by decide)
  | cop2d => exact (shown_printCop2 (low_lt (by decide))).mono (by decide)
  | cop2s => exact (shown_printCop2 (field_lt (by decide))).mono (by decide)
  | cop =>
      have hdollar : Shown 1 (text "$") := by decide
      exact (hdollar.append (shown_printInt (by omega) (by omega))).mono (by decide)
  | extSize | insSize => exact (shown_printInt (by omega) (by omega)).mono (by decide)
  | debug =>
      exact ⟨(length_printDebugreg_le hrd).trans (by decide),
        (printDebugreg_chars_iff hrd).mpr (h.named rfl)⟩
  | cache => exact (shown_printHex ((rt_lt opcode).trans (by decide))).mono (by decide)
  | fd | ft | fs => exact (shown_printFpureg (field_lt (by decide))).mono (by decide)
  | vt kind => exact (shown_printVfpureg (field_lt (by decide)) kind).mono (by decide)
  | vs kind => exact (shown_printVfpureg (vsReg_lt opcode vmmul) kind).mono (by decide)
  | vd kind => exact (shown_printVfpureg (low_lt (by decide)) kind).mono (by decide)
  | vo kind => exact (shown_printVfpureg (vo_lt opcode) kind).mono (by decide)
  | vcc =>
      have hvcc : vcc opcode < 8 := field_lt (by decide)
      exact (shown_printImm (by omega) (by omega)).mono (by decide)
  | vcond => exact (shown_printVfpuCond (low_lt (by decide))).mono (by decide)
  | vi3 =>
      have hvi : vi3 opcode < 8 := field_lt (by decide)
      exact (shown_printInt (by omega) (by omega)).mono (by decide)
  | vi5 =>
      have hvi : vi5 opcode < 32 := field_lt (by decide)
      exact (shown_printInt (by omega) (by omega)).mono (by decide)
  | vi8 =>
      have hvi : vi8 opcode < 256 := field_lt (by decide)
      exact (shown_printInt (by omega) (by omega)).mono (by decide)
  | vconst => exact (shown_printVfpuConst (field_lt (by decide))).mono (by decide)
  | vimm => exact (shown_printInt (by omega) (by omega)).mono (by decide)
  | vhalf => exact (shown_printVfpuHalffloat opcode).mono (by decide)
  | vrot => exact absurd rfl h.whole
  | vpfx pos => exact (shown_printVfpuPrefix opcode pos).mono (by decide)
  | breakCode => exact (shown_printHex (code_lt opcode)).mono (by decide)
  | syscallCode => exact (shown_hex (by decide) (code_lt opcode)).mono (by decide)
  | vmmul => exact shown_nil.mono (by decide)

theorem shown_pieces {ps : List Piece} (hliterals : ∀ c, .literal c ∈ ps → c ∈ [',', ' ', '[', ']'])
    (h : ∀ code, .operand code ∈ ps → Plain opts opcode pc realregs code) :
    Shown (room 127 ps) (ps.flatMap (pieceText opts opcode pc realregs vmmul)) := by
  induction ps with
  | nil => exact shown_nil
  | cons piece ps ih =>
      have hrest := ih (fun c hc => hliterals c (List.mem_cons_of_mem _ hc))
        fun code hcode => h code (List.mem_cons_of_mem _ hcode)
      cases piece with
      | literal c =>
          have hall : ∀ c ∈ [',', ' ', '[', ']'], isCntrl (byte c) = false := by decide
          exact hrest.cons (hall c (hliterals c List.mem_cons_self))
      | operand code => exact (shown_codeText (h code List.mem_cons_self)).append hrest

theorem mem_argsText {c : UInt8} (hcode : .operand code ∈ pieces fmt)
    (hc : c ∈ codeText opts opcode pc realregs (hasVmmul (pieces fmt)) code) :
    c ∈ argsText opts opcode pc realregs fmt := List.mem_flatMap.mpr ⟨_, hcode, hc⟩

theorem vrot_texts (hformed : Formed (pieces fmt)) (hvrot : .operand .vrot ∈ pieces fmt) :
    ∃ before list, leftText opts opcode pc realregs fmt = before ++ [byte ']'] ∧
      argsText opts opcode pc realregs fmt = before ++ byte '[' :: list := by
  obtain ⟨qs, hqs, hnot⟩ := exists_body_vrot hformed hvrot
  have hsame : leftAll opts opcode pc realregs (hasVmmul (pieces fmt)) qs =
      qs.flatMap (pieceText opts opcode pc realregs (hasVmmul (pieces fmt))) := by
    refine List.flatMap_congr fun piece hpiece => ?_
    cases piece with
    | literal c => rfl
    | operand code =>
        refine left_eq_codeText ?_
        rintro rfl
        exact hnot hpiece
  refine ⟨leftAll opts opcode pc realregs (hasVmmul (pieces fmt)) qs, (rotatorText opcode).tail, ?_, ?_⟩
  · rw [leftText, hqs, leftAll, List.flatMap_append, List.flatMap_singleton, ← leftAll]
    rfl
  · rw [argsText, ← body_flatMap hformed, hqs, List.flatMap_append, List.flatMap_singleton, hsame]
    rfl

theorem not_string_of_vrot {args : Buffer} (hformed : Formed (pieces fmt))
    (hvrot : .operand .vrot ∈ pieces fmt) :
    ¬HoldsString (decodeArgs opts opcode pc realregs fmt ⟨args, 0⟩).buf 0
      (argsText opts opcode pc realregs fmt) := by
  intro hstring
  obtain ⟨before, list, hleft, hfull⟩ := vrot_texts hformed hvrot
  have hholds := @holds_decodeArgs opts opcode pc realregs fmt hformed ⟨args, 0⟩
  rw [decodeArgs_eq_leftText hformed, hleft, List.append_assoc, holds_append] at hholds
  have hstring := hstring.2
  rw [hfull, List.append_assoc, holds_append] at hstring
  have hclose := (holds_cons.mp hholds.2).1
  have hopen := (holds_cons.mp hstring.2).1
  exact absurd (hclose.symm.trans hopen) (by decide)

theorem concatenated_iff (hformed : Formed (pieces fmt)) (args : Buffer) :
    Concatenated opts opcode pc realregs args fmt ↔
      ∀ code, .operand code ∈ pieces fmt → Plain opts opcode pc realregs code := by
  constructor
  · intro h code hcode
    have hchars : ∀ c ∈ codeText opts opcode pc realregs (hasVmmul (pieces fmt)) code,
        isCntrl c = false := fun c hc => h.chars c (mem_argsText hcode hc)
    refine ⟨?_, ?_, fun addr haddr => ?_⟩
    · rintro rfl
      exact not_string_of_vrot hformed hcode h.string
    · rintro rfl
      exact (printDebugreg_chars_iff (rd_lt opcode)).mp hchars
    · rw [codeText_of_address haddr] at hchars
      exact printJump_chars_iff.mp hchars
  · intro h
    have hvrot : .operand .vrot ∉ pieces fmt := fun hmem => (h _ hmem).whole rfl
    have hshown : Shown (room 127 (pieces fmt)) (argsText opts opcode pc realregs fmt) :=
      shown_pieces hformed.literals h
    have hsame := @leftText_eq_argsText opts opcode pc realregs fmt hformed hvrot
    refine ⟨⟨fun hzero => absurd (hshown.chars 0 hzero) (by decide), ?_⟩, hshown.chars, ?_⟩
    · have hholds := @holds_decodeArgs opts opcode pc realregs fmt hformed ⟨args, 0⟩
      rwa [decodeArgs_eq_leftText hformed, hsame] at hholds
    · have hused := @used_decodeArgs opts opcode pc realregs fmt hformed hvrot ⟨args, 0⟩
      rw [hsame] at hused
      dsimp only at hused
      have hlength := hshown.length_le
      have hroom := hformed.room_lt
      omega

theorem mem_of_disasmEntry {inst : Instruction} (h : disasmEntry opts opcode = some inst) :
    inst ∈ gMacro ++ gInst := by
  rw [disasmEntry] at h
  rcases Option.or_eq_some_iff.mp h with h | ⟨-, h⟩
  · split at h
    · cases h
    · exact List.mem_append_left _ (List.mem_of_find?_eq_some h)
  · exact List.mem_append_right _ (List.mem_of_find?_eq_some h)

end

/-- For every opcode the disassembler has an entry for, the string of `decode_args` is the
entry's format with the full text of each operand in it, without control characters and within
the buffer, just when all operands of the format are plain. -/
theorem args_concatenated_iff (opts : DisasmOpts) (opcode pc : Word)
    (realregs : Option (ℕ → Word)) (args : Buffer) {inst : Instruction}
    (hinst : disasmEntry opts opcode = some inst) :
    Concatenated opts opcode pc realregs args inst.fmt ↔
      ∀ code, .operand code ∈ pieces inst.fmt → Plain opts opcode pc realregs code :=
  concatenated_iff (formed_pieces inst (mem_of_disasmEntry hinst)) args

/-- `lw $t0, 4($sp)`, whatever the buffer held. -/
theorem args_concatenated_iff_lw :
    disasmEntry {} 0x8FA80004 = some ⟨"lw", 0x8C000000, 0xFC000000, "%t, %o", .none, 0⟩ ∧
      Concatenated {} 0x8FA80004 0x8900000 none (fun _ => 0xFF) "%t, %o" := by
  have hinst : disasmEntry {} 0x8FA80004 =
      some ⟨"lw", 0x8C000000, 0xFC000000, "%t, %o", .none, 0⟩ := by
    decide
  have hpieces : pieces "%t, %o" = [.operand .rt, .literal ',', .literal ' ', .operand .ofs] := by
    decide
  refine ⟨hinst, (args_concatenated_iff {} 0x8FA80004 0x8900000 none (fun _ => 0xFF) hinst).mpr ?_⟩
  intro code hcode
  have hcases : code = .rt ∨ code = .ofs := by
    rw [hpieces] at hcode
    simpa using hcode
  rcases hcases with rfl | rfl
  · exact ⟨by decide, nofun, nofun⟩
  · exact ⟨by decide, nofun, nofun⟩

/-- Of the list of a `vrot.p` only its last bracket is left, and the text of a `mfdr` from a debug
register without a name ends with a newline. -/
theorem rotator_overwritten :
    (∃ inst, disasmEntry {} 0xF3A00080 = some inst ∧
      HoldsString (decodeArgs {} 0xF3A00080 0 none inst.fmt ⟨fun _ => 0, 0⟩).buf 0
        (text "C000, S000, ]") ∧
      argsText {} 0xF3A00080 0 none inst.fmt = text "C000, S000, [c ,s]" ∧
      ¬Concatenated {} 0xF3A00080 0 none (fun _ => 0) inst.fmt) ∧
    ∃ inst, disasmEntry {} 0x7000303D = some inst ∧
      argsText {} 0x7000303D 0 none inst.fmt = text "$zr, $06\n" ∧
      ¬Concatenated {} 0x7000303D 0 none (fun _ => 0) inst.fmt := by
  have hvrot : disasmEntry {} 0xF3A00080 =
      some ⟨"vrot.p", 0xF3A00080, 0xFFE08080, "%zp, %ys, %vr", .none, instrTypePsp⟩ := by
    decide
  have hmfdr : disasmEntry {} 0x7000303D =
      some ⟨"mfdr", 0x7000003D, 0xFFE007FF, "%t, %r", .none, instrTypePsp⟩ := by
    decide
  have hformed := formed_pieces _ (mem_of_disasmEntry hvrot)
  have hleft : leftText {} 0xF3A00080 0 none "%zp, %ys, %vr" = text "C000, S000, ]" := by
    decide
  refine ⟨⟨_, hvrot, ⟨by decide, ?_⟩, by decide, fun h => ?_⟩,
    ⟨_, hmfdr, by decide, fun h => ?_⟩⟩
  · rw [← hleft, ← decodeArgs_eq_leftText hformed]
    exact holds_decodeArgs hformed _
  · exact not_string_of_vrot hformed (by decide) h.string
  · have hnewline : ∃ c ∈ argsText {} 0x7000303D 0 none "%t, %r", isCntrl c = true := by
      decide
    obtain ⟨c, hc, hcntrl⟩ := hnewline
    exact absurd (hcntrl.symm.trans (h.chars c hc)) (by decide)

end PsplinkUsb.Pspsh.ArgsText
