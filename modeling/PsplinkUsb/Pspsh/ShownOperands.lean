import PsplinkUsb.Library.FloatText
import PsplinkUsb.Pspsh.OperandReading

namespace PsplinkUsb.Pspsh.ShownOperands

open PsplinkUsb.Library.Ascii
open PsplinkUsb.Library.FloatText
open PsplinkUsb.Library.Numerals
open PsplinkUsb.Library.ShownText
open PsplinkUsb.Psplink.ProgramMemory
open PsplinkUsb.Pspsh.BranchTargets (imm)
open PsplinkUsb.Pspsh.OperandReading (imm_range)
open PsplinkUsb.Pspsh.Operands

variable {opts : DisasmOpts} {realregs : Option (ℕ → Word)} {reg n : ℕ} {i : ℤ} {addr ofs : Word}

theorem shown_printInt (hlow : -2 ^ 31 ≤ i) (hhigh : i < 2 ^ 31) : Shown 11 (printInt i) :=
  shown_decimalInt (by decide) (by omega : i.natAbs < 10 ^ 10)

theorem shown_printHex (h : n < 16 ^ 8) : Shown 10 (printHex n) := shown_hex (by decide) h

theorem shown_printCpureg (h : reg < 32) : Shown 4 (printCpureg opts reg) := by
  have hall : ∀ reg : Fin 32, Shown 4 (text "r" ++ decimalInt reg) ∧
      Shown 4 (text "$" ++ text (regName.getD reg "")) := by
    decide
  rw [printCpureg]
  split
  · split
    · exact (hall ⟨reg, h⟩).1
    · decide
  · exact (hall ⟨reg, h⟩).2

theorem shown_printImm (hlow : -2 ^ 15 ≤ i) (hhigh : i < 2 ^ 15) : Shown 11 (printImm opts i) := by
  rw [printImm]
  split
  · split
    · have hnumber : Shown 10 (hex i.natAbs) :=
        shown_hex (by decide) (by omega : i.natAbs < 16 ^ 8)
      exact hnumber.cons (by decide)
    · exact (shown_hex (by decide) (by omega : (i % 0x10000).toNat < 16 ^ 8)).mono (by decide)
  · exact shown_printInt (by omega) (by omega)

/-- No symbol that an address resolves to has a control character. -/
def PlainSymbol (opts : DisasmOpts) (addr : Word) : Prop :=
  ∀ symbol, disasmResolveSymbol opts addr = some symbol → ∀ c ∈ symbol, isCntrl c = false

theorem length_symbol_le {symbol : Bytes} (h : disasmResolveSymbol opts addr = some symbol) :
    symbol.length ≤ 127 := by
  simp only [disasmResolveSymbol, Option.bind_eq_bind, Option.bind_eq_some_iff] at h
  obtain ⟨syms, -, s, -, h⟩ := h
  split at h
  · cases h
  · rw [← Option.some.inj h]
    exact List.length_take_le _ _

theorem printJump_chars_iff : (∀ c ∈ printJump opts addr, isCntrl c = false) ↔ PlainSymbol opts addr := by
  have hword : Shown 10 (zero :: lowerX :: padded 8 16 addr.toNat) :=
    ((shown_padded (by decide) (by decide) (by decide) (Nat.le_refl 8) addr.isLt).cons
      (by decide)).cons (by decide)
  rw [printJump, PlainSymbol]
  cases disasmResolveSymbol opts addr with
  | none => exact iff_of_true hword.chars fun _ h => absurd h nofun
  | some symbol =>
      constructor
      · rintro h _ ⟨⟩
        exact h
      · exact fun h => h symbol rfl

theorem shown_printJump (h : PlainSymbol opts addr) : Shown 127 (printJump opts addr) := by
  refine ⟨?_, printJump_chars_iff.mpr h⟩
  rw [printJump]
  cases hsymbol : disasmResolveSymbol opts addr with
  | none =>
      have hlength : (padded 8 16 addr.toNat).length ≤ 8 :=
        (shown_padded (by decide) (by decide) (by decide) (Nat.le_refl 8) addr.isLt).length_le
      simp only [List.length_cons]
      omega
  | some symbol => exact length_symbol_le hsymbol

theorem shown_regofs (h : reg < 32) (hlow : -2 ^ 15 ≤ i) (hhigh : i < 2 ^ 15) :
    Shown 17 (printImm opts i ++ text "(" ++ printCpureg opts reg ++ text ")") := by
  have hopen : Shown 1 (text "(") := by decide
  have hclose : Shown 1 (text ")") := by decide
  exact (((shown_printImm hlow hhigh).append hopen).append (shown_printCpureg h)).append hclose

theorem shown_printCop0 (h : reg < 32) : Shown 8 (printCop0 reg) := by
  have hall : ∀ reg : Fin 32, Shown 8 (printCop0 reg) := by decide
  exact hall ⟨reg, h⟩

theorem shown_printCop1 (h : reg < 32) : Shown 6 (printCop1 reg) := by
  have hall : ∀ reg : Fin 32, Shown 6 (printCop1 reg) := by decide
  exact hall ⟨reg, h⟩

theorem shown_printCop2 (h : reg < 256) : Shown 9 (printCop2 reg) := by
  have hnames : ∀ entry ∈ vfpuExtraRegs, ∀ name ∈ entry, Shown 9 (text name) := by decide
  rw [printCop2]
  split
  · rename_i name hname
    split at hname
    · rw [List.getD_eq_getElem?_getD] at hname
      cases hentry : vfpuExtraRegs[reg - 128]? with
      | none =>
          rw [hentry] at hname
          cases hname
      | some entry =>
          rw [hentry] at hname
          exact hnames entry (List.mem_of_getElem? hentry) name hname
    · cases hname
  · have hdollar : Shown 1 (text "$") := by decide
    have hnumber : Shown (1 + 3) (decimalInt reg) :=
      shown_decimalInt (by decide) (by omega : (reg : ℤ).natAbs < 10 ^ 3)
    exact (hdollar.append hnumber).mono (by decide)

theorem shown_printVfpuCond (h : n < 16) : Shown 2 (printVfpuCond n) := by
  have hall : ∀ n : Fin 16, Shown 2 (printVfpuCond n) := by decide
  exact hall ⟨n, h⟩

theorem shown_printVfpuConst (h : n < 32) : Shown 13 (printVfpuConst n) := by
  have hall : ∀ n : Fin 32, Shown 13 (printVfpuConst n) := by decide
  exact hall ⟨n, h⟩

theorem shown_printFpureg (h : reg < 32) : Shown 6 (printFpureg reg) := by
  have hall : ∀ reg : Fin 32, Shown 6 (printFpureg reg) := by decide
  exact hall ⟨reg, h⟩

theorem printDebugreg_chars_iff (h : reg < 32) :
    (∀ c ∈ printDebugreg reg, isCntrl c = false) ↔ (drRegs.getD reg none).isSome := by
  have hall : ∀ reg : Fin 32, (∀ c ∈ printDebugreg reg, isCntrl c = false) ↔
      (drRegs.getD reg none).isSome := by
    decide
  exact hall ⟨reg, h⟩

theorem length_printDebugreg_le (h : reg < 32) : (printDebugreg reg).length ≤ 6 := by
  have hall : ∀ reg : Fin 32, (printDebugreg reg).length ≤ 6 := by decide
  exact hall ⟨reg, h⟩

theorem shown_printVfpureg (h : reg < 128) (type : Char) : Shown 4 (printVfpureg reg type) := by
  have hall : ∀ reg : Fin 128, Shown 4 (printVfpusingle reg) ∧ Shown 4 (printVfpuquad reg) ∧
      Shown 4 (printVfpupair reg) ∧ Shown 4 (printVfputriple reg) ∧ Shown 4 (printVfpumpair reg) ∧
      Shown 4 (printVfpumtriple reg) ∧ Shown 4 (printVfpumatrix reg) := by
    decide +kernel
  obtain ⟨hsingle, hquad, hpair, htriple, hmpair, hmtriple, hmatrix⟩ := hall ⟨reg, h⟩
  unfold printVfpureg
  split
  · exact hsingle
  · exact hquad
  · exact hpair
  · exact htriple
  · exact hmpair
  · exact hmtriple
  · exact hmatrix
  · exact shown_nil.mono (by decide)

theorem shown_getD {names : List String} (h : ∀ name ∈ names, Shown n (text name)) (k : ℕ) :
    Shown n (text (names.getD k "")) := by
  rw [List.getD_eq_getElem?_getD]
  cases hname : names[k]? with
  | none => exact (by decide : Shown 0 (text "")).mono (Nat.zero_le n)
  | some name => exact h name (List.mem_of_getElem? hname)

theorem shown_printVfpuPrefix (l : Word) (pos : Char) : Shown 6 (printVfpuPrefix l pos) := by
  have hswz (k : ℕ) : Shown 1 (text (pfxSwzNames.getD k "")) := shown_getD (by decide) k
  have hcst (k : ℕ) : Shown 3 (text (pfxCstNames.getD k "")) := shown_getD (by decide) k
  have hsat (k : ℕ) : Shown 6 (text (pfxSatNames.getD k "")) := shown_getD (by decide) k
  have hbar : Shown 1 (text "|") := by decide
  rw [printVfpuPrefix]
  dsimp only
  split
  · have hsign (b : Prop) [Decidable b] : Shown 1 (if b then [] else text "-") := by
      split
      · decide
      · decide
    refine ((hsign _).append (?_ : Shown 3 _)).mono (by decide)
    split
    · split
      · exact (hswz _).mono (by decide)
      · exact (hbar.append (hswz _)).append hbar
    · exact hcst _
  · split
    · split
      · exact hsat _
      · decide
    · exact shown_nil.mono (by decide)

theorem shown_printVfpuHalffloat (l : Word) : Shown 18 (printVfpuHalffloat formatG l) := by
  have hsign (b : Prop) [Decidable b] : isCntrl (if b then minus else plus) = false := by
    split
    · decide
    · decide
  rw [printVfpuHalffloat]
  dsimp only
  split
  · have hinf : Shown 3 (text "Inf") := by decide
    have hnan : Shown 3 (text "NaN") := by decide
    split
    · exact (hinf.cons (hsign _)).mono (by decide)
    · exact (hnan.cons (hsign _)).mono (by decide)
  · split
    · have hzero : Shown 1 [zero] := by decide
      exact (hzero.cons (hsign _)).mono (by decide)
    · exact shown_formatG _

end PsplinkUsb.Pspsh.ShownOperands
