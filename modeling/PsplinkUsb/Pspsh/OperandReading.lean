import PsplinkUsb.Pspsh.OperandKinds

namespace PsplinkUsb.Pspsh.OperandReading

open PsplinkUsb.Library.Ascii
open PsplinkUsb.Library.BitFields
open PsplinkUsb.Library.Lines
open PsplinkUsb.Library.Numerals
open PsplinkUsb.Psplink.ProgramMemory
open PsplinkUsb.Pspsh.Asm
open PsplinkUsb.Pspsh.BranchTargets (imm)
open PsplinkUsb.Pspsh.Disasm
open PsplinkUsb.Pspsh.Operands
open PsplinkUsb.Pspsh.OperandKinds

/-- A text without space and commas, and of no more than some length. -/
structure Plain (n : ℕ) (t : Bytes) : Prop where
  ne_nil : t ≠ []
  length_le : t.length ≤ n
  chars : ∀ c ∈ t, c ≠ comma ∧ isSpace c = false

instance (n : ℕ) (t : Bytes) : Decidable (Plain n t) :=
  decidable_of_iff (t ≠ [] ∧ t.length ≤ n ∧ (t.all fun c => c ≠ comma ∧ isSpace c = false) = true)
    ⟨fun h => ⟨h.1, h.2.1, fun c hc => of_decide_eq_true (List.all_eq_true.mp h.2.2 c hc)⟩,
      fun h => ⟨h.1, h.2, List.all_eq_true.mpr fun c hc => decide_eq_true (h.3 c hc)⟩⟩

/-- A text that stands for the operand `arg` in a line. -/
structure IsOperand (t arg : Bytes) : Prop where
  length_le : t.length ≤ 16
  comma_notMem : comma ∉ t
  head : ∀ c ∈ t.head?, isSpace c = false
  strip : stripWsp t = some arg

section

variable {m n : ℕ} {s t arg : Bytes} {c : UInt8} {i : ℤ} {opcode pc w : Word}

theorem Plain.append (hs : Plain m s) (ht : Plain n t) : Plain (m + n) (s ++ t) where
  ne_nil := List.append_ne_nil_of_left_ne_nil hs.ne_nil _
  length_le := by
    rw [List.length_append]
    exact Nat.add_le_add hs.length_le ht.length_le
  chars := by
    intro c hc
    rcases List.mem_append.mp hc with hc | hc
    · exact hs.chars c hc
    · exact ht.chars c hc

theorem plain_singleton (hcomma : c ≠ comma) (hspace : isSpace c = false) : Plain 1 [c] where
  ne_nil := List.cons_ne_nil _ _
  length_le := Nat.le_refl 1
  chars := by
    intro x hx
    rw [List.mem_singleton.mp hx]
    exact ⟨hcomma, hspace⟩

theorem Plain.cons (h : Plain n t) (hcomma : c ≠ comma) (hspace : isSpace c = false) :
    Plain (1 + n) (c :: t) := (plain_singleton hcomma hspace).append h

theorem Plain.mono (h : Plain m t) (hle : m ≤ n) : Plain n t :=
  ⟨h.ne_nil, Nat.le_trans h.length_le hle, h.chars⟩

theorem Plain.rdropWhile (h : Plain n t) : t.rdropWhile isSpace = t := by
  rw [List.rdropWhile_eq_self_iff]
  intro hne
  simp [(h.chars _ (List.getLast_mem hne)).2]

theorem Plain.stripWsp (h : Plain n t) : stripWsp t = some t := by
  have hlast := h.rdropWhile
  cases t with
  | nil => exact absurd rfl h.ne_nil
  | cons c t =>
      have hc := (h.chars c List.mem_cons_self).2
      rw [Asm.stripWsp, hlast, List.dropWhile_cons_of_neg (by simp [hc])]

theorem Plain.isOperand (h : Plain 16 t) : IsOperand t t where
  length_le := h.length_le
  comma_notMem := fun hmem => (h.chars _ hmem).1 rfl
  head := fun c hc => (h.chars c (List.mem_of_mem_head? hc)).2
  strip := h.stripWsp

theorem IsOperand.exists_cons (h : IsOperand t arg) : ∃ c t', t = c :: t' ∧ isSpace c = false := by
  cases t with
  | nil => exact absurd h.strip nofun
  | cons c t => exact ⟨c, t, rfl, h.head c rfl⟩

theorem IsOperand.strip_blank (h : IsOperand t arg) : stripWsp (blank :: t) = some arg := by
  obtain ⟨c, t', rfl, hc⟩ := h.exists_cons
  have hright : (blank :: c :: t').rdropWhile isSpace = blank :: c :: t'.rdropWhile isSpace :=
    rdropWhile_append_cons (a := [blank]) hc
  have hleft : (c :: t').rdropWhile isSpace = c :: t'.rdropWhile isSpace :=
    rdropWhile_append_cons (a := []) hc
  have hblank : isSpace blank = true := by decide
  rw [← h.strip, stripWsp, stripWsp, hright, hleft, List.dropWhile_cons_of_pos hblank]

theorem not_isSpace_of_isAlnum (h : isAlnum c = true) : isSpace c = false := by
  grind [isAlnum, isSpace, isDigit, isLower, isUpper]

theorem plain_alnum (h : isAlnum c = true) : c ≠ comma ∧ isSpace c = false := by
  refine ⟨?_, not_isSpace_of_isAlnum h⟩
  rintro rfl
  exact absurd h (by decide)

theorem plain_decimalInt (h : i.natAbs < 10 ^ 10) : Plain 11 (decimalInt i) := by
  obtain ⟨ds, hnumeral, -, -, hne⟩ := numeral_eq_map 10 i.natAbs
  have hnonempty : numeral 10 i.natAbs ≠ [] := by
    rw [hnumeral]
    exact mt List.map_eq_nil_iff.mp hne
  have hplain : Plain 10 (numeral 10 i.natAbs) :=
    ⟨hnonempty, length_numeral_le (by decide) (by decide) h,
      fun c hc => plain_alnum (isAlnum_of_mem_numeral (by decide) (by decide) hc)⟩
  rw [decimalInt]
  split
  · exact hplain.cons (by decide) (by decide)
  · exact hplain.mono (by decide)

theorem plain_hex {width : ℕ} (hwidth : width ≤ 8) (h : n < 16 ^ 8) :
    Plain 10 (zero :: lowerX :: padded width 16 n) := by
  obtain ⟨ds, hpadded, -, -, hne⟩ := padded_eq_map (by decide : 1 < 16) width n
  have hnonempty : padded width 16 n ≠ [] := by
    rw [hpadded]
    exact mt List.map_eq_nil_iff.mp hne
  have hlength : (padded width 16 n).length ≤ 8 := by
    have hmax : (padded width 16 n).length ≤ max width 8 :=
      length_padded_le (by decide) (by decide) h
    rwa [Nat.max_eq_right hwidth] at hmax
  have hplain : Plain 8 (padded width 16 n) :=
    ⟨hnonempty, hlength,
      fun c hc => plain_alnum (isAlnum_of_mem_padded (by decide) (by decide) width hc)⟩
  exact (hplain.cons (by decide) (by decide)).cons (by decide) (by decide)

/-- What is printed for a register number, and what is read back. -/
structure RegisterTexts (n : ℕ) : Prop where
  plain_cpureg : Plain 3 (printCpureg {} n)
  closeParen_notMem : closeParen ∉ printCpureg {} n
  parseGpr_cpureg : parseGpr (printCpureg {} n) = some n
  plain_cop0 : Plain 9 (printCop0 n)
  cop0Number_cop0 : cop0Number (printCop0 n) = some n
  length_debugreg : (printDebugreg n).length ≤ 16
  comma_notMem_debugreg : comma ∉ printDebugreg n
  head_debugreg : ∀ c ∈ (printDebugreg n).head?, isSpace c = false
  strip_debugreg : Asm.stripWsp (printDebugreg n) = some ((printDebugreg n).rdropWhile isSpace)
  drNumber_debugreg : drNumber ((printDebugreg n).rdropWhile isSpace) = .ok n ∨
    drNumber ((printDebugreg n).rdropWhile isSpace) = .error .rejected ∨
    drNumber ((printDebugreg n).rdropWhile isSpace) = .error .nullDereference
  parseRegnum_hex : parseRegnum (printHex n) 32 = none

instance (n : ℕ) : Decidable (RegisterTexts n) :=
  decidable_of_iff (Plain 3 (printCpureg {} n) ∧ closeParen ∉ printCpureg {} n ∧
      parseGpr (printCpureg {} n) = some n ∧ Plain 9 (printCop0 n) ∧
      cop0Number (printCop0 n) = some n ∧ (printDebugreg n).length ≤ 16 ∧
      comma ∉ printDebugreg n ∧ ((printDebugreg n).head?.all fun c => isSpace c = false) = true ∧
      Asm.stripWsp (printDebugreg n) = some ((printDebugreg n).rdropWhile isSpace) ∧
      (drNumber ((printDebugreg n).rdropWhile isSpace) = .ok n ∨
        drNumber ((printDebugreg n).rdropWhile isSpace) = .error .rejected ∨
        drNumber ((printDebugreg n).rdropWhile isSpace) = .error .nullDereference) ∧
      parseRegnum (printHex n) 32 = none)
    ⟨fun ⟨h₁, h₂, h₃, h₄, h₅, h₆, h₇, h₈, h₉, h₁₀, h₁₁⟩ =>
        ⟨h₁, h₂, h₃, h₄, h₅, h₆, h₇,
          fun c hc => of_decide_eq_true ((Option.all_eq_true _ _).mp h₈ c hc), h₉, h₁₀, h₁₁⟩,
      fun ⟨h₁, h₂, h₃, h₄, h₅, h₆, h₇, h₈, h₉, h₁₀, h₁₁⟩ =>
        ⟨h₁, h₂, h₃, h₄, h₅, h₆, h₇,
          (Option.all_eq_true _ _).mpr fun c hc => decide_eq_true (h₈ c hc), h₉, h₁₀, h₁₁⟩⟩

theorem registerTexts (h : n < 32) : RegisterTexts n := by
  have hall : ∀ n : Fin 32, RegisterTexts n := by decide +kernel
  exact hall ⟨n, h⟩

example : RegisterTexts 29 := by decide +kernel

theorem field_lt {f : Word} {k : ℕ} (h : f.toNat < k) : (opcode >>> n &&& f).toNat < k :=
  Nat.lt_of_le_of_lt (BitVec.toNat_and .. ▸ Nat.and_le_right) h

theorem rd_lt (opcode : Word) : rd opcode < 32 := field_lt (by decide)

theorem rt_lt (opcode : Word) : rt opcode < 32 := field_lt (by decide)

theorem rs_lt (opcode : Word) : rs opcode < 32 := field_lt (by decide)

theorem sa_lt (opcode : Word) : sa opcode < 32 := field_lt (by decide)

theorem code_lt (opcode : Word) : code opcode < 16 ^ 8 := field_lt (by decide)

theorem immu_lt (opcode : Word) : immu opcode < 2 ^ 16 :=
  Nat.lt_of_le_of_lt (BitVec.toNat_and .. ▸ Nat.and_le_right) (by decide)

theorem imm_range (opcode : Word) : -2 ^ 15 ≤ (imm opcode).toInt ∧ (imm opcode).toInt < 2 ^ 15 := by
  rw [imm, BitVec.toInt_signExtend_of_le (by decide)]
  exact ⟨BitVec.le_toInt _, BitVec.toInt_lt⟩

theorem ofNat_field (f : Word) (n : ℕ) :
    BitVec.ofNat 32 (opcode >>> n &&& f).toNat <<< n = opcode &&& f <<< n := by
  rw [BitVec.ofNat_toNat, BitVec.setWidth_eq, ← and_shiftLeft]

theorem ofNat_rd : BitVec.ofNat 32 (rd opcode) <<< 11 = opcode &&& 0xF800 := ofNat_field 0x1F 11

theorem ofNat_rt : BitVec.ofNat 32 (rt opcode) <<< 16 = opcode &&& 0x1F0000 := ofNat_field 0x1F 16

theorem ofNat_rs : BitVec.ofNat 32 (rs opcode) <<< 21 = opcode &&& 0x3E00000 := ofNat_field 0x1F 21

theorem ofNat_sa : BitVec.ofNat 32 (sa opcode) <<< 6 = opcode &&& 0x7C0 := ofNat_field 0x1F 6

theorem setGpr_rd : setGpr w (printCpureg {} (rd opcode)) 'd' = .ok (w ||| opcode &&& 0xF800) := by
  rw [setGpr, (registerTexts (rd_lt opcode)).parseGpr_cpureg, ← ofNat_rd]
  rfl

theorem setGpr_rt :
    setGpr w (printCpureg {} (rt opcode)) 't' = .ok (w ||| opcode &&& 0x1F0000) := by
  rw [setGpr, (registerTexts (rt_lt opcode)).parseGpr_cpureg, ← ofNat_rt]
  rfl

theorem setGpr_rs :
    setGpr w (printCpureg {} (rs opcode)) 's' = .ok (w ||| opcode &&& 0x3E00000) := by
  rw [setGpr, (registerTexts (rs_lt opcode)).parseGpr_cpureg, ← ofNat_rs]
  rfl

theorem toInt32_eq (h : -2 ^ 31 ≤ i ∧ i < 2 ^ 31) : toInt32 i = i := by
  rw [toInt32, BitVec.toInt_ofInt, Int.bmod_eq_of_le (by omega) (by omega)]

theorem strtol_decimalInt (h : -2 ^ 31 ≤ i ∧ i < 2 ^ 31) :
    strtol 0 (decimalInt i) = some (i, []) := by
  rw [strtol, readInt_decimalInt i (.inl rfl), Option.map_some]
  have hclamp : max (-2 ^ 63) (min (2 ^ 63 - 1) i) = i := by omega
  rw [hclamp]

theorem parseRegnum_decimalInt (bound : ℤ) (h : -2 ^ 31 ≤ i ∧ i < 2 ^ 31) :
    parseRegnum (decimalInt i) bound = if 0 ≤ i ∧ i < bound then some i.toNat else none := by
  have hvalue : strtoul 10 (decimalInt i) = some ((i % 2 ^ 64).toNat, []) := by
    rw [strtoul, readInt_decimalInt i (.inr rfl), Option.map_some, if_pos (by omega)]
  have hint : toInt32 ((i % 2 ^ 64).toNat : ℤ) = i := by
    rw [toInt32, BitVec.toInt_ofInt, Int.toNat_of_nonneg (by omega), Int.bmod_def]
    omega
  rw [parseRegnum, hvalue]
  dsimp only
  rw [hint]

theorem imm_low : imm opcode &&& 0xFFFF = opcode &&& 0xFFFF := by
  have hmask : ∀ i : Fin 32, (0xFFFF : Word)[i.val] = decide (i.val < 16) := by decide
  ext i hi
  rw [BitVec.getElem_and, BitVec.getElem_and, hmask ⟨i, hi⟩, imm, BitVec.getElem_signExtend]
  by_cases hlow : i < 16
  · simp [hlow, BitVec.getLsbD_eq_getElem hi]
  · simp [hlow]

theorem setImm_simm :
    setImm w (printImm {} (imm opcode).toInt) true = .ok (w ||| opcode &&& 0xFFFF) := by
  obtain ⟨hlow, hhigh⟩ := imm_range opcode
  have hclamp : clampShort (imm opcode).toInt = (imm opcode).toInt := by
    rw [clampShort]
    omega
  have htext : printImm {} (imm opcode).toInt = decimalInt (imm opcode).toInt := rfl
  rw [setImm, htext, strtol_decimalInt ⟨by omega, by omega⟩]
  dsimp only
  rw [if_pos rfl, toInt32_eq ⟨by omega, by omega⟩, hclamp, BitVec.ofInt_toInt, imm_low]

theorem readInt_word (width : ℕ) (addr : Word) :
    strtoul 0 (zero :: lowerX :: padded width 16 addr.toNat) = some (addr.toNat, []) := by
  have hlt : addr.toNat < 2 ^ 32 := addr.isLt
  rw [strtoul, readInt_hex, Option.map_some, Int.natAbs_natCast, if_pos (by omega)]
  have hvalue : ((addr.toNat : ℤ) % 2 ^ 64).toNat = addr.toNat := by omega
  rw [hvalue]

theorem strtol_hex (h : n < 2 ^ 31) : strtol 0 (hex n) = some ((n : ℤ), []) := by
  rw [strtol, hex_eq_padded, readInt_hex, Option.map_some]
  have hclamp : max (-2 ^ 63) (min (2 ^ 63 - 1) (n : ℤ)) = n := by omega
  rw [hclamp]

theorem setImm_uimm :
    setImm w (printHex (immu opcode)) false = .ok (w ||| opcode &&& 0xFFFF) := by
  have hlt := immu_lt opcode
  rw [setImm, printHex, strtol_hex (by omega)]
  dsimp only
  rw [if_neg Bool.false_ne_true, toInt32_eq ⟨by omega, by omega⟩, BitVec.ofInt_natCast, immu,
    BitVec.ofNat_toNat, BitVec.setWidth_eq, BitVec.and_assoc, BitVec.and_self]

theorem toInt_imm_mul : (imm opcode * 4).toInt = (imm opcode).toInt * 4 := by
  obtain ⟨hlow, hhigh⟩ := imm_range opcode
  rw [BitVec.toInt_mul]
  exact Int.bmod_eq_of_le (by simp; omega) (by simp; omega)

theorem setPcofs_print :
    setPcofs pc w (printPcofs {} (imm opcode) pc) = .ok (w ||| opcode &&& 0xFFFF) := by
  obtain ⟨hlow, hhigh⟩ := imm_range opcode
  have htext : printPcofs {} (imm opcode) pc =
      zero :: lowerX :: padded 8 16 (pc + 4 + imm opcode * 4).toNat := rfl
  have hback : pc + 4 + imm opcode * 4 - pc - 4 = imm opcode * 4 := by ring
  have hclamp : clampShort (imm opcode).toInt = (imm opcode).toInt := by
    rw [clampShort]
    omega
  rw [setPcofs, htext, readInt_word]
  dsimp only
  rw [BitVec.ofNat_toNat, BitVec.setWidth_eq, hback, toInt_imm_mul,
    Int.mul_tdiv_cancel _ (by decide), hclamp, BitVec.ofInt_toInt, imm_low]

theorem jump_back : (Operands.jump opcode pc &&& 0x0FFFFFFF) >>> 2 = opcode &&& 0x3FFFFFF := by
  have hregion : (pc &&& (0xF0000000 : Word)) >>> 2 &&& (0x3FFFFFF : Word) = 0 := by
    rw [BitVec.ushiftRight_and_distrib, BitVec.and_assoc]
    exact BitVec.and_zero
  have hkeep : (opcode &&& (0x3FFFFFF : Word)) <<< 2 >>> 2 = opcode &&& 0x3FFFFFF :=
    and_shiftLeft_shiftRight rfl
  have hmask : (0x0FFFFFFF : Word) >>> 2 = 0x3FFFFFF := rfl
  rw [BitVec.ushiftRight_and_distrib, Operands.jump, BitVec.ushiftRight_or_distrib, hmask,
    BitVec.and_or_distrib_right, hregion, hkeep, BitVec.and_assoc, BitVec.and_self]
  exact BitVec.zero_or

theorem setJump_print :
    setJump w (printJump {} (Operands.jump opcode pc)) = .ok (w ||| opcode &&& 0x3FFFFFF) := by
  have htext : printJump {} (Operands.jump opcode pc) =
      zero :: lowerX :: padded 8 16 (Operands.jump opcode pc).toNat := rfl
  rw [setJump, htext, readInt_word]
  dsimp only
  rw [BitVec.ofNat_toNat, BitVec.setWidth_eq, jump_back]

theorem setSa_print : setSa w (printInt (sa opcode)) = .ok (w ||| opcode &&& 0x7C0) := by
  have hlt := sa_lt opcode
  rw [setSa, printInt, parseRegnum_decimalInt _ ⟨by omega, by omega⟩, if_pos (by omega), ← ofNat_sa]
  rfl

theorem setCop0_print : setCop0 w (printCop0 (rd opcode)) = .ok (w ||| opcode &&& 0xF800) := by
  rw [setCop0, (registerTexts (rd_lt opcode)).cop0Number_cop0, ← ofNat_rd]
  rfl

theorem setN_ext : setN w (printInt (rd opcode + 1)) = .ok (w ||| opcode &&& 0xF800) := by
  have hlt := rd_lt opcode
  have hvalue : ((rd opcode : ℤ) + 1).toNat = rd opcode + 1 := by omega
  rw [setN, printInt, parseRegnum_decimalInt _ ⟨by omega, by omega⟩, if_pos (by omega), hvalue,
    ← ofNat_rd]
  rfl

theorem setN_ins : setN w (printInt (rd opcode - sa opcode + 1)) =
    if sa opcode ≤ rd opcode then .ok (w ||| BitVec.ofNat 32 (rd opcode - sa opcode) <<< 11)
    else .error .rejected := by
  have hrd := rd_lt opcode
  have hsa := sa_lt opcode
  rw [setN, printInt, parseRegnum_decimalInt _ ⟨by omega, by omega⟩]
  rcases Nat.lt_or_ge (rd opcode) (sa opcode) with hless | hle
  · rw [if_neg (Nat.not_le.mpr hless)]
    split
    · have hvalue : ((rd opcode : ℤ) - sa opcode + 1).toNat = 0 := by omega
      rw [hvalue]
      rfl
    · rfl
  · have hvalue : ((rd opcode : ℤ) - sa opcode + 1).toNat = rd opcode - sa opcode + 1 := by omega
    rw [if_pos (by omega), if_pos hle, hvalue]
    rfl

theorem or_and_or (a b : Word) :
    w ||| opcode &&& a ||| opcode &&& b = w ||| opcode &&& (a ||| b) := by
  rw [BitVec.or_assoc, ← BitVec.and_or_distrib_left]

theorem openParen_notMem : openParen ∉ decimalInt i := by
  intro hmem
  rcases mem_decimalInt hmem with hc | hc
  · exact absurd hc (by decide)
  · exact absurd hc (by decide)

theorem printOfs_eq : printOfs {} none (imm opcode) (rs opcode) =
    decimalInt (imm opcode).toInt ++ openParen :: (printCpureg {} (rs opcode) ++ [closeParen]) := by
  have htext : printOfs {} none (imm opcode) (rs opcode) =
      decimalInt (imm opcode).toInt ++ [openParen] ++ printCpureg {} (rs opcode) ++ [closeParen] :=
    rfl
  rw [htext, List.append_assoc, List.append_assoc, List.singleton_append]

theorem plain_imm (opcode : Word) : Plain 11 (decimalInt (imm opcode).toInt) := by
  obtain ⟨hlow, hhigh⟩ := imm_range opcode
  exact plain_decimalInt (by omega)

theorem plain_regofs (opcode : Word) : Plain 16 (printOfs {} none (imm opcode) (rs opcode)) := by
  have hclose : Plain 1 [closeParen] := plain_singleton (by decide) (by decide)
  have hreg := (registerTexts (rs_lt opcode)).plain_cpureg.append hclose
  rw [printOfs_eq]
  exact (plain_imm opcode).append (hreg.cons (by decide) (by decide))

theorem setRegofs_print :
    setRegofs w (printOfs {} none (imm opcode) (rs opcode)) = .ok (w ||| opcode &&& 0x3E0FFFF) := by
  have hlength := (plain_regofs opcode).length_le
  have himm := (plain_imm opcode).stripWsp
  have hreg := (registerTexts (rs_lt opcode)).plain_cpureg.stripWsp
  have hset : setImm w (printImm {} (imm opcode).toInt) true = .ok (w ||| opcode &&& 0xFFFF) :=
    setImm_simm
  rw [setRegofs, if_neg (by omega), printOfs_eq, cut_append openParen_notMem]
  simp only [orRejected, bind, Except.bind]
  rw [cut_append (registerTexts (rs_lt opcode)).closeParen_notMem]
  simp only [himm, hreg]
  rw [printImm, if_neg Bool.false_ne_true] at hset
  simp only [hset, setGpr_rs, or_and_or]
  rfl

theorem setDr_print {w' : Word}
    (h : setDr w ((printDebugreg (rd opcode)).rdropWhile isSpace) = .ok w') :
    w' = w ||| opcode &&& 0xF800 := by
  rw [setDr] at h
  rcases (registerTexts (rd_lt opcode)).drNumber_debugreg with hread | hfail | hfail
  · rw [hread] at h
    rw [← ofNat_rd]
    exact (Except.ok.inj h).symm
  · rw [hfail] at h
    exact absurd h nofun
  · rw [hfail] at h
    exact absurd h nofun

theorem setK_print : setK w (printHex (rt opcode)) = .error .rejected := by
  rw [setK, (registerTexts (rt_lt opcode)).parseRegnum_hex]
  rfl

theorem plain_small (hlow : -32 < i) (hhigh : i ≤ 32) : Plain 16 (printInt i) :=
  (plain_decimalInt (i := i) (by omega)).mono (by decide)

theorem plain_printHex (h : n < 16 ^ 8) : Plain 16 (printHex n) := by
  rw [printHex, hex_eq_padded]
  exact (plain_hex (by decide) h).mono (by decide)

theorem plain_printJump (addr : Word) : Plain 16 (printJump {} addr) :=
  (plain_hex (Nat.le_refl 8) addr.isLt).mono (by decide)

variable {k : OperandKind}

theorem plain_print (opcode pc : Word) (hk : k ≠ .debug) : Plain 16 (k.print opcode pc) := by
  have hrd := rd_lt opcode
  have hrt := rt_lt opcode
  have hrs := rs_lt opcode
  have hsa := sa_lt opcode
  cases k
  case rd => exact (registerTexts hrd).plain_cpureg.mono (by decide)
  case rt => exact (registerTexts hrt).plain_cpureg.mono (by decide)
  case rs => exact (registerTexts hrs).plain_cpureg.mono (by decide)
  case jumpr => exact (registerTexts hrs).plain_cpureg.mono (by decide)
  case simm => exact (plain_imm opcode).mono (by decide)
  case uimm => exact plain_printHex (Nat.lt_trans (immu_lt opcode) (by decide))
  case regofs => exact plain_regofs opcode
  case pcofs => exact plain_printJump _
  case jump => exact plain_printJump _
  case sa => exact plain_small (by omega) (by omega)
  case cop0 => exact (registerTexts hrd).plain_cop0.mono (by decide)
  case extSize => exact plain_small (by omega) (by omega)
  case insSize => exact plain_small (by omega) (by omega)
  case debug => exact absurd rfl hk
  case cop =>
    have hnumber := plain_decimalInt (i := rd opcode) (by omega)
    exact (hnumber.cons (by decide) (by decide) : Plain 12 (dollar :: _)).mono (by decide)
  case cache => exact plain_printHex (Nat.lt_trans hrt (by decide))
  case code => exact plain_printHex (code_lt opcode)
  case syscall => exact plain_printHex (code_lt opcode)

theorem isOperand_debug (h : n < 32) :
    IsOperand (printDebugreg n) ((printDebugreg n).rdropWhile isSpace) := by
  have htexts := registerTexts h
  exact ⟨htexts.length_debugreg, htexts.comma_notMem_debugreg, htexts.head_debugreg,
    htexts.strip_debugreg⟩

theorem isOperand_print (k : OperandKind) (opcode pc : Word) :
    IsOperand (k.print opcode pc) (k.arg opcode pc) := by
  rcases eq_or_ne k .debug with rfl | hk
  · exact isOperand_debug (rd_lt opcode)
  · have hplain := plain_print opcode pc hk
    rw [OperandKind.arg, hplain.rdropWhile]
    exact hplain.isOperand

/-- The operands the assembler always reads back. -/
def readable : List OperandKind :=
  [.rd, .rt, .rs, .jumpr, .simm, .uimm, .regofs, .pcofs, .jump, .sa, .cop0, .extSize]

theorem setOperand_readable (hk : k ∈ readable) :
    setOperand pc w k.letter (k.arg opcode pc) = .ok (w ||| opcode &&& k.mask) := by
  have hplain : Plain 16 (k.print opcode pc) := by
    apply plain_print
    rintro rfl
    exact absurd hk (by decide)
  rw [OperandKind.arg, hplain.rdropWhile]
  cases k
  case rd => exact setGpr_rd
  case rt => exact setGpr_rt
  case rs => exact setGpr_rs
  case jumpr => exact setGpr_rs
  case simm => exact setImm_simm
  case uimm => exact setImm_uimm
  case regofs => exact setRegofs_print
  case pcofs => exact setPcofs_print
  case jump => exact setJump_print
  case sa => exact setSa_print
  case cop0 => exact setCop0_print
  case extSize => exact setN_ext
  all_goals exact absurd hk (by decide)

/-- What the assembler reads of a printed operand, if anything, are the bits it shows; the size
of an `ins` apart. -/
theorem setOperand_sound {w' : Word} (hk : k ≠ .insSize)
    (h : setOperand pc w k.letter (k.arg opcode pc) = .ok w') :
    w' = w ||| opcode &&& k.mask := by
  rcases Decidable.em (k ∈ readable) with hread | hother
  · rw [setOperand_readable hread] at h
    exact (Except.ok.inj h).symm
  cases k
  case insSize => exact absurd rfl hk
  case debug => exact setDr_print h
  case cop => exact absurd h nofun
  case cache =>
    have hplain : Plain 16 (OperandKind.cache.print opcode pc) := plain_print opcode pc (by decide)
    rw [OperandKind.arg, hplain.rdropWhile] at h
    have hset : setK w (printHex (rt opcode)) = .ok w' := h
    rw [setK_print] at hset
    exact absurd hset nofun
  case code => exact absurd h nofun
  case syscall => exact absurd h nofun
  all_goals exact absurd (by decide) hother

end

end PsplinkUsb.Pspsh.OperandReading
