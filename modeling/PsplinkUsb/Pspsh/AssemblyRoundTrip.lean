import PsplinkUsb.Pspsh.TableAgreement

namespace PsplinkUsb.Pspsh.AssemblyRoundTrip

open PsplinkUsb.Library.Ascii
open PsplinkUsb.Library.BitFields
open PsplinkUsb.Library.Numerals
open PsplinkUsb.Psplink.ProgramMemory
open PsplinkUsb.Pspsh.Asm
open PsplinkUsb.Pspsh.AssembledLine
open PsplinkUsb.Pspsh.Disasm
open PsplinkUsb.Pspsh.InstructionTable
open PsplinkUsb.Pspsh.Operands
open PsplinkUsb.Pspsh.OperandKinds
open PsplinkUsb.Pspsh.OperandReading
open PsplinkUsb.Pspsh.TableAgreement

/-- The line printed without an address assembles, if at all, to a word of the same entry with
the same line. -/
def RoundTrip (printG : Word → Bytes) (realregs : Option (ℕ → Word)) (opcode pc : Word) : Prop :=
  ∀ word, asmAssemble (disasmInstruction {} printG opcode pc realregs true) pc = .ok word →
    disasmEntry {} word = disasmEntry {} opcode ∧
      disasmInstruction {} printG word pc realregs true =
        disasmInstruction {} printG opcode pc realregs true

/-- The words whose line stands for another: `ori` as `li`, `or` as `move`, `bgez` as `b`, and
an `ins` that starts above bit 0 and has a size of at least 1. -/
def ReadAsAnother (opcode : Word) : Prop :=
  opcode &&& 0xFFE00000 = 0x34000000 ∨ opcode &&& 0xFC1F07FF = 0x00000025 ∨
    opcode &&& 0xFFFF0000 = 0x04010000 ∨
      opcode &&& 0xFC00003F = 0x7C000004 ∧ sa opcode ≠ 0 ∧ sa opcode ≤ rd opcode

section

variable {printG : Word → Bytes} {realregs : Option (ℕ → Word)} {opcode pc word : Word}
  {inst : Entry} {l r : List Entry} {n : ℕ}

theorem disasmInstruction_eq (hentry : disasmEntry {} opcode = some inst) (hinst : inst ∈ known) :
    disasmInstruction {} printG opcode pc realregs true =
      line (text inst.name) ((kinds inst).map (·.print opcode pc)) := by
  have hlisted := known_listed inst hinst
  have hlength := length_line hlisted.mnemonic (forall_isOperand (kinds inst) opcode pc)
    ((List.length_map _).trans_le hlisted.few)
  rw [disasmInstruction, hentry]
  dsimp only
  rw [fmt_toList hinst, decodeArgs_disasmFmt, formatLine, if_pos rfl, ← line,
    List.take_of_length_le hlength]

theorem asmAssemble_disasm (hentry : disasmEntry {} opcode = some inst) (hinst : inst ∈ known) :
    asmAssemble (disasmInstruction {} printG opcode pc realregs true) pc =
      assembleOp (text inst.name) ((kinds inst).map (·.arg opcode pc)) pc := by
  have hlisted := known_listed inst hinst
  rw [disasmInstruction_eq hentry hinst]
  exact asmAssemble_line hlisted.mnemonic (forall_isOperand (kinds inst) opcode pc)
    ((List.length_map _).trans_le hlisted.few)

/-- The row the assembler takes for a line, but for the shadowed entries, is the one of the
entry. -/
theorem asmAssemble_known (hentry : disasmEntry {} opcode = some inst) (hinst : inst ∈ known)
    (hseen : inst ∉ shadowed) :
    asmAssemble (disasmInstruction {} printG opcode pc realregs true) pc =
      encodeArgs pc (asmRest (kinds inst)) ((kinds inst).map (·.arg opcode pc)) inst.opcode := by
  obtain ⟨a, hfind, heq⟩ := Option.map_eq_some_iff.mp ((known_listed inst hinst).assembled hseen)
  obtain ⟨hopcode, hfmt⟩ := Prod.mk.inj heq
  rw [asmAssemble_disasm hentry hinst, assembleOp, List.length_map, hfind]
  simp only [orRejected, bind, Except.bind]
  rw [eq_of_text_eq hfmt, String.toList_ofList, encodeArgs_asmFmt, hopcode]

theorem mask_shown {k : OperandKind} {ks : List OperandKind} (hk : k ∈ ks) :
    k.mask &&& shown ks = k.mask := by
  induction ks with
  | nil => exact absurd hk List.not_mem_nil
  | cons k' ks ih =>
      rw [shown]
      rcases List.mem_cons.mp hk with rfl | hk
      · exact subset_or_left (BitVec.and_self)
      · exact subset_or_right (ih hk)

/-- What an entry and its operands show of a word is again a word of the entry, with the same
line. -/
theorem seen_word (hsplit : known = l ++ inst :: r) (hmatch : inst.Matches opcode)
    (hl : ∀ i ∈ l, ¬i.Matches opcode) :
    disasmEntry {} (opcode &&& seen inst) = some inst ∧
      (kinds inst).map (·.print (opcode &&& seen inst) pc) =
        (kinds inst).map (·.print opcode pc) := by
  have hpairs := known_apart.1
  rw [hsplit, List.pairwise_append] at hpairs
  have hword : inst.Matches (opcode &&& seen inst) :=
    (and_and_of_subset (subset_or_left BitVec.and_self)).trans hmatch
  refine ⟨entry_of_split hsplit hword fun i hi himatch => ?_, ?_⟩
  · rcases hpairs.2.2 i hi inst List.mem_cons_self with hfixed | hshown
    · exact hfixed (agree_of_matches himatch hword)
    · exact hl i hi ((and_and_of_subset hshown).symm.trans himatch)
  · apply List.map_congr_left
    intro k hk
    exact print_congr (and_and_of_subset (subset_or_right (mask_shown hk)))

theorem roundTrip_of_eq (hentry : disasmEntry {} opcode = some inst) (hinst : inst ∈ known)
    (hword : disasmEntry {} word = some inst)
    (hprint : (kinds inst).map (·.print word pc) = (kinds inst).map (·.print opcode pc)) :
    disasmEntry {} word = disasmEntry {} opcode ∧
      disasmInstruction {} printG word pc realregs true =
        disasmInstruction {} printG opcode pc realregs true := by
  rw [hword, hentry, disasmInstruction_eq hword hinst, disasmInstruction_eq hentry hinst, hprint]
  exact ⟨rfl, rfl⟩

theorem roundTrip_known (hsplit : known = l ++ inst :: r) (hmatch : inst.Matches opcode)
    (hl : ∀ i ∈ l, ¬i.Matches opcode) (hseen : inst ∉ shadowed) (hins : inst ≠ ins) :
    RoundTrip printG realregs opcode pc := by
  have hinst : inst ∈ known := by
    rw [hsplit]
    exact List.mem_append_right _ List.mem_cons_self
  have hentry := entry_of_split hsplit hmatch hl
  intro word hword
  rw [asmAssemble_known hentry hinst hseen] at hword
  have heq : word = opcode &&& seen inst := by
    rw [encodeArgs_sound ((known_listed inst hinst).sizes hins) hword, seen, BitVec.and_or_distrib_left,
      show opcode &&& inst.mask = inst.opcode from hmatch]
  obtain ⟨hback, hprint⟩ : disasmEntry {} (opcode &&& seen inst) = some inst ∧
      (kinds inst).map (·.print (opcode &&& seen inst) pc) =
        (kinds inst).map (·.print opcode pc) := seen_word hsplit hmatch hl
  rw [heq]
  exact roundTrip_of_eq hentry hinst hback hprint

theorem roundTrip_refused {name : Bytes} (args : Bytes) (hname : name ∈ unknownNames)
    (hline : disasmInstruction {} printG opcode pc realregs true =
      (leftJustified 10 name ++ blank :: args).take 1023) :
    RoundTrip printG realregs opcode pc := by
  intro word hword
  have hmnemonic := unknown_keys.1 name hname
  have hlength := hmnemonic.length_le
  obtain ⟨room, hroom⟩ : ∃ room, 1023 - name.length = room + 1 :=
    Nat.exists_eq_succ_of_ne_zero (by omega)
  rw [hline, leftJustified_blank, List.take_append, List.take_of_length_le (by omega), hroom,
    List.take_succ_cons] at hword
  obtain ⟨a, ha, hsame⟩ := findInst_of_asmAssemble hmnemonic hword
  exact absurd hsame (unknown_names hname a ha)

theorem roundTrip_unknown (hentry : disasmEntry {} opcode = some inst)
    (hinst : inst ∈ fpuInst ++ vpuInst) : RoundTrip printG realregs opcode pc := by
  have hname : text inst.name ∈ unknownNames :=
    List.mem_cons_of_mem _ (List.mem_map_of_mem hinst)
  apply roundTrip_refused (decodeArgs {} printG opcode pc realregs false inst.fmt.toList) hname
  rw [disasmInstruction, hentry]
  rfl

theorem roundTrip_none (hentry : disasmEntry {} opcode = none) :
    RoundTrip printG realregs opcode pc := by
  have hname : text "Unknown" ∈ unknownNames := List.mem_cons_self
  apply roundTrip_refused [] hname
  rw [disasmInstruction, hentry]
  rfl

theorem not_roundTrip {other : Entry}
    (hasm : asmAssemble (disasmInstruction {} printG opcode pc realregs true) pc = .ok word)
    (hentry : disasmEntry {} opcode = some inst) (hword : disasmEntry {} word = some other)
    (hne : other ≠ inst) : ¬RoundTrip printG realregs opcode pc := by
  intro hround
  have hsame := (hround word hasm).1
  rw [hword, hentry] at hsame
  exact hne (Option.some.inj hsame)

theorem matches_or (inst : Entry) {b : Word} (h : inst.opcode &&& inst.mask = inst.opcode)
    (hb : b &&& inst.mask = 0) : inst.Matches (inst.opcode ||| b) := by
  rw [InstructionTable.Instruction.Matches, BitVec.and_or_distrib_right, h, hb]
  exact BitVec.or_zero

theorem and_and_eq_zero (opcode : Word) {a b : Word} (h : a &&& b = 0) : opcode &&& a &&& b = 0 := by
  rw [BitVec.and_assoc, h]
  exact BitVec.and_zero

theorem setImm_unsigned (opcode : Word) : ∃ x : Word, ∀ w : Word,
    setImm w (printHex (immu opcode)) true = .ok (w ||| x &&& 0xFFFF) := by
  have hlt := immu_lt opcode
  refine ⟨BitVec.ofInt 32 (clampShort (toInt32 (immu opcode))), fun w => ?_⟩
  rw [setImm, printHex, strtol_hex (by omega)]
  rfl

theorem not_roundTrip_li (hmatch : secondLi.Matches opcode) :
    ¬RoundTrip printG realregs opcode pc := by
  have hentry := entry_of_sure secondLi_sure hmatch
  obtain ⟨hkinds, hrow, -, -, hne⟩ := li_assembled
  obtain ⟨a, hfind, heq⟩ := Option.map_eq_some_iff.mp hrow
  obtain ⟨hopcode, hfmt⟩ := Prod.mk.inj heq
  have harg : OperandKind.uimm.arg opcode pc = printHex (immu opcode) :=
    (plain_print opcode pc (by decide)).rdropWhile
  obtain ⟨x, hset⟩ := setImm_unsigned opcode
  have hsimm : ∀ w, setOperand pc w OperandKind.simm.letter (printHex (immu opcode)) =
      .ok (w ||| x &&& 0xFFFF) := hset
  have hasm : asmAssemble (disasmInstruction {} printG opcode pc realregs true) pc =
      .ok (firstLi.opcode ||| opcode &&& 0x1F0000 ||| x &&& 0xFFFF) := by
    rw [asmAssemble_disasm hentry (known_apart.2 _ secondLi_sure).1, hkinds, assembleOp,
      List.length_map, hfind]
    simp only [orRejected, bind, Except.bind]
    rw [eq_of_text_eq hfmt, String.toList_ofList, encodeArgs_asmFmt, List.map_cons,
      encodeArgs_asmRest, setOperand_readable (by decide), Except.bind, List.map_cons,
      encodeArgs_asmRest, harg, hsimm, hopcode]
    rfl
  have hword : firstLi.Matches (firstLi.opcode ||| opcode &&& 0x1F0000 ||| x &&& 0xFFFF) := by
    rw [BitVec.or_assoc]
    apply matches_or firstLi (by decide)
    rw [BitVec.and_or_distrib_right, and_and_eq_zero _ (by decide), and_and_eq_zero _ (by decide)]
    rfl
  exact not_roundTrip hasm hentry (entry_of_sure firstLi_sure hword) hne

/-- A shadowed entry with operands that are always read gives a word of the entry before it. -/
theorem not_roundTrip_shadowed {other : Entry} (hpair : (inst, other) ∈ shadows)
    (hmatch : inst.Matches opcode) : ¬RoundTrip printG realregs opcode pc := by
  obtain ⟨⟨hinst, hother, hne⟩, hread, hfree, hrow⟩ := shadows_assembled _ hpair
  obtain ⟨a, hfind, heq⟩ := Option.map_eq_some_iff.mp hrow
  obtain ⟨hopcode, hfmt⟩ := Prod.mk.inj heq
  dsimp only at hinst hother hne hread hfree hfind hopcode hfmt
  have hentry := entry_of_sure hinst hmatch
  have hasm : asmAssemble (disasmInstruction {} printG opcode pc realregs true) pc =
      .ok (other.opcode ||| opcode &&& shown (kinds inst)) := by
    rw [asmAssemble_disasm hentry (known_apart.2 _ hinst).1, assembleOp, List.length_map, hfind]
    simp only [orRejected, bind, Except.bind]
    rw [eq_of_text_eq hfmt, String.toList_ofList, encodeArgs_asmFmt, hopcode,
      encodeArgs_readable hread]
  have hfixed := (known_listed other (known_apart.2 _ hother).1).fixed
  have hword := matches_or other hfixed (and_and_eq_zero opcode hfree)
  exact not_roundTrip hasm hentry (entry_of_sure hother hword) hne

/-- The word the line of an `ins` assembles to. -/
def insWord (opcode : Word) : Word :=
  (0x7C000004 : Word) ||| opcode &&& (0x3FF07C0 : Word) |||
    BitVec.ofNat 32 (rd opcode - sa opcode) <<< 11

theorem asmAssemble_ins (hmatch : ins.Matches opcode) :
    asmAssemble (disasmInstruction {} printG opcode pc realregs true) pc =
      if sa opcode ≤ rd opcode then .ok (insWord opcode) else .error .rejected := by
  obtain ⟨-, -, hkinds, hlisted, -⟩ := li_assembled
  have hread : ∀ k ∈ [OperandKind.rt, .rs, .sa], k ∈ readable := by decide
  have harg : OperandKind.insSize.arg opcode pc = printInt (rd opcode - sa opcode + 1) :=
    (plain_print opcode pc (by decide)).rdropWhile
  have hset : ∀ w, setOperand pc w OperandKind.insSize.letter
      (printInt (rd opcode - sa opcode + 1)) =
        if sa opcode ≤ rd opcode then .ok (w ||| BitVec.ofNat 32 (rd opcode - sa opcode) <<< 11)
        else .error .rejected := fun w => setN_ins
  rw [asmAssemble_known (entry_of_sure ins_sure hmatch) (known_apart.2 _ ins_sure).1
    hlisted, hkinds, List.map_append, encodeArgs_append hread, List.map_singleton,
    harg, encodeArgs_asmRest, hset]
  rcases Nat.lt_or_ge (rd opcode) (sa opcode) with hless | hle
  · rw [if_neg (Nat.not_le.mpr hless), if_neg (Nat.not_le.mpr hless)]
    rfl
  · rw [if_pos hle, if_pos hle]
    rfl

theorem size_shift (h : n < 32) : BitVec.ofNat 32 n <<< 11 &&& (0xF800 : Word) =
    BitVec.ofNat 32 n <<< 11 ∧ BitVec.ofNat 32 n <<< 11 &&& (0xFFFF07FF : Word) = 0 := by
  have hall : ∀ n : Fin 32, BitVec.ofNat 32 n <<< 11 &&& (0xF800 : Word) =
      BitVec.ofNat 32 n <<< 11 ∧ BitVec.ofNat 32 n <<< 11 &&& (0xFFFF07FF : Word) = 0 := by
    decide
  exact hall ⟨n, h⟩

theorem size_lt (opcode : Word) : rd opcode - sa opcode < 32 :=
  Nat.lt_of_le_of_lt (Nat.sub_le _ _) (rd_lt opcode)

theorem insWord_and {m : Word} (h : m &&& 0xFFFF07FF = m) :
    insWord opcode &&& m = 0x7C000004 &&& m ||| opcode &&& 0x3FF07C0 &&& m := by
  have hsize : BitVec.ofNat 32 (rd opcode - sa opcode) <<< 11 &&& m = 0 := by
    rw [← h, BitVec.and_comm m, ← BitVec.and_assoc, (size_shift (size_lt opcode)).2]
    exact BitVec.zero_and
  rw [insWord, BitVec.and_or_distrib_right, BitVec.and_or_distrib_right, hsize]
  exact BitVec.or_zero

theorem insWord_matches (opcode : Word) : ins.Matches (insWord opcode) := by
  rw [InstructionTable.Instruction.Matches, insWord_and (by decide), and_and_eq_zero _ (by decide)]
  rfl

theorem sa_insWord : sa (insWord opcode) = sa opcode := by
  have hbits : insWord opcode &&& 0x7C0 = opcode &&& 0x7C0 := by
    rw [insWord_and (by decide), and_and_of_subset (by decide)]
    exact BitVec.zero_or
  rw [sa, ← field_and (m := 0x7C0) (by decide), hbits, field_and (by decide), sa]

theorem rd_insWord : rd (insWord opcode) = rd opcode - sa opcode := by
  have hlt := rd_lt (insWord opcode)
  have hsize := size_lt opcode
  have hbits : insWord opcode &&& (0xF800 : Word) = BitVec.ofNat 32 (rd opcode - sa opcode) <<< 11 := by
    rw [insWord, BitVec.and_or_distrib_right, BitVec.and_or_distrib_right,
      (size_shift (size_lt opcode)).1, and_and_eq_zero _ (by decide)]
    simp
  rw [← ofNat_rd] at hbits
  have hvalue := congrArg BitVec.toNat hbits
  simp only [BitVec.toNat_shiftLeft, BitVec.toNat_ofNat, Nat.shiftLeft_eq] at hvalue
  omega

theorem insWord_eq (hmatch : ins.Matches opcode) (hsa : sa opcode = 0) :
    insWord opcode = opcode := by
  have hfixed : opcode &&& 0xFC00003F = 0x7C000004 := hmatch
  rw [insWord, hsa, Nat.sub_zero, ofNat_rd, ← hfixed, ← BitVec.and_or_distrib_left,
    ← BitVec.and_or_distrib_left]
  exact BitVec.and_allOnes

theorem print_insWord {k : OperandKind} (hk : k ∈ [OperandKind.rt, .rs, .sa]) :
    k.print (insWord opcode) pc = k.print opcode pc := by
  have hmasks : ∀ k ∈ [OperandKind.rt, .rs, .sa], k.mask &&& 0xFFFF07FF = k.mask ∧
      (0x7C000004 : Word) &&& k.mask = 0 ∧ k.mask &&& 0x3FF07C0 = k.mask := by
    decide
  obtain ⟨hclear, hfixed, hkept⟩ := hmasks k hk
  apply print_congr
  rw [insWord_and hclear, hfixed, and_and_of_subset hkept]
  exact BitVec.zero_or

/-- An `ins` comes back if it starts at bit 0, or if its size is not one the assembler takes. -/
theorem roundTrip_ins (hmatch : ins.Matches opcode) :
    RoundTrip printG realregs opcode pc ↔ ¬(sa opcode ≠ 0 ∧ sa opcode ≤ rd opcode) := by
  have hinst := (known_apart.2 _ ins_sure).1
  have hentry := entry_of_sure ins_sure hmatch
  obtain ⟨-, -, hkinds, hlisted, -⟩ := li_assembled
  have hasm : asmAssemble (disasmInstruction {} printG opcode pc realregs true) pc =
      if sa opcode ≤ rd opcode then .ok (insWord opcode) else .error .rejected :=
    asmAssemble_ins hmatch
  constructor
  · rintro hround ⟨hsa, hle⟩
    rw [if_pos hle] at hasm
    have hsame := (hround _ hasm).2
    have hback := entry_of_sure ins_sure (insWord_matches opcode)
    have hfirst : [OperandKind.rt, .rs, .sa].map (·.print (insWord opcode) pc) =
        [OperandKind.rt, .rs, .sa].map (·.print opcode pc) :=
      List.map_congr_left fun k hk => print_insWord hk
    rw [disasmInstruction_eq hback hinst, disasmInstruction_eq hentry hinst, hkinds,
      List.map_append, List.map_append, hfirst] at hsame
    have htail := (List.cons.inj (List.append_cancel_left hsame)).2
    have hsize : printInt (rd (insWord opcode) - sa (insWord opcode) + 1) =
        printInt (rd opcode - sa opcode + 1) :=
      listed_last (List.cons_ne_nil _ _) htail
    have hvalue := decimalInt_injective hsize
    rw [rd_insWord, sa_insWord] at hvalue
    omega
  · intro hfine word hword
    rw [hasm] at hword
    split at hword
    · rename_i hle
      have hsa : sa opcode = 0 := by
        by_contra hsa
        exact hfine ⟨hsa, hle⟩
      rw [← Except.ok.inj hword, insWord_eq hmatch hsa]
      exact ⟨rfl, rfl⟩
    · exact absurd hword nofun

/-- Assembling the line of a word gives the instruction back unless the line stands for
another. -/
theorem roundTrip_iff (printG : Word → Bytes) (realregs : Option (ℕ → Word)) (opcode pc : Word) :
    RoundTrip printG realregs opcode pc ↔ ¬ReadAsAnother opcode := by
  have hmoves : (secondMove, firstMove) ∈ shadows := by simp [shadows]
  have hbs : (secondB, firstB) ∈ shadows := by simp [shadows]
  rw [ReadAsAnother]
  rcases Decidable.em (secondLi.Matches opcode) with hli | hli
  · exact iff_of_false (not_roundTrip_li hli) fun hnot => hnot (.inl hli)
  rcases Decidable.em (secondMove.Matches opcode) with hmove | hmove
  · exact iff_of_false (not_roundTrip_shadowed hmoves hmove) fun hnot => hnot (.inr (.inl hmove))
  rcases Decidable.em (secondB.Matches opcode) with hb | hb
  · exact iff_of_false (not_roundTrip_shadowed hbs hb) fun hnot => hnot (.inr (.inr (.inl hb)))
  rcases Decidable.em (ins.Matches opcode) with hins | hins
  · rw [roundTrip_ins hins, not_iff_not]
    constructor
    · rintro ⟨hsa, hle⟩
      exact .inr (.inr (.inr ⟨hins, hsa, hle⟩))
    · rintro (hother | hother | hother | ⟨-, hsize⟩)
      · exact absurd hother hli
      · exact absurd hother hmove
      · exact absurd hother hb
      · exact hsize
  have hplain : ¬ReadAsAnother opcode := by
    rintro (hother | hother | hother | ⟨hother, -⟩)
    · exact hli hother
    · exact hmove hother
    · exact hb hother
    · exact hins hother
  refine iff_of_true ?_ hplain
  cases hentry : disasmEntry {} opcode with
  | none => exact roundTrip_none hentry
  | some inst =>
      rcases entry_cases hentry with hunknown | ⟨l, r, hsplit, hmatch, hl⟩
      · exact roundTrip_unknown hentry hunknown
      · refine roundTrip_known hsplit hmatch hl ?_ ?_
        · intro hshadowed
          rcases List.mem_cons.mp hshadowed with rfl | hshadowed
          · exact hli hmatch
          rcases List.mem_cons.mp hshadowed with rfl | hshadowed
          · exact hmove hmatch
          · exact hb (List.mem_singleton.mp hshadowed ▸ hmatch)
        · rintro rfl
          exact hins hmatch

/-- `ori $a0, $zr, 1` is printed as `li $a0, 0x1`, which assembles to `addiu $a0, $zr, 1`. -/
theorem li_assembles_to_addiu : ¬RoundTrip (fun _ => []) none 0x34040001 0x08800000 := by
  intro hround
  have hasm : asmAssemble (disasmInstruction {} (fun _ => []) 0x34040001 0x08800000 none true)
      0x08800000 = .ok 0x24040001 := by
    decide +kernel
  have hentry := (hround _ hasm).1
  exact absurd hentry (by decide)

end

end PsplinkUsb.Pspsh.AssemblyRoundTrip
