import PsplinkUsb.Pspsh.AssembledLine

namespace PsplinkUsb.Pspsh.TableAgreement

open PsplinkUsb.Library.Ascii
open PsplinkUsb.Library.BitFields
open PsplinkUsb.Library.Numerals
open PsplinkUsb.Psplink.ProgramMemory
open PsplinkUsb.Pspsh.Asm
open PsplinkUsb.Pspsh.AssembledLine
open PsplinkUsb.Pspsh.Disasm
open PsplinkUsb.Pspsh.InstructionTable
open PsplinkUsb.Pspsh.Operands
open PsplinkUsb.Pspsh.OperandKinds
open PsplinkUsb.Pspsh.OperandReading

/-- An entry of the disassembler. -/
abbrev Entry := InstructionTable.Instruction

def kindsOf : Bytes → List OperandKind
  | [] => []
  | c :: fmt =>
      if c = byte '%' then
        (OperandKind.all.filter fun k => (k.spec.map byte).isPrefixOf fmt) ++ kindsOf fmt
      else kindsOf fmt

/-- The operands of an entry. -/
def kinds (inst : Entry) : List OperandKind := kindsOf (text inst.fmt)

/-- The bits of a word that an entry and its operands show. -/
def seen (inst : Entry) : Word := inst.mask ||| shown (kinds inst)

/-- The entries whose names the assembler has. -/
def known : List Entry := gMacro ++ mipsInst

def secondLi : Entry := ⟨"li", 0x34000000, 0xFFE00000, "%t, %I", .none, 0⟩
def secondMove : Entry := ⟨"move", 0x00000025, 0xFC1F07FF, "%d, %s", .none, 0⟩
def secondB : Entry := ⟨"b", 0x04010000, 0xFFFF0000, "%O", .a16, instrTypeB⟩

/-- The entries behind another of the same name and number of operands. -/
def shadowed : List Entry := [secondLi, secondMove, secondB]

def ins : Entry :=
  ⟨"ins", 0x7C000004, 0xFC00003F, "%t, %s, %a, %ni", .none, instrTypePsp⟩

def firstLi : Entry := ⟨"li", 0x24000000, 0xFFE00000, "%t, %i", .none, 0⟩
def firstMove : Entry := ⟨"move", 0x00000021, 0xFC1F07FF, "%d, %s", .none, 0⟩
def firstB : Entry := ⟨"b", 0x10000000, 0xFFFF0000, "%O", .a16, instrTypeB⟩

def sure : List Entry :=
  [firstLi, firstMove, firstB, secondLi, secondMove, secondB, ins]

/-- A word of `inst` is not taken for one of `earlier`: their fixed bits differ, or what the
operands show tells whether it is one. -/
def Apart (earlier inst : Entry) : Prop :=
  earlier.opcode &&& inst.mask ≠ inst.opcode &&& earlier.mask ∨
    earlier.mask &&& seen inst = earlier.mask

instance : DecidableRel Apart := fun _ _ => inferInstanceAs (Decidable (_ ∨ _))

/-- What the two tables have in common on an entry: its format is a list of operands, and the
assembler has a row for them. -/
structure Listed (inst : Entry) : Prop where
  fmt_eq : text inst.fmt = text (String.ofList (disasmFmt (kinds inst)))
  few : (kinds inst).length ≤ 4
  mnemonic : IsMnemonic (text inst.name)
  fixed : inst.opcode &&& inst.mask = inst.opcode
  assembled : inst ∉ shadowed →
    (findInst (text inst.name) (kinds inst).length).map (fun a => (a.opcode, text a.fmt)) =
      some (inst.opcode, text (String.ofList (asmFmt (kinds inst))))
  sizes : inst ≠ ins → .insSize ∉ kinds inst

instance (inst : Entry) : Decidable (Listed inst) :=
  decidable_of_iff (text inst.fmt = text (String.ofList (disasmFmt (kinds inst))) ∧
      (kinds inst).length ≤ 4 ∧ IsMnemonic (text inst.name) ∧
      inst.opcode &&& inst.mask = inst.opcode ∧
      (inst ∉ shadowed →
        (findInst (text inst.name) (kinds inst).length).map (fun a => (a.opcode, text a.fmt)) =
          some (inst.opcode, text (String.ofList (asmFmt (kinds inst))))) ∧
      (inst ≠ ins → .insSize ∉ kinds inst))
    ⟨fun ⟨h₁, h₂, h₃, h₄, h₅, h₆⟩ => ⟨h₁, h₂, h₃, h₄, h₅, h₆⟩,
      fun ⟨h₁, h₂, h₃, h₄, h₅, h₆⟩ => ⟨h₁, h₂, h₃, h₄, h₅, h₆⟩⟩

theorem known_listed : ∀ inst ∈ known, Listed inst := by decide +kernel

example : kinds secondMove = [.rd, .rs] := by decide +kernel

theorem known_apart : known.Pairwise Apart ∧ ∀ inst ∈ sure, inst ∈ known ∧
    ∀ earlier ∈ known.takeWhile fun i => i ≠ inst,
      earlier.opcode &&& inst.mask ≠ inst.opcode &&& earlier.mask := by
  decide +kernel

/-- The names the assembler does not have. -/
def unknownNames : List Bytes := text "Unknown" :: (fpuInst ++ vpuInst).map fun inst => text inst.name

/-- A number for a name that does not tell small letters from capital ones. -/
def letterKey (s : Bytes) : ℕ := s.foldr (fun c n => (toLower c).toNat + 256 * n) 0

def dot : UInt8 := 0x2E

theorem unknown_keys : (∀ name ∈ unknownNames, IsMnemonic name) ∧
    (∀ a ∈ asmMacro ++ asmInst, dot ∉ text a.name) ∧
    (unknownNames.all fun name => decide (dot ∈ name) || (asmMacro ++ asmInst).all fun a =>
      !(letterKey (text a.name)).beq (letterKey name)) = true := by
  decide +kernel

/-- Rows whose lines the row of another entry takes, with operands that are always read. -/
def shadows : List (Entry × Entry) := [(secondMove, firstMove), (secondB, firstB)]

theorem shadows_assembled : ∀ p ∈ shadows, (p.1 ∈ sure ∧ p.2 ∈ sure ∧ p.2 ≠ p.1) ∧
    (∀ k ∈ kinds p.1, k ∈ readable) ∧ shown (kinds p.1) &&& p.2.mask = 0 ∧
    (findInst (text p.1.name) (kinds p.1).length).map (fun a => (a.opcode, text a.fmt)) =
      some (p.2.opcode, text (String.ofList (asmFmt (kinds p.1)))) := by
  decide +kernel

theorem li_assembled : kinds secondLi = [.rt, .uimm] ∧
    (findInst (text secondLi.name) [OperandKind.rt, .uimm].length).map
      (fun a => (a.opcode, text a.fmt)) =
        some (firstLi.opcode, text (String.ofList (asmFmt [.rt, .simm]))) ∧
    kinds ins = [.rt, .rs, .sa] ++ [.insSize] ∧ ins ∉ shadowed ∧ firstLi ≠ secondLi := by
  decide +kernel

theorem firstLi_sure : firstLi ∈ sure := by simp [sure]
theorem secondLi_sure : secondLi ∈ sure := by simp [sure]
theorem ins_sure : ins ∈ sure := by simp [sure]

section

variable {opcode word : Word} {inst : Entry} {l r : List Entry} {s t : String}

theorem letterKey_eq {a b : Bytes} (h : SameLetters a b) : letterKey a = letterKey b := by
  have hmap : ∀ s : Bytes, letterKey s =
      (s.map toLower).foldr (fun c n => c.toNat + 256 * n) 0 := by
    intro s
    rw [List.foldr_map]
    rfl
  rw [hmap, hmap, show a.map toLower = b.map toLower from h]

example : letterKey (text "LI") = letterKey (text "li") := by decide +kernel

theorem dot_mem {a b : Bytes} (h : SameLetters a b) (hb : dot ∈ b) : dot ∈ a := by
  have hmem : toLower dot ∈ a.map toLower := by
    rw [show a.map toLower = b.map toLower from h]
    exact List.mem_map_of_mem hb
  obtain ⟨c, hc, heq⟩ := List.mem_map.mp hmem
  have hdot : c = dot := by
    have hlower : toLower dot = dot := by decide
    rw [hlower, toLower] at heq
    split at heq
    · rename_i hupper
      have hc : c = dot - 0x20 := by
        rw [← heq, UInt8.add_sub_cancel]
      rw [hc] at hupper
      exact absurd hupper (by decide)
    · exact heq
  exact hdot ▸ hc

theorem unknown_names {name : Bytes} (hname : name ∈ unknownNames) :
    ∀ a ∈ asmMacro ++ asmInst, ¬SameLetters (text a.name) name := by
  intro a ha hsame
  obtain ⟨-, hdots, hkeys⟩ := unknown_keys
  rcases Bool.or_eq_true_iff.mp (List.all_eq_true.mp hkeys name hname) with hdot | hkey
  · exact hdots a ha (dot_mem hsame (of_decide_eq_true hdot))
  · have hkey := List.all_eq_true.mp hkey a ha
    rw [letterKey_eq hsame, Nat.beq_refl] at hkey
    exact absurd hkey (by decide)

theorem eq_of_text_eq (h : text s = text t) : s = t :=
  String.toByteArray_inj.mp (ByteArray.ext (Array.toList_inj.mp h))

theorem fmt_toList (hinst : inst ∈ known) : inst.fmt.toList = disasmFmt (kinds inst) := by
  rw [eq_of_text_eq (known_listed inst hinst).fmt_eq, String.toList_ofList]

theorem disasmEntry_eq :
    disasmEntry {} opcode = (known ++ (fpuInst ++ vpuInst)).find? fun inst => inst.Matches opcode := by
  rw [known, List.append_assoc, List.find?_append]
  rfl

theorem entry_cases (h : disasmEntry {} opcode = some inst) : inst ∈ fpuInst ++ vpuInst ∨
    ∃ l r, known = l ++ inst :: r ∧ inst.Matches opcode ∧ ∀ i ∈ l, ¬i.Matches opcode := by
  rw [disasmEntry_eq, List.find?_append] at h
  cases hknown : known.find? fun inst => inst.Matches opcode with
  | none =>
      rw [hknown, Option.none_or] at h
      exact .inl (List.mem_of_find?_eq_some h)
  | some found =>
      rw [hknown, Option.some_or] at h
      cases h
      obtain ⟨hmatch, l, r, hsplit, hl⟩ := List.find?_eq_some_iff_append.mp hknown
      refine .inr ⟨l, r, hsplit, of_decide_eq_true hmatch, fun i hi => ?_⟩
      simpa using hl i hi

theorem entry_of_split (hsplit : known = l ++ inst :: r) (hmatch : inst.Matches opcode)
    (hl : ∀ i ∈ l, ¬i.Matches opcode) : disasmEntry {} opcode = some inst := by
  rw [disasmEntry_eq, List.find?_eq_some_iff_append]
  refine ⟨decide_eq_true hmatch, l, r ++ (fpuInst ++ vpuInst), ?_, fun i hi => ?_⟩
  · rw [hsplit, List.append_assoc, List.cons_append]
  · simpa using hl i hi

theorem agree_of_matches {i j : Entry} (hi : i.Matches word) (hj : j.Matches word) :
    i.opcode &&& j.mask = j.opcode &&& i.mask := by
  rw [InstructionTable.Instruction.Matches] at hi hj
  rw [← hi, ← hj, BitVec.and_assoc, BitVec.and_assoc, BitVec.and_comm i.mask]

theorem entry_of_sure (hinst : inst ∈ sure) (hmatch : inst.Matches opcode) :
    disasmEntry {} opcode = some inst := by
  obtain ⟨hmem, hapart⟩ := known_apart.2 inst hinst
  have hdrop : known.dropWhile (fun i => i ≠ inst) ≠ [] := by
    rw [ne_eq, List.dropWhile_eq_nil_iff]
    intro hall
    simpa using hall inst hmem
  obtain ⟨first, r, hcons⟩ := List.exists_cons_of_ne_nil hdrop
  have hfirst : first = inst := by
    have hhead := List.head_dropWhile_not (fun i => decide (i ≠ inst)) hdrop
    simp only [hcons, List.head_cons] at hhead
    simpa using hhead
  have hsplit : known = (known.takeWhile fun i => i ≠ inst) ++ inst :: r := by
    rw [← hfirst, ← hcons, hfirst, List.takeWhile_append_dropWhile]
  exact entry_of_split hsplit hmatch fun i hi himatch => hapart i hi (agree_of_matches himatch hmatch)

end

end PsplinkUsb.Pspsh.TableAgreement
