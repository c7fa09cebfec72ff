import PsplinkUsb.Psplink.AddressTokens

namespace PsplinkUsb.Psplink.RefusedExpressions

open PsplinkUsb.Library.Numerals
open PsplinkUsb.Psplink.ProgramMemory (Word)
open PsplinkUsb.Psplink.DecodeAddr
open PsplinkUsb.Psplink.AddressExpressions
open PsplinkUsb.Psplink.AddressNames
open PsplinkUsb.Psplink.AddressTokens

/-- The checks are passed in the 1023 bytes that are looked at, and something slips through them:
what they do not look for, or in a longer text also what they do. -/
structure SlipsThrough (k : Kernel) (m : Machine) (s : Bytes) : Prop where
  passes : ∃ st, Passes m .start (scan (s.take 1023)) st
  slips : Slip k (scan s) ∨ 1024 ≤ s.length ∧ Refused k m (scan s)

section

variable {k : Kernel} {m : Machine} {s : Bytes}

theorem memDecode_isSome_iff :
    (memDecode m s).isSome = true ↔ ∃ st, Passes m .start (scan (s.take 1023)) st := by
  rw [memDecode, Option.isSome_iff_exists]
  constructor
  · rintro ⟨v, hv⟩
    obtain ⟨st, hpasses, -⟩ := parseLine_iff.mp hv
    exact ⟨st, hpasses⟩
  · rintro ⟨st, hpasses⟩
    exact ⟨st.val, parseLine_iff.mpr ⟨st, hpasses, rfl⟩⟩

/-- What is accepted is no expression exactly if something slips through. -/
theorem slipsThrough_iff :
    SlipsThrough k (k.machine m) s ↔
      (memDecode (k.machine m) s).isSome = true ∧ ¬WellFormed k (k.machine m) s := by
  have hpasses := @memDecode_isSome_iff (k.machine m) s
  have hslips : (∃ st, Passes (k.machine m) .start (scan (s.take 1023)) st) →
      (Slip k (scan s) ∨ 1024 ≤ s.length ∧ Refused k (k.machine m) (scan s) ↔
        ¬WellFormed k (k.machine m) s) := by
    rintro ⟨st, hst⟩
    rcases Nat.lt_or_ge s.length 1024 with hlength | hlength
    · rw [List.take_of_length_le (Nat.le_of_lt_succ hlength)] at hst
      rw [wellFormed_iff hst, not_not, or_iff_left fun h => absurd h.1 (Nat.not_le.mpr hlength)]
    · rw [wellFormed_iff_tokens, and_iff_right hlength, not_and_or, not_not, not_not]
  constructor
  · exact fun h => ⟨hpasses.mpr h.passes, (hslips h.passes).mp h.slips⟩
  · exact fun h => ⟨hpasses.mp h.1, (hslips (hpasses.mp h.1)).mpr h.2⟩

end

/-- A text that is no expression is refused exactly if nothing slips through. -/
theorem memDecode_refuses_iff (k : Kernel) (m : Machine) (s : Bytes) :
    (¬WellFormed k (k.machine m) s → memDecode (k.machine m) s = none) ↔
      ¬SlipsThrough k (k.machine m) s := by
  rw [slipsThrough_iff, ← Option.not_isSome_iff_eq_none]
  tauto

/-- A system without modules and threads. -/
def bareKernel : Kernel :=
  { findModuleByName := fun _ => none
    queryModuleInfo := fun _ => none
    findThreadByName := fun _ => none
    referThreadStatus := fun _ => none
    findExportByNid := fun _ _ _ => 0
    findExportByName := fun _ _ _ => 0 }

def bareMachine : Machine := bareKernel.machine
  { lw := fun _ => 0
    protoff := false
    isv1 := false
    currex := none
    modaddr := fun _ => none
    threadaddr := fun _ => none }

/-- The operator at the end of `1+` slips through, and so does the text of no operand at all. -/
theorem unfinished_accepted :
    (¬WellFormed bareKernel bareMachine (text "1+") ∧ memDecode bareMachine (text "1+") = some 1) ∧
      ¬WellFormed bareKernel bareMachine [] ∧ memDecode bareMachine [] = some 0 := by
  have hnil : scan [] = [] := by rw [scan]
  have hplus : scan [plus] = [.operator .plus] := by
    rw [scan]
    exact congrArg (Token.operator .plus :: ·) hnil
  have htext : text "1+" = [0x31, plus] := by decide
  have hscan : scan (text "1+") = [.number 1, .operator .plus] := by
    rw [htext, scan]
    exact congrArg (Token.number 1 :: ·) hplus
  have hpasses : Passes bareMachine .start (scan (text "1+"))
      { op := .plus, deref := 0, not := 0, val := 1 } := by
    rw [hscan]
    refine .number (fun h => ?_) rfl (.operator rfl (.nil _))
    cases h
  have hempty : Passes bareMachine .start (scan []) .start := by
    rw [hnil]
    exact .nil _
  have htake : (text "1+").take 1023 = text "1+" := by decide
  refine ⟨⟨fun hwell => ?_, ?_⟩, fun hwell => ?_, ?_⟩
  · refine (wellFormed_iff hpasses).mp hwell (.last ?_)
    rw [hscan]
    exact fun t ht => Option.some.inj ht ▸ id
  · rw [memDecode, htake]
    exact parseLine_iff.mpr ⟨_, hpasses, rfl⟩
  · refine (wellFormed_iff hempty).mp hwell (.last ?_)
    rw [hnil]
    intro t ht
    cases ht
  · exact parseLine_iff.mpr ⟨_, hempty, rfl⟩

end PsplinkUsb.Psplink.RefusedExpressions
