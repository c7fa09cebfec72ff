import Mathlib.Logic.Basic
import Mathlib.Logic.Function.Basic

/-!
Words, flag words and program memory of the PSP. The kernel, user and uncached
views of a word differ in the top nibble of the address only, so memory is
indexed by the address without it.
-/

namespace PsplinkUsb.Psplink.ProgramMemory

abbrev Word := BitVec 32

/-- The test `flags & mask` of the C code. -/
def has (flags mask : Word) : Bool := flags &&& mask != 0#32

theorem has_eq_true {flags mask : Word} :
    has flags mask = true ↔ flags &&& mask ≠ 0#32 := by
  simp [has]

theorem has_or (a b mask : Word) :
    has (a ||| b) mask = (has a mask || has b mask) := by
  apply Bool.eq_iff_iff.mpr
  simp only [Bool.or_eq_true, has_eq_true, BitVec.and_or_distrib_right, ne_eq,
    BitVec.or_eq_zero_iff, not_and_or]

theorem has_and (a b mask : Word) : has (a &&& b) mask = has a (b &&& mask) := by
  simp [has, BitVec.and_assoc]

@[simp] theorem has_zero (mask : Word) : has 0#32 mask = false := by
  simp [has]

/-- The cell of a word: its address without the top nibble. -/
def cell (address : Word) : Word := address &&& 0x0FFFFFFF#32

theorem cell_eq_iff (a b : Word) :
    cell a = cell b ↔ a.toNat % 0x10000000 = b.toNat % 0x10000000 := by
  have hmod : ∀ w : Word, (cell w).toNat = w.toNat % 0x10000000 := by
    intro w
    rw [cell, BitVec.toNat_and]
    exact Nat.and_two_pow_sub_one_eq_mod w.toNat 28
  rw [← BitVec.toNat_inj, hmod, hmod]

abbrev Memory := Word → Word

def lw (m : Memory) (address : Word) : Word := m (cell address)

def sw (m : Memory) (value address : Word) : Memory :=
  Function.update m (cell address) value

@[simp] theorem sw_same (m : Memory) (value address : Word) :
    sw m value address (cell address) = value := by
  simp [sw]

theorem sw_other (m : Memory) (value address : Word) {c : Word}
    (hcell : cell address ≠ c) : sw m value address c = m c := by
  simp [sw, Function.update_of_ne (Ne.symm hcell)]

end PsplinkUsb.Psplink.ProgramMemory
