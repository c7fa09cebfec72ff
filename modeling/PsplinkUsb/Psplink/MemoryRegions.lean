import PsplinkUsb.Psplink.PokeWords

namespace PsplinkUsb.Psplink.MemoryRegions

open PsplinkUsb.Psplink.ProgramMemory (Word)
open PsplinkUsb.Psplink.DecodeAddr

def memAttribExec : Word := 1 <<< 2
def memAttribByte : Word := 1 <<< 3
def memAttribHalf : Word := 1 <<< 4

/-- Behind the last byte. -/
def End (entry : MemEntry) : ℕ := entry.addr.toNat + entry.size.toNat

def Contains (entry : MemEntry) (addr : Word) : Prop :=
  entry.addr.toNat ≤ addr.toNat ∧ addr.toNat < End entry

def Apart (entry entry' : MemEntry) : Prop :=
  End entry ≤ entry'.addr.toNat ∨ End entry' ≤ entry.addr.toNat

instance : DecidableRel Apart := fun _ _ => inferInstanceAs (Decidable (_ ∨ _))

instance (entry : MemEntry) (addr : Word) : Decidable (Contains entry addr) :=
  inferInstanceAs (Decidable (_ ∧ _))

/-- The byte at an address: the low byte of a word comes first. -/
def byteAt (m : Machine) (addr : Word) : UInt8 :=
  UInt8.ofNat ((m.lw (addr &&& ~~~3)).toNat / 256 ^ (addr.toNat % 4))

/-- Bytes that are read or written, `width` of them at once. -/
structure Access where
  addr : Word
  size : ℕ
  width : ℕ

/-- The access is aligned, and its bytes lie in the region of an address. -/
structure Access.Within (start : Word) (a : Access) : Prop where
  aligned : a.addr.toNat % a.width = 0
  inside : ∀ i < a.size, ∃ entry ∈ memAreas, Contains entry start ∧
    Contains entry (a.addr + BitVec.ofNat 32 i)

/-- A machine with nothing in its memory, at which nothing has stopped. -/
def blank : Machine :=
  { lw := fun _ => 0
    protoff := false
    isv1 := false
    currex := none
    modaddr := fun _ => none
    threadaddr := fun _ => none }

section

variable {m : Machine} {entry entry' : MemEntry} {addr start attrib : Word} {a : Access} {k n : ℕ}

theorem end_lt (h : entry ∈ memAreas) : End entry < 2 ^ 32 := by
  have hareas : ∀ entry ∈ memAreas, End entry < 2 ^ 32 := by decide
  exact hareas entry h

theorem attrib_and (h : entry ∈ memAreas) (attrib : Word) : entry.attrib &&& attrib = attrib := by
  have hareas : ∀ entry ∈ memAreas, entry.attrib = BitVec.allOnes 32 := by decide
  rw [hareas entry h, BitVec.allOnes_and]

theorem eq_of_contains (h : entry ∈ memAreas) (h' : entry' ∈ memAreas) (haddr : Contains entry addr)
    (haddr' : Contains entry' addr) : entry = entry' := by
  have hareas : memAreas.Pairwise Apart := by decide
  have hsymm : Std.Symm Apart := ⟨fun e e' => Or.symm⟩
  by_contra hne
  have hapart := hareas.forall h h' hne
  rw [Apart] at hapart
  obtain ⟨hle, hlt⟩ := haddr
  obtain ⟨hle', hlt'⟩ := haddr'
  omega

theorem contains_iff (h : entry ∈ memAreas) :
    (entry.addr ≤ addr ∧ addr < entry.addr + entry.size) ↔ Contains entry addr := by
  have hend := end_lt h
  rw [End] at hend
  rw [BitVec.le_def, BitVec.lt_def, BitVec.toNat_add_of_lt hend]
  exact Iff.rfl

theorem find_eq (h : entry ∈ memAreas) (haddr : Contains entry addr) :
    memAreas.find? (fun entry => entry.addr ≤ addr ∧ addr < entry.addr + entry.size) =
      some entry := by
  cases hfind : memAreas.find? fun entry => entry.addr ≤ addr ∧ addr < entry.addr + entry.size with
  | none =>
      refine absurd ((contains_iff h).mpr haddr) ?_
      simpa using List.find?_eq_none.mp hfind entry h
  | some entry' =>
      have hmem := List.mem_of_find?_eq_some hfind
      have hcontains : Contains entry' addr :=
        (contains_iff hmem).mp (by simpa using List.find?_some hfind)
      rw [eq_of_contains hmem h hcontains haddr]

theorem size_sub (haddr : Contains entry addr) :
    entry.size.toNat - (addr - entry.addr).toNat = End entry - addr.toNat := by
  obtain ⟨hle, -⟩ := haddr
  rw [BitVec.toNat_sub_of_le (BitVec.le_def.mpr hle), End]
  omega

theorem memValidate_of_contains (hprot : m.protoff = false) (h : entry ∈ memAreas)
    (haddr : Contains entry addr) :
    m.memValidate addr attrib =
      if entry.v1only = true ∧ m.isv1 = false then 0 else End entry - addr.toNat := by
  rw [Machine.memValidate, find_eq h haddr]
  simp only [attrib_and h, hprot, size_sub haddr]
  cases entry.v1only <;> cases m.isv1 <;> simp

theorem memValidate_of_outside (hprot : m.protoff = false)
    (h : ∀ entry ∈ memAreas, ¬Contains entry addr) : m.memValidate addr attrib = 0 := by
  have hfind : (memAreas.find? fun entry =>
      entry.addr ≤ addr ∧ addr < entry.addr + entry.size) = none := by
    refine List.find?_eq_none.mpr fun entry hmem => ?_
    simpa using (contains_iff hmem).not.mpr (h entry hmem)
  rw [Machine.memValidate, hfind]
  simp [hprot]

theorem memValidate_le (h : entry ∈ memAreas) (haddr : Contains entry addr) :
    m.memValidate addr attrib ≤ max 256 (End entry - addr.toNat) := by
  have hleft : ∀ left ≤ End entry - addr.toNat,
      (if m.protoff ∧ left = 0 then 256 else left) ≤ max 256 (End entry - addr.toNat) := by
    intro left hle
    split
    · exact le_max_left _ _
    · exact hle.trans (le_max_right _ _)
  rw [Machine.memValidate, find_eq h haddr]
  apply hleft
  dsimp only
  split
  · exact (size_sub haddr).le
  · exact Nat.zero_le _

theorem exists_of_memValidate (hprot : m.protoff = false) (h : 0 < m.memValidate addr attrib) :
    ∃ entry ∈ memAreas, Contains entry addr ∧
      addr.toNat + m.memValidate addr attrib = End entry := by
  by_cases hin : ∃ entry ∈ memAreas, Contains entry addr
  · obtain ⟨entry, hmem, haddr⟩ := hin
    refine ⟨entry, hmem, haddr, ?_⟩
    rw [memValidate_of_contains hprot hmem haddr] at h ⊢
    split at h
    · cases h
    · rename_i hv1
      rw [if_neg hv1]
      have hlt := haddr.2
      omega
  · rw [memValidate_of_outside hprot fun entry hmem haddr => hin ⟨entry, hmem, haddr⟩] at h
    cases h

theorem contains_add (hprot : m.protoff = false) (h : k < m.memValidate addr attrib) :
    ∃ entry ∈ memAreas, Contains entry addr ∧ Contains entry (addr + BitVec.ofNat 32 k) := by
  obtain ⟨entry, hmem, haddr, hend⟩ := exists_of_memValidate hprot (Nat.zero_lt_of_lt h)
  have hlt := end_lt hmem
  refine ⟨entry, hmem, haddr, ?_⟩
  have hk : (BitVec.ofNat 32 k).toNat = k := Nat.mod_eq_of_lt (by omega)
  have hadd : (addr + BitVec.ofNat 32 k).toNat = addr.toNat + k := by
    rw [BitVec.toNat_add_of_lt (by rw [hk]; omega), hk]
  have hle := haddr.1
  rw [Contains, hadd]
  omega

end

end PsplinkUsb.Psplink.MemoryRegions
