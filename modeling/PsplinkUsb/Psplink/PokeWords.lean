import PsplinkUsb.Psplink.AddressExpressions

namespace PsplinkUsb.Psplink.PokeWords

open PsplinkUsb.Psplink.ProgramMemory (Word)
open PsplinkUsb.Psplink.DecodeAddr
open PsplinkUsb.Psplink.AddressExpressions

def memAttribWrite : Word := 1 <<< 1

section

variable (sw : Word → Word → Machine → Machine)

/-- The loop of `pokew_cmd`, with the stores it makes, each of them an address and a word. -/
def pokeLoop : List Bytes → ℕ → Word → Machine → Machine × List (Word × Word)
  | [], _, _, m => (m, [])
  | arg :: args, sizeLeft, addr, m =>
      let (m, stored) :=
        match memDecode m arg with
        | some data => (sw data addr m, [(addr, data)])
        | none => (m, [])
      if sizeLeft ≤ 4 then (m, stored)
      else
        let (m, more) := pokeLoop args (sizeLeft - 4) (addr + 4) m
        (m, stored ++ more)

/-- `sw data addr` is what a store makes of the machine. -/
def pokewCmd (argv : List Bytes) (m : Machine) : Machine × List (Word × Word) :=
  match memDecode m (argv.headD []) with
  | none => (m, [])
  | some addr =>
      let addr := addr &&& ~~~3
      let sizeLeft := m.memValidate addr (memAttribWrite ||| memAttribWord)
      if 4 ≤ sizeLeft then pokeLoop sw argv.tail sizeLeft addr m else (m, [])

end

/-- Words, each at the address behind the one before. -/
def placed : Word → List Word → List (Word × Word)
  | _, [] => []
  | addr, w :: ws => (addr, w) :: placed (addr + 4) ws

/-- A text that is decoded to the word on every machine. -/
def Decodes (arg : Bytes) (w : Word) : Prop := ∀ m, memDecode m arg = some w

section

variable {sw : Word → Word → Machine → Machine} {m : Machine} {args : List Bytes} {ws : List Word}
  {addr a w : Word} {arg : Bytes} {sizeLeft i : ℕ}

theorem add_four_mul (addr : Word) (i : ℕ) :
    addr + 4 + BitVec.ofNat 32 (4 * i) = addr + BitVec.ofNat 32 (4 * (i + 1)) := by
  rw [Nat.mul_succ, BitVec.ofNat_add, BitVec.add_assoc, BitVec.add_comm 4]
  rfl

theorem mem_placed : (a, w) ∈ placed addr ws ↔
    ∃ i, ∃ h : i < ws.length, a = addr + BitVec.ofNat 32 (4 * i) ∧ ws[i] = w := by
  induction ws generalizing addr with
  | nil => exact iff_of_false List.not_mem_nil (by rintro ⟨i, hi, -⟩; cases hi)
  | cons x ws ih =>
      rw [placed, List.mem_cons, ih]
      constructor
      · rintro (heq | ⟨i, hi, ha, hw⟩)
        · obtain ⟨rfl, rfl⟩ := Prod.mk.inj heq
          exact ⟨0, Nat.zero_lt_succ _, (BitVec.add_zero _).symm, rfl⟩
        · exact ⟨i + 1, Nat.succ_lt_succ hi, ha.trans (add_four_mul addr i), hw⟩
      · rintro ⟨i, hi, ha, hw⟩
        cases i with
        | zero =>
            refine .inl (Prod.ext ?_ hw.symm)
            exact ha.trans (BitVec.add_zero addr)
        | succ i =>
            exact .inr ⟨i, Nat.lt_of_succ_lt_succ hi, ha.trans (add_four_mul addr i).symm, hw⟩

theorem stores_pokeLoop (h : List.Forall₂ Decodes args ws) (hroom : 0 < sizeLeft) :
    (pokeLoop sw args sizeLeft addr m).2 = placed addr (ws.take ((sizeLeft + 3) / 4)) := by
  induction h generalizing sizeLeft addr m with
  | nil => rw [List.take_nil]; rfl
  | @cons arg w args ws harg hargs ih =>
      obtain ⟨k, hk⟩ : ∃ k, (sizeLeft + 3) / 4 = k + 1 := ⟨(sizeLeft + 3) / 4 - 1, by omega⟩
      rw [hk, List.take_succ_cons, placed]
      simp only [pokeLoop, harg m]
      split
      · obtain rfl : k = 0 := by omega
        rw [List.take_zero]
        rfl
      · have hk' : (sizeLeft - 4 + 3) / 4 = k := by omega
        rw [ih (by omega), hk']
        rfl

theorem memValidate_mod_four (attrib : Word) (h : addr.toNat % 4 = 0) :
    m.memValidate addr attrib % 4 = 0 := by
  have hareas : ∀ entry ∈ memAreas, entry.addr.toNat % 4 = 0 ∧ entry.size.toNat % 4 = 0 := by decide
  have hleft : ∀ left, left % 4 = 0 → (if m.protoff ∧ left = 0 then 256 else left) % 4 = 0 := by
    intro left hleft
    split
    · rfl
    · exact hleft
  apply hleft
  split
  · rename_i entry hentry
    obtain ⟨haddr, hsize⟩ := hareas entry (List.mem_of_find?_eq_some hentry)
    split
    · have hsub : (addr - entry.addr).toNat % 4 = 0 := by
        have hlt := entry.addr.isLt
        rw [BitVec.toNat_sub]
        omega
      exact Nat.mod_eq_zero_of_dvd
        (Nat.dvd_sub (Nat.dvd_of_mod_eq_zero hsize) (Nat.dvd_of_mod_eq_zero hsub))
    · rfl
  · rfl

theorem stores_pokewCmd (haddr : Decodes arg addr) (halign : addr.toNat % 4 = 0)
    (h : List.Forall₂ Decodes args ws) :
    (pokewCmd sw (arg :: args) m).2 =
      placed addr (ws.take (m.memValidate addr (memAttribWrite ||| memAttribWord) / 4)) := by
  have hclear : addr &&& ~~~3 = addr := by
    have hlow : addr &&& 3 = 0 := by
      have hmod := Nat.and_two_pow_sub_one_eq_mod addr.toNat 2
      apply BitVec.eq_of_toNat_eq
      rw [BitVec.toNat_and]
      exact hmod.trans halign
    have hones : ~~~3 ||| 3 = BitVec.allOnes 32 := by decide
    calc addr &&& ~~~3 = addr &&& ~~~3 ||| addr &&& 3 := by rw [hlow]; exact BitVec.or_zero.symm
      _ = addr &&& (~~~3 ||| 3) := BitVec.and_or_distrib_left.symm
      _ = addr := by rw [hones, BitVec.and_allOnes]
  have hmod := @memValidate_mod_four m addr (memAttribWrite ||| memAttribWord) halign
  simp only [pokewCmd, List.headD_cons, haddr m, hclear, List.tail_cons]
  split
  · rw [stores_pokeLoop h (by omega)]
    congr 2
    omega
  · have hnone : m.memValidate addr (memAttribWrite ||| memAttribWord) / 4 = 0 := by omega
    rw [hnone, List.take_zero]
    rfl

end

end PsplinkUsb.Psplink.PokeWords
