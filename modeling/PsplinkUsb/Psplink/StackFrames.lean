import Mathlib.Algebra.GroupWithZero.Nat
import PsplinkUsb.Psplink.StackTrace

namespace PsplinkUsb.Psplink.StackFrames

open PsplinkUsb.Psplink.StackTrace

variable {mem : Word → Word} {va pc sp subr : Word} {n fuel more : ℕ} {frame : Frame}

/-- The word is the address of an instruction. -/
def Aligned (va : Word) : Prop := va.toNat % 4 = 0

instance : Decidable (Aligned va) := inferInstanceAs (Decidable (va.toNat % 4 = 0))

theorem aligned_iff : va &&& 3 = 0 ↔ Aligned va := by
  rw [Aligned, ← BitVec.toNat_inj, BitVec.toNat_and]
  exact Iff.of_eq (congrArg (· = 0) (Nat.and_two_pow_sub_one_eq_mod va.toNat 2))

theorem Aligned.add (h : Aligned va) : Aligned (va + 4) := by
  rw [Aligned, BitVec.toNat_add]
  rw [Aligned] at h
  have hfour : (4 : Word).toNat = 4 := rfl
  omega

theorem Aligned.sub (h : Aligned va) : Aligned (va - 4) := by
  rw [Aligned, BitVec.toNat_sub]
  rw [Aligned] at h
  have hfour : (4 : Word).toNat = 4 := rfl
  omega

theorem toNat_sub_four (h : verylocore < va) : (va - 4).toNat = va.toNat - 4 := by
  have hva : 0x400000 < va.toNat := h
  have hfour : (4 : Word).toNat = 4 := rfl
  have hlt := va.isLt
  rw [BitVec.toNat_sub]
  omega

theorem findStart_isSome (h : (va - 4).toNat / 4 < fuel) :
    ∃ start, findStart mem fuel va = some start := by
  induction fuel generalizing va with
  | zero => omega
  | succ fuel ih =>
      rw [findStart]
      dsimp only
      split
      · exact ⟨_, rfl⟩
      · rename_i habove
        split
        · exact ⟨_, rfl⟩
        · split
          · exact ⟨_, rfl⟩
          · refine ih ?_
            have hva : 0x400000 < (va - 4).toNat := by
              rw [BitVec.le_def] at habove
              simpa [verylocore] using habove
            rw [toNat_sub_four hva]
            omega

theorem findStart_aligned {start : Word} (hva : Aligned va)
    (h : findStart mem fuel va = some (some start)) : Aligned start := by
  induction fuel generalizing va with
  | zero => simp [findStart] at h
  | succ fuel ih =>
      rw [findStart] at h
      dsimp only at h
      split at h
      · simp at h
      · split at h
        · simp only [Option.some.injEq] at h
          exact h ▸ hva.sub.add
        · split at h
          · simp only [Option.some.injEq] at h
            exact h ▸ hva.sub.add.add
          · exact ih hva.sub h

theorem toNat_add_four (hva : Aligned va) :
    va + 4 = 0 ∨ (va + 4).toNat = va.toNat + 4 := by
  have hfour : (4 : Word).toNat = 4 := rfl
  have hlt := va.isLt
  rw [Aligned] at hva
  rw [← BitVec.toNat_inj, BitVec.toNat_add]
  have hzero : (0 : Word).toNat = 0 := rfl
  omega

theorem skipNulls_isSome (hva : Aligned va) (hfuel : 0 < fuel)
    (h : va ≠ 0 → (2 ^ 32 - va.toNat) / 4 < fuel) :
    ∃ subr, skipNulls mem fuel va = some subr ∧ Aligned subr := by
  induction fuel generalizing va with
  | zero => omega
  | succ fuel ih =>
      rw [skipNulls]
      split
      · rename_i hnull
        have hne : va ≠ 0 := by
          rintro rfl
          simp [kdbpeek] at hnull
        have hlt := va.isLt
        have hleft := h hne
        rw [Aligned] at hva
        refine ih (Aligned.add hva) (by omega) fun hnext => ?_
        rw [(toNat_add_four hva).resolve_left hnext]
        omega
      · exact ⟨va, rfl, hva⟩

theorem scan_isSome (hva : Aligned va) (hpc : Aligned pc) (h : (pc.toNat - va.toNat) / 4 < fuel) :
    ∃ frame', scan mem sp pc fuel va more frame = some frame' := by
  induction fuel generalizing va more frame with
  | zero => omega
  | succ fuel ih =>
      rw [scan]
      split
      · exact ⟨_, rfl⟩
      · rename_i hmore
        rw [not_or, BitVec.not_le, BitVec.lt_def] at hmore
        have hfour : (4 : Word).toNat = 4 := rfl
        have hlt := pc.isLt
        refine ih hva.add ?_
        rw [Aligned] at hva hpc
        rw [BitVec.toNat_add]
        omega

def isFrame : Line → Bool
  | .frame .. => true
  | _ => false

/-- The loops end from everywhere once they have a turn for each word of memory. -/
theorem stacktraceSubr_isSome (hfuel : 2 ^ 30 < fuel) (left : ℕ) (registers : Registers)
    (pc sp : Word) : ∃ lines, stacktraceSubr mem fuel left registers pc sp = some lines ∧
      (lines.filter isFrame).length ≤ left := by
  induction left generalizing registers pc sp with
  | zero => exact ⟨_, rfl, by simp [isFrame]⟩
  | succ left ih =>
      rw [stacktraceSubr]
      split
      · exact ⟨_, rfl, Nat.succ_le_succ (Nat.zero_le left)⟩
      · split
        · exact ⟨_, rfl, Nat.succ_le_succ (Nat.zero_le left)⟩
        · rename_i hpc
          have hpc := aligned_iff.mp (not_not.mp hpc)
          have hlt := (pc - 4).isLt
          obtain ⟨start, hstart⟩ := @findStart_isSome mem pc fuel (by omega)
          rw [hstart, Option.bind_some]
          rcases start with _ | va
          · exact ⟨_, rfl, by simp [isFrame]⟩
          · have hva := findStart_aligned hpc hstart
            obtain ⟨subr, hsubr, haligned⟩ :=
              @skipNulls_isSome mem va fuel hva (by omega) fun _ => by omega
            have hpclt := pc.isLt
            obtain ⟨frame, hframe⟩ := @scan_isSome mem subr pc sp fuel 3 (.start registers)
              haligned hpc (by omega)
            simp only [hsubr, hframe, Option.bind_some]
            split
            · exact ⟨_, rfl, Nat.succ_le_succ (Nat.zero_le left)⟩
            · split
              · exact ⟨_, rfl, Nat.succ_le_succ (Nat.zero_le left)⟩
              · obtain ⟨lines, hlines, hcount⟩ := ih (Function.update frame.registers 31 0)
                  (frame.registers 31) (sp + frame.stksize)
                refine ⟨_, by rw [hlines]; rfl, ?_⟩
                exact Nat.succ_le_succ hcount

/-- For every memory and every context the trace ends, with a line for each of 101 frames at
most. -/
theorem trace_ends (mem : Word → Word) (registers : Registers) (pc sp : Word) (fuel : ℕ)
    (hfuel : 2 ^ 30 < fuel) :
    ∃ lines, stacktraceSubr mem fuel maxFrames registers pc sp = some lines ∧
      (lines.filter isFrame).length ≤ maxFrames :=
  stacktraceSubr_isSome hfuel maxFrames registers pc sp

/-- Every word of the memory is `addiu sp, sp, -16`, and every register an address. -/
theorem trace_ends_prologues : ∃ lines,
    stacktraceSubr (fun _ => 0x27BDFFF0) (2 ^ 30 + 1) maxFrames (fun i => 0x08804000 + 8 * i)
        0x08804010 0x09FFF000 = some lines ∧
      (lines.filter isFrame).length ≤ maxFrames :=
  trace_ends _ _ _ _ _ (Nat.lt_succ_self _)

section

variable (mem : Word → Word)

def wordsFrom (va : Word) : ℕ → List Word
  | 0 => []
  | n + 1 => mem va :: wordsFrom (va + 4) n

/-- Of the instructions of a subroutine those that the second loop looks at. -/
def reached : ℕ → List Word → List Word
  | _, [] => []
  | more, w :: ws => if more = 0 then [] else w :: reached (after ((stops w).getD more)) ws

/-- How far an instruction moves the stack pointer down. -/
def adjustOf (w : Word) : Option Word :=
  if (op w = opAddi ∨ op w = opAddiu ∨ op w = opDaddi ∨ op w = opDaddiu) ∧
      rs w = 29 ∧ rt w = 29 then some (-imm w)
  else none

/-- What an instruction has stored of a register on the stack. -/
def saveOf (sp : Word) (r : ℕ) (w : Word) : Option Word :=
  if (op w = opSw ∨ op w = opSd) ∧ rs w = 29 ∧ rt w = r then
    some (kdbrpeek mem (sp + imm w) (if op w = opSw then 4 else 8))
  else none

def frameSize (ws : List Word) : Word := (ws.findSome? adjustOf).getD 0

def savedRegisters (sp : Word) (ws : List Word) (registers : Registers) : Registers := fun r =>
  if r ∈ traced then (ws.findSome? (saveOf mem sp r)).getD (registers r) else registers r

end

theorem kdbpeek_eq (hva : Aligned va) (hne : va ≠ 0) : kdbpeek mem va = mem va := by
  rw [kdbpeek, if_neg (by rw [not_not, aligned_iff]; exact hva), if_neg hne]

/-- The second loop looks at the instructions up to the program counter or to where a stretch
of code ends. -/
theorem scan_eq (hva : Aligned va) (hne : va ≠ 0) (hpc : pc.toNat = va.toNat + 4 * n)
    (hfuel : n < fuel) :
    scan mem sp pc fuel va more frame =
      some ((reached more (wordsFrom mem va n)).foldl (Frame.note mem sp) frame) := by
  induction n generalizing va more frame fuel with
  | zero =>
      obtain ⟨fuel, rfl⟩ : ∃ k, fuel = k + 1 := ⟨fuel - 1, by omega⟩
      rw [scan, if_pos (.inr (by rw [BitVec.le_def]; omega))]
      rfl
  | succ n ih =>
      obtain ⟨fuel, rfl⟩ : ∃ k, fuel = k + 1 := ⟨fuel - 1, by omega⟩
      rw [scan, wordsFrom, reached]
      by_cases hmore : more = 0
      · rw [if_pos (.inl hmore), if_pos hmore]
        rfl
      · have hlt := pc.isLt
        have hfour : (4 : Word).toNat = 4 := rfl
        have hnext : (va + 4).toNat = va.toNat + 4 := by
          rw [BitVec.toNat_add]
          omega
        have hne' : va + 4 ≠ 0 := by
          rw [← BitVec.toNat_inj.ne, hnext]
          exact Nat.succ_ne_zero _
        rw [if_neg (by rw [BitVec.le_def]; omega), if_neg hmore, kdbpeek_eq hva hne]
        exact ih hva.add hne' (by omega) (by omega)

section Notes

variable {w : Word} {ws : List Word} {r : ℕ}

theorem op_apart (h : op w = opSw ∨ op w = opSd) :
    op w ∉ [opAddi, opAddiu, opDaddi, opDaddiu] := by
  rcases h with h | h
  · rw [h]
    decide
  · rw [h]
    decide

theorem mem_adds : op w ∈ [opAddi, opAddiu, opDaddi, opDaddiu] ↔
    op w = opAddi ∨ op w = opAddiu ∨ op w = opDaddi ∨ op w = opDaddiu := by
  simp only [List.mem_cons, List.not_mem_nil, or_false]

theorem adjustOf_store (h : op w = opSw ∨ op w = opSd) : adjustOf w = none :=
  if_neg fun hadd => op_apart h (mem_adds.mpr hadd.1)

theorem note_stksize : (frame.note mem sp w).stksize =
      (if frame.foundframesize then frame.stksize else (adjustOf w).getD frame.stksize) ∧
    (frame.note mem sp w).foundframesize = (frame.foundframesize || (adjustOf w).isSome) := by
  rw [Frame.note]
  by_cases hstore : op w = opSw ∨ op w = opSd
  · rw [if_pos hstore, adjustOf_store hstore]
    dsimp only
    split
    · simp
    · split
      · simp
      · split
        · simp
        · simp
  · rw [if_neg hstore]
    by_cases hadd : op w ∈ [opAddi, opAddiu, opDaddi, opDaddiu]
    · rw [if_pos hadd]
      by_cases hother : rs w ≠ 29 ∨ rt w ≠ 29
      · have hnone : adjustOf w = none := if_neg fun h => by
          rcases hother with hrs | hrt
          · exact hrs h.2.1
          · exact hrt h.2.2
        rw [if_pos hother, hnone]
        simp
      · rw [not_or, not_not, not_not] at hother
        have hsome : adjustOf w = some (-imm w) := if_pos ⟨mem_adds.mp hadd, hother⟩
        rw [if_neg (by rw [not_or, not_not, not_not]; exact hother), hsome]
        cases hfound : frame.foundframesize with
        | true => simp [hfound]
        | false => simp
    · have hnone : adjustOf w = none := if_neg fun h => hadd (mem_adds.mpr h.1)
      rw [if_neg hadd, hnone]
      simp

theorem getLsbD_noted (hr : r < 32) (mask : Word) (k : ℕ) :
    (mask ||| (1 : Word) <<< k).getLsbD r = (mask.getLsbD r || decide (k = r)) := by
  have hone : (1 : Word) = 1#32 := rfl
  rw [BitVec.getLsbD_or, hone, BitVec.getLsbD_shiftLeft, BitVec.getLsbD_one]
  congr 1
  rw [Bool.eq_iff_iff]
  simp only [Bool.and_eq_true, decide_eq_true_eq, Bool.not_eq_true', decide_eq_false_iff_not]
  omega

theorem note_registers (hr : r < 32) : (frame.note mem sp w).registers r =
      (if r ∈ traced ∧ frame.mask.getLsbD r = false then
        (saveOf mem sp r w).getD (frame.registers r) else frame.registers r) ∧
    (frame.note mem sp w).mask.getLsbD r =
      (frame.mask.getLsbD r || (saveOf mem sp r w).isSome) := by
  by_cases hsaves : (op w = opSw ∨ op w = opSd) ∧ rs w = 29 ∧ rt w = r
  · obtain ⟨hstore, hstack, hrt⟩ := hsaves
    have hsave : saveOf mem sp r w =
        some (kdbrpeek mem (sp + imm w) (if op w = opSw then 4 else 8)) :=
      if_pos ⟨hstore, hstack, hrt⟩
    rw [Frame.note, if_pos hstore, hsave]
    dsimp only
    rw [if_neg (not_not.mpr hstack), hrt]
    cases hmask : frame.mask.getLsbD r with
    | true => simp [hmask]
    | false =>
        by_cases htraced : r ∈ traced
        · simp [htraced, hr]
        · simp [htraced, hr]
  · have hsave : saveOf mem sp r w = none := if_neg hsaves
    rw [Frame.note, hsave]
    by_cases hstore : op w = opSw ∨ op w = opSd
    · rw [if_pos hstore]
      dsimp only
      by_cases hstack : rs w = 29
      · have hrt : rt w ≠ r := fun h => hsaves ⟨hstore, hstack, h⟩
        rw [if_neg (not_not.mpr hstack)]
        split
        · simp
        · split
          · simp only [getLsbD_noted hr]
            simp [hrt, Ne.symm hrt]
          · simp only [getLsbD_noted hr]
            simp [hrt]
      · rw [if_pos hstack]
        simp
    · rw [if_neg hstore]
      split
      · split
        · simp
        · split
          · simp
          · simp
      · simp

theorem fold_stksize (ws : List Word) (frame : Frame) :
    (ws.foldl (Frame.note mem sp) frame).stksize =
      if frame.foundframesize then frame.stksize
      else (ws.findSome? adjustOf).getD frame.stksize := by
  induction ws generalizing frame with
  | nil => simp
  | cons w ws ih =>
      have hnote := @note_stksize mem sp frame w
      rw [List.foldl_cons, ih, hnote.1, hnote.2, List.findSome?_cons]
      cases frame.foundframesize with
      | true => simp
      | false =>
          cases adjustOf w with
          | none => simp
          | some size => simp

theorem fold_registers (hr : r < 32) (ws : List Word) (frame : Frame) :
    (ws.foldl (Frame.note mem sp) frame).registers r =
      if r ∈ traced ∧ frame.mask.getLsbD r = false then
        (ws.findSome? (saveOf mem sp r)).getD (frame.registers r) else frame.registers r := by
  induction ws generalizing frame with
  | nil => simp
  | cons w ws ih =>
      have hnote := @note_registers mem sp frame w r hr
      rw [List.foldl_cons, ih, hnote.1, hnote.2, List.findSome?_cons]
      by_cases htraced : r ∈ traced
      · cases frame.mask.getLsbD r with
        | true => simp [htraced]
        | false =>
            cases saveOf mem sp r w with
            | none => simp [htraced]
            | some value => simp [htraced]
      · simp [htraced]

theorem traced_lt (hr : r ∈ traced) : r < 32 := by
  simp only [traced, List.mem_cons, List.not_mem_nil, or_false] at hr
  omega

theorem note_untraced (hr : r ∉ traced) :
    (frame.note mem sp w).registers r = frame.registers r := by
  rw [Frame.note]
  dsimp only
  split
  · split
    · rfl
    · split
      · rfl
      · split
        · rename_i htraced
          have hne : r ≠ rt w := by
            rintro rfl
            exact hr htraced
          exact Function.update_of_ne hne _ _
        · rfl
  · split
    · split
      · rfl
      · split
        · rfl
        · rfl
    · rfl

theorem fold_untraced (hr : r ∉ traced) (ws : List Word) (frame : Frame) :
    (ws.foldl (Frame.note mem sp) frame).registers r = frame.registers r := by
  induction ws generalizing frame with
  | nil => rfl
  | cons w ws ih => rw [List.foldl_cons, ih, note_untraced hr]

theorem start_fold (ws : List Word) (registers : Registers) :
    (ws.foldl (Frame.note mem sp) (.start registers)).stksize = frameSize ws ∧
      (ws.foldl (Frame.note mem sp) (.start registers)).registers =
        savedRegisters mem sp ws registers := by
  refine ⟨fold_stksize ws _, funext fun r => ?_⟩
  rw [savedRegisters]
  by_cases hr : r ∈ traced
  · rw [fold_registers (traced_lt hr), if_pos hr]
    simp [Frame.start, hr]
  · rw [fold_untraced hr, if_neg hr]
    rfl

end Notes

/-- A place in a subroutine: the address of the return that ends the subroutine before, how many
instructions there are from it to the end of that subroutine, how many nulls follow, and how many
instructions of this subroutine come before the place. -/
structure Site where
  before : Word
  skip : ℕ
  pad : ℕ
  len : ℕ

namespace Site

variable {site : Site} {i : ℕ}

def addr (site : Site) (i : ℕ) : Word := site.before + BitVec.ofNat 32 (4 * i)

def entry (site : Site) : Word := site.addr (site.skip + site.pad)

def counter (site : Site) : Word := site.addr (site.skip + site.pad + site.len)

/-- The memory has the place: before it a return with its delay slot, or an `eret`, and no other
return in between. -/
structure Holds (mem : Word → Word) (site : Site) : Prop where
  aligned : Aligned site.before
  above : verylocore < site.before
  fits : site.before.toNat + 4 * (site.skip + site.pad + site.len) < 2 ^ 32
  returns : isReturn (mem site.before) = true ∧ site.skip = 2 ∨
    mem site.before = mipsEret ∧ site.skip = 1
  inside : ∀ i, 0 < i → i < site.skip + site.pad + site.len →
    mem (site.addr i) ≠ mipsEret ∧ isReturn (mem (site.addr i)) = false
  nulls : ∀ i < site.pad, mem (site.addr (site.skip + i)) = 0
  starts : mem site.entry ≠ 0

/-- The instructions of the subroutine that the second loop looks at. -/
def looked (mem : Word → Word) (site : Site) : List Word :=
  reached 3 (wordsFrom mem site.entry site.len)

theorem addr_succ : site.addr (i + 1) = site.addr i + 4 := by
  rw [addr, addr, Nat.mul_succ, BitVec.ofNat_add, BitVec.add_assoc]
  rfl

theorem addr_zero : site.addr 0 = site.before := by
  rw [addr, Nat.mul_zero]
  exact BitVec.add_zero _

namespace Holds

variable (h : site.Holds mem)

include h

theorem toNat_addr (hi : i ≤ site.skip + site.pad + site.len) :
    (site.addr i).toNat = site.before.toNat + 4 * i := by
  have hfits := h.fits
  rw [addr, BitVec.toNat_add, BitVec.toNat_ofNat]
  omega

theorem addr_above (hi : i ≤ site.skip + site.pad + site.len) : verylocore < site.addr i := by
  have habove := h.above
  rw [BitVec.lt_def] at habove ⊢
  rw [h.toNat_addr hi]
  omega

theorem addr_ne (hi : i ≤ site.skip + site.pad + site.len) : site.addr i ≠ 0 := by
  intro hzero
  have habove := h.addr_above hi
  rw [hzero] at habove
  exact absurd habove (by decide)

theorem addr_aligned (i : ℕ) : Aligned (site.addr i) := by
  induction i with
  | zero => exact addr_zero ▸ h.aligned
  | succ i ih => exact addr_succ ▸ ih.add

theorem kdbpeek_addr (hi : i ≤ site.skip + site.pad + site.len) :
    kdbpeek mem (site.addr i) = mem (site.addr i) :=
  kdbpeek_eq (h.addr_aligned i) (h.addr_ne hi)

theorem findStart_addr (hi : i < site.skip + site.pad + site.len) (hfuel : i < fuel) :
    findStart mem fuel (site.addr (i + 1)) = some (some (site.addr site.skip)) := by
  induction i generalizing fuel with
  | zero =>
      obtain ⟨fuel, rfl⟩ : ∃ k, fuel = k + 1 := ⟨fuel - 1, by omega⟩
      have hback : site.addr 1 - 4 = site.before := by
        rw [← Nat.zero_add 1, addr_succ, addr_zero, BitVec.add_sub_cancel]
      have hpeek := h.kdbpeek_addr (Nat.zero_le _)
      rw [addr_zero] at hpeek
      rw [findStart]
      simp only [Nat.zero_add, hback, hpeek]
      rw [if_neg (BitVec.not_le.mpr h.above)]
      rcases h.returns with ⟨hreturn, hskip⟩ | ⟨heret, hskip⟩
      · have hother : mem site.before ≠ mipsEret := by
          intro heret
          rw [heret] at hreturn
          exact absurd hreturn (by decide)
        rw [if_neg hother, if_pos hreturn, hskip, addr_succ, addr_succ, addr_zero]
      · rw [if_pos heret, hskip, addr_succ, addr_zero]
  | succ i ih =>
      obtain ⟨fuel, rfl⟩ : ∃ k, fuel = k + 1 := ⟨fuel - 1, by omega⟩
      have hback : site.addr (i + 1 + 1) - 4 = site.addr (i + 1) := by
        rw [addr_succ, BitVec.add_sub_cancel]
      obtain ⟨heret, hreturn⟩ := h.inside (i + 1) (Nat.succ_pos i) hi
      rw [findStart]
      simp only [hback, h.kdbpeek_addr (Nat.le_of_lt hi)]
      rw [if_neg (BitVec.not_le.mpr (h.addr_above (Nat.le_of_lt hi))), if_neg heret,
        if_neg (by simp [hreturn])]
      exact ih (by omega) (by omega)

theorem skipNulls_addr (hi : i ≤ site.pad) (hfuel : i < fuel) :
    skipNulls mem fuel (site.addr (site.skip + site.pad - i)) = some site.entry := by
  induction i generalizing fuel with
  | zero =>
      obtain ⟨fuel, rfl⟩ : ∃ k, fuel = k + 1 := ⟨fuel - 1, by omega⟩
      have hstarts : mem (site.addr (site.skip + site.pad)) ≠ 0 := h.starts
      rw [skipNulls, Nat.sub_zero, h.kdbpeek_addr (by omega), if_neg hstarts]
      rfl
  | succ i ih =>
      obtain ⟨fuel, rfl⟩ : ∃ k, fuel = k + 1 := ⟨fuel - 1, by omega⟩
      have hnull := h.nulls (site.pad - (i + 1)) (by omega)
      have hat : site.skip + (site.pad - (i + 1)) = site.skip + site.pad - (i + 1) := by omega
      rw [hat] at hnull
      rw [skipNulls, h.kdbpeek_addr (by omega), if_pos hnull, ← addr_succ]
      have hnext : site.skip + site.pad - (i + 1) + 1 = site.skip + site.pad - i := by omega
      rw [hnext]
      exact ih (by omega) (by omega)

theorem scan_site (hfuel : site.len < fuel) (registers : Registers) :
    scan mem sp site.counter fuel site.entry 3 (.start registers) =
      some ((site.looked mem).foldl (Frame.note mem sp) (.start registers)) := by
  refine scan_eq (h.addr_aligned _) (h.addr_ne (Nat.le_add_right _ _)) ?_ hfuel
  rw [entry, counter, h.toNat_addr (Nat.le_refl _), h.toNat_addr (by omega)]
  omega

end Holds

end Site

section

variable (mem : Word → Word)

/-- The places from which the subroutines are left that are being run, the innermost first: each
has on the stack the place in its caller, and the outermost has no return address. -/
inductive Chained : Registers → Word → List Site → Prop where
  | last (registers : Registers) (sp : Word) (site : Site) (hsp : sp &&& 3 = 0)
      (holds : site.Holds mem)
      (hra : savedRegisters mem sp (site.looked mem) registers 31 = 0) :
      Chained registers sp [site]
  | call (registers : Registers) (sp : Word) (site caller : Site) (callers : List Site)
      (hsp : sp &&& 3 = 0) (holds : site.Holds mem)
      (hra : savedRegisters mem sp (site.looked mem) registers 31 = caller.counter)
      (hloop : ¬(site.counter = caller.counter ∧ frameSize (site.looked mem) = 0))
      (rest : Chained
        (Function.update (savedRegisters mem sp (site.looked mem) registers) 31 0)
        (sp + frameSize (site.looked mem)) (caller :: callers)) :
      Chained registers sp (site :: caller :: callers)

/-- One line for each call, until too many have been shown. -/
def linesOf : ℕ → Registers → Word → List Site → List Line
  | _, _, _, [] => [.done]
  | 0, _, _, _ :: _ => [.countExceeded, .done]
  | left + 1, registers, sp, site :: callers =>
      let saved := savedRegisters mem sp (site.looked mem) registers
      let size := frameSize (site.looked mem)
      lineOf site.entry site.counter size saved ::
        linesOf left (Function.update saved 31 0) (sp + size) callers

end

theorem Site.Holds.counter_and {site : Site} (h : site.Holds mem) : site.counter &&& 3 = 0 :=
  aligned_iff.mpr (h.addr_aligned _)

theorem stacktraceSubr_site {site : Site} (h : site.Holds mem) (hsp : sp &&& 3 = 0)
    (hfuel : 2 ^ 30 < fuel) (left : ℕ) (registers : Registers) :
    stacktraceSubr mem fuel (left + 1) registers site.counter sp =
      let saved := savedRegisters mem sp (site.looked mem) registers
      let size := frameSize (site.looked mem)
      let line := lineOf site.entry site.counter size saved
      if saved 31 = 0 then some [line, .done]
      else if site.counter = saved 31 ∧ size = 0 then some [line, .traceLoop]
      else
        (stacktraceSubr mem fuel left (Function.update saved 31 0) (saved 31)
          (sp + size)).map (line :: ·) := by
  have hlen : site.skip + site.pad + site.len < fuel := by
    have hfits := h.fits
    omega
  have hskip : 0 < site.skip := by
    rcases h.returns with ⟨-, hskip⟩ | ⟨-, hskip⟩
    · omega
    · omega
  have hstart : findStart mem fuel site.counter = some (some (site.addr site.skip)) := by
    have hback := h.findStart_addr (Nat.sub_lt (by omega : 0 < site.skip + site.pad + site.len)
      Nat.one_pos) (show _ < fuel by omega)
    rwa [Nat.sub_add_cancel (by omega)] at hback
  have hentry : skipNulls mem fuel (site.addr site.skip) = some site.entry := by
    have hnulls := h.skipNulls_addr (Nat.le_refl site.pad) (show _ < fuel by omega)
    rwa [Nat.add_sub_cancel] at hnulls
  have hframe := @start_fold mem sp (site.looked mem) registers
  rw [stacktraceSubr, if_neg (not_not.mpr hsp), if_neg (not_not.mpr h.counter_and), hstart]
  simp only [Option.bind_some, hentry, h.scan_site (show _ < fuel by omega) registers, hframe.1,
    hframe.2]

theorem stacktraceSubr_chained {registers : Registers} {sites : List Site}
    (h : Chained mem registers sp sites) (hfuel : 2 ^ 30 < fuel) (left : ℕ) :
    ∀ site ∈ sites.head?, stacktraceSubr mem fuel left registers site.counter sp =
      some (linesOf mem left registers sp sites) := by
  induction h generalizing left with
  | last registers sp site hsp holds hra =>
      intro inner hinner
      obtain rfl := Option.some.inj hinner
      cases left with
      | zero => rfl
      | succ left =>
          rw [stacktraceSubr_site holds hsp hfuel]
          dsimp only
          rw [if_pos hra, linesOf, linesOf]
  | call registers sp site caller callers hsp holds hra hloop rest ih =>
      intro inner hinner
      obtain rfl := Option.some.inj hinner
      cases left with
      | zero => rfl
      | succ left =>
          have hholds : caller.Holds mem := by
            cases rest with
            | last _ _ _ _ hcaller => exact hcaller
            | call _ _ _ _ _ _ hcaller => exact hcaller
          have hne : caller.counter ≠ 0 := hholds.addr_ne (Nat.le_refl _)
          rw [stacktraceSubr_site holds hsp hfuel]
          dsimp only
          rw [hra, if_neg hne, if_neg hloop, ih left caller rfl, linesOf]
          rfl

/-- On a stack of calls the trace shows each call once, the innermost first, with the subroutine,
its frame and its registers, and says at the end that it is done or that there were too many. -/
theorem trace_exact (mem : Word → Word) (registers : Registers) (sp : Word) (site : Site)
    (callers : List Site) (fuel : ℕ) (hfuel : 2 ^ 30 < fuel)
    (h : Chained mem registers sp (site :: callers)) :
    stacktraceSubr mem fuel maxFrames registers site.counter sp =
      some (linesOf mem maxFrames registers sp (site :: callers)) :=
  stacktraceSubr_chained h hfuel maxFrames site rfl

/-- A subroutine that has called another one, and its stack. -/
def calledMem (va : Word) : Word :=
  ([(0x8804000, mipsJrRa), (0x8804008, 0x27bdfff0), (0x880400c, 0xafbf000c),
    (0x8804010, 0x0e20100b), (0x8804020, mipsJrRa), (0x8804024, 0x27bd0010),
    (0x880402c, 0x27bdffe0), (0x8804030, 0xafbf001c), (0x8804034, 0xafa40000),
    (0x9fff000, 5), (0x9fff01c, 0x8804018)].lookup va).getD 0

theorem trace_exact_called :
    stacktraceSubr calledMem (2 ^ 30 + 1) maxFrames (fun _ => 0) 0x8804038 0x9fff000 =
      some [.frame 0x880402c 5 0 0 0 0x8804038 0x8804018 32,
        .frame 0x8804008 5 0 0 0 0x8804018 0 16, .done] :=
  (trace_exact calledMem (fun _ => 0) 0x9fff000 ⟨0x8804020, 2, 1, 3⟩ [⟨0x8804000, 2, 0, 4⟩] _
    (Nat.lt_succ_self _)
    (.call _ _ _ _ _ rfl
      { aligned := by decide
        above := by decide
        fits := by decide
        returns := by decide
        inside := fun i hpos hi =>
          (by decide : ∀ i < 6, 0 < i → calledMem (Site.addr ⟨0x8804020, 2, 1, 3⟩ i) ≠ mipsEret ∧
            isReturn (calledMem (Site.addr ⟨0x8804020, 2, 1, 3⟩ i)) = false) i hi hpos
        nulls := by decide
        starts := by decide }
      (by decide) (by decide)
      (.last _ _ _ (by decide)
        { aligned := by decide
          above := by decide
          fits := by decide
          returns := by decide
          inside := fun i hpos hi =>
            (by decide : ∀ i < 6, 0 < i → calledMem (Site.addr ⟨0x8804000, 2, 0, 4⟩ i) ≠ mipsEret ∧
              isReturn (calledMem (Site.addr ⟨0x8804000, 2, 0, 4⟩ i)) = false) i hi hpos
          nulls := by decide
          starts := by decide }
        (by decide)))).trans
    (congrArg some (by decide))

end PsplinkUsb.Psplink.StackFrames
