import Mathlib.Data.BitVec
import PsplinkUsb.Pspsh.InstructionTable

namespace PsplinkUsb.Pspsh.BranchTargets

open PsplinkUsb.Psplink.ProgramMemory
open PsplinkUsb.Pspsh.InstructionTable

/-- `(signed short) (opcode & 0xFFFF)`. -/
def imm (opcode : Word) : Word := (opcode.setWidth 16).signExtend 32

/-- The address an entry of the table gives; all ones for a register jump. -/
def addrOf (addrtype : AddrType) (opcode pc : Word) : Word :=
  match addrtype with
  | .a16 => pc + 4 + imm opcode * 4
  | .a26 => ((opcode &&& 0x03FFFFFF) <<< 2) + (pc &&& 0xF0000000)
  | _ => 0xFFFFFFFF

/-- The loop of `disasmIsBranch`: the type and the target found so far. -/
def isBranchLoop (opcode pc : Word) (found : ℕ × Option Word) : List Instruction → ℕ × Option Word
  | [] => found
  | inst :: table =>
      if inst.Matches opcode ∧ inst.IsBranch then
        let addr := addrOf inst.addrtype opcode pc
        if addr = 0xFFFFFFFF then found
        else isBranchLoop opcode pc (inst.type, some addr) table
      else isBranchLoop opcode pc found table

def disasmIsBranch (opcode pc : Word) : ℕ × Option Word :=
  isBranchLoop opcode pc (0, none) gInst

/-- The branch entries of the table. -/
def branchInst : List Instruction := gInst.filter fun inst => inst.IsBranch

variable {opcode pc addr : Word} {table : List Instruction} (found : ℕ × Option Word)

theorem isBranchLoop_filter :
    isBranchLoop opcode pc found (table.filter fun inst => inst.IsBranch) =
      isBranchLoop opcode pc found table := by
  induction table generalizing found with
  | nil => rfl
  | cons inst table ih =>
      by_cases hbranch : inst.IsBranch
      · rw [List.filter_cons, if_pos (decide_eq_true hbranch), isBranchLoop, isBranchLoop]
        simp only [ih]
      · rw [List.filter_cons, if_neg (by simpa using hbranch), ih, isBranchLoop,
          if_neg (fun h => hbranch h.2)]

/-- The entries that match all give one address: the loop finds it, if there is such an
entry and the address is not that of a register jump. -/
theorem isBranchLoop_spec
    (haddr : ∀ inst ∈ table, inst.Matches opcode → inst.IsBranch →
      addrOf inst.addrtype opcode pc = addr) :
    (addr ≠ 0xFFFFFFFF ∧ (∃ inst ∈ table, inst.Matches opcode ∧ inst.IsBranch) ∧
        ∃ type, type &&& instrTypeBranch ≠ 0 ∧
          isBranchLoop opcode pc found table = (type, some addr)) ∨
      ((addr = 0xFFFFFFFF ∨ ∀ inst ∈ table, inst.Matches opcode → ¬inst.IsBranch) ∧
        isBranchLoop opcode pc found table = found) := by
  induction table generalizing found with
  | nil => exact .inr ⟨.inr (by simp), rfl⟩
  | cons inst table ih =>
      have hrest := ih found fun i hi => haddr i (List.mem_cons_of_mem _ hi)
      rw [isBranchLoop]
      split
      · rename_i hmatch
        have hthis := haddr inst List.mem_cons_self hmatch.1 hmatch.2
        rw [hthis]
        dsimp only
        split
        · rename_i hreg
          exact .inr ⟨.inl hreg, rfl⟩
        · rename_i hjump
          refine .inl ⟨hjump, ⟨inst, List.mem_cons_self, hmatch⟩, ?_⟩
          rcases ih (inst.type, some addr)
              fun i hi => haddr i (List.mem_cons_of_mem _ hi) with ⟨-, -, hfound⟩ | ⟨-, hkept⟩
          · exact hfound
          · exact ⟨inst.type, hmatch.2, hkept⟩
      · rename_i hno
        rcases hrest with ⟨hjump, ⟨i, hi, hmatch⟩, hfound⟩ | ⟨hnone, hkept⟩
        · exact .inl ⟨hjump, ⟨i, List.mem_cons_of_mem _ hi, hmatch⟩, hfound⟩
        · refine .inr ⟨hnone.imp_right fun hall i hi hmatch => ?_, hkept⟩
          rcases List.mem_cons.mp hi with rfl | hi
          · exact fun hbranch => hno ⟨hmatch, hbranch⟩
          · exact hall i hi hmatch

end PsplinkUsb.Pspsh.BranchTargets
