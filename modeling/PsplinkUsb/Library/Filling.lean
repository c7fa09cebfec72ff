import Mathlib.Data.List.Basic
import Mathlib.Logic.Function.Basic

namespace PsplinkUsb.Library.Filling

variable {α ι : Type*} {mem mem' mem'' : ℕ → α} {a n : ℕ} {s t : List α}

def cells (mem : ℕ → α) (a n : ℕ) : List α := (List.range n).map fun i => mem (a + i)

@[simp] theorem length_cells : (cells mem a n).length = n := by
  rw [cells, List.length_map, List.length_range]

def store (mem : ℕ → α) (a : ℕ) : List α → ℕ → α
  | [] => mem
  | x :: s => store (Function.update mem a x) (a + 1) s

structure Filled (mem mem' : ℕ → α) (a : ℕ) (s : List α) : Prop where
  here : cells mem' a s.length = s
  elsewhere : ∀ i, i < a ∨ a + s.length ≤ i → mem' i = mem i

theorem Filled.nil (mem : ℕ → α) (a : ℕ) : Filled mem mem a [] := ⟨rfl, fun _ _ => rfl⟩

theorem Filled.singleton (mem : ℕ → α) (a : ℕ) (x : α) :
    Filled mem (Function.update mem a x) a [x] := by
  constructor
  · exact congrArg (fun y => [y]) (Function.update_self a x mem)
  · intro i hi
    rw [List.length_singleton] at hi
    have hne : i ≠ a := by omega
    exact Function.update_of_ne hne x mem

theorem cells_add (mem : ℕ → α) (a m n : ℕ) :
    cells mem a (m + n) = cells mem a m ++ cells mem (a + m) n := by
  rw [cells, List.range_add, List.map_append, List.map_map]
  congr 1
  apply List.map_congr_left
  intro i _
  exact congrArg mem (Nat.add_assoc a m i).symm

theorem cells_congr (h : ∀ i < n, mem' (a + i) = mem (a + i)) : cells mem' a n = cells mem a n :=
  List.map_congr_left fun i hi => h i (List.mem_range.mp hi)

theorem Filled.append (h : Filled mem mem' a s) (h' : Filled mem' mem'' (a + s.length) t) :
    Filled mem mem'' a (s ++ t) := by
  constructor
  · rw [List.length_append, cells_add, h'.here]
    congr 1
    rw [← h.here, length_cells]
    apply cells_congr
    intro i hi
    exact h'.elsewhere _ (.inl (by omega))
  · intro i hi
    rw [List.length_append] at hi
    rw [h'.elsewhere i (by omega), h.elsewhere i (by omega)]

theorem filled_store (mem : ℕ → α) (a : ℕ) (s : List α) : Filled mem (store mem a s) a s := by
  induction s generalizing mem a with
  | nil => exact .nil mem a
  | cons x s ih => exact (Filled.singleton mem a x).append (ih _ _)

theorem length_flatMap_of_forall {size : ℕ} {piece : ι → List α}
    (hsize : ∀ i, (piece i).length = size) (is : List ι) :
    (is.flatMap piece).length = size * is.length := by
  induction is with
  | nil => rfl
  | cons i is ih =>
      rw [List.flatMap_cons, List.length_append, hsize, ih, List.length_cons, Nat.mul_succ,
        Nat.add_comm]

theorem filled_foldl_range {size : ℕ} {put : (ℕ → α) → ℕ → ℕ → α} {piece : ℕ → List α}
    (hput : ∀ mem i, Filled mem (put mem i) (a + size * i) (piece i))
    (hsize : ∀ i, (piece i).length = size) (n : ℕ) :
    Filled mem ((List.range n).foldl put mem) a ((List.range n).flatMap piece) := by
  induction n with
  | zero => exact .nil mem a
  | succ n ih =>
      have hlength : ((List.range n).flatMap piece).length = size * n := by
        rw [length_flatMap_of_forall hsize, List.length_range]
      rw [List.range_succ, List.foldl_append, List.flatMap_append, List.flatMap_singleton]
      apply ih.append
      rw [hlength]
      exact hput _ n

end PsplinkUsb.Library.Filling
