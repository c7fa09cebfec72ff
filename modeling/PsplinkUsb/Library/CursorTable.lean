import Mathlib.Data.List.TakeDrop
import Mathlib.Logic.Function.Basic

/-!
A table of cursors over finite sequences: what it means to open one under a key, to take
its next entry and to close it.
-/

namespace PsplinkUsb.Library.CursorTable

universe u v

variable {K : Type u} {E : Type v}

/-- For every open key the entries that are left. -/
abbrev Table (K : Type u) (E : Type v) := K → Option (List E)

inductive Op (K : Type u) (E : Type v) where
  | skip
  | opens (k : K) (entries : List E)
  | next (k : K)
  | closes (k : K)

inductive Answer (E : Type v) where
  | entry (e : E) (left : ℕ)
  | atEnd
  | refused

/-- The answer to the request for the next entry of a key. -/
def answer (t : Table K E) (k : K) : Answer E :=
  match t k with
  | none => .refused
  | some [] => .atEnd
  | some (e :: entries) => .entry e (entries.length + 1)

/-- What a sequence answers to the request number `n`, counted from zero. -/
def nth (entries : List E) (n : ℕ) : Answer E :=
  match entries[n]? with
  | some e => .entry e (entries.length - n)
  | none => .atEnd

section

variable [DecidableEq K]

def Op.asks (k : K) : Op K E → Bool
  | .next k' => k' = k
  | _ => false

def Op.ends (k : K) : Op K E → Bool
  | .closes k' => k' = k
  | _ => false

/-- A key that is open is not opened again. -/
def apply (t : Table K E) : Op K E → Table K E
  | .skip => t
  | .opens k entries => if (t k).isSome then t else Function.update t k (some entries)
  | .next k => Function.update t k ((t k).map List.tail)
  | .closes k => Function.update t k none

def run (t : Table K E) (ops : List (Op K E)) : Table K E := ops.foldl apply t

end

theorem nth_of_lt {entries : List E} {n : ℕ} (h : n < entries.length) :
    nth entries n = .entry entries[n] (entries.length - n) := by
  rw [nth, List.getElem?_eq_getElem h]

theorem nth_of_le {entries : List E} {n : ℕ} (h : entries.length ≤ n) :
    nth entries n = .atEnd := by
  rw [nth, List.getElem?_eq_none h]

theorem answer_drop {t : Table K E} {k : K} {entries : List E} {n : ℕ}
    (h : t k = some (entries.drop n)) : answer t k = nth entries n := by
  rw [answer, h]
  rcases Nat.lt_or_ge n entries.length with hlt | hge
  · have hleft : entries.length - (n + 1) + 1 = entries.length - n := by omega
    rw [List.drop_eq_getElem_cons hlt, nth_of_lt hlt]
    simp only [List.length_drop, hleft]
  · rw [List.drop_of_length_le hge, nth_of_le hge]

variable [DecidableEq K] {t : Table K E} {k : K}

theorem apply_of_open {entries : List E} (h : t k = some entries) {op : Op K E}
    (hends : op.ends k = false) :
    apply t op k = some (entries.drop (if op.asks k then 1 else 0)) := by
  cases op with
  | skip => exact h
  | opens k' entries' =>
      rw [apply]
      split
      · exact h
      · rename_i hclosed
        have hne : k ≠ k' := by
          rintro rfl
          simp [h] at hclosed
        rw [Function.update_of_ne hne]
        exact h
  | next k' =>
      by_cases hk : k' = k
      · subst hk
        simp [apply, Op.asks, h]
      · rw [apply, Function.update_of_ne (Ne.symm hk)]
        simpa [Op.asks, hk] using h
  | closes k' =>
      have hne : k ≠ k' := by
        rintro rfl
        simp [Op.ends] at hends
      rw [apply, Function.update_of_ne hne]
      exact h

theorem run_eq_drop {entries : List E} (h : t k = some entries) {ops : List (Op K E)}
    (hkeeps : ∀ op ∈ ops, op.ends k = false) :
    run t ops k = some (entries.drop (ops.countP (Op.asks k))) := by
  induction ops generalizing t entries with
  | nil => simpa [run] using h
  | cons op ops ih =>
      have hrest : ∀ op ∈ ops, op.ends k = false :=
        fun op hop => hkeeps op (List.mem_cons_of_mem _ hop)
      have hone := apply_of_open h (hkeeps op List.mem_cons_self)
      have hcons : run t (op :: ops) = run (apply t op) ops := rfl
      rw [hcons, ih hone hrest, List.drop_drop, List.countP_cons, Nat.add_comm]

/-- The answers of a cursor are its entries in order, and then the end. -/
theorem answer_run {entries : List E} (h : t k = some entries) {ops : List (Op K E)}
    (hkeeps : ∀ op ∈ ops, op.ends k = false) :
    answer (run t ops) k = nth entries (ops.countP (Op.asks k)) :=
  answer_drop (run_eq_drop h hkeeps)

end PsplinkUsb.Library.CursorTable
