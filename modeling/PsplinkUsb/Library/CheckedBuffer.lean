import Mathlib.Data.List.Basic

/-!
A buffer of some bytes, whose reads and writes fail outside of it, and the text in it up to a
zero byte. Loops over the text have rounds to spend, and fail without any.
-/

namespace PsplinkUsb.Library.CheckedBuffer

inductive Fault where
  | outside | unfinished
  deriving DecidableEq, Repr

abbrev Checked := Except Fault

variable {α β : Type} {s : List UInt8} {c : UInt8} {rounds : ℕ}

theorem ok_bind (a : α) (f : α → Checked β) : (Except.ok a : Checked α) >>= f = f a := rfl

def read (buf : List UInt8) (i : ℕ) : Checked UInt8 :=
  match buf[i]? with
  | some c => .ok c
  | none => .error .outside

def write (buf : List UInt8) (i : ℕ) (c : UInt8) : Checked (List UInt8) :=
  if i < buf.length then .ok (buf.set i c) else .error .outside

@[simp] theorem read_append (front : List UInt8) (c : UInt8) (rest : List UInt8) :
    read (front ++ c :: rest) front.length = .ok c := by
  rw [read, List.getElem?_append_right (Nat.le_refl _), Nat.sub_self]
  rfl

@[simp] theorem write_append (front : List UInt8) (c : UInt8) (rest : List UInt8) (x : UInt8) :
    write (front ++ c :: rest) front.length x = .ok (front ++ x :: rest) := by
  have hinside : front.length < (front ++ c :: rest).length := by simp
  rw [write, if_pos hinside, List.set_append_right _ _ (Nat.le_refl _), Nat.sub_self,
    List.set_cons_zero]

/-- With `bound` rounds or more, a loop ends, and inside of the buffer. -/
def Ends (loop : ℕ → Checked α) (bound : ℕ) (a : α) : Prop := ∀ rounds ≥ bound, loop rounds = .ok a

/-- The bytes from a place on, up to the zero byte. -/
def stringAt (buf : List UInt8) : ℕ → ℕ → Checked (List UInt8)
  | 0, _ => .error .unfinished
  | rounds + 1, i => do
      let c ← read buf i
      if c = 0 then .ok []
      else
        let s ← stringAt buf rounds (i + 1)
        .ok (c :: s)

/-- The place of the first `c` from a place on, before the zero byte. -/
def strchr (c : UInt8) (buf : List UInt8) : ℕ → ℕ → Checked (Option ℕ)
  | 0, _ => .error .unfinished
  | rounds + 1, i => do
      let x ← read buf i
      if x = c then .ok (some i) else if x = 0 then .ok none else strchr c buf rounds (i + 1)

theorem length_concat (front : List UInt8) (c : UInt8) : (front ++ [c]).length = front.length + 1 := by
  rw [List.length_append, List.length_singleton]

theorem stringAt_append (front back : List UInt8) (hnul : 0 ∉ s) (hrounds : s.length < rounds) :
    stringAt (front ++ (s ++ 0 :: back)) rounds front.length = .ok s := by
  induction rounds generalizing front s with
  | zero => exact absurd hrounds (Nat.not_lt_zero _)
  | succ rounds ih =>
      cases s with
      | nil =>
          rw [stringAt, List.nil_append, read_append, ok_bind, if_pos rfl]
      | cons c s =>
          have htail := ih (front ++ [c]) (List.not_mem_of_not_mem_cons hnul)
            (Nat.lt_of_succ_lt_succ hrounds)
          rw [length_concat, List.append_assoc, List.singleton_append] at htail
          rw [stringAt, List.cons_append, read_append, ok_bind,
            if_neg (List.ne_of_not_mem_cons hnul).symm, htail, ok_bind]

theorem strchr_none (front back : List UInt8) (hnul : 0 ∉ s) (hc : c ≠ 0) (hmem : c ∉ s)
    (hrounds : s.length < rounds) :
    strchr c (front ++ (s ++ 0 :: back)) rounds front.length = .ok none := by
  induction rounds generalizing front s with
  | zero => exact absurd hrounds (Nat.not_lt_zero _)
  | succ rounds ih =>
      cases s with
      | nil =>
          rw [strchr, List.nil_append, read_append, ok_bind, if_neg hc.symm, if_pos rfl]
      | cons x s =>
          have htail := ih (front ++ [x]) (List.not_mem_of_not_mem_cons hnul)
            (List.not_mem_of_not_mem_cons hmem) (Nat.lt_of_succ_lt_succ hrounds)
          rw [length_concat, List.append_assoc, List.singleton_append] at htail
          rw [strchr, List.cons_append, read_append, ok_bind,
            if_neg (List.ne_of_not_mem_cons hmem).symm, if_neg (List.ne_of_not_mem_cons hnul).symm,
            htail]

theorem strchr_append (front back : List UInt8) (hnul : 0 ∉ s) (hmem : c ∉ s)
    (hrounds : s.length < rounds) :
    strchr c (front ++ (s ++ c :: back)) rounds front.length =
      .ok (some (front.length + s.length)) := by
  induction rounds generalizing front s with
  | zero => exact absurd hrounds (Nat.not_lt_zero _)
  | succ rounds ih =>
      cases s with
      | nil =>
          rw [strchr, List.nil_append, read_append, ok_bind, if_pos rfl]
          rfl
      | cons x s =>
          have htail := ih (front ++ [x]) (List.not_mem_of_not_mem_cons hnul)
            (List.not_mem_of_not_mem_cons hmem) (Nat.lt_of_succ_lt_succ hrounds)
          rw [length_concat, List.append_assoc, List.singleton_append] at htail
          rw [strchr, List.cons_append, read_append, ok_bind,
            if_neg (List.ne_of_not_mem_cons hmem).symm, if_neg (List.ne_of_not_mem_cons hnul).symm,
            htail, List.length_cons, Nat.add_right_comm, Nat.add_assoc]

end PsplinkUsb.Library.CheckedBuffer
