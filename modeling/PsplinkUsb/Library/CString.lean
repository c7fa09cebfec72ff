import Mathlib.Data.List.Forall2
import Mathlib.Data.List.TakeWhile
import Mathlib.Logic.Function.Basic

namespace PsplinkUsb.Library.CString

abbrev Buffer := ℕ → UInt8

def Holds (buf : Buffer) (offset : ℕ) (data : List UInt8) : Prop :=
  ∀ i, ∀ h : i < data.length, buf (offset + i) = data[i]

def HoldsString (buf : Buffer) (offset : ℕ) (s : List UInt8) : Prop :=
  0 ∉ s ∧ Holds buf offset (s ++ [0])

abbrev CStr := { s : List UInt8 // 0 ∉ s }

/-- The string that bytes with a zero byte behind them make. -/
def cstr (data : List UInt8) : List UInt8 := data.takeWhile fun c => c ≠ 0

/-- Strings one behind the other, each with its zero byte. -/
def strings : List (List UInt8) → List UInt8
  | [] => []
  | s :: ss => s ++ 0 :: strings ss

/-- Where each of the strings starts. -/
def starts (offset : ℕ) : List (List UInt8) → List ℕ
  | [] => []
  | s :: ss => offset :: starts (offset + s.length + 1) ss

/-- `strlen`, looking at no more than `room` bytes. -/
def strlen (buf : Buffer) (offset : ℕ) : ℕ → ℕ
  | 0 => 0
  | room + 1 => if buf offset = 0 then 0 else strlen buf (offset + 1) room + 1

/-- Copy `n` bytes from `i` on to `gap` bytes before, one after the other. -/
def moveDown (gap : ℕ) : ℕ → ℕ → Buffer → Buffer
  | _, 0, buf => buf
  | i, n + 1, buf => moveDown gap (i + 1) n (Function.update buf (i - gap) (buf i))

variable {buf : Buffer} {offset : ℕ} {data more s s' : List UInt8}

theorem holds_nil : Holds buf offset [] := fun _ h => by simp at h

theorem holds_cons {b : UInt8} :
    Holds buf offset (b :: data) ↔ buf offset = b ∧ Holds buf (offset + 1) data := by
  constructor
  · intro h
    refine ⟨h 0 (Nat.zero_lt_succ _), fun i hi => ?_⟩
    have hnext := h (i + 1) (Nat.succ_lt_succ hi)
    rw [List.getElem_cons_succ] at hnext
    rw [← hnext, Nat.add_assoc, Nat.add_comm 1]
  · rintro ⟨hhead, htail⟩ i hi
    cases i with
    | zero => exact hhead
    | succ i =>
        have hnext := htail i (Nat.lt_of_succ_lt_succ hi)
        rw [List.getElem_cons_succ, ← hnext, Nat.add_assoc, Nat.add_comm 1]

theorem holds_append :
    Holds buf offset (data ++ more) ↔
      Holds buf offset data ∧ Holds buf (offset + data.length) more := by
  induction data generalizing offset with
  | nil => simp [holds_nil]
  | cons b data ih =>
      have hlength : offset + (b :: data).length = offset + 1 + data.length := by
        rw [List.length_cons]
        omega
      rw [List.cons_append, holds_cons, holds_cons, ih, hlength, and_assoc]

theorem Holds.store (h : Holds buf offset data) (b : UInt8) :
    Holds (Function.update buf (offset + data.length) b) offset (data ++ [b]) := by
  rw [holds_append, holds_cons]
  refine ⟨fun i hi => ?_, Function.update_self .., holds_nil⟩
  rw [Function.update_of_ne (by omega)]
  exact h i hi

theorem not_mem_cstr : 0 ∉ cstr data := by
  intro hmem
  simpa using List.mem_takeWhile_imp hmem

theorem cstr_of_not_mem (h : 0 ∉ data) : cstr data = data := by
  rw [cstr, List.takeWhile_eq_self_iff]
  intro b hb
  rw [decide_eq_true_eq]
  rintro rfl
  exact h hb

theorem cstr_append (h : 0 ∉ data) (more : List UInt8) :
    cstr (data ++ more) = data ++ cstr more := by
  rw [cstr, List.takeWhile_append_of_pos]
  · rfl
  · intro b hb
    rw [decide_eq_true_eq]
    rintro rfl
    exact h hb

theorem cstr_append_zero (h : 0 ∉ data) (more : List UInt8) :
    cstr (data ++ 0 :: more) = data := by
  rw [cstr_append h]
  exact List.append_nil data

theorem cstr_cons {b : UInt8} : cstr (b :: data) = if b = 0 then [] else b :: cstr data := by
  by_cases hb : b = 0
  · simp [cstr, hb]
  · simp [cstr, hb]

/-- What stands before a zero byte makes a string. -/
theorem Holds.string (h : Holds buf offset (data ++ [0])) :
    HoldsString buf offset (cstr data) := by
  refine ⟨not_mem_cstr, ?_⟩
  induction data generalizing offset with
  | nil => exact h
  | cons b data ih =>
      obtain ⟨hhead, htail⟩ := holds_cons.mp h
      rw [cstr_cons]
      split
      · rename_i hb
        exact holds_cons.mpr ⟨hhead.trans hb, holds_nil⟩
      · exact holds_cons.mpr ⟨hhead, ih htail⟩

theorem length_cstr_le : (cstr data).length ≤ data.length := (List.takeWhile_prefix _).length_le

theorem Holds.getElem_cstr (h : Holds buf offset (data ++ [0])) {i : ℕ}
    (hi : i < (cstr data).length) : buf (offset + i) = (cstr data)[i] := by
  have hall := h.string.2 i (by simp only [List.length_append, List.length_singleton]; omega)
  rw [List.getElem_append_left hi] at hall
  exact hall

theorem strings_append (ss ts : List (List UInt8)) :
    strings (ss ++ ts) = strings ss ++ strings ts := by
  induction ss with
  | nil => rfl
  | cons s ss ih => simp only [List.cons_append, strings, ih, List.append_assoc]

theorem not_mem_strings {b : UInt8} {ss : List (List UInt8)} (hb : b ≠ 0)
    (hss : ∀ s ∈ ss, b ∉ s) : b ∉ strings ss := by
  induction ss with
  | nil => exact List.not_mem_nil
  | cons s ss ih =>
      have hs : b ∉ s := hss s List.mem_cons_self
      have hrest : b ∉ strings ss := ih fun t ht => hss t (List.mem_cons_of_mem _ ht)
      simp [strings, hb, hs, hrest]

theorem mem_strings {b : UInt8} {s : List UInt8} {ss : List (List UInt8)} (hs : s ∈ ss)
    (hb : b ∈ s) : b ∈ strings ss := by
  induction ss with
  | nil => exact absurd hs List.not_mem_nil
  | cons t ss ih =>
      rw [strings, List.mem_append, List.mem_cons]
      rcases List.mem_cons.mp hs with rfl | hs
      · exact .inl hb
      · exact .inr (.inr (ih hs))

theorem starts_append (offset : ℕ) (ss ts : List (List UInt8)) :
    starts offset (ss ++ ts) = starts offset ss ++ starts (offset + (strings ss).length) ts := by
  induction ss generalizing offset with
  | nil => rfl
  | cons s ss ih =>
      have hlength : offset + (strings (s :: ss)).length =
          offset + s.length + 1 + (strings ss).length := by
        simp only [strings, List.length_append, List.length_cons]
        omega
      rw [List.cons_append, starts, starts, ih, hlength, List.cons_append]

theorem Holds.strings {ss : List (List UInt8)} (h : Holds buf offset (strings ss))
    (hss : ∀ s ∈ ss, 0 ∉ s) : List.Forall₂ (HoldsString buf) (starts offset ss) ss := by
  induction ss generalizing offset with
  | nil => exact .nil
  | cons s ss ih =>
      have hsplit : CString.strings (s :: ss) = (s ++ [0]) ++ CString.strings ss := by
        simp [CString.strings]
      rw [hsplit, holds_append, List.length_append, List.length_singleton] at h
      refine .cons ⟨hss s List.mem_cons_self, h.1⟩ (ih h.2 fun t ht => ?_)
      exact hss t (List.mem_cons_of_mem _ ht)

theorem HoldsString.cons {b : UInt8} (h : HoldsString buf offset (b :: s)) :
    buf offset = b ∧ b ≠ 0 ∧ HoldsString buf (offset + 1) s := by
  obtain ⟨hhead, htail⟩ := holds_cons.mp h.2
  refine ⟨hhead, ?_, fun hmem => h.1 (List.mem_cons_of_mem _ hmem), htail⟩
  rintro rfl
  exact h.1 List.mem_cons_self

theorem HoldsString.nil (h : HoldsString buf offset []) : buf offset = 0 :=
  (holds_cons.mp h.2).1

theorem HoldsString.strlen_eq (h : HoldsString buf offset s) {room : ℕ}
    (hroom : s.length < room) : strlen buf offset room = s.length := by
  induction s generalizing offset room with
  | nil =>
      cases room with
      | zero => rfl
      | succ room => rw [strlen, if_pos h.nil, List.length_nil]
  | cons b s ih =>
      obtain ⟨hhead, hb, htail⟩ := h.cons
      cases room with
      | zero => simp at hroom
      | succ room =>
          have hless : s.length < room := Nat.lt_of_succ_lt_succ hroom
          rw [strlen, hhead, if_neg hb, ih htail hless, List.length_cons]

theorem moveDown_apply {gap : ℕ} (hgap : 0 < gap) {i n : ℕ} (hi : gap ≤ i) (j : ℕ) :
    moveDown gap i n buf j =
      if i - gap ≤ j ∧ j < i - gap + n then buf (j + gap) else buf j := by
  induction n generalizing i buf with
  | zero => rw [moveDown, if_neg (by omega)]
  | succ n ih =>
      rw [moveDown, ih (by omega)]
      rcases Nat.lt_trichotomy j (i - gap) with hlt | rfl | hgt
      · rw [if_neg (by omega), if_neg (by omega), Function.update_of_ne (by omega)]
      · rw [if_neg (by omega), if_pos (by omega), Function.update_self,
          Nat.sub_add_cancel hi]
      · rw [Function.update_of_ne (by omega : j ≠ i - gap),
          Function.update_of_ne (by omega : j + gap ≠ i - gap)]
        by_cases hless : j < i - gap + (n + 1)
        · rw [if_pos (by omega), if_pos (by omega)]
        · rw [if_neg (by omega), if_neg (by omega)]

theorem HoldsString.moveDown {gap : ℕ} (hgap : 0 < gap) (h : HoldsString buf 0 s)
    (hlong : gap ≤ s.length) :
    HoldsString (CString.moveDown gap gap (s.length + 1 - gap) buf) 0 (s.drop gap) := by
  refine ⟨fun hmem => h.1 (List.mem_of_mem_drop hmem), fun i hi => ?_⟩
  have hlength : i < s.length + 1 - gap := by
    simp only [List.length_append, List.length_drop, List.length_singleton] at hi
    omega
  have hall := h.2 (i + gap) (by simp only [List.length_append, List.length_singleton]; omega)
  rw [Nat.zero_add, moveDown_apply hgap le_rfl, if_pos (by omega)]
  rw [Nat.zero_add] at hall
  rw [hall]
  have hdrop : s.drop gap ++ [0] = (s ++ [0]).drop gap := by
    rw [List.drop_append_of_le_length hlong]
  simp only [hdrop, List.getElem_drop, Nat.add_comm gap]

end PsplinkUsb.Library.CString
