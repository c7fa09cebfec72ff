import Mathlib.Data.Set.Basic
import Mathlib.Logic.Function.Basic
import Mathlib.Data.List.Nodup

namespace PsplinkUsb.Library.Chains

variable {P : Type*}

/-- Following `next` from a place goes through the list and comes to another place. -/
inductive Chain (next : P → P) : P → List P → P → Prop
  | nil (p : P) : Chain next p [] p
  | cons {p q : P} {l : List P} (h : Chain next (next p) l q) : Chain next p (p :: l) q

variable {next next' : P → P} {p q r x y : P} {l m : List P}

theorem Chain.nil_iff : Chain next p [] q ↔ p = q :=
  ⟨fun h => by cases h; rfl, fun h => h ▸ .nil p⟩

theorem Chain.cons_iff : Chain next p (x :: l) q ↔ x = p ∧ Chain next (next p) l q :=
  ⟨fun h => by cases h with | cons h => exact ⟨rfl, h⟩, fun ⟨hx, h⟩ => by subst hx; exact .cons h⟩

theorem Chain.append (h : Chain next p l q) (h' : Chain next q m r) :
    Chain next p (l ++ m) r := by
  induction h with
  | nil => exact h'
  | cons _ ih => exact .cons (ih h')

theorem Chain.split (h : Chain next p (l ++ m) r) : ∃ q, Chain next p l q ∧ Chain next q m r := by
  induction l generalizing p with
  | nil => exact ⟨p, .nil p, h⟩
  | cons x l ih =>
      obtain ⟨rfl, h⟩ := cons_iff.mp h
      obtain ⟨q, hl, hm⟩ := ih h
      exact ⟨q, .cons hl, hm⟩

theorem Chain.next_mem (h : Chain next p l q) (hx : x ∈ l) : next x = q ∨ next x ∈ l := by
  obtain ⟨a, b, rfl⟩ := List.append_of_mem hx
  obtain ⟨r, -, hb⟩ := h.split
  obtain ⟨rfl, hb⟩ := cons_iff.mp hb
  cases hb with
  | nil => exact .inl rfl
  | cons => exact .inr (by simp)

theorem Chain.congr (h : Chain next p l q) (hsame : ∀ x ∈ l, next' x = next x) :
    Chain next' p l q := by
  induction h with
  | nil => exact .nil _
  | @cons p q l _ ih =>
      refine .cons ?_
      rw [hsame p (List.mem_cons_self ..)]
      exact ih fun x hx => hsame x (List.mem_cons_of_mem p hx)

theorem Chain.update [DecidableEq P] (h : Chain next p l q) (hx : x ∉ l) :
    Chain (Function.update next x y) p l q := by
  refine h.congr fun z hz => Function.update_of_ne ?_ ..
  rintro rfl
  exact hx hz

theorem Chain.unique (h : Chain next p l q) (h' : Chain next p m q) (hl : q ∉ l) (hm : q ∉ m) :
    l = m := by
  induction h generalizing m with
  | nil p =>
      cases h' with
      | nil => rfl
      | cons => exact absurd (List.mem_cons_self ..) hm
  | @cons p q l _ ih =>
      cases h' with
      | nil => exact absurd (List.mem_cons_self ..) hl
      | cons h' =>
          rw [ih h' (fun h => hl (List.mem_cons_of_mem p h)) fun h => hm (List.mem_cons_of_mem p h)]

/-- A chain that passes its end only once passes every place only once: from the second time on
it would go on as from the first. -/
theorem Chain.nodup (h : Chain next p l q) (hq : q ∉ l) : l.Nodup := by
  induction h with
  | nil => exact List.nodup_nil
  | @cons p q l h ih =>
      have htail : q ∉ l := fun h => hq (List.mem_cons_of_mem p h)
      refine List.nodup_cons.mpr ⟨fun hmem => ?_, ih htail⟩
      obtain ⟨a, b, rfl⟩ := List.append_of_mem hmem
      obtain ⟨z, ha, hb⟩ := h.split
      obtain ⟨rfl, hb⟩ := cons_iff.mp hb
      have hafter : q ∉ b := fun h => htail (by simp [h])
      have heq := hb.unique h hafter htail
      have hlength := congrArg List.length heq
      simp at hlength
      omega

/-- Follow `next` up to a place where `stop` holds, for so many places at most. -/
def walk (next : P → P) (stop : P → Bool) : ℕ → P → Option P
  | 0, _ => none
  | n + 1, p => if stop p then some p else walk next stop n (next p)

variable {stop : P → Bool} {n k : ℕ}

theorem Chain.walk (h : Chain next p l q) (hl : ∀ x ∈ l, stop x = false) (hq : stop q = true) :
    walk next stop (l.length + 1) p = some q := by
  induction h with
  | nil => rw [Chains.walk, if_pos hq]
  | @cons p q l _ ih =>
      have hp := hl p (List.mem_cons_self ..)
      rw [Chains.walk, if_neg (by simp [hp])]
      exact ih (fun x hx => hl x (List.mem_cons_of_mem p hx)) hq

theorem walk_add (h : walk next stop n p = some q) (k : ℕ) : walk next stop (n + k) p = some q := by
  induction n generalizing p with
  | zero => simp [walk] at h
  | succ n ih =>
      rw [Nat.add_right_comm, walk]
      rw [walk] at h
      split
      · rename_i hstop
        rwa [if_pos hstop] at h
      · rename_i hstop
        rw [if_neg hstop] at h
        exact ih h

theorem walk_unique (h : walk next stop n p = some q) (h' : walk next stop k p = some r) :
    q = r := by
  have hn := walk_add h k
  rw [Nat.add_comm, walk_add h' n] at hn
  exact (Option.some.inj hn).symm

end PsplinkUsb.Library.Chains
