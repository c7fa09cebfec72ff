import Mathlib.Data.List.AList
import Mathlib.Data.List.Infix

/-!
Trees of files, as tables from paths to nodes. A path lists the names from the file up to
the root, so that the suffixes of a path are the directories above it.
-/

namespace PsplinkUsb.Library.FileTree

inductive Node (C : Type) where
  | file (content : C)
  | dir
deriving DecidableEq, Repr

section Suffixes

variable {N : Type} {q s d : List N} {m n : N}

theorem not_cons_suffix_self : ¬n :: s <:+ s := by
  intro h
  have hle := h.length_le
  rw [List.length_cons] at hle
  omega

theorem not_suffix_cons (hs : ¬s <:+ d) : ¬n :: s <:+ m :: d := by
  intro h
  rcases List.suffix_cons_iff.mp h with heq | hsuffix
  · exact hs (by rw [(List.cons.inj heq).2])
  · exact hs ((List.suffix_cons n s).trans hsuffix)

theorem eq_of_suffix_cons (h : n :: s <:+ q) (h' : m :: s <:+ q) : n = m := by
  rcases List.suffix_or_suffix_of_suffix h h' with hs | hs
  · exact (List.cons.inj (hs.eq_of_length (by simp))).1
  · exact (List.cons.inj (hs.eq_of_length (by simp))).1.symm

theorem not_suffix_of_ne (hne : n ≠ m) (r : List N) : ¬n :: s <:+ r ++ m :: s :=
  fun h => hne (eq_of_suffix_cons h (List.suffix_append r _))

end Suffixes

/-- The files and directories there are. -/
abbrev Nodes (N C : Type) [DecidableEq N] : Type := AList fun _ : List N => Node C

variable {N C : Type} [DecidableEq N] {nodes : Nodes N C} {p q s d : List N} {m n : N}

def childName (p : List N) : List N → Option N
  | [] => none
  | n :: q => if q = p then some n else none

/-- The names in a directory. -/
def names (nodes : Nodes N C) (p : List N) : List N := nodes.keys.filterMap (childName p)

/-- There is the root, and everything else is in a directory. -/
structure Closed (nodes : Nodes N C) : Prop where
  root : nodes.lookup [] = some .dir
  parent : ∀ n p, n :: p ∈ nodes → nodes.lookup p = some .dir

theorem childName_eq_some : childName p q = some n ↔ q = n :: p := by
  cases q with
  | nil => simp [childName]
  | cons m q =>
      rw [childName]
      split
      · rename_i h
        simp [h]
      · rename_i h
        simp [h]

theorem childName_eq_none (h : ∀ n, q ≠ n :: p) : childName p q = none :=
  Option.eq_none_iff_forall_ne_some.mpr fun n hn => h n (childName_eq_some.mp hn)

theorem mem_names : n ∈ names nodes p ↔ n :: p ∈ nodes := by
  rw [names, List.mem_filterMap, AList.mem_keys]
  constructor
  · rintro ⟨q, hq, hn⟩
    rwa [childName_eq_some.mp hn] at hq
  · intro h
    exact ⟨n :: p, h, childName_eq_some.mpr rfl⟩

theorem nodup_names (nodes : Nodes N C) (p : List N) : (names nodes p).Nodup := by
  refine List.Nodup.filterMap ?_ nodes.keys_nodup
  intro q q' n hq hq'
  rw [childName_eq_some.mp hq, childName_eq_some.mp hq']

theorem filterMap_erase_none {A B : Type} [DecidableEq A] {f : A → Option B} {a : A}
    (h : f a = none) (l : List A) : (l.erase a).filterMap f = l.filterMap f := by
  induction l with
  | nil => rfl
  | cons b l ih =>
      rcases eq_or_ne b a with rfl | hne
      · rw [List.erase_cons_head, List.filterMap_cons, h]
      · rw [List.erase_cons_tail (by simpa using hne), List.filterMap_cons, List.filterMap_cons, ih]

theorem names_erase (h : ∀ n, q ≠ n :: p) : names (nodes.erase q) p = names nodes p := by
  rw [names, AList.keys_erase, filterMap_erase_none (childName_eq_none h), names]

theorem names_insert (h : ∀ n, q ≠ n :: p) (node : Node C) :
    names (nodes.insert q node) p = names nodes p := by
  have hnone := childName_eq_none h
  rw [names, AList.keys_insert, List.filterMap_cons, hnone, filterMap_erase_none hnone, names]

theorem mem_of_lookup {node : Node C} (h : nodes.lookup q = some node) : q ∈ nodes :=
  AList.lookup_isSome.mp (by rw [h]; rfl)

/-- Nothing differs but at some paths. -/
structure AgreeOff (at' : List N → Prop) (nodes nodes' : Nodes N C) : Prop where
  lookup : ∀ q, ¬at' q → nodes'.lookup q = nodes.lookup q
  names : ∀ p, (∀ n, ¬at' (n :: p)) → names nodes' p = names nodes p

section AgreeOff

variable {P Q : List N → Prop} {nodes₁ nodes₂ nodes₃ : Nodes N C}

theorem AgreeOff.refl (nodes : Nodes N C) : AgreeOff P nodes nodes where
  lookup _ _ := rfl
  names _ _ := rfl

theorem AgreeOff.trans (h : AgreeOff P nodes₁ nodes₂) (h' : AgreeOff P nodes₂ nodes₃) :
    AgreeOff P nodes₁ nodes₃ where
  lookup q hq := (h'.lookup q hq).trans (h.lookup q hq)
  names p hp := (h'.names p hp).trans (h.names p hp)

theorem AgreeOff.mono (h : AgreeOff P nodes₁ nodes₂) (hsub : ∀ q, P q → Q q) :
    AgreeOff Q nodes₁ nodes₂ where
  lookup q hq := h.lookup q fun hp => hq (hsub q hp)
  names p hp := h.names p fun n hn => hp n (hsub _ hn)

theorem agreeOff_insert (hq : P q) (node : Node C) : AgreeOff P nodes (nodes.insert q node) where
  lookup _ hq' := AList.lookup_insert_ne fun heq => hq' (heq ▸ hq)
  names _ hp := names_insert (fun n heq => hp n (heq ▸ hq)) node

theorem agreeOff_erase (hq : P q) : AgreeOff P nodes (nodes.erase q) where
  lookup _ hq' := AList.lookup_erase_ne fun heq => hq' (heq ▸ hq)
  names _ hp := names_erase fun n heq => hp n (heq ▸ hq)

end AgreeOff

theorem Closed.not_mem_below (hclosed : Closed nodes) (hdir : nodes.lookup p ≠ some .dir)
    (hq : p <:+ q) (hne : q ≠ p) : q ∉ nodes := by
  obtain ⟨r, rfl⟩ := hq
  induction r with
  | nil => exact absurd rfl hne
  | cons n r ih =>
      intro hmem
      have hup := hclosed.parent n (r ++ p) hmem
      cases r with
      | nil => exact hdir hup
      | cons m r =>
          refine ih ?_ (mem_of_lookup hup)
          intro heq
          have hlength := congrArg List.length heq
          simp only [List.cons_append, List.length_cons, List.length_append] at hlength
          omega

end PsplinkUsb.Library.FileTree
