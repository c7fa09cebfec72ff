import Mathlib.Data.List.Perm.Basic
import PsplinkUsb.Library.LinkedLists

/-!
The lists of completions in `pspsh/pspsh.C`, in a memory where every access and every `free` is
checked: `filename_gen` and `uid_gen` free what an earlier completion left.
-/

namespace PsplinkUsb.Pspsh.CompletionList

open PsplinkUsb.Library.LinkedLists

abbrev Bytes := List UInt8

abbrev Addr := ℕ

inductive Block where
  | entry (p : Addr)
  | name (p : Addr)
  deriving DecidableEq

/-- The entries and names that are allocated, and the blocks freed so far. The data of an entry
is the address of its name. -/
structure Heap where
  entries : Cells Addr
  names : AList fun _ : Addr => Bytes
  freed : List Block

inductive Fault where
  | nullDereference
  | notAllocated
  deriving DecidableEq

namespace Heap

/-- The entry that a pointer points to. -/
def entry (h : Heap) (p : Addr) : Except Fault (Node Addr) :=
  if p = 0 then .error .nullDereference
  else
    match h.entries.lookup p with
    | none => .error .notAllocated
    | some entry => .ok entry

/-- `free` of a name; that of a null pointer does nothing. -/
def freeName (h : Heap) (p : Addr) : Except Fault Heap :=
  if p = 0 then .ok h
  else if p ∈ h.names then
    .ok { h with names := h.names.erase p, freed := h.freed ++ [.name p] }
  else .error .notAllocated

def freeEntry (h : Heap) (p : Addr) : Except Fault Heap :=
  if p = 0 then .ok h
  else if p ∈ h.entries then
    .ok { h with entries := h.entries.erase p, freed := h.freed ++ [.entry p] }
  else .error .notAllocated

end Heap

/-- Name and entry are freed; the next entry is the one read before. It is what the generators
do with the first entry when they return its name. -/
def freeFirst (pEntry : Addr) (h : Heap) : Except Fault (Addr × Heap) := do
  let entry ← h.entry pEntry
  let h ← h.freeName entry.data
  let h ← h.freeEntry pEntry
  .ok (entry.next, h)

/-- One round of the loop that frees the list: `pTemp` is the next entry, and `pEntry` becomes the
one behind it. -/
def freeRound (pEntry : Addr) (h : Heap) : Except Fault (Addr × Heap) := do
  let entry ← h.entry pEntry
  let pTemp := entry.next
  let h ← h.freeName entry.data
  let h ← h.freeEntry pEntry
  let temp ← h.entry pTemp
  .ok (temp.next, h)

variable {h h' : Heap} {p q : Addr}

theorem entry_of_lookup {entry : Node Addr} (hp : p ≠ 0) (hentry : h.entries.lookup p = some entry) :
    h.entry p = .ok entry := by
  rw [Heap.entry, if_neg hp, hentry]

theorem lookup_of_entry {entry : Node Addr} (hentry : h.entry p = .ok entry) :
    p ≠ 0 ∧ h.entries.lookup p = some entry := by
  rw [Heap.entry] at hentry
  split at hentry
  · cases hentry
  · rename_i hp
    split at hentry
    · cases hentry
    · rename_i hlookup
      exact ⟨hp, hlookup.trans (congrArg some (Except.ok.inj hentry))⟩

theorem freeRound_eq (p : Addr) (h : Heap) :
    freeRound p h = freeFirst p h >>= fun r => r.2.entry r.1 >>= fun temp => .ok (temp.next, r.2) := by
  simp only [freeRound, freeFirst, bind_assoc]
  rfl

theorem entries_freeName (heq : h.freeName p = .ok h') : h'.entries = h.entries := by
  rw [Heap.freeName] at heq
  split_ifs at heq
  · rw [← Except.ok.inj heq]
  · rw [← Except.ok.inj heq]

theorem entries_freeEntry (hp : p ≠ 0) (heq : h.freeEntry p = .ok h') :
    p ∈ h.entries ∧ h'.entries = h.entries.erase p := by
  rw [Heap.freeEntry, if_neg hp] at heq
  split_ifs at heq with hmem
  rw [← Except.ok.inj heq]
  exact ⟨hmem, rfl⟩

theorem bind_eq_ok {α β : Type} {x : Except Fault α} {f : α → Except Fault β} {b : β} :
    x >>= f = .ok b ↔ ∃ a, x = .ok a ∧ f a = .ok b := by
  cases x with
  | error fault => exact iff_of_false (by rintro ⟨⟩) (by rintro ⟨a, ⟨⟩, -⟩)
  | ok a => exact ⟨fun h => ⟨a, rfl, h⟩, by rintro ⟨a, ⟨⟩, h⟩; exact h⟩

theorem length_freeFirst (heq : freeFirst p h = .ok (q, h')) :
    h'.entries.keys.length < h.entries.keys.length := by
  obtain ⟨entry, hentry, heq⟩ := bind_eq_ok.mp heq
  obtain ⟨h₁, hname, heq⟩ := bind_eq_ok.mp heq
  obtain ⟨h₂, hfree, heq⟩ := bind_eq_ok.mp heq
  cases heq
  obtain ⟨hmem, hentries⟩ := entries_freeEntry (lookup_of_entry hentry).1 hfree
  rw [entries_freeName hname] at hmem hentries
  rw [hentries, AList.keys_erase, List.length_erase_of_mem (AList.mem_keys.mp hmem)]
  exact Nat.pred_lt (Nat.ne_of_gt (List.length_pos_of_mem (AList.mem_keys.mp hmem)))

theorem length_freeRound (heq : freeRound p h = .ok (q, h')) :
    h'.entries.keys.length < h.entries.keys.length := by
  rw [freeRound_eq] at heq
  obtain ⟨⟨pTemp, h₁⟩, hfirst, heq⟩ := bind_eq_ok.mp heq
  obtain ⟨temp, -, heq⟩ := bind_eq_ok.mp heq
  cases heq
  exact length_freeFirst hfirst

/-- The loop at the start of `filename_gen` and of `uid_gen`. -/
def freeList (pEntry : Addr) (h : Heap) : Except Fault Heap :=
  if pEntry = 0 then .ok h
  else
    match _hround : freeRound pEntry h with
    | .error fault => .error fault
    | .ok (pEntry, h) => freeList pEntry h
termination_by h.entries.keys.length
decreasing_by exact length_freeRound _hround

/-- A list of completions from an address on, each as the addresses of its entry and its name:
every name is allocated, and no other entry's. -/
structure TabList (h : Heap) (pEntry : Addr) (l : List (Addr × Addr)) : Prop where
  linked : Linked h.entries pEntry l
  names : ∀ e ∈ l, e.2 ≠ 0 ∧ e.2 ∈ h.names
  distinct : (l.map Prod.snd).Nodup

/-- What is to be freed for a list. -/
def blocks (l : List (Addr × Addr)) : List Block := l.flatMap fun e => [.name e.2, .entry e.1]

/-- The loop comes to the end without a fault, and has freed each entry and each name once. -/
def Disposed (h : Heap) (pEntry : Addr) (l : List (Addr × Addr)) : Prop :=
  ∃ h', freeList pEntry h = .ok h' ∧ ∃ more, h'.freed = h.freed ++ more ∧ more.Perm (blocks l)

section

variable {name : Addr} {l : List (Addr × Addr)}

theorem freeFirst_listed (t : TabList h p ((q, name) :: l)) :
    ∃ next h', freeFirst p h = .ok (next, h') ∧ h'.freed = h.freed ++ [.name name, .entry p] ∧
      TabList h' next l := by
  obtain ⟨rfl, hp, next, hlookup, hl⟩ := t.linked.head
  obtain ⟨hname, hmem⟩ := t.names _ List.mem_cons_self
  obtain ⟨hdiffer, hdistinct⟩ := List.nodup_cons.mp t.distinct
  have hfirst := (List.nodup_cons.mp t.linked.nodup).1
  have hentry := entry_of_lookup hp hlookup
  have halloc : q ∈ h.entries := AList.lookup_isSome.mp (by rw [hlookup]; rfl)
  refine ⟨next, ⟨h.entries.erase q, h.names.erase name, h.freed ++ [.name name] ++ [.entry q]⟩,
    ?_, by rw [List.append_assoc]; rfl, ?_⟩
  · rw [freeFirst, hentry]
    simp [Heap.freeName, Heap.freeEntry, hname, hmem, hp, halloc, bind, Except.bind]
  · refine ⟨hl.erase hfirst, fun e he => ?_, hdistinct⟩
    obtain ⟨hne, hother⟩ := t.names e (List.mem_cons_of_mem _ he)
    refine ⟨hne, AList.mem_erase.mpr ⟨?_, hother⟩⟩
    rintro heq
    exact hdiffer (List.mem_map.mpr ⟨e, he, heq⟩)

/-- The first of every two. -/
def everyOther {α : Type} : List α → List α
  | [] => []
  | [a] => [a]
  | a :: _ :: l => a :: everyOther l

/-- With no entry behind it the first one has no next entry to read. -/
theorem freeRound_last (t : TabList h p [(q, name)]) : freeRound p h = .error .nullDereference := by
  obtain ⟨next, h', hfirst, -, t'⟩ := freeFirst_listed t
  obtain rfl : next = 0 := t'.linked.eq_zero_iff.mpr rfl
  rw [freeRound_eq, hfirst]
  rfl

theorem freeRound_two {e : Addr × Addr} (t : TabList h p ((q, name) :: e :: l)) :
    ∃ next h', freeRound p h = .ok (next, h') ∧ h'.freed = h.freed ++ [.name name, .entry p] ∧
      TabList h' next l := by
  obtain ⟨next, h', hfirst, hfreed, t'⟩ := freeFirst_listed t
  obtain ⟨-, hnext, next', hlookup, hl⟩ := t'.linked.head
  refine ⟨next', h', ?_, hfreed, hl, ?_, (List.nodup_cons.mp t'.distinct).2⟩
  · rw [freeRound_eq, hfirst]
    change (h'.entry next >>= _) = _
    rw [entry_of_lookup hnext hlookup]
    rfl
  · exact fun e he => t'.names e (List.mem_cons_of_mem _ he)

theorem freeList_error {fault : Fault} (hp : p ≠ 0) (hround : freeRound p h = .error fault) :
    freeList p h = .error fault := by
  rw [freeList, if_neg hp]
  split
  · rename_i heq
    cases heq.symm.trans hround
    rfl
  · rename_i heq
    cases heq.symm.trans hround

theorem freeList_ok (hp : p ≠ 0) (hround : freeRound p h = .ok (q, h')) :
    freeList p h = freeList q h' := by
  rw [freeList, if_neg hp]
  split
  · rename_i heq
    cases heq.symm.trans hround
  · rename_i heq
    cases heq.symm.trans hround
    rfl

/-- With an odd number of entries the loop ends at a null pointer; with an even one every other
entry is left. -/
theorem freeList_listed (l : List (Addr × Addr)) (t : TabList h p l) :
    l.length % 2 = 1 ∧ freeList p h = .error .nullDereference ∨
      l.length % 2 = 0 ∧
        ∃ h', freeList p h = .ok h' ∧ h'.freed = h.freed ++ blocks (everyOther l) := by
  induction l using everyOther.induct generalizing h p with
  | case1 =>
      have hnull : p = 0 := t.linked.eq_zero_iff.mpr rfl
      refine .inr ⟨rfl, h, ?_, (List.append_nil _).symm⟩
      rw [freeList, if_pos hnull]
  | case2 e =>
      obtain ⟨-, hp, -⟩ := t.linked.head
      exact .inl ⟨rfl, freeList_error hp (freeRound_last t)⟩
  | case3 e e' l ih =>
      obtain ⟨rfl, hp, -⟩ := t.linked.head
      obtain ⟨next, h₁, hround, hfreed, t'⟩ := freeRound_two t
      rw [freeList_ok hp hround]
      rcases ih t' with ⟨hodd, hfault⟩ | ⟨heven, h', hok, hall⟩
      · refine .inl ⟨?_, hfault⟩
        simp only [List.length_cons]
        omega
      · refine .inr ⟨?_, h', hok, ?_⟩
        · simp only [List.length_cons]
          omega
        · rw [hall, hfreed, List.append_assoc]
          rfl

theorem length_blocks (l : List (Addr × Addr)) : (blocks l).length = 2 * l.length := by
  induction l with
  | nil => rfl
  | cons e l ih =>
      rw [blocks, List.flatMap_cons, List.length_append]
      rw [blocks] at ih
      rw [ih, List.length_cons, List.length_cons]
      exact Nat.add_comm _ _

theorem length_everyOther {α : Type} (l : List α) (heven : l.length % 2 = 0) :
    2 * (everyOther l).length = l.length := by
  induction l using everyOther.induct with
  | case1 => rfl
  | case2 a => cases heven
  | case3 a b l ih =>
      simp only [List.length_cons] at heven
      rw [everyOther, List.length_cons, List.length_cons, List.length_cons]
      have hrest := ih (by omega)
      omega

end

/-- The loop disposes of the list exactly when it is empty. -/
theorem free_list_iff (h : Heap) (pEntry : Addr) (l : List (Addr × Addr)) (t : TabList h pEntry l) :
    Disposed h pEntry l ↔ l = [] := by
  rcases freeList_listed l t with ⟨hodd, hfault⟩ | ⟨heven, h', hok, hfreed⟩
  · constructor
    · rintro ⟨h', hok, -⟩
      cases hok.symm.trans hfault
    · rintro rfl
      cases hodd
  · have hlength := length_everyOther l heven
    constructor
    · rintro ⟨h'', hok', more, hmore, hperm⟩
      cases hok.symm.trans hok'
      have heq := hperm.length_eq
      rw [List.append_cancel_left (hmore.symm.trans hfreed), length_blocks, length_blocks] at heq
      exact List.length_eq_zero_iff.mp (by omega)
    · rintro rfl
      exact ⟨h', hok, [], hfreed, .refl []⟩

/-- One entry at address 1, with its name at address 2. -/
def oneEntry : Heap where
  entries := AList.singleton 1 ⟨0, 2⟩
  names := AList.singleton 2 [0x61]
  freed := []

theorem oneEntry_listed : TabList oneEntry 1 [(1, 2)] where
  linked := .cons (by decide) (show oneEntry.entries.lookup 1 = some ⟨0, 2⟩ from rfl) .nil
  names := by decide
  distinct := by decide

/-- Three entries at 1, 3 and 5, each with its name behind it. -/
def threeEntries : Heap where
  entries := .insert 1 ⟨3, 2⟩ (.insert 3 ⟨5, 4⟩ (.singleton 5 ⟨0, 6⟩))
  names := .insert 2 [0x61] (.insert 4 [0x62] (.singleton 6 [0x63]))
  freed := []

def threeListed : List (Addr × Addr) := [(1, 2), (3, 4), (5, 6)]

theorem threeEntries_listed : TabList threeEntries 1 threeListed where
  linked := .cons (by decide) (show threeEntries.entries.lookup 1 = some ⟨3, 2⟩ from rfl)
    (.cons (by decide) (show threeEntries.entries.lookup 3 = some ⟨5, 4⟩ from rfl)
      (.cons (by decide) (show threeEntries.entries.lookup 5 = some ⟨0, 6⟩ from rfl) .nil))
  names := by decide
  distinct := by decide

theorem free_list_iff_three : ¬Disposed threeEntries 1 threeListed := fun hdisposed =>
  absurd ((free_list_iff threeEntries 1 threeListed threeEntries_listed).mp hdisposed) (by decide)

/-- With one entry left the loop reads through a null pointer. -/
theorem one_entry_faults :
    TabList oneEntry 1 [(1, 2)] ∧ freeList 1 oneEntry = .error .nullDereference :=
  ⟨oneEntry_listed, freeList_error (by decide) (freeRound_last oneEntry_listed)⟩

end PsplinkUsb.Pspsh.CompletionList
