import PsplinkUsb.Library.Chains

/-!
The UID list of the kernel as `psplink/memoryUID.c` walks it: a ring of types, each with a ring
of objects. What `uidinfo` finds is the first object that `uidlist` shows with that UID.
-/

namespace PsplinkUsb.Psplink.UidObjects

open PsplinkUsb.Library.Chains

abbrev Word := BitVec 32
abbrev Bytes := List UInt8

/-- A pointer to a `uidControlBlock`; `NULL` is 0. -/
abbrev Pointer := ℕ

structure Block where
  nextChild : Pointer
  type : Pointer
  uid : Word
  name : Bytes
  nextEntry : Pointer

variable (blocks : Pointer → Block)

/-- What `findUIDObject` looks for. -/
structure Sought where
  uid : Word
  name : Option Bytes
  parent : Option Bytes

/-- The tests on an object. One of another type than the one asked for is passed over. -/
def matchesObject (sought : Sought) (entry : Pointer) : Bool :=
  (match sought.name with
    | some name => (blocks entry).name = name
    | none => (blocks entry).uid = sought.uid) &&
  match sought.parent with
    | some parent => (blocks entry).type = 0 || parent = (blocks (blocks entry).type).name
    | none => true

def matchesType (sought : Sought) (entry : Pointer) : Bool := (blocks entry).uid = sought.uid

/-- How the inner loop ends: at an object, or behind the last one. -/
inductive Outcome where
  | found (entry : Pointer)
  | passed (entry : Pointer)

/-- The inner loop of `findUIDObject`, over the objects of a type. -/
def childLoop (sought : Sought) : ℕ → Pointer → Option Outcome
  | 0, _ => none
  | n + 1, entry =>
      let entry := (blocks entry).nextChild
      if matchesObject blocks sought entry then some (.found entry)
      else if (blocks entry).nextChild ≠ (blocks entry).type then childLoop sought n entry
      else some (.passed (blocks entry).nextChild)

def children (sought : Sought) (fuel : ℕ) (entry : Pointer) : Option Outcome :=
  if (blocks entry).nextChild ≠ entry then childLoop blocks sought fuel entry
  else some (.passed entry)

/-- The outer loop, over the types. -/
def entryLoop (sought : Sought) (last : Pointer) : ℕ → Pointer → Option (Option Pointer)
  | 0, _ => none
  | n + 1, entry =>
      if matchesType blocks sought entry then some (some entry)
      else
        match children blocks sought n entry with
        | none => none
        | some (.found entry) => some (some entry)
        | some (.passed entry) =>
            let entry := (blocks entry).nextEntry
            if (blocks entry).nextEntry ≠ last then entryLoop sought last n entry
            else some none

/-- `findUIDObject` on the list of which `root` is the parent entry. -/
def findUIDObject (root : Pointer) (sought : Sought) (fuel : ℕ) : Option (Option Pointer) :=
  entryLoop blocks sought root fuel (blocks root).nextEntry

/-- A line of `printUIDList`: the head of a type, an object, or that there is none. -/
inductive Line where
  | type (entry : Pointer)
  | object (entry : Pointer)
  | noObjects
deriving DecidableEq

/-- The inner loop of `printUIDList`, with where it ends. -/
def printChildren (shown : Bool) : ℕ → Pointer → Option (List Line × Pointer)
  | 0, _ => none
  | n + 1, entry =>
      let entry := (blocks entry).nextChild
      let line : List Line := if shown then [.object entry] else []
      if (blocks entry).nextChild ≠ (blocks entry).type then
        (printChildren shown n entry).map fun rest => (line ++ rest.1, rest.2)
      else some (line, (blocks entry).nextChild)

def printEntry (name : Option Bytes) (fuel : ℕ) (entry : Pointer) :
    Option (List Line × Pointer) :=
  let shown := name.all fun name => (blocks entry).name = name
  let head : List Line := if shown then [.type entry] else []
  if (blocks entry).nextChild = entry then
    some (head ++ (if shown then [.noObjects] else []), entry)
  else (printChildren blocks shown fuel entry).map fun rest => (head ++ rest.1, rest.2)

def printLoop (name : Option Bytes) (last : Pointer) : ℕ → Pointer → Option (List Line)
  | 0, _ => none
  | n + 1, entry =>
      (printEntry blocks name n entry).bind fun printed =>
        let entry := (blocks printed.2).nextEntry
        if (blocks entry).nextEntry ≠ last then
          (printLoop name last n entry).map fun rest => printed.1 ++ rest
        else some printed.1

def printUIDList (root : Pointer) (name : Option Bytes) (fuel : ℕ) : Option (List Line) :=
  printLoop blocks name root fuel (blocks root).nextEntry

/-- What a line shows a UID of. -/
def Line.entry : Line → Option Pointer
  | .type entry | .object entry => some entry
  | .noObjects => none

/-- The objects of a type are in a ring with it, and name it as their type. -/
structure Ring (t : Pointer) (objects : List Pointer) : Prop where
  chain : Chain (fun p => (blocks p).nextChild) (blocks t).nextChild objects t
  apart : t ∉ objects
  type : ∀ c ∈ objects, (blocks c).type = t

/-- The list of the kernel: the types from the parent entry on, and the last one of them, which
both loops leave out. -/
structure Listed (root : Pointer) (types : List (Pointer × List Pointer)) (last : Pointer) :
    Prop where
  chain : Chain (fun p => (blocks p).nextEntry) (blocks root).nextEntry
    (types.map Prod.fst ++ [last]) root
  apart : root ∉ types.map Prod.fst ++ [last]
  nonempty : types ≠ []
  rings : ∀ t ∈ types, Ring blocks t.1 t.2

variable {blocks} {sought : Sought} {t root last p : Pointer} {objects l : List Pointer}
  {types : List (Pointer × List Pointer)} {n k : ℕ}

theorem childLoop_chain (h : Chain (fun p => (blocks p).nextChild) (blocks p).nextChild l t)
    (hne : l ≠ []) (hapart : t ∉ l) (htype : ∀ c ∈ l, (blocks c).type = t) (k : ℕ) :
    childLoop blocks sought (l.length + k) p =
      some (match l.find? (matchesObject blocks sought) with
        | some c => .found c
        | none => .passed t) := by
  induction l generalizing p with
  | nil => exact absurd rfl hne
  | cons c l ih =>
      obtain ⟨hc, hrest⟩ := Chain.cons_iff.mp h
      rw [List.length_cons, Nat.add_right_comm, childLoop, ← hc, List.find?_cons]
      rw [← hc] at hrest
      rw [htype c (List.mem_cons_self ..)]
      rcases hmatch : matchesObject blocks sought c with _ | _
      · rw [if_neg (by simp)]
        rcases l with _ | ⟨d, l⟩
        · rw [Chain.nil_iff.mp hrest]
          simp
        · have hd : (blocks c).nextChild ≠ t := by
            rw [← (Chain.cons_iff.mp hrest).1]
            rintro rfl
            exact hapart (by simp)
          rw [if_pos hd]
          exact ih hrest (by simp) (fun hmem => hapart (List.mem_cons_of_mem c hmem))
            fun d hd => htype d (List.mem_cons_of_mem c hd)
      · rfl

theorem Ring.children (h : Ring blocks t objects) (k : ℕ) :
    children blocks sought (objects.length + k) t =
      some (match objects.find? (matchesObject blocks sought) with
        | some c => .found c
        | none => .passed t) := by
  rw [UidObjects.children]
  rcases objects with _ | ⟨c, objects⟩
  · rw [if_neg (by simp [Chain.nil_iff.mp h.chain])]
    rfl
  · have hne : (blocks t).nextChild ≠ t := by
      rw [← (Chain.cons_iff.mp h.chain).1]
      rintro rfl
      exact h.apart (by simp)
    rw [if_pos hne]
    exact childLoop_chain h.chain (by simp) h.apart h.type k

/-- The types and objects in the order of the walk, each with whether it is what is sought. -/
def visited (blocks : Pointer → Block) (sought : Sought) (types : List (Pointer × List Pointer)) : List (Pointer × Bool) :=
  types.flatMap fun t =>
    (t.1, matchesType blocks sought t.1) :: t.2.map fun c => (c, matchesObject blocks sought c)

/-- The first of them that is. -/
def firstSought (blocks : Pointer → Block) (sought : Sought) (types : List (Pointer × List Pointer)) : Option Pointer :=
  ((visited blocks sought types).find? Prod.snd).map Prod.fst

theorem find?_objects (objects : List Pointer) (matched : Pointer → Bool) :
    ((objects.map fun c => (c, matched c)).find? Prod.snd).map Prod.fst =
      objects.find? matched := by
  induction objects with
  | nil => rfl
  | cons c objects ih =>
      rw [List.map_cons, List.find?_cons, List.find?_cons]
      rcases hmatch : matched c with _ | _
      · exact ih
      · rfl

theorem firstSought_cons (t : Pointer × List Pointer) (types : List (Pointer × List Pointer)) :
    firstSought blocks sought (t :: types) =
      if matchesType blocks sought t.1 then some t.1
      else (t.2.find? (matchesObject blocks sought)).or
        (firstSought blocks sought types) := by
  rw [firstSought, visited, List.flatMap_cons, List.cons_append, List.find?_cons]
  rcases matchesType blocks sought t.1 with _ | _
  · rw [if_neg (by simp), List.find?_append, ← find?_objects, firstSought, visited]
    rcases List.find? Prod.snd (List.map _ t.2) with _ | _
    · rfl
    · rfl
  · rfl

/-- Behind a type that is not the last one of them comes another whose next one is not the
parent entry. -/
theorem nextEntry_ne {rest : List (Pointer × List Pointer)} (h : Chain
    (fun p => (blocks p).nextEntry) p (rest.map Prod.fst ++ [last]) root)
    (hapart : root ∉ rest.map Prod.fst ++ [last]) :
    (blocks p).nextEntry ≠ root ↔ rest ≠ [] := by
  rcases rest with _ | ⟨t, rest⟩
  · obtain ⟨rfl, hend⟩ := Chain.cons_iff.mp h
    simpa using Chain.nil_iff.mp hend
  · obtain ⟨rfl, hrest⟩ := Chain.cons_iff.mp h
    simp only [ne_eq, reduceCtorEq, not_false_eq_true, iff_true]
    intro heq
    simp only [List.map_cons, List.cons_append, List.mem_cons, not_or] at hapart
    have hback : Chain (fun p => (blocks p).nextEntry) root (rest.map Prod.fst ++ [last]) root := by
      change Chain _ (blocks t.1).nextEntry _ _ at hrest
      rwa [heq] at hrest
    have hnil := hback.unique (.nil root) hapart.2 List.not_mem_nil
    simp at hnil

theorem entryLoop_chain (h : Chain (fun p => (blocks p).nextEntry) p
      (types.map Prod.fst ++ [last]) root)
    (hapart : root ∉ types.map Prod.fst ++ [last]) (hne : types ≠ [])
    (hrings : ∀ t ∈ types, Ring blocks t.1 t.2) :
    ∃ fuel, ∀ k, entryLoop blocks sought root (fuel + k) p =
      some (firstSought blocks sought types) := by
  induction types generalizing p with
  | nil => exact absurd rfl hne
  | cons t types ih =>
      obtain ⟨rfl, hrest⟩ := Chain.cons_iff.mp h
      have hring := hrings t (List.mem_cons_self ..)
      have hapart' : root ∉ types.map Prod.fst ++ [last] := fun hmem =>
        hapart (List.mem_cons_of_mem t.1 hmem)
      have hnext := nextEntry_ne hrest hapart'
      have hmore : ∃ fuel, types ≠ [] → ∀ k,
          entryLoop blocks sought root (fuel + k) (blocks t.1).nextEntry =
            some (firstSought blocks sought types) := by
        by_cases hnil : types = []
        · exact ⟨0, fun hne => absurd hnil hne⟩
        · obtain ⟨fuel, hfuel⟩ := ih hrest hapart' hnil fun t ht =>
            hrings t (List.mem_cons_of_mem _ ht)
          exact ⟨fuel, fun _ => hfuel⟩
      obtain ⟨fuel, hfuel⟩ := hmore
      refine ⟨t.2.length + fuel + 1, fun k => ?_⟩
      rw [Nat.add_right_comm, entryLoop, firstSought_cons]
      split
      · rfl
      · rw [Nat.add_assoc, hring.children (fuel + k)]
        rcases hobject : t.2.find? (matchesObject blocks sought) with _ | c
        · dsimp only
          rw [Option.none_or]
          by_cases hnil : types = []
          · rw [if_neg (by simp [hnext, hnil]), hnil]
            rfl
          · rw [if_pos (hnext.mpr hnil), Nat.add_left_comm]
            exact hfuel hnil _
        · rfl

def shownTypes (blocks : Pointer → Block) (name : Option Bytes) (types : List (Pointer × List Pointer)) :
    List (Pointer × List Pointer) :=
  types.filter fun t => name.all fun name => (blocks t.1).name = name

def typeLines (t : Pointer × List Pointer) : List Line :=
  .type t.1 :: if t.2 = [] then [.noObjects] else t.2.map .object

theorem printChildren_chain (shown : Bool)
    (h : Chain (fun p => (blocks p).nextChild) (blocks p).nextChild l t)
    (hne : l ≠ []) (hapart : t ∉ l) (htype : ∀ c ∈ l, (blocks c).type = t) (k : ℕ) :
    printChildren blocks shown (l.length + k) p =
      some (if shown then l.map .object else [], t) := by
  induction l generalizing p with
  | nil => exact absurd rfl hne
  | cons c l ih =>
      obtain ⟨hc, hrest⟩ := Chain.cons_iff.mp h
      rw [List.length_cons, Nat.add_right_comm, printChildren, ← hc]
      rw [← hc] at hrest
      rw [htype c (List.mem_cons_self ..)]
      rcases l with _ | ⟨d, l⟩
      · rw [Chain.nil_iff.mp hrest, if_neg (by simp)]
        rfl
      · have hd : (blocks c).nextChild ≠ t := by
          rw [← (Chain.cons_iff.mp hrest).1]
          rintro rfl
          exact hapart (by simp)
        rw [if_pos hd, ih hrest (by simp) (fun hmem => hapart (List.mem_cons_of_mem c hmem))
          fun d hd => htype d (List.mem_cons_of_mem c hd)]
        cases shown with
        | true => rfl
        | false => rfl

theorem Ring.printEntry (h : Ring blocks t objects) (name : Option Bytes) (k : ℕ) :
    printEntry blocks name (objects.length + k) t =
      some ((shownTypes blocks name [(t, objects)]).flatMap typeLines, t) := by
  rw [UidObjects.printEntry, shownTypes, List.filter_singleton]
  rcases hshown : (name.all fun name => (blocks t).name = name) with _ | _
  all_goals
    rcases objects with _ | ⟨c, objects⟩
    · rw [if_pos (Chain.nil_iff.mp h.chain)]
      simp [typeLines]
    · have hne : (blocks t).nextChild ≠ t := by
        rw [← (Chain.cons_iff.mp h.chain).1]
        rintro rfl
        exact h.apart (by simp)
      rw [if_neg hne, printChildren_chain _ h.chain (by simp) h.apart h.type]
      simp [typeLines]

theorem printLoop_chain (name : Option Bytes) (h : Chain (fun p => (blocks p).nextEntry) p
      (types.map Prod.fst ++ [last]) root)
    (hapart : root ∉ types.map Prod.fst ++ [last]) (hne : types ≠ [])
    (hrings : ∀ t ∈ types, Ring blocks t.1 t.2) :
    ∃ fuel, ∀ k, printLoop blocks name root (fuel + k) p =
      some ((shownTypes blocks name types).flatMap typeLines) := by
  induction types generalizing p with
  | nil => exact absurd rfl hne
  | cons t types ih =>
      obtain ⟨rfl, hrest⟩ := Chain.cons_iff.mp h
      have hring := hrings t (List.mem_cons_self ..)
      have hapart' : root ∉ types.map Prod.fst ++ [last] := fun hmem =>
        hapart (List.mem_cons_of_mem t.1 hmem)
      have hnext := nextEntry_ne hrest hapart'
      have hmore : ∃ fuel, types ≠ [] → ∀ k,
          printLoop blocks name root (fuel + k) (blocks t.1).nextEntry =
            some ((shownTypes blocks name types).flatMap typeLines) := by
        by_cases hnil : types = []
        · exact ⟨0, fun hne => absurd hnil hne⟩
        · obtain ⟨fuel, hfuel⟩ := ih hrest hapart' hnil fun t ht =>
            hrings t (List.mem_cons_of_mem _ ht)
          exact ⟨fuel, fun _ => hfuel⟩
      obtain ⟨fuel, hfuel⟩ := hmore
      have hcons : shownTypes blocks name (t :: types) =
          shownTypes blocks name [t] ++ shownTypes blocks name types := by
        rw [shownTypes, shownTypes, shownTypes, ← List.filter_append, List.singleton_append]
      refine ⟨t.2.length + fuel + 1, fun k => ?_⟩
      rw [Nat.add_right_comm, printLoop, Nat.add_assoc, hring.printEntry name (fuel + k), hcons,
        List.flatMap_append, Option.bind_some]
      dsimp only
      by_cases hnil : types = []
      · rw [if_neg (by simp [hnext, hnil]), hnil]
        simp [shownTypes]
      · rw [if_pos (hnext.mpr hnil), Nat.add_left_comm, hfuel hnil]
        rfl

theorem entries_lines (types : List (Pointer × List Pointer)) :
    ((shownTypes blocks none types).flatMap typeLines).filterMap Line.entry =
      types.flatMap fun t => t.1 :: t.2 := by
  have hall : shownTypes blocks none types = types := List.filter_eq_self.mpr fun t _ => rfl
  rw [hall]
  clear hall
  induction types with
  | nil => rfl
  | cons t types ih =>
      rw [List.flatMap_cons, List.flatMap_cons, List.filterMap_append, ih]
      congr 1
      rw [typeLines]
      split
      · rename_i hnil
        rw [hnil]
        rfl
      · simp [Line.entry, Function.comp_def]

theorem firstSought_uid (uid : Word) (types : List (Pointer × List Pointer)) :
    firstSought blocks { uid := uid, name := none, parent := none } types =
      (types.flatMap fun t => t.1 :: t.2).find? fun p => (blocks p).uid = uid := by
  induction types with
  | nil => rfl
  | cons t types ih =>
      have hobject : matchesObject blocks { uid := uid, name := none, parent := none } =
          fun p => decide ((blocks p).uid = uid) := by
        funext p
        simp [matchesObject]
      rw [firstSought_cons, List.flatMap_cons, List.cons_append, List.find?_cons, ih,
        List.find?_append, hobject, matchesType]
      by_cases huid : (blocks t.1).uid = uid
      · simp [huid]
      · simp [huid]

/-- On the list of the kernel both walks come to an end. `findUIDObject` gives the first type
or object, in the order of the list, that is what is sought; `printUIDList` shows each type with
the name given and its objects; and what is found for a UID alone is the first that the whole
listing shows with it. Neither sees the last type. -/
theorem found_as_listed (blocks : Pointer → Block) (root last : Pointer)
    (types : List (Pointer × List Pointer)) (h : Listed blocks root types last) :
    (∀ sought, ∃ fuel,
      findUIDObject blocks root sought fuel = some (firstSought blocks sought types)) ∧
    (∀ name, ∃ fuel, printUIDList blocks root name fuel =
      some ((shownTypes blocks name types).flatMap typeLines)) ∧
    ∀ uid, ∃ fuel lines, printUIDList blocks root none fuel = some lines ∧
      findUIDObject blocks root { uid := uid, name := none, parent := none } fuel =
        some ((lines.filterMap Line.entry).find? fun p => (blocks p).uid = uid) := by
  refine ⟨fun sought => ?_, fun name => ?_, fun uid => ?_⟩
  · obtain ⟨fuel, hfuel⟩ := entryLoop_chain h.chain h.apart h.nonempty h.rings
    exact ⟨fuel, hfuel 0⟩
  · obtain ⟨fuel, hfuel⟩ := printLoop_chain name h.chain h.apart h.nonempty h.rings
    exact ⟨fuel, hfuel 0⟩
  · obtain ⟨fuel, hfuel⟩ := @entryLoop_chain blocks { uid := uid, name := none, parent := none } root
      last _ types h.chain h.apart h.nonempty h.rings
    obtain ⟨fuel', hfuel'⟩ := printLoop_chain none h.chain h.apart h.nonempty h.rings
    refine ⟨fuel' + fuel, _, hfuel' fuel, ?_⟩
    rw [entries_lines, ← firstSought_uid, Nat.add_comm]
    exact hfuel fuel'

/-- Two types before the last one, the first with two objects, the second with none. -/
def someBlocks : Pointer → Block
  | 1 => { nextChild := 1, type := 0, uid := 0, name := [], nextEntry := 10 }
  | 10 => { nextChild := 11, type := 0, uid := 0x101, name := [0x41], nextEntry := 20 }
  | 11 => { nextChild := 12, type := 10, uid := 0x201, name := [0x61], nextEntry := 0 }
  | 12 => { nextChild := 10, type := 10, uid := 0x301, name := [0x62], nextEntry := 0 }
  | 20 => { nextChild := 20, type := 0, uid := 0x401, name := [0x42], nextEntry := 30 }
  | 30 => { nextChild := 30, type := 0, uid := 0x501, name := [0x43], nextEntry := 1 }
  | _ => { nextChild := 0, type := 0, uid := 0, name := [], nextEntry := 0 }

theorem someBlocks_listed : Listed someBlocks 1 [(10, [11, 12]), (20, [])] 30 where
  chain := .cons (.cons (.cons (.nil 1)))
  apart := by decide
  nonempty := by simp
  rings t ht := by
    simp only [List.mem_cons, List.not_mem_nil, or_false] at ht
    rcases ht with rfl | rfl
    · exact ⟨.cons (.cons (.nil 10)), by decide, by decide⟩
    · exact ⟨.nil 20, by decide, by decide⟩

theorem found_as_listed_some :
    (∃ fuel, findUIDObject someBlocks 1 { uid := 0x301, name := none, parent := none } fuel =
      some (some 12)) ∧
    ∃ fuel, printUIDList someBlocks 1 none fuel =
      some [.type 10, .object 11, .object 12, .type 20, .noObjects] :=
  have h := found_as_listed someBlocks 1 30 _ someBlocks_listed
  ⟨h.1 _, h.2.1 none⟩

end PsplinkUsb.Psplink.UidObjects
