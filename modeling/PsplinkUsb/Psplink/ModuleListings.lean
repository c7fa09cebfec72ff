import Mathlib.Data.List.Find
import PsplinkUsb.Psplink.ModuleTables

namespace PsplinkUsb.Psplink.ModuleListings

open PsplinkUsb.Library.RecordTable
open PsplinkUsb.Psplink.ProgramMemory (Word)
open PsplinkUsb.Psplink.DecodeAddr (Bytes)
open PsplinkUsb.Psplink.ModuleTables

inductive Side where
  | exports | imports
  deriving DecidableEq, Repr

inductive Kind where
  | function | variable
  deriving DecidableEq, Repr

inductive Line where
  | table (side : Side) (top : Word) (len : ℕ)
  | library (side : Side) (name : Option Bytes) (attr : BitVec 16)
  | heading (side : Side) (kind : Kind)
  | entry (kind : Kind) (count : ℕ) (uid addr : Word)
  | blank

section

variable (lw : Word → Word)

/-- What the loop of `libsPrintEntries` prints of a record. -/
def entryLines (entry : LibraryEntry) : List Line :=
  let stubcount := entry.stubcount.toNat
  let vstubcount := entry.vstubcount.toNat
  .library .exports entry.libname entry.attr ::
    ((if 0 < stubcount then
        .heading .exports .function :: (List.range stubcount).map fun count =>
          .entry .function (count + 1) (lw (entry.place count))
            (lw (entry.place (count + entry.total)))
      else []) ++
    ((if 0 < vstubcount then
        .heading .exports .variable :: (List.range vstubcount).map fun count =>
          .entry .variable (count + 1) (lw (entry.place (count + stubcount)))
            (lw (entry.place (count + stubcount + entry.total)))
      else []) ++ [.blank]))

/-- What the loop of `libsPrintImports` prints of a record; `funcCount` is what is asked for the
variables too. -/
def importLines (imp : ModuleImport) : List Line :=
  let funcCount := imp.funcCount.toNat
  .library .imports imp.name imp.attr ::
    ((if 0 < funcCount then
        .heading .imports .function :: (List.range funcCount).map fun count =>
          .entry .function (count + 1) (lw (imp.fnids + BitVec.ofNat 32 (4 * count)))
            (imp.funcs + BitVec.ofNat 32 (8 * count))
      else []) ++
    ((if 0 < funcCount then
        .heading .imports .variable :: (List.range imp.varCount.toNat).map fun count =>
          .entry .variable (count + 1) (lw (imp.vnids + BitVec.ofNat 32 (4 * count)))
            (imp.vars + BitVec.ofNat 32 (8 * count))
      else []) ++ [.blank]))

end

section

variable (sys : System) (uid : Word)

/-- The value that is returned, and what has been printed. -/
def libsPrintEntries (rounds : ℕ) : Option (ℕ × List Line) :=
  match sys.findModuleByUID uid with
  | none => some (0, [])
  | some m => (collect LibraryEntry.size m.exports (entryLines sys.lw) rounds 0).map
      fun lines => (1, .table .exports m.entTop m.exports.size :: lines)

def libsPrintImports (rounds : ℕ) : Option (ℕ × List Line) :=
  match sys.findModuleByUID uid with
  | none => some (0, [])
  | some m => (collect ModuleImport.size m.imports (importLines sys.lw) rounds 0).map
      fun lines => (1, .table .imports m.stubTop m.imports.size :: lines)

end

/-- A function or a variable of a library. -/
structure Symbol where
  library : Option Bytes
  kind : Kind
  nid : Word
  addr : Word

/-- What a listing says: the entries, each of the library that was named last. -/
def listed : Option Bytes → List Line → List Symbol
  | _, [] => []
  | _, .library _ name _ :: lines => listed name lines
  | library, .entry kind _ nid addr :: lines => ⟨library, kind, nid, addr⟩ :: listed library lines
  | library, _ :: lines => listed library lines

/-- `count` words of the memory. -/
def words (lw : Word → Word) (start : Word) (count : ℕ) : List Word :=
  (List.range count).map fun i => lw (start + BitVec.ofNat 32 (4 * i))

/-- The places of `count` stubs, which have two words each. -/
def stubs (start : Word) (count : ℕ) : List Word :=
  (List.range count).map fun i => start + BitVec.ofNat 32 (8 * i)

def symbols (library : Option Bytes) (kind : Kind) (nids addrs : List Word) : List Symbol :=
  List.zipWith (fun nid addr => ⟨library, kind, nid, addr⟩) nids addrs

/-- The array of a record of the exports has all NIDs in front of all addresses, in each half the
functions in front of the variables. -/
def exported (lw : Word → Word) (entry : LibraryEntry) : List Symbol :=
  let nids := words lw entry.entrytable entry.total
  let addrs := words lw (entry.place entry.total) entry.total
  let functions := entry.stubcount.toNat
  symbols entry.libname .function (nids.take functions) (addrs.take functions) ++
    symbols entry.libname .variable (nids.drop functions) (addrs.drop functions)

def imported (lw : Word → Word) (imp : ModuleImport) : List Symbol :=
  symbols imp.name .function (words lw imp.fnids imp.funcCount.toNat)
      (stubs imp.funcs imp.funcCount.toNat) ++
    symbols imp.name .variable (words lw imp.vnids imp.varCount.toNat)
      (stubs imp.vars imp.varCount.toNat)

/-- The records are at `js`, no two of one name, no NID twice among the functions of one, and no
entry of an array at `NULL`. -/
structure ExportsFormed (lw : Word → Word) (t : Table LibraryEntry) (js : List ℕ) : Prop where
  laid : Laid LibraryEntry.size t 0 js
  names : (js.map fun j => (t.record j).libname).Nodup
  nids : ∀ j ∈ js, (words lw (t.record j).entrytable (t.record j).stubcount.toNat).Nodup
  places : ∀ j ∈ js, ∀ i < 2 * (t.record j).total, (t.record j).place i ≠ 0

structure ImportsFormed (lw : Word → Word) (t : Table ModuleImport) (js : List ℕ) : Prop where
  laid : Laid ModuleImport.size t 0 js
  names : (js.map fun j => (t.record j).name).Nodup
  nids : ∀ j ∈ js, (words lw (t.record j).fnids (t.record j).funcCount.toNat).Nodup
  places : ∀ j ∈ js, 0 ∉ stubs (t.record j).funcs (t.record j).funcCount.toNat

/-- A listing has all symbols of the records, in their order, and a search for a function that is
listed finds the address that is listed. -/
def Lists (print : ℕ → Option (ℕ × List Line)) (all : List Symbol)
    (lookup : Option Bytes → Word → ℕ → Option (Except Fault Word)) : Prop :=
  ∃ rounds lines, print rounds = some (1, lines) ∧ listed none lines = all ∧
    ∀ s ∈ listed none lines, s.kind = .function →
      ∃ rounds, lookup s.library s.nid rounds = some (.ok s.addr)

section

variable {library : Option Bytes} {lw : Word → Word}

theorem listed_entries (kind : Kind) (f g : ℕ → Word) (counts : List ℕ) (rest : List Line) :
    listed library (counts.map (fun c => .entry kind (c + 1) (f c) (g c)) ++ rest) =
      counts.map (fun c => ⟨library, kind, f c, g c⟩) ++ listed library rest := by
  induction counts with
  | nil => rfl
  | cons c counts ih =>
      rw [List.map_cons, List.cons_append, listed, ih]
      rfl

theorem listed_table (side : Side) (top : Word) (len : ℕ) (rest : List Line) :
    listed library (.table side top len :: rest) = listed library rest := rfl

theorem listed_heading (side : Side) (kind : Kind) (rest : List Line) :
    listed library (.heading side kind :: rest) = listed library rest := rfl

theorem listed_headed (side : Side) (kind : Kind) (f g : ℕ → Word) (n : ℕ) (rest : List Line) :
    listed library ((if 0 < n then
        .heading side kind :: (List.range n).map fun c => .entry kind (c + 1) (f c) (g c)
      else []) ++ rest) =
      (List.range n).map (fun c => ⟨library, kind, f c, g c⟩) ++ listed library rest := by
  rcases Nat.eq_zero_or_pos n with rfl | hpos
  · rfl
  · rw [if_pos hpos, List.cons_append, listed_heading, listed_entries]

theorem symbols_map (kind : Kind) (f g : ℕ → Word) (counts : List ℕ) :
    symbols library kind (counts.map f) (counts.map g) =
      counts.map fun c => ⟨library, kind, f c, g c⟩ := by
  rw [symbols, List.zipWith_map, List.zipWith_self]

theorem exported_eq (entry : LibraryEntry) : exported lw entry =
    (List.range entry.stubcount.toNat).map (fun count =>
        ⟨entry.libname, .function, lw (entry.place count),
          lw (entry.place (count + entry.total))⟩) ++
      (List.range entry.vstubcount.toNat).map fun count =>
        ⟨entry.libname, .variable, lw (entry.place (count + entry.stubcount.toNat)),
          lw (entry.place (count + entry.stubcount.toNat + entry.total))⟩ := by
  have hplace : ∀ i, entry.place entry.total + BitVec.ofNat 32 (4 * i) =
      entry.place (i + entry.total) := by
    intro i
    rw [LibraryEntry.place, LibraryEntry.place, BitVec.add_assoc, ← BitVec.ofNat_add, ← Nat.mul_add,
      Nat.add_comm]
  have hrange : List.range entry.total = List.range entry.stubcount.toNat ++
      (List.range entry.vstubcount.toNat).map (· + entry.stubcount.toNat) := by
    rw [LibraryEntry.total, List.range_add]
    simp only [Nat.add_comm]
  have hlength : ∀ f : ℕ → Word,
      ((List.range entry.stubcount.toNat).map f).length = entry.stubcount.toNat := by simp
  rw [exported, words, words]
  simp only [hplace]
  rw [hrange, List.map_append, List.map_append, List.take_left' (hlength _),
    List.take_left' (hlength _), List.drop_left' (hlength _), List.drop_left' (hlength _),
    List.map_map, List.map_map, symbols_map, symbols_map]
  rfl

theorem imported_eq (imp : ModuleImport) : imported lw imp =
    (List.range imp.funcCount.toNat).map (fun count =>
        ⟨imp.name, .function, lw (imp.fnids + BitVec.ofNat 32 (4 * count)),
          imp.funcs + BitVec.ofNat 32 (8 * count)⟩) ++
      (List.range imp.varCount.toNat).map fun count =>
        ⟨imp.name, .variable, lw (imp.vnids + BitVec.ofNat 32 (4 * count)),
          imp.vars + BitVec.ofNat 32 (8 * count)⟩ := by
  rw [imported, words, words, stubs, stubs, symbols_map, symbols_map]

theorem listed_entryLines (entry : LibraryEntry) (rest : List Line) :
    listed library (entryLines lw entry ++ rest) =
      exported lw entry ++ listed entry.libname rest := by
  rw [entryLines, List.cons_append, listed, List.append_assoc, List.append_assoc, listed_headed,
    listed_headed, exported_eq, List.append_assoc]
  rfl

theorem listed_importLines (imp : ModuleImport) (rest : List Line) :
    listed library (importLines lw imp ++ rest) =
      (if imp.funcCount = 0 then [] else imported lw imp) ++ listed imp.name rest := by
  rw [importLines, List.cons_append, listed, List.append_assoc, List.append_assoc, listed_headed]
  by_cases hzero : imp.funcCount = 0
  · rw [if_pos hzero, hzero]
    rfl
  · have hpos : 0 < imp.funcCount.toNat :=
      Nat.pos_of_ne_zero fun h => hzero (BitVec.eq_of_toNat_eq h)
    rw [if_neg hzero, if_pos hpos, imported_eq, List.cons_append, listed_heading,
      listed_entries, List.append_assoc]
    rfl

theorem listed_flatMap {R : Type} {lines : R → List Line} {f : R → List Symbol}
    {name : R → Option Bytes}
    (h : ∀ r library rest, listed library (lines r ++ rest) = f r ++ listed (name r) rest)
    (rs : List R) : listed library (rs.flatMap lines) = rs.flatMap f := by
  induction rs generalizing library with
  | nil => rfl
  | cons r rs ih => rw [List.flatMap_cons, h, ih, List.flatMap_cons]

end

theorem find?_key {α : Type} {β : Type} [DecidableEq β] {key : α → β} {as : List α} {a : α}
    (h : (as.map key).Nodup) (ha : a ∈ as) : as.find? (fun b => key b = key a) = some a := by
  induction as with
  | nil => exact absurd ha List.not_mem_nil
  | cons b as ih =>
      rw [List.map_cons, List.nodup_cons] at h
      rcases List.mem_cons.mp ha with rfl | ha
      · exact List.find?_cons_of_pos (decide_eq_true rfl)
      · have hne : key b ≠ key a := fun heq => h.1 (heq ▸ List.mem_map_of_mem ha)
        rw [List.find?_cons_of_neg (by simpa using hne)]
        exact ih h.2 ha

theorem findNid_eq {lw : Word → Word} {nids : Word} {count i : ℕ} (h : (words lw nids count).Nodup)
    (hi : i < count) : findNid lw nids count (lw (nids + BitVec.ofNat 32 (4 * i))) = some i :=
  find?_key h (List.mem_range.mpr hi)

theorem find?_named {R : Type} {record : ℕ → R} {js : List ℕ} {j : ℕ} {key : R → Option Bytes}
    (named : R → Prop) [DecidablePred named] (hnames : (js.map fun j => key (record j)).Nodup)
    (hj : j ∈ js) (hnamed : ∀ r, named r ↔ key r = key (record j)) :
    (js.map record).find? (decide <| named ·) = some (record j) := by
  rw [List.find?_congr fun r _ => decide_eq_decide.mpr (hnamed r)]
  refine find?_key ?_ (List.mem_map_of_mem hj)
  rw [List.map_map]
  exact hnames

section

variable {sys : System} {uid : Word} {m : Module} {js : List ℕ} {j : ℕ}

theorem print_entries (hm : sys.findModuleByUID uid = some m)
    (h : ExportsFormed sys.lw m.exports js) : ∃ rounds lines,
    libsPrintEntries sys uid rounds = some (1, lines) ∧
      listed none lines = js.flatMap fun j => exported sys.lw (m.exports.record j) := by
  refine ⟨js.length + 1, _, by
    rw [libsPrintEntries, hm]
    dsimp only
    rw [h.laid.collect_eq, if_pos (Nat.lt_succ_self _), Option.map_some], ?_⟩
  rw [listed_table, ← List.flatMap_map, listed_flatMap fun r _ => listed_entryLines r,
    List.flatMap_map]

theorem export_found (hm : sys.findModuleByUID uid = some m)
    (h : ExportsFormed sys.lw m.exports js) (hj : j ∈ js)
    (hends : ExportsEnd m.exports (m.exports.record j).libname) : ∃ rounds,
    libsFindLibrary sys uid (m.exports.record j).libname rounds =
      some (.ok (some (m.exports.record j))) := by
  obtain ⟨rounds, found, hfound, hfirst⟩ := (findsLibrary_iff hm).mpr hends
  refine ⟨rounds, hfound.trans ?_⟩
  rw [hfirst js h.laid, find?_named (LibraryEntry.Named _) h.names hj fun r => Iff.rfl]

theorem export_lookup {entry : LibraryEntry} {library : Option Bytes} {rounds count : ℕ}
    (hfound : libsFindLibrary sys uid library rounds = some (.ok (some entry)))
    (hnids : (words sys.lw entry.entrytable entry.stubcount.toNat).Nodup)
    (hcount : count < entry.stubcount.toNat) (hplace : entry.place (count + entry.total) ≠ 0) :
    libsFindExportByNid sys uid library (sys.lw (entry.place count)) rounds =
      some (.ok (sys.lw (entry.place (count + entry.total)))) := by
  have hnid := findNid_eq hnids hcount
  rw [libsFindExportByNid, libsFindExportAddrByNid, hfound]
  simp only [Option.map_some, Except.map, LibraryEntry.place] at hplace ⊢
  rw [hnid]
  exact congrArg (some ∘ Except.ok) (if_neg hplace)

theorem exportsEnd_of_formed (h : ExportsFormed sys.lw m.exports js)
    (hfirst : (m.exports.record j).libname = none → j = 0) :
    ExportsEnd m.exports (m.exports.record j).libname := by
  intro i hreached
  have hlen : (m.exports.record i).len ≠ 0 :=
    (LibraryEntry.size_pos_iff _).mp (h.laid.size_pos (h.laid.mem_of_reached hreached))
  by_cases hnone : (m.exports.record j).libname = none
  · obtain rfl := hfirst hnone
    clear hlen
    refine .inl ?_
    induction hreached with
    | start => rfl
    | next _ hnot _ ih => exact absurd ih hnot
  · exact .inr ⟨fun heq => absurd heq hnone, hlen⟩

theorem mem_exported {lw : Word → Word} {entry : LibraryEntry} {s : Symbol} :
    s ∈ exported lw entry ∧ s.kind = .function ↔ ∃ count < entry.stubcount.toNat,
      s = ⟨entry.libname, .function, lw (entry.place count),
        lw (entry.place (count + entry.total))⟩ := by
  rw [exported_eq, List.mem_append, List.mem_map, List.mem_map]
  constructor
  · rintro ⟨⟨count, hcount, rfl⟩ | ⟨count, -, rfl⟩, hkind⟩
    · exact ⟨count, List.mem_range.mp hcount, rfl⟩
    · exact absurd hkind (by simp)
  · rintro ⟨count, hcount, rfl⟩
    exact ⟨.inl ⟨count, List.mem_range.mpr hcount, rfl⟩, rfl⟩

theorem mem_imported {lw : Word → Word} {imp : ModuleImport} {s : Symbol} :
    s ∈ imported lw imp ∧ s.kind = .function ↔ ∃ count < imp.funcCount.toNat,
      s = ⟨imp.name, .function, lw (imp.fnids + BitVec.ofNat 32 (4 * count)),
        imp.funcs + BitVec.ofNat 32 (8 * count)⟩ := by
  rw [imported_eq, List.mem_append, List.mem_map, List.mem_map]
  constructor
  · rintro ⟨⟨count, hcount, rfl⟩ | ⟨count, -, rfl⟩, hkind⟩
    · exact ⟨count, List.mem_range.mp hcount, rfl⟩
    · exact absurd hkind (by simp)
  · rintro ⟨count, hcount, rfl⟩
    exact ⟨.inl ⟨count, List.mem_range.mpr hcount, rfl⟩, rfl⟩

theorem toNat_pos_iff {w : ℕ} (x : BitVec w) : 0 < x.toNat ↔ x ≠ 0 := by
  refine ⟨fun h heq => ?_, fun h => Nat.pos_of_ne_zero fun heq => h (BitVec.eq_of_toNat_eq heq)⟩
  rw [heq] at h
  exact Nat.lt_irrefl 0 h

theorem library_of_lookup {library : Option Bytes} {nid addr : Word} {rounds : ℕ}
    (h : libsFindExportByNid sys uid library nid rounds = some (.ok addr)) :
    ∃ found, libsFindLibrary sys uid library rounds = some (.ok found) := by
  obtain ⟨r, hr, haddr⟩ := Option.map_eq_some_iff.mp h
  obtain ⟨walk, hwalk, rfl⟩ := Option.map_eq_some_iff.mp hr
  cases walk with
  | error e => exact absurd haddr (by simp [Except.map])
  | ok found => exact ⟨found, hwalk⟩

/-- Nothing is listed of the exports that is not found, unless a library without a name comes behind
others. -/
theorem entries_iff (hm : sys.findModuleByUID uid = some m)
    (h : ExportsFormed sys.lw m.exports js) :
    Lists (libsPrintEntries sys uid) (js.flatMap fun j => exported sys.lw (m.exports.record j))
        (libsFindExportByNid sys uid) ↔
      ∀ j ∈ js, (m.exports.record j).libname = none → (m.exports.record j).stubcount ≠ 0 →
        j = 0 := by
  constructor
  · rintro ⟨-, lines, -, hall, hlookup⟩ j hj hnone hcount
    by_contra hne
    have hmem : (⟨none, .function, sys.lw ((m.exports.record j).place 0),
        sys.lw ((m.exports.record j).place (0 + (m.exports.record j).total))⟩ : Symbol) ∈
          listed none lines := by
      rw [hall]
      refine List.mem_flatMap.mpr ⟨j, hj, (mem_exported.mpr ⟨0, (toNat_pos_iff _).mpr hcount, ?_⟩).1⟩
      rw [hnone]
    obtain ⟨rounds, hfound⟩ := hlookup _ hmem rfl
    -- The record at 0 has a name, which the walk compares with `NULL`.
    have hzero : 0 < m.exports.size := Nat.zero_lt_of_lt (h.laid.lt_of_mem hj).2
    have hname : (m.exports.record 0).libname ≠ none := fun hzero' => hne
      (List.inj_on_of_nodup_map h.names hj (h.laid.mem_start hzero) (hnone.trans hzero'.symm))
    obtain ⟨found, hwalk⟩ := library_of_lookup hfound
    have hends : ExportsEnd m.exports none := (findsLibrary_iff hm).mp
      ((finds_iff_ends (libsFindLibrary_eq hm) LibraryEntry.test_eq).mpr ⟨rounds, found, hwalk⟩)
    rcases hends 0 (.start hzero) with hnamed | ⟨hnone', -⟩
    · exact hname hnamed
    · exact hname (hnone' rfl)
  · intro hcond
    obtain ⟨rounds, lines, hprint, hall⟩ := print_entries hm h
    refine ⟨rounds, lines, hprint, hall, fun s hs hkind => ?_⟩
    rw [hall] at hs
    obtain ⟨j, hj, hs⟩ := List.mem_flatMap.mp hs
    obtain ⟨count, hcount, rfl⟩ := mem_exported.mp ⟨hs, hkind⟩
    have hstub : (m.exports.record j).stubcount ≠ 0 :=
      (toNat_pos_iff _).mp (Nat.zero_lt_of_lt hcount)
    obtain ⟨rounds, hfound⟩ := export_found hm h hj
      (exportsEnd_of_formed h fun hnone => hcond j hj hnone hstub)
    refine ⟨rounds, export_lookup hfound (h.nids j hj) hcount (h.places j hj _ ?_)⟩
    have htotal : (m.exports.record j).total = (m.exports.record j).stubcount.toNat +
      (m.exports.record j).vstubcount.toNat := rfl
    omega

theorem print_imports (hm : sys.findModuleByUID uid = some m)
    (h : ImportsFormed sys.lw m.imports js) (rounds : ℕ) (r : ℕ × List Line) :
    libsPrintImports sys uid rounds = some r ↔ js.length < rounds ∧
      r = (1, .table .imports m.stubTop m.imports.size ::
        js.flatMap fun j => importLines sys.lw (m.imports.record j)) := by
  rw [libsPrintImports, hm]
  dsimp only
  rw [h.laid.collect_eq]
  split
  · rename_i hlt
    rw [Option.map_some, Option.some.injEq, and_iff_right hlt, eq_comm]
  · rename_i hnot
    exact iff_of_false (fun heq => Option.some_ne_none _ heq.symm) fun hlt => hnot hlt.1

theorem listed_imports (library : Option Bytes) (js : List ℕ) :
    listed library (.table .imports m.stubTop m.imports.size ::
        js.flatMap fun j => importLines sys.lw (m.imports.record j)) =
      js.flatMap fun j => if (m.imports.record j).funcCount = 0 then []
        else imported sys.lw (m.imports.record j) := by
  rw [listed_table, ← List.flatMap_map, listed_flatMap fun r _ => listed_importLines r,
    List.flatMap_map]

theorem import_found (hm : sys.findModuleByUID uid = some m)
    (h : ImportsFormed sys.lw m.imports js) (hj : j ∈ js)
    (hname : (m.imports.record j).name ≠ none) : ∃ rounds,
    libsFindImport sys uid (m.imports.record j).name rounds =
      some (.ok (some (m.imports.record j))) := by
  have hends : ImportsEnd m.imports (m.imports.record j).name := by
    intro i hreached
    refine .inr ⟨fun heq => absurd heq hname, ?_⟩
    exact (ModuleImport.size_pos_iff _).mp (h.laid.size_pos (h.laid.mem_of_reached hreached))
  obtain ⟨rounds, found, hfound, hfirst⟩ := (findsImport_iff hm).mpr hends
  refine ⟨rounds, hfound.trans ?_⟩
  rw [hfirst js h.laid,
    find?_named (ModuleImport.Named _) h.names hj fun r => and_iff_right hname]

theorem import_lookup {imp : ModuleImport} {library : Option Bytes} {rounds count : ℕ}
    (hfound : libsFindImport sys uid library rounds = some (.ok (some imp)))
    (hnids : (words sys.lw imp.fnids imp.funcCount.toNat).Nodup)
    (hcount : count < imp.funcCount.toNat) :
    libsFindImportAddrByNid sys uid library
        (sys.lw (imp.fnids + BitVec.ofNat 32 (4 * count))) rounds =
      some (.ok (imp.funcs + BitVec.ofNat 32 (8 * count))) := by
  rw [libsFindImportAddrByNid, hfound]
  simp only [Option.map_some, Except.map]
  rw [findNid_eq hnids hcount]

theorem import_lookup_none {nid addr : Word} {rounds : ℕ}
    (hm : sys.findModuleByUID uid = some m) (h : ImportsFormed sys.lw m.imports js)
    (hlookup : libsFindImportAddrByNid sys uid none nid rounds = some (.ok addr)) : addr = 0 := by
  obtain ⟨walk, hwalk, hr⟩ := Option.map_eq_some_iff.mp hlookup
  cases walk with
  | error e => exact absurd hr (by simp [Except.map])
  | ok found =>
      rw [libsFindImport_eq hm] at hwalk
      obtain ⟨r, hfind, hmap⟩ := Option.map_eq_some_iff.mp hwalk
      cases r with
      | error e => exact absurd hmap (by simp [Except.map])
      | ok place =>
          have hnone : place = none := by
            rw [h.laid.found ModuleImport.test_eq hfind]
            exact List.find?_eq_none.mpr fun j _ => by simp [ModuleImport.Named]
          rw [← Except.ok.inj hmap, hnone] at hr
          exact (Except.ok.inj hr).symm

theorem length_flatMap_le {α β : Type} {f g : α → List β} {as : List α}
    (h : ∀ a ∈ as, (f a).length ≤ (g a).length) :
    (as.flatMap f).length ≤ (as.flatMap g).length := by
  induction as with
  | nil => exact Nat.le_refl _
  | cons a as ih =>
      rw [List.flatMap_cons, List.flatMap_cons, List.length_append, List.length_append]
      exact Nat.add_le_add (h a List.mem_cons_self) (ih fun b hb => h b (List.mem_cons_of_mem a hb))

theorem length_eq_of_flatMap {α β : Type} {f g : α → List β} {as : List α}
    (h : ∀ a ∈ as, (f a).length ≤ (g a).length) (heq : as.flatMap f = as.flatMap g) :
    ∀ a ∈ as, (f a).length = (g a).length := by
  replace heq := congrArg List.length heq
  induction as with
  | nil => exact fun a ha => absurd ha List.not_mem_nil
  | cons a as ih =>
      have hrest : ∀ b ∈ as, (f b).length ≤ (g b).length :=
        fun b hb => h b (List.mem_cons_of_mem a hb)
      have hle := h a List.mem_cons_self
      have htail := length_flatMap_le hrest
      rw [List.flatMap_cons, List.flatMap_cons, List.length_append, List.length_append] at heq
      exact List.forall_mem_cons.mpr ⟨by omega, ih hrest (by omega)⟩

/-- The imports are listed with all that is found, unless a record has variables only, or functions
and no name. -/
theorem imports_iff (hm : sys.findModuleByUID uid = some m)
    (h : ImportsFormed sys.lw m.imports js) :
    Lists (libsPrintImports sys uid) (js.flatMap fun j => imported sys.lw (m.imports.record j))
        (libsFindImportAddrByNid sys uid) ↔
      ∀ j ∈ js, ((m.imports.record j).funcCount = 0 → (m.imports.record j).varCount = 0) ∧
        ((m.imports.record j).name = none → (m.imports.record j).funcCount = 0) := by
  constructor
  · rintro ⟨rounds, lines, hprint, hall, hlookup⟩ j hj
    have hlines := congrArg Prod.snd ((print_imports hm h rounds _).mp hprint).2
    dsimp only at hlines
    have hflat := hall
    rw [hlines, listed_imports] at hflat
    constructor
    · intro hzero
      have hlength := length_eq_of_flatMap (fun j _ => by split <;> simp) hflat j hj
      rw [if_pos hzero, imported_eq, List.length_append, List.length_map, List.length_map,
        List.length_range, List.length_range, List.length_nil] at hlength
      exact UInt8.toNat_inj.mp (show (m.imports.record j).varCount.toNat = 0 by omega)
    · intro hnone
      by_contra hcount
      have hpos := (toNat_pos_iff _).mpr hcount
      have hmem : (⟨none, .function, sys.lw ((m.imports.record j).fnids + BitVec.ofNat 32 (4 * 0)),
          (m.imports.record j).funcs + BitVec.ofNat 32 (8 * 0)⟩ : Symbol) ∈ listed none lines := by
        rw [hall]
        refine List.mem_flatMap.mpr ⟨j, hj, (mem_imported.mpr ⟨0, hpos, ?_⟩).1⟩
        rw [hnone]
      obtain ⟨rounds, hfound⟩ := hlookup _ hmem rfl
      refine h.places j hj (List.mem_map.mpr ⟨0, List.mem_range.mpr hpos, ?_⟩)
      exact import_lookup_none hm h hfound
  · intro hcond
    refine ⟨js.length + 1, _, (print_imports hm h _ _).mpr ⟨Nat.lt_succ_self _, rfl⟩, ?_⟩
    have hflat : (js.flatMap fun j => if (m.imports.record j).funcCount = 0 then []
        else imported sys.lw (m.imports.record j)) =
          js.flatMap fun j => imported sys.lw (m.imports.record j) := by
      refine List.flatMap_congr fun j hj => ?_
      split
      · rename_i hzero
        rw [imported_eq, hzero, (hcond j hj).1 hzero]
        rfl
      · rfl
    rw [listed_imports, hflat]
    refine ⟨rfl, fun s hs hkind => ?_⟩
    obtain ⟨j, hj, hs⟩ := List.mem_flatMap.mp hs
    obtain ⟨count, hcount, rfl⟩ := mem_imported.mp ⟨hs, hkind⟩
    have hname : (m.imports.record j).name ≠ none := fun hnone =>
      (toNat_pos_iff _).mp (Nat.zero_lt_of_lt hcount) ((hcond j hj).2 hnone)
    obtain ⟨rounds, hfound⟩ := import_found hm h hj hname
    exact ⟨rounds, import_lookup hfound (h.nids j hj) hcount⟩

/-- The listings of a module are complete, and agree with the searches, just when no import has
variables only and no library without a name stands where a search does not find it. -/
theorem listings_iff {ks : List ℕ} (hm : sys.findModuleByUID uid = some m)
    (hexports : ExportsFormed sys.lw m.exports js)
    (himports : ImportsFormed sys.lw m.imports ks) :
    (Lists (libsPrintEntries sys uid) (js.flatMap fun j => exported sys.lw (m.exports.record j))
        (libsFindExportByNid sys uid) ↔
      ∀ j ∈ js, (m.exports.record j).libname = none → (m.exports.record j).stubcount ≠ 0 →
        j = 0) ∧
    (Lists (libsPrintImports sys uid) (ks.flatMap fun k => imported sys.lw (m.imports.record k))
        (libsFindImportAddrByNid sys uid) ↔
      ∀ k ∈ ks, ((m.imports.record k).funcCount = 0 → (m.imports.record k).varCount = 0) ∧
        ((m.imports.record k).name = none → (m.imports.record k).funcCount = 0)) :=
  ⟨entries_iff hm hexports, imports_iff hm himports⟩

end

/-- A library without a name in front of a library `A`. -/
def sampleExports : Table LibraryEntry :=
  { size := 32
    record := fun i =>
      if i = 0 then
        { libname := none, attr := 0x8000, len := 4, vstubcount := 1, stubcount := 1
          entrytable := 0x08900100 }
      else
        { libname := some [0x41], attr := 0x4001, len := 4, vstubcount := 0, stubcount := 2
          entrytable := 0x08900200 } }

/-- A library `B`, with one variable. -/
def sampleImports (funcCount : BitVec 16) : Table ModuleImport :=
  { size := 24
    record := fun _ =>
      { name := some [0x42], attr := 0x4001, entLen := 6, varCount := 1, funcCount := funcCount
        fnids := 0x08900300, funcs := 0x08900400, vnids := 0x08900500, vars := 0x08900600 } }

def sample (funcCount : BitVec 16) : System :=
  { findModuleByUID := fun _ => some
      { entTop := 0x08901000, exports := sampleExports
        stubTop := 0x08902000, imports := sampleImports funcCount }
    lw := fun addr => addr }

theorem sampleExports_formed (funcCount : BitVec 16) :
    ExportsFormed (sample funcCount).lw sampleExports [0, 16] where
  laid := .cons (by decide) (by decide) (.cons (by decide) (by decide) (.nil (by decide)))
  names := by decide
  nids := show ∀ j ∈ [0, 16], (words (fun addr => addr) (sampleExports.record j).entrytable
    (sampleExports.record j).stubcount.toNat).Nodup by decide
  places := by decide

theorem sampleImports_formed {funcCount : BitVec 16} (h : funcCount = 0 ∨ funcCount = 2) :
    ImportsFormed (sample funcCount).lw (sampleImports funcCount) [0] where
  laid := .cons (show 0 < 24 by decide) (show 0 < 24 by decide) (.nil (Nat.le_refl 24))
  names := List.nodup_singleton _
  nids := by rcases h with rfl | rfl <;> decide
  places := by rcases h with rfl | rfl <;> decide

theorem sample_lists :
    Lists (libsPrintEntries (sample 2) 7)
        ([0, 16].flatMap fun j => exported (sample 2).lw (sampleExports.record j))
        (libsFindExportByNid (sample 2) 7) ∧
      Lists (libsPrintImports (sample 2) 7)
        ([0].flatMap fun k => imported (sample 2).lw ((sampleImports 2).record k))
        (libsFindImportAddrByNid (sample 2) 7) := by
  obtain ⟨hexports, himports⟩ := @listings_iff (sample 2) 7 _ _ _ rfl (sampleExports_formed 2)
    (sampleImports_formed (.inr rfl))
  exact ⟨hexports.mpr (by decide), himports.mpr (by decide)⟩

/-- The variable is not listed when there are no functions. -/
theorem sample_omits : ImportsFormed (sample 0).lw (sampleImports 0) [0] ∧
    ¬Lists (libsPrintImports (sample 0) 7)
      ([0].flatMap fun k => imported (sample 0).lw ((sampleImports 0).record k))
      (libsFindImportAddrByNid (sample 0) 7) := by
  refine ⟨sampleImports_formed (.inl rfl), fun h => ?_⟩
  have hcond := (@imports_iff (sample 0) 7 _ _ rfl (sampleImports_formed (.inl rfl))).mp h 0
    List.mem_cons_self
  exact absurd (hcond.1 rfl) (by decide)

end PsplinkUsb.Psplink.ModuleListings
