import PsplinkUsb.Library.RecordTable
import PsplinkUsb.Psplink.DecodeAddr

namespace PsplinkUsb.Psplink.ModuleTables

open PsplinkUsb.Library.RecordTable
open PsplinkUsb.Psplink.ProgramMemory (Word)
open PsplinkUsb.Psplink.DecodeAddr (Bytes)

/-- The names are `NULL` or point to a string, and the lengths are in words. -/
structure LibraryEntry where
  libname : Option Bytes
  attr : BitVec 16
  len : UInt8
  vstubcount : UInt8
  stubcount : BitVec 16
  entrytable : Word

structure ModuleImport where
  name : Option Bytes
  attr : BitVec 16
  entLen : UInt8
  varCount : UInt8
  funcCount : BitVec 16
  fnids : Word
  funcs : Word
  vnids : Word
  vars : Word

/-- The tables are in memory, where the places in them are no more than an `int` holds. -/
structure Module where
  entTop : Word
  exports : Table LibraryEntry
  stubTop : Word
  imports : Table ModuleImport

/-- What is loaded, and the words of the memory. -/
structure System where
  findModuleByUID : Word → Option Module
  lw : Word → Word

inductive Fault where
  | strcmpNull
  deriving DecidableEq, Repr

/-- Whether `strcmp` is 0. -/
def strcmp (name : Bytes) : Option Bytes → Except Fault Bool
  | some library => .ok (name = library)
  | none => .error .strcmpNull

def LibraryEntry.size (entry : LibraryEntry) : ℕ := entry.len.toNat * 4

def ModuleImport.size (imp : ModuleImport) : ℕ := imp.entLen.toNat * 4

def LibraryEntry.test (library : Option Bytes) (entry : LibraryEntry) : Except Fault Bool :=
  match entry.libname with
  | some libname => strcmp libname library
  | none => .ok (library = none)

def ModuleImport.test (library : Option Bytes) (imp : ModuleImport) : Except Fault Bool :=
  match imp.name with
  | some name => strcmp name library
  | none => .ok false

section

variable (sys : System) (uid : Word) (library : Option Bytes)

/-- Nothing after `rounds` records. -/
def libsFindLibrary (rounds : ℕ) : Option (Except Fault (Option LibraryEntry)) :=
  match sys.findModuleByUID uid with
  | none => some (.ok none)
  | some m => (find LibraryEntry.size m.exports (LibraryEntry.test library) rounds 0).map
      fun found => found.map (·.map m.exports.record)

def libsFindImport (rounds : ℕ) : Option (Except Fault (Option ModuleImport)) :=
  match sys.findModuleByUID uid with
  | none => some (.ok none)
  | some m => (find ModuleImport.size m.imports (ModuleImport.test library) rounds 0).map
      fun found => found.map (·.map m.imports.record)

end

/-- The place of a NID among those of `count` words from `nids` on. -/
def findNid (lw : Word → Word) (nids : Word) (count : ℕ) (nid : Word) : Option ℕ :=
  (List.range count).find? fun i => lw (nids + BitVec.ofNat 32 (4 * i)) = nid

def LibraryEntry.total (entry : LibraryEntry) : ℕ :=
  entry.stubcount.toNat + entry.vstubcount.toNat

/-- `&vars[i]`. -/
def LibraryEntry.place (entry : LibraryEntry) (i : ℕ) : Word :=
  entry.entrytable + BitVec.ofNat 32 (4 * i)

section

variable (sys : System) (uid : Word) (library : Option Bytes)

/-- 0 for `NULL`. -/
def libsFindExportAddrByNid (nid : Word) (rounds : ℕ) : Option (Except Fault Word) :=
  (libsFindLibrary sys uid library rounds).map fun found => found.map fun
    | none => 0
    | some entry =>
        match findNid sys.lw entry.entrytable entry.stubcount.toNat nid with
        | none => 0
        | some count => entry.place (count + entry.total)

def libsFindExportByNid (nid : Word) (rounds : ℕ) : Option (Except Fault Word) :=
  (libsFindExportAddrByNid sys uid library nid rounds).map fun found => found.map fun addr =>
    if addr = 0 then 0 else sys.lw addr

def libsFindImportAddrByNid (nid : Word) (rounds : ℕ) : Option (Except Fault Word) :=
  (libsFindImport sys uid library rounds).map fun found => found.map fun
    | none => 0
    | some imp =>
        match findNid sys.lw imp.fnids imp.funcCount.toNat nid with
        | none => 0
        | some i => imp.funcs + BitVec.ofNat 32 (8 * i)

end

/-- A record of the exports that is the one asked for. -/
def LibraryEntry.Named (library : Option Bytes) (entry : LibraryEntry) : Prop :=
  entry.libname = library

/-- A record of the imports that is the one asked for: one without a name never is. -/
def ModuleImport.Named (library : Option Bytes) (imp : ModuleImport) : Prop :=
  library ≠ none ∧ imp.name = library

instance (library : Option Bytes) : DecidablePred (LibraryEntry.Named library) :=
  fun _ => inferInstanceAs (Decidable (_ = _))

instance (library : Option Bytes) : DecidablePred (ModuleImport.Named library) :=
  fun _ => inferInstanceAs (Decidable (_ ∧ _))

section

variable {library : Option Bytes}

theorem LibraryEntry.test_true_iff (entry : LibraryEntry) :
    entry.test library = .ok true ↔ entry.Named library := by
  rw [LibraryEntry.test, LibraryEntry.Named]
  cases entry.libname <;> cases library <;> simp [strcmp]

theorem LibraryEntry.test_false_iff (entry : LibraryEntry) :
    entry.test library = .ok false ↔
      ¬entry.Named library ∧ (library = none → entry.libname = none) := by
  rw [LibraryEntry.test, LibraryEntry.Named]
  cases entry.libname <;> cases library <;> simp [strcmp]

theorem ModuleImport.test_true_iff (imp : ModuleImport) :
    imp.test library = .ok true ↔ imp.Named library := by
  rw [ModuleImport.test, ModuleImport.Named]
  cases imp.name <;> cases library <;> simp [strcmp]

theorem ModuleImport.test_false_iff (imp : ModuleImport) :
    imp.test library = .ok false ↔
      ¬imp.Named library ∧ (library = none → imp.name = none) := by
  rw [ModuleImport.test, ModuleImport.Named]
  cases imp.name <;> cases library <;> simp [strcmp]

theorem LibraryEntry.test_eq (entry : LibraryEntry) (b : Bool) (h : entry.test library = .ok b) :
    b = decide (entry.Named library) := by
  cases b with
  | true => exact (decide_eq_true (entry.test_true_iff.mp h)).symm
  | false => exact (decide_eq_false (entry.test_false_iff.mp h).1).symm

theorem ModuleImport.test_eq (imp : ModuleImport) (b : Bool) (h : imp.test library = .ok b) :
    b = decide (imp.Named library) := by
  cases b with
  | true => exact (decide_eq_true (imp.test_true_iff.mp h)).symm
  | false => exact (decide_eq_false (imp.test_false_iff.mp h).1).symm

end

/-- A walk ends, without a fault, and gives the first record asked for if no record is without a
length. -/
def Finds {R : Type} (size : R → ℕ) (t : Table R) (named : R → Prop) [DecidablePred named]
    (walk : ℕ → Option (Except Fault (Option R))) : Prop :=
  ∃ rounds found, walk rounds = some (.ok found) ∧
    ∀ js, Laid size t 0 js → found = (js.map t.record).find? (decide <| named ·)

section

variable {R : Type} {size : R → ℕ} {t : Table R} {named : R → Prop} [DecidablePred named]
  {test : R → Except Fault Bool} {walk : ℕ → Option (Except Fault (Option R))}

theorem finds_iff_ends
    (hwalk : ∀ rounds, walk rounds =
      (find size t test rounds 0).map fun found => found.map (·.map t.record))
    (hanswer : ∀ r b, test r = .ok b → b = decide (named r)) :
    Finds size t named walk ↔ ∃ rounds found, walk rounds = some (.ok found) := by
  constructor
  · rintro ⟨rounds, found, hend, -⟩
    exact ⟨rounds, found, hend⟩
  · rintro ⟨rounds, found, hend⟩
    refine ⟨rounds, found, hend, fun js hlaid => ?_⟩
    rw [hwalk] at hend
    obtain ⟨r, hfind, hr⟩ := Option.map_eq_some_iff.mp hend
    cases r with
    | error e => exact absurd hr (by simp [Except.map])
    | ok place =>
        rw [← Except.ok.inj hr, hlaid.found hanswer hfind, List.find?_map]
        rfl

theorem ends_iff
    (hwalk : ∀ rounds, walk rounds =
      (find size t test rounds 0).map fun found => found.map (·.map t.record)) :
    (∃ rounds found, walk rounds = some (.ok found)) ↔
      ∃ rounds place, find size t test rounds 0 = some (.ok place) := by
  constructor
  · rintro ⟨rounds, found, hend⟩
    rw [hwalk] at hend
    obtain ⟨r, hfind, hr⟩ := Option.map_eq_some_iff.mp hend
    cases r with
    | error e => exact absurd hr (by simp [Except.map])
    | ok place => exact ⟨rounds, place, hfind⟩
  · rintro ⟨rounds, place, hfind⟩
    exact ⟨rounds, place.map t.record, by rw [hwalk, hfind]; rfl⟩

theorem finds_iff
    (hwalk : ∀ rounds, walk rounds =
      (find size t test rounds 0).map fun found => found.map (·.map t.record))
    (htrue : ∀ r, test r = .ok true ↔ named r)
    (hanswer : ∀ r b, test r = .ok b → b = decide (named r)) :
    Finds size t named walk ↔ ∀ i, Reached size t named i →
      named (t.record i) ∨ test (t.record i) = .ok false ∧ 0 < size (t.record i) := by
  rw [finds_iff_ends hwalk hanswer, ends_iff hwalk, find_ends_iff htrue]

end

/-- No record without a length is in the way of the walk, and no name when none is asked for. -/
def ExportsEnd (t : Table LibraryEntry) (library : Option Bytes) : Prop :=
  ∀ i, Reached LibraryEntry.size t (LibraryEntry.Named library) i →
    (t.record i).Named library ∨
      (library = none → (t.record i).libname = none) ∧ (t.record i).len ≠ 0

/-- With no name to ask for, no name may come at all. -/
def ImportsEnd (t : Table ModuleImport) (library : Option Bytes) : Prop :=
  ∀ i, Reached ModuleImport.size t (ModuleImport.Named library) i →
    (t.record i).Named library ∨
      (library = none → (t.record i).name = none) ∧ (t.record i).entLen ≠ 0

theorem LibraryEntry.size_pos_iff (entry : LibraryEntry) : 0 < entry.size ↔ entry.len ≠ 0 := by
  rw [LibraryEntry.size, ne_eq, ← UInt8.toNat_inj]
  show 0 < entry.len.toNat * 4 ↔ ¬entry.len.toNat = 0
  omega

theorem ModuleImport.size_pos_iff (imp : ModuleImport) : 0 < imp.size ↔ imp.entLen ≠ 0 := by
  rw [ModuleImport.size, ne_eq, ← UInt8.toNat_inj]
  show 0 < imp.entLen.toNat * 4 ↔ ¬imp.entLen.toNat = 0
  omega

section

variable {sys : System} {uid : Word} {m : Module} {library : Option Bytes}

theorem libsFindLibrary_eq (hm : sys.findModuleByUID uid = some m) (rounds : ℕ) :
    libsFindLibrary sys uid library rounds =
      (find LibraryEntry.size m.exports (LibraryEntry.test library) rounds 0).map
        fun found => found.map (·.map m.exports.record) := by
  rw [libsFindLibrary, hm]

theorem libsFindImport_eq (hm : sys.findModuleByUID uid = some m) (rounds : ℕ) :
    libsFindImport sys uid library rounds =
      (find ModuleImport.size m.imports (ModuleImport.test library) rounds 0).map
        fun found => found.map (·.map m.imports.record) := by
  rw [libsFindImport, hm]

theorem findsLibrary_iff (hm : sys.findModuleByUID uid = some m) :
    Finds LibraryEntry.size m.exports (LibraryEntry.Named library)
      (libsFindLibrary sys uid library) ↔ ExportsEnd m.exports library := by
  rw [finds_iff (libsFindLibrary_eq hm) LibraryEntry.test_true_iff LibraryEntry.test_eq]
  refine forall₂_congr fun i _ => or_congr_right' fun hnot => ?_
  rw [LibraryEntry.test_false_iff, LibraryEntry.size_pos_iff, and_iff_right hnot]

theorem findsImport_iff (hm : sys.findModuleByUID uid = some m) :
    Finds ModuleImport.size m.imports (ModuleImport.Named library)
      (libsFindImport sys uid library) ↔ ImportsEnd m.imports library := by
  rw [finds_iff (libsFindImport_eq hm) ModuleImport.test_true_iff ModuleImport.test_eq]
  refine forall₂_congr fun i _ => or_congr_right' fun hnot => ?_
  rw [ModuleImport.test_false_iff, ModuleImport.size_pos_iff, and_iff_right hnot]

/-- The walks end with the first record asked for, just when no record of no length and no name to
compare with `NULL` is in front of it. -/
theorem walks_iff (hm : sys.findModuleByUID uid = some m) :
    (Finds LibraryEntry.size m.exports (LibraryEntry.Named library)
        (libsFindLibrary sys uid library) ↔ ExportsEnd m.exports library) ∧
      (Finds ModuleImport.size m.imports (ModuleImport.Named library)
        (libsFindImport sys uid library) ↔ ImportsEnd m.imports library) :=
  ⟨findsLibrary_iff hm, findsImport_iff hm⟩

end

/-- A module with a record without a name and then `A`, `B` and `A` again in its exports, and with
`B`, `A` and `B` in its imports. -/
def libraries : System :=
  { findModuleByUID := fun uid =>
      if uid = 7 then
        some
          { entTop := 0x08900000
            exports :=
              { size := 68
                record := fun i =>
                  { libname := if i = 0 then none else if i = 36 then some [0x42] else some [0x41]
                    attr := 0, len := if i = 16 then 5 else 4, vstubcount := 0
                    stubcount := 0, entrytable := 0x08900100 } }
            stubTop := 0x08900044
            imports :=
              { size := 64
                record := fun i =>
                  { name := if i = 20 then some [0x41] else some [0x42], attr := 0
                    entLen := if i = 20 then 6 else 5, varCount := 0, funcCount := 0
                    fnids := 0x08900100, funcs := 0x08900200, vnids := 0, vars := 0 } } }
      else none
    lw := fun _ => 0 }

/-- Both walks come to the second record, and end there. -/
theorem libraries_found : ∃ m, libraries.findModuleByUID 7 = some m ∧
    (Finds LibraryEntry.size m.exports (LibraryEntry.Named (some [0x41]))
        (libsFindLibrary libraries 7 (some [0x41])) ∧
      libsFindLibrary libraries 7 (some [0x41]) 2 = some (.ok (some (m.exports.record 16)))) ∧
    Finds ModuleImport.size m.imports (ModuleImport.Named (some [0x41]))
        (libsFindImport libraries 7 (some [0x41])) ∧
      libsFindImport libraries 7 (some [0x41]) 2 = some (.ok (some (m.imports.record 20))) := by
  obtain ⟨hexports, himports⟩ := @walks_iff libraries 7 _ (some [0x41]) rfl
  refine ⟨_, rfl, ⟨hexports.mpr fun i _ => .inr ⟨fun h => absurd h (by decide), ?_⟩, rfl⟩,
    himports.mpr fun i _ => .inr ⟨fun h => absurd h (by decide), ?_⟩, rfl⟩
  · show (if i = 16 then (5 : UInt8) else 4) ≠ 0
    split <;> decide
  · show (if i = 20 then (6 : UInt8) else 5) ≠ 0
    split <;> decide

/-- A module at 7 with a library `A` of `len` words in each of its tables. -/
def libraryA (len : UInt8) : System :=
  { findModuleByUID := fun uid =>
      if uid = 7 then
        some
          { entTop := 0x08900000
            exports :=
              { size := 16
                record := fun _ =>
                  { libname := some [0x41], attr := 0, len := len, vstubcount := 0
                    stubcount := 0, entrytable := 0x08900100 } }
            stubTop := 0x08900010
            imports :=
              { size := 20
                record := fun _ =>
                  { name := some [0x41], attr := 0, entLen := len, varCount := 0, funcCount := 0
                    fnids := 0x08900100, funcs := 0x08900200, vnids := 0, vars := 0 } } }
      else none
    lw := fun _ => 0 }

/-- The library `A` is compared with `NULL`, and a library of no length never comes to an end. -/
theorem libraryA_lost : ∃ m m', (libraryA 4).findModuleByUID 7 = some m ∧
    (libraryA 0).findModuleByUID 7 = some m' ∧
    ¬Finds LibraryEntry.size m.exports (LibraryEntry.Named none)
      (libsFindLibrary (libraryA 4) 7 none) ∧
    ¬Finds ModuleImport.size m.imports (ModuleImport.Named none)
      (libsFindImport (libraryA 4) 7 none) ∧
    ¬Finds LibraryEntry.size m'.exports (LibraryEntry.Named (some [0x42]))
      (libsFindLibrary (libraryA 0) 7 (some [0x42])) := by
  refine ⟨_, _, rfl, rfl, fun h => ?_, fun h => ?_, fun h => ?_⟩
  · rcases (findsLibrary_iff rfl).mp h 0 (.start (by decide)) with hnamed | ⟨hname, -⟩
    · exact absurd hnamed (by decide)
    · exact absurd (hname rfl) (by decide)
  · rcases (findsImport_iff rfl).mp h 0 (.start (by decide)) with hnamed | ⟨hname, -⟩
    · exact absurd hnamed (by decide)
    · exact absurd (hname rfl) (by decide)
  · rcases (findsLibrary_iff rfl).mp h 0 (.start (by decide)) with hnamed | ⟨-, hlen⟩
    · exact absurd hnamed (by decide)
    · exact hlen rfl

end PsplinkUsb.Psplink.ModuleTables
