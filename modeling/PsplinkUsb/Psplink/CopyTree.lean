import PsplinkUsb.Library.FileTree

/-!
`CopyFile` and `CopyDirectory` of `psplink/shell.c`, on a tree of files. Whether a call
succeeds, and how far, is up to the results of the calls; what a call that succeeds does to the
tree is here.
-/

namespace PsplinkUsb.Psplink.CopyTree

open PsplinkUsb.Library.FileTree

abbrev Bytes := List UInt8

def dot : Bytes := [0x2E]
def dotdot : Bytes := [0x2E, 0x2E]

/-- The entries `CopyDirectory` does not skip. -/
def Named (name : Bytes) : Prop := name ≠ [] ∧ name ≠ dot ∧ name ≠ dotdot

instance (name : Bytes) : Decidable (Named name) := inferInstanceAs (Decidable (_ ∧ _ ∧ _))

abbrev Name : Type := { name : Bytes // Named name }

abbrev Path : Type := List Name

abbrev Fs : Type := Nodes Name Bytes

/-- What the calls for one file answer: whether the opens and the remove succeed, how many
bytes a read or a write comes to at most, `none` where it fails. -/
structure FileResults where
  openSrc : Bool
  openDst : Bool
  read : ℕ → Option ℕ
  write : ℕ → Option ℕ
  remove : Bool

/-- What the calls for one directory answer; `dread` is the number of entries after which
`sceIoDread` fails, if it does. -/
structure DirResults where
  dopen : Bool
  mkdir : Bool
  dread : Option ℕ
  rmdir : Bool

/-- The results of all calls, by the source they are made for. -/
structure Results where
  file : Path → FileResults
  dir : Path → DirResults

def cpbufSize : ℕ := 4096

def contentOf (fs : Fs) (p : Path) : Option Bytes :=
  match fs.lookup p with
  | some (.file content) => some content
  | _ => none

/-- The value of `sceIoRead` with `rest` left in the file, if it is open. -/
def readResult (f : FileResults) (k : ℕ) : Option Bytes → ℤ
  | none => -1
  | some rest =>
      match f.read k with
      | none => -1
      | some most => (min most (min cpbufSize rest.length) : ℕ)

/-- `sceIoWrite`, as far as it comes, at the end of an open file. -/
def writeBlock (f : FileResults) (k : ℕ) (dst : Path) (data : Bytes) (fs : Fs) : Fs :=
  match f.openDst, f.write k, contentOf fs dst with
  | true, some most, some old => fs.insert dst (.file (old ++ data.take most))
  | _, _, _ => fs

theorem readResult_le (f : FileResults) (k : ℕ) (rest : Option Bytes) :
    readResult f k rest ≤ (rest.getD []).length := by
  cases rest with
  | none => simp [readResult]
  | some rest =>
      rw [readResult]
      split
      · simp only [Option.getD_some]
        omega
      · simp only [Option.getD_some]
        omega

/-- A read and the write after it. -/
def copyBlock (f : FileResults) (k : ℕ) (dst : Path) (rest : Option Bytes) (fs : Fs) : Fs :=
  if 0 < readResult f k rest then
    writeBlock f k dst ((rest.getD []).take (readResult f k rest).toNat) fs
  else fs

theorem drop_read_lt {f : FileResults} {k : ℕ} {rest : Option Bytes}
    (hread : ¬readResult f k rest < cpbufSize) :
    ((rest.map (·.drop (readResult f k rest).toNat)).getD []).length < (rest.getD []).length := by
  have hle := readResult_le f k rest
  simp only [cpbufSize] at hread
  cases rest with
  | none =>
      simp only [Option.getD_none, List.length_nil] at hle
      omega
  | some rest =>
      simp only [Option.getD_some, Option.map_some, List.length_drop] at hle ⊢
      omega

/-- The loop of `CopyFile`, which ends after a read of less than a block. -/
def copyLoop (f : FileResults) (dst : Path) (k : ℕ) (rest : Option Bytes) (fs : Fs) : Fs :=
  if readResult f k rest < cpbufSize then copyBlock f k dst rest fs
  else
    copyLoop f dst (k + 1) (rest.map (·.drop (readResult f k rest).toNat))
      (copyBlock f k dst rest fs)
termination_by (rest.getD []).length
decreasing_by
  rename_i hread
  exact drop_read_lt hread

/-- The source is opened, and the destination made anew. -/
def copyFile (results : Results) (move : Bool) (src dst : Path) (fs : Fs) : Fs :=
  let f := results.file src
  let fs := if f.openDst then fs.insert dst (.file []) else fs
  let fs := copyLoop f dst 0 (if f.openSrc then contentOf fs src else none) fs
  if move ∧ f.remove then fs.erase src else fs

/-- `SceIoDirent`, with the bit `FIO_SO_IFDIR` of its attributes. -/
structure Dirent where
  name : Bytes
  isdir : Bool

/-- All entries of a directory, as they are when it is opened. -/
def dirents (fs : Fs) (p : Path) : List Dirent :=
  ⟨dot, true⟩ :: ⟨dotdot, true⟩ ::
    (names fs p).map fun n => ⟨n.val, fs.lookup (n :: p) = some .dir⟩

/-- The entries that `sceIoDread` gives until it fails or there are no more. -/
def readEntries (results : Results) (fs : Fs) (p : Path) : List Dirent :=
  let d := results.dir p
  if d.dopen then
    match d.dread with
    | none => dirents fs p
    | some count => (dirents fs p).take count
  else []

/-- The body of the loop of `CopyDirectory`; `copyDir` is the function itself. -/
def copyEntry (copyDir : Path → Path → Fs → Option Fs) (results : Results) (move : Bool)
    (src dst : Path) (fs : Fs) (e : Dirent) : Option Fs :=
  if h : Named e.name then
    let child : Name := ⟨e.name, h⟩
    if e.isdir then copyDir (child :: src) (child :: dst) fs
    else some (copyFile results move (child :: src) (child :: dst) fs)
  else some fs

def makeDir (results : Results) (src dst : Path) (fs : Fs) : Fs :=
  if (results.dir src).mkdir ∧ dst ∉ fs then fs.insert dst .dir else fs

def removeDir (results : Results) (src : Path) (fs : Fs) : Fs :=
  if (results.dir src).rmdir ∧ names fs src = [] then fs.erase src else fs

/-- `none` when the calls go deeper than `fuel`. -/
def copyDirectory (results : Results) (move : Bool) : ℕ → Path → Path → Fs → Option Fs
  | 0, _, _, _ => none
  | fuel + 1, src, dst, fs =>
      let entries := readEntries results fs src
      let copied := entries.foldlM
        (copyEntry (copyDirectory results move fuel) results move src dst)
        (makeDir results src dst fs)
      copied.map fun fs => if move then removeDir results src fs else fs

/-- The end of `mv_cmd`, and of `cp_cmd`. -/
def copy (results : Results) (move : Bool) (fuel : ℕ) (src dst : Path) (fs : Fs) : Option Fs :=
  if fs.lookup src = some .dir then copyDirectory results move fuel src dst fs
  else some (copyFile results move src dst fs)

/-- The call of `CopyDirectory` or `CopyFile` comes back. -/
def Returns (results : Results) (move : Bool) (src dst : Path) (fs fs' : Fs) : Prop :=
  ∃ fuel, copy results move fuel src dst fs = some fs'

section Fuel

variable {results : Results} {move : Bool} {src dst : Path} {fs fs' : Fs}
  {copyDir copyDir' : Path → Path → Fs → Option Fs}

theorem copyEntry_mono
    (hmono : ∀ src dst fs fs', copyDir src dst fs = some fs' → copyDir' src dst fs = some fs')
    (e : Dirent) (h : copyEntry copyDir results move src dst fs e = some fs') :
    copyEntry copyDir' results move src dst fs e = some fs' := by
  rw [copyEntry] at h ⊢
  split at h
  · rename_i hnamed
    rw [dif_pos hnamed]
    dsimp only at h ⊢
    split at h
    · rename_i hdir
      rw [if_pos hdir]
      exact hmono _ _ _ _ h
    · rename_i hdir
      rw [if_neg hdir]
      exact h
  · rename_i hnamed
    rw [dif_neg hnamed]
    exact h

theorem foldlM_copyEntry_mono
    (hmono : ∀ src dst fs fs', copyDir src dst fs = some fs' → copyDir' src dst fs = some fs')
    (es : List Dirent)
    (h : es.foldlM (copyEntry copyDir results move src dst) fs = some fs') :
    es.foldlM (copyEntry copyDir' results move src dst) fs = some fs' := by
  induction es generalizing fs with
  | nil => exact h
  | cons e es ih =>
      rw [List.foldlM_cons] at h ⊢
      obtain ⟨g, hg, hrest⟩ := Option.bind_eq_some_iff.mp h
      exact Option.bind_eq_some_iff.mpr ⟨g, copyEntry_mono hmono e hg, ih hrest⟩

theorem copyDirectory_succ (fuel : ℕ)
    (h : copyDirectory results move fuel src dst fs = some fs') :
    copyDirectory results move (fuel + 1) src dst fs = some fs' := by
  induction fuel generalizing src dst fs fs' with
  | zero => cases h
  | succ fuel ih =>
      rw [copyDirectory] at h ⊢
      obtain ⟨g, hg, rfl⟩ := Option.map_eq_some_iff.mp h
      exact Option.map_eq_some_iff.mpr
        ⟨g, foldlM_copyEntry_mono (fun _ _ _ _ => ih) _ hg, rfl⟩

theorem copy_mono {fuel fuel' : ℕ} (hle : fuel ≤ fuel')
    (h : copy results move fuel src dst fs = some fs') :
    copy results move fuel' src dst fs = some fs' := by
  rw [copy] at h ⊢
  split at h
  · rename_i hdir
    rw [if_pos hdir]
    induction hle with
    | refl => exact h
    | step _ ih => exact copyDirectory_succ _ ih
  · rename_i hdir
    rw [if_neg hdir]
    exact h

theorem Returns.unique {g : Fs} (h : Returns results move src dst fs fs')
    (h' : Returns results move src dst fs g) : g = fs' := by
  obtain ⟨fuel, h⟩ := h
  obtain ⟨fuel', h'⟩ := h'
  have hmax := copy_mono (le_max_left fuel fuel') h
  rw [copy_mono (le_max_right fuel fuel') h'] at hmax
  exact Option.some.inj hmax

end Fuel

end PsplinkUsb.Psplink.CopyTree
