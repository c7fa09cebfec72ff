import Mathlib.Logic.Function.Basic
import PsplinkUsb.Psplink.CommandBuffers

namespace PsplinkUsb.Psplink.RemoveFiles

open PsplinkUsb.Library.CheckedBuffer
open PsplinkUsb.Psplink.DecodeAddr (isASpace)
open PsplinkUsb.Psplink.HandlePath
open PsplinkUsb.Psplink.NormalizePath
open PsplinkUsb.Psplink.CommandBuffers

/-- Where the paths lead, several of them perhaps to one file, and which files may be removed. -/
structure Drive (κ : Type) where
  getstat : Bytes → Option Bool
  file : Bytes → Option κ
  removable : κ → Bool

/-- Which files there are. -/
abbrev Files (κ : Type) := κ → Bool

variable {κ : Type}

namespace Drive

variable (drive : Drive κ)

def device (files : Files κ) : Device :=
  { getstat := drive.getstat
    opens := fun path => (drive.file path).any files }

/-- `sceIoRemove`, if it succeeds. -/
def remove [DecidableEq κ] (path : Bytes) (files : Files κ) : Option (Files κ) :=
  match drive.file path with
  | none => none
  | some k =>
      if files k ∧ drive.removable k then some (Function.update files k false) else none

end Drive

section

variable (sh : Shell) (drive : Drive κ)

def onDrive (files : Files κ) : Shell := { sh with device := drive.device files }

/-- `handlepath` for a file that is there, with its stores checked. -/
def handleFile (files : Files κ) (file : Bytes) : Checked Handled := do
  let h ← (onDrive sh drive files).handled file .file true
  if h.size ≤ Buffer.path.size then .ok h else .error .outside

/-- The iterations that are left, with the files and the paths that have been printed. -/
def rmLoop [DecidableEq κ] (argv : List Bytes) : ℕ → Files κ → List Bytes → Checked (Files κ × List Bytes)
  | 0, files, printed => .ok (files, printed)
  | n + 1, files, printed => do
      -- The loop counts to `argc`, but takes `argv[0]` each time.
      let file := argv.getD 0 []
      let h ← handleFile sh drive files file
      if h.ret = 0 then rmLoop argv n files printed
      else
        match drive.remove h.path files with
        | none => rmLoop argv n files printed
        | some files => rmLoop argv n files (printed ++ [h.path])

def rmCmd [DecidableEq κ] (argv : List Bytes) (files : Files κ) : Checked (Files κ × List Bytes) :=
  rmLoop sh drive argv argv.length files []

/-- The file is there, can be removed, and the argument's path leads to it. -/
def Names (files : Files κ) (arg : Bytes) (k : κ) : Prop :=
  ∃ h, handleFile sh drive files arg = .ok h ∧ h.ret ≠ 0 ∧ drive.file h.path = some k ∧
    files k = true ∧ drive.removable k = true

/-- Those files are removed that the arguments name, and no others. -/
def RemovesNamed [DecidableEq κ] (argv : List Bytes) (files : Files κ) : Prop :=
  ∃ files' printed, rmCmd sh drive argv files = .ok (files', printed) ∧
    ∀ k, files' k = true ↔ files k = true ∧ ¬∃ arg ∈ argv, Names sh drive files arg k

end

variable {sh : Shell} {drive : Drive κ} {files : Files κ} {argv : List Bytes} {arg path : Bytes}
  {k : κ}

theorem remove_eq [DecidableEq κ] (h : drive.file path = some k) : drive.remove path files =
    if files k ∧ drive.removable k then some (Function.update files k false) else none := by
  rw [Drive.remove, h]

theorem handlepath_valid (io io' : Device) (currentdir relative : Bytes) (rounds : ℕ) :
    handlepath io currentdir relative .file true rounds =
      (handlepath io' currentdir relative .file false rounds).map fun h =>
        if io.opens h.path then h else { h with ret := 0 } := by
  rw [handlepath, handlepath]
  dsimp only
  rcases dotLoop rounds (joined currentdir relative) 0 with e | ⟨ret, path⟩
  · rfl
  rw [ok_bind, ok_bind]
  dsimp only
  split
  · exact congrArg Except.ok (ite_self _).symm
  rw [afterDots, afterDots]
  dsimp only
  split
  · exact congrArg Except.ok (ite_self _).symm
  rcases normalizePath (slashEnd .file (path.rdropWhile fun c => isASpace c)) rounds with
    e | ⟨ret, path⟩
  · rfl
  rw [ok_bind, ok_bind]
  dsimp only
  by_cases hret : ret = 0
  · rw [if_pos (.inl hret), if_pos (.inl hret)]
    exact congrArg Except.ok (ite_self _).symm
  · cases hopens : io.opens path with
    | true => simp [hret, hopens, accepted, Except.map]
    | false => simp [hret, hopens, accepted, Except.map]

theorem handleFile_ok_iff : (∃ h, handleFile sh drive files arg = .ok h) ↔
    ∃ h, (onDrive sh drive files).handled arg .file true = .ok h ∧
      h.size ≤ 1024 := by
  rw [handleFile]
  rcases (onDrive sh drive files).handled arg .file true with e | h
  · refine iff_of_false ?_ ?_
    · rintro ⟨h, heq⟩
      cases heq
    · rintro ⟨h, heq, -⟩
      cases heq
  · rw [ok_bind]
    by_cases hfits : h.size ≤ 1024
    · exact iff_of_true ⟨h, if_pos hfits⟩ ⟨h, rfl, hfits⟩
    · refine iff_of_false ?_ ?_
      · rintro ⟨h', heq⟩
        cases (if_neg hfits).symm.trans heq
      · rintro ⟨h', heq, hsize⟩
        cases heq
        exact hfits hsize

/-- Whether a path leads to a file that is there. -/
def there (drive : Drive κ) (files : Files κ) (h : Handled) : Handled :=
  if (drive.file h.path).any files then h else { h with ret := 0 }

theorem handleFile_eq (sh : Shell) (drive : Drive κ) (arg : Bytes) : ∃ r : Checked Handled,
    ∀ files, handleFile sh drive files arg = r.map (there drive files) := by
  refine ⟨do
    let h ← handlepath sh.device sh.currdir arg .file false ((joined sh.currdir arg).length + 3)
    if h.size ≤ Buffer.path.size then .ok h else .error .outside, fun files => ?_⟩
  rw [handleFile, Shell.handled, onDrive]
  dsimp only
  rw [handlepath_valid _ sh.device]
  rcases handlepath sh.device sh.currdir arg .file false ((joined sh.currdir arg).length + 3) with
    e | h
  · rfl
  · have hsize : (there drive files h).size = h.size := by
      rw [there]
      split <;> rfl
    show _ = Except.map _ (if h.size ≤ Buffer.path.size then Except.ok h
      else Except.error Fault.outside)
    by_cases hfits : h.size ≤ Buffer.path.size
    · have hfits' : (there drive files h).size ≤ Buffer.path.size := hsize.le.trans hfits
      rw [if_pos hfits]
      exact if_pos hfits'
    · have hfits' : ¬(there drive files h).size ≤ Buffer.path.size := fun hle => hfits (hsize ▸ hle)
      rw [if_neg hfits]
      exact if_neg hfits'

section

variable {h : Handled} (hok : ∀ files, handleFile sh drive files arg = .ok (there drive files h))

include hok

theorem names_iff : Names sh drive files arg k ↔
    h.ret ≠ 0 ∧ drive.file h.path = some k ∧ files k = true ∧ drive.removable k = true := by
  rw [Names, hok]
  constructor
  · rintro ⟨h', heq, hret, hfile, hthere, hremovable⟩
    obtain rfl := Except.ok.inj heq
    rw [there] at hret hfile
    split at hret
    · rename_i hany
      rw [if_pos hany] at hfile
      exact ⟨hret, hfile, hthere, hremovable⟩
    · exact absurd rfl hret
  · rintro ⟨hret, hfile, hthere, hremovable⟩
    have hsame : there drive files h = h := by
      rw [there, hfile]
      exact if_pos hthere
    exact ⟨h, by rw [hsame], hret, hfile, hthere, hremovable⟩

variable [DecidableEq κ]

theorem rmLoop_step (harg : argv.getD 0 [] = arg) (n : ℕ) (printed : List Bytes) :
    ∃ files' printed', rmLoop sh drive argv (n + 1) files printed =
        rmLoop sh drive argv n files' printed' ∧
      ∀ k, files' k = true ↔ files k = true ∧ ¬Names sh drive files arg k := by
  have hnames : ∀ k, Names sh drive files arg k ↔ _ := fun k => names_iff hok
  simp only [hnames]
  rw [rmLoop, harg, hok, ok_bind]
  by_cases hany : (drive.file h.path).any files = true
  · rw [there, if_pos hany]
    obtain ⟨k, hfile, hthere⟩ : ∃ k, drive.file h.path = some k ∧ files k = true := by
      rcases hfile : drive.file h.path with _ | k
      · rw [hfile] at hany
        cases hany
      · rw [hfile] at hany
        exact ⟨k, rfl, hany⟩
    rw [remove_eq hfile, hfile]
    by_cases hret : h.ret = 0
    · rw [if_pos hret]
      exact ⟨files, printed, rfl, fun k => (and_iff_left fun hnames => hnames.1 hret).symm⟩
    · rw [if_neg hret]
      by_cases hremovable : drive.removable k = true
      · rw [if_pos ⟨hthere, hremovable⟩]
        refine ⟨_, _, rfl, fun l => ?_⟩
        by_cases hl : l = k
        · subst hl
          rw [Function.update_self]
          exact iff_of_false Bool.false_ne_true fun hl => hl.2 ⟨hret, rfl, hthere, hremovable⟩
        · rw [Function.update_of_ne hl]
          exact (and_iff_left fun hnames => hl (Option.some.inj hnames.2.1).symm).symm
      · rw [if_neg fun hboth => hremovable hboth.2]
        refine ⟨files, printed, rfl, fun l => (and_iff_left fun hnames => hremovable ?_).symm⟩
        exact Option.some.inj hnames.2.1 ▸ hnames.2.2.2
  · rw [there, if_neg hany, if_pos rfl]
    refine ⟨files, printed, rfl, fun k => (and_iff_left fun hnames => hany ?_).symm⟩
    rw [hnames.2.1]
    exact hnames.2.2.1

/-- Further iterations find nothing more to remove. -/
theorem rmLoop_run (harg : argv.getD 0 [] = arg) (n : ℕ) (printed : List Bytes) :
    ∃ files' printed', rmLoop sh drive argv (n + 1) files printed = .ok (files', printed') ∧
      ∀ k, files' k = true ↔ files k = true ∧ ¬Names sh drive files arg k := by
  induction n generalizing files printed with
  | zero =>
      obtain ⟨files', printed', hstep, hfiles⟩ := rmLoop_step hok harg 0 printed
      exact ⟨files', printed', hstep, hfiles⟩
  | succ n ih =>
      obtain ⟨files₁, printed₁, hstep, hfiles₁⟩ := rmLoop_step hok harg (n + 1) printed
      obtain ⟨files', printed', hrun, hfiles'⟩ := @ih files₁ printed₁
      refine ⟨files', printed', hstep.trans hrun, fun k => ?_⟩
      rw [hfiles', hfiles₁]
      refine and_iff_left fun hnames => ?_
      obtain ⟨hret, hfile, hthere, hremovable⟩ := (names_iff hok).mp hnames
      obtain ⟨hthere, hnot⟩ := (hfiles₁ k).mp hthere
      exact hnot ((names_iff hok).mpr ⟨hret, hfile, hthere, hremovable⟩)

end

/-- The files that the arguments name are removed just when there are no arguments, or the first
one has a path that fits and no other names a file that the first one does not. -/
theorem rmCmd_iff [DecidableEq κ] (hcur : 0 ∉ sh.currdir) (hargv : ∀ arg ∈ argv, 0 ∉ arg) :
    RemovesNamed sh drive argv files ↔ ∀ first ∈ argv.head?,
      PathFits (joined sh.currdir first) .file ∧
        ∀ arg ∈ argv, ∀ k, Names sh drive files arg k → Names sh drive files first k := by
  cases argv with
  | nil =>
      refine iff_of_true ⟨files, [], rfl, fun k => (and_iff_left ?_).symm⟩ fun first hfirst => ?_
      · rintro ⟨arg, hmem, -⟩
        exact List.not_mem_nil hmem
      · exact absurd hfirst (by simp)
  | cons first argv =>
      obtain ⟨r, hr⟩ := handleFile_eq sh drive first
      have hfits : (∃ h, r = .ok h) ↔ PathFits (joined sh.currdir first) .file := by
        have hnul := nul_notMem_joined hcur (hargv first List.mem_cons_self)
        refine Iff.trans ?_ (@handled_fits_iff (onDrive sh drive files) first .file true hnul)
        rw [← handleFile_ok_iff, hr]
        cases r with
        | error e => exact iff_of_false (fun h => by cases h.choose_spec) fun h => by cases h.choose_spec
        | ok h => exact iff_of_true ⟨h, rfl⟩ ⟨_, rfl⟩
      rw [List.head?_cons]
      simp only [Option.mem_def, Option.some.injEq, forall_eq']
      rw [← hfits]
      cases r with
      | error e =>
          refine iff_of_false ?_ ?_
          · rintro ⟨files', printed, hrun, -⟩
            rw [rmCmd, List.length_cons, rmLoop, List.getD_cons_zero, hr] at hrun
            cases hrun
          · rintro ⟨⟨h, heq⟩, -⟩
            cases heq
      | ok h =>
          obtain ⟨files', printed, hrun, hfiles⟩ := rmLoop_run hr
            (List.getD_cons_zero : (first :: argv).getD 0 [] = first) argv.length []
          rw [and_iff_right ⟨h, rfl⟩]
          constructor
          · rintro ⟨files₁, printed₁, hrun₁, hfiles₁⟩ arg hmem k hnames
            rw [rmCmd, List.length_cons, hrun] at hrun₁
            obtain rfl := (Prod.mk.inj (Except.ok.inj hrun₁)).1
            by_contra hnot
            have hthere : files k = true := by
              obtain ⟨h, -, -, -, hthere, -⟩ := hnames
              exact hthere
            exact ((hfiles₁ k).mp ((hfiles k).mpr ⟨hthere, hnot⟩)).2 ⟨arg, hmem, hnames⟩
          · intro hall
            refine ⟨files', printed, hrun, fun k => (hfiles k).trans (and_congr_right' ?_)⟩
            refine not_congr ⟨fun hnames => ⟨first, List.mem_cons_self, hnames⟩, ?_⟩
            rintro ⟨arg, hmem, hnames⟩
            exact hall arg hmem k hnames

/-- A drive on which each path is a file of its own. -/
def plain : Drive Bytes := { getstat := fun _ => none, file := some, removable := fun _ => true }

/-- `a` and `b` in the root. -/
def twoFiles : Files Bytes := fun path =>
  path = [0x6D, 0x73, 0x30, 0x3A, 0x2F, 0x61] ∨ path = [0x6D, 0x73, 0x30, 0x3A, 0x2F, 0x62]

theorem twice_removed : RemovesNamed bareShell plain [[0x61], [0x61]] twoFiles := by
  refine (rmCmd_iff (by decide) (by decide)).mpr fun first hfirst => ?_
  obtain rfl := Option.some.inj hfirst
  refine ⟨⟨fun h => absurd h (by decide), by decide, fun h => absurd h (by decide)⟩, ?_⟩
  intro arg harg k hnames
  obtain rfl : arg = [0x61] := by simpa using harg
  exact hnames

/-- `rm a b` leaves `b` where it is. -/
theorem second_stays : ¬RemovesNamed bareShell plain [[0x61], [0x62]] twoFiles := by
  rintro ⟨files', printed, hrun, hfiles⟩
  obtain ⟨files₁, printed₁, hrun₁, hthere⟩ : ∃ files₁ printed₁,
      rmCmd bareShell plain [[0x61], [0x62]] twoFiles = .ok (files₁, printed₁) ∧
        files₁ [0x6D, 0x73, 0x30, 0x3A, 0x2F, 0x62] = true := ⟨_, _, rfl, by decide⟩
  rw [hrun] at hrun₁
  obtain rfl := (Prod.mk.inj (Except.ok.inj hrun₁)).1
  exact ((hfiles _).mp hthere).2 ⟨[0x62], by decide, _, rfl, by decide, rfl, by decide, rfl⟩

end PsplinkUsb.Psplink.RemoveFiles
