import PsplinkUsb.Library.CString
import PsplinkUsb.Library.Lines
import PsplinkUsb.Library.Numerals
import PsplinkUsb.UsbHostfsPc.PathLength
import PsplinkUsb.UsbHostfsPc.PathResolution

namespace PsplinkUsb.UsbHostfsPc.DriveMap

open PsplinkUsb.Library.Ascii
open PsplinkUsb.Library.CString
open PsplinkUsb.Library.Lines
open PsplinkUsb.Library.Numerals
open PsplinkUsb.Library.Tokens
open PsplinkUsb.UsbHostfsPc.HostPath
open PsplinkUsb.UsbHostfsPc.PathConfinement
open PsplinkUsb.UsbHostfsPc.PathLength
open PsplinkUsb.UsbHostfsPc.PathResolution

def equals : UInt8 := 61
def newline : UInt8 := 10

abbrev Drives := Fin maxHostdrives → HostDrive

/-- What `add_drive` reads besides its arguments. -/
structure MountEnv where
  /-- `g_rootdir`. -/
  rootdir : Path
  /-- `opendir` succeeds. -/
  opendir : Path → Bool
  /-- `pthread_mutex_lock(&g_drivemtx)` succeeds. -/
  drivesLocked : Bool

variable (env : MountEnv)

/-- The path that `add_drive` makes of a directory. -/
def mountPath (dir : Path) : Path :=
  genPath (if dir.head? = some slash then dir
    else (env.rootdir ++ slash :: dir).take (pathMax - 1)) false

def addDrive (num : ℤ) (dir : Path) (drives : Drives) : Bool × Drives :=
  if h : 0 ≤ num ∧ num < maxHostdrives then
    let path := mountPath env dir
    if env.opendir path then
      if env.drivesLocked then
        (true, Function.update drives ⟨num.toNat, by omega⟩
          { rootdir := path, currdir := [slash] })
      else (false, drives)
    else (false, drives)
  else (false, drives)

/-- One round of the loop of `load_mapfile`, on what `fgets` stored. -/
def loadLine (drives : Drives) (line : List UInt8) : Drives :=
  let buf := ((cstr line).rdropWhile isSpace).dropWhile isSpace
  match buf with
  | [] => drives
  | c :: _ =>
      if isDigit c then
        match strtoul 10 buf with
        | some (num, e :: d :: dir) =>
            if e = equals ∧ isSpace d = false then
              (addDrive env ((num : ℤ).bmod (2 ^ 32)) (d :: dir) drives).2
            else drives
        | _ => drives
      else drives

/-- `load_mapfile` on a file, if it can be opened. A line is at most what `fgets` stores before
the NUL. -/
def loadMapfile (file : Option (List UInt8)) (drives : Drives) : Drives :=
  match file with
  | none => drives
  | some file => (lines newline (pathMax - 2) file).foldl (loadLine env) drives

/-- The file that `save_drives` writes. -/
def saveDrives (drives : Drives) : List UInt8 :=
  (List.finRange maxHostdrives).flatMap fun i =>
    decimalInt i.val ++ equals :: (drives i).rootdir ++ [newline]

/-- A root directory as `gen_path` leaves it, that `fgets` reads back whole. -/
structure Root (path : Path) : Prop where
  normal : ∃ dir, path = genPath dir false
  length : path.length < pathMax - 4
  no_newline : newline ∉ path
  no_nul : 0 ∉ path

/-- The last character of a path, if it has any, is no white space. -/
def EndsVisibly (path : Path) : Prop := (path.getLast?.all fun c => !isSpace c) = true

instance (path : Path) : Decidable (EndsVisibly path) :=
  inferInstanceAs (Decidable (_ = true))

variable {env} {path root : Path} {i : Fin maxHostdrives}

/-! ### One line -/

theorem Root.head (h : Root path) : path.head? = some slash := by
  obtain ⟨dir, rfl⟩ := h.normal
  rfl

theorem not_isSpace_slash : isSpace slash = false := by decide

theorem rdropWhile_root (h : path.head? = some slash) :
    ∃ rest, path.rdropWhile isSpace = slash :: rest := by
  obtain ⟨rest, rfl⟩ := List.head?_eq_some_iff.mp h
  exact ⟨_, @rdropWhile_append_cons _ [] rest _ _ not_isSpace_slash⟩

/-- What `save_drives` writes for a drive, without the newline. -/
def mapLine (i : Fin maxHostdrives) (root : Path) : List UInt8 :=
  decimalInt i.val ++ equals :: root

theorem digit_drive (i : Fin maxHostdrives) :
    decimalInt i.val = [digitChar i.val] ∧ numeral 10 i.val = [digitChar i.val] ∧
      digitChar i.val ≠ 0 ∧ isSpace (digitChar i.val) = false ∧
      isDigit (digitChar i.val) = true := by
  have hall : ∀ i : Fin maxHostdrives,
      decimalInt i.val = [digitChar i.val] ∧ numeral 10 i.val = [digitChar i.val] ∧
        digitChar i.val ≠ 0 ∧ isSpace (digitChar i.val) = false ∧
        isDigit (digitChar i.val) = true := by
    decide
  exact hall i

theorem length_mapLine (i : Fin maxHostdrives) (root : Path) :
    (mapLine i root).length = root.length + 2 := by
  rw [mapLine, (digit_drive i).1]
  rfl

theorem newline_notMem_mapLine (hroot : newline ∉ root) : newline ∉ mapLine i root := by
  obtain ⟨hdecimal, -, -, hspace, -⟩ := digit_drive i
  have hdigit : newline ≠ digitChar i.val := by
    intro heq
    rw [← heq] at hspace
    cases hspace
  rw [mapLine, hdecimal, List.singleton_append, List.mem_cons, List.mem_cons, not_or, not_or]
  exact ⟨hdigit, by decide, hroot⟩

theorem trimmed_mapLine (hnul : 0 ∉ root) :
    ((cstr (mapLine i root ++ [newline])).rdropWhile isSpace).dropWhile isSpace =
      mapLine i (root.rdropWhile isSpace) := by
  obtain ⟨hdecimal, -, hzero, hspace, -⟩ := digit_drive i
  have hline (text : List UInt8) : mapLine i text = [digitChar i.val] ++ equals :: text := by
    rw [mapLine, hdecimal]
  have hend : mapLine i root ++ [newline] = mapLine i (root ++ [newline]) := by
    rw [mapLine, mapLine, List.append_assoc, List.cons_append]
  have hstring : 0 ∉ mapLine i (root ++ [newline]) := by
    rw [hline]
    simp [hnul, hzero.symm, newline, equals]
  have hnewline : (root ++ [newline]).rdropWhile isSpace = root.rdropWhile isSpace :=
    List.rdropWhile_concat_pos _ _ _ (by decide)
  rw [hend, cstr_of_not_mem hstring, hline, hline, rdropWhile_append_cons (by decide), hnewline,
    List.singleton_append, List.dropWhile_cons_of_neg (by simp [hspace])]

theorem loadLine_mapLine (drives : Drives) (hhead : root.head? = some slash) (hnul : 0 ∉ root) :
    loadLine env drives (mapLine i root ++ [newline]) =
      (addDrive env i.val (root.rdropWhile isSpace) drives).2 := by
  obtain ⟨hdecimal, hnumeral, -, -, hdigit⟩ := digit_drive i
  obtain ⟨rest, hrest⟩ := rdropWhile_root hhead
  have hlt : i.val < 8 := i.isLt
  have hline : mapLine i (slash :: rest) = digitChar i.val :: equals :: slash :: rest := by
    rw [mapLine, hdecimal]
    rfl
  have hnumber : strtoul 10 (digitChar i.val :: equals :: slash :: rest) =
      some (i.val, equals :: slash :: rest) := by
    have happend := @strtoul_numeral_append (equals :: slash :: rest) i.val (by omega) (by
      intro c hc
      obtain rfl := Option.mem_some_iff.mp hc
      decide)
    rwa [hnumeral] at happend
  have hint : (i.val : ℤ).bmod (2 ^ 32) = i.val := by
    rw [Int.bmod_eq_of_le (by omega) (by omega)]
  simp only [loadLine, trimmed_mapLine hnul, hrest, hline]
  rw [if_pos hdigit, hnumber]
  dsimp only
  rw [if_pos ⟨rfl, not_isSpace_slash⟩, hint]

/-! ### The whole file -/

/-- What a drive is when its line has been read. -/
def mounted (env : MountEnv) (root : Path) (before : HostDrive) : HostDrive :=
  if env.opendir (genPath root false) ∧ env.drivesLocked then
    { rootdir := genPath root false, currdir := [slash] }
  else before

theorem addDrive_mounted (drives : Drives) (hhead : path.head? = some slash) :
    (addDrive env i.val path drives).2 =
      Function.update drives i (mounted env path (drives i)) := by
  have hnum : (0 : ℤ) ≤ i.val ∧ (i.val : ℤ) < maxHostdrives :=
    ⟨Int.natCast_nonneg _, Int.ofNat_lt.mpr i.isLt⟩
  have hpath : mountPath env path = genPath path false := by
    rw [mountPath, if_pos hhead]
  rw [addDrive, dif_pos hnum, mounted]
  simp only [hpath]
  cases env.opendir (genPath path false) with
  | false => simp
  | true =>
      cases env.drivesLocked with
      | false => simp
      | true => simp

theorem foldl_update {ι β : Type} [DecidableEq ι] (f : ι → β → β) (l : List ι) (hl : l.Nodup)
    (d : ι → β) :
    l.foldl (fun d i => Function.update d i (f i (d i))) d =
      fun i => if i ∈ l then f i (d i) else d i := by
  induction l generalizing d with
  | nil => simp
  | cons j l ih =>
      obtain ⟨hj, hl⟩ := List.nodup_cons.mp hl
      rw [List.foldl_cons, ih hl]
      funext i
      rcases eq_or_ne i j with rfl | hne
      · rw [if_neg hj, if_pos List.mem_cons_self, Function.update_self]
      · simp only [Function.update_of_ne hne, List.mem_cons, hne, false_or]

theorem saveDrives_eq (saved : Drives) :
    saveDrives saved =
      ((List.finRange maxHostdrives).map fun i => mapLine i (saved i).rootdir).flatMap
        fun l => l ++ [newline] := by
  rw [saveDrives, List.flatMap_map]
  rfl

/-- Reading a saved map mounts every drive on its root, less the white space at its end. -/
theorem loadMapfile_saveDrives {saved : Drives} (hroot : ∀ i, Root (saved i).rootdir)
    (before : Drives) :
    loadMapfile env (some (saveDrives saved)) before =
      fun i => mounted env ((saved i).rootdir.rdropWhile isSpace) (before i) := by
  have hlines : lines newline (pathMax - 2) (saveDrives saved) =
      (List.finRange maxHostdrives).map fun i => mapLine i (saved i).rootdir ++ [newline] := by
    rw [saveDrives_eq, lines_flatMap, List.map_map]
    · rfl
    · exact List.forall_mem_map.mpr fun i _ => newline_notMem_mapLine (hroot i).no_newline
    · intro line hline
      obtain ⟨i, -, rfl⟩ := List.mem_map.mp hline
      have hlength := (hroot i).length
      rw [length_mapLine]
      simp only [pathMax] at hlength ⊢
      omega
  rw [loadMapfile, hlines, List.foldl_map]
  have hstep (drives : Drives) (i : Fin maxHostdrives) :
      loadLine env drives (mapLine i (saved i).rootdir ++ [newline]) =
        Function.update drives i
          (mounted env ((saved i).rootdir.rdropWhile isSpace) (drives i)) := by
    obtain ⟨rest, hrest⟩ := rdropWhile_root (hroot i).head
    rw [loadLine_mapLine drives (hroot i).head (hroot i).no_nul, addDrive_mounted]
    rw [hrest]
    rfl
  simp only [hstep]
  rw [foldl_update (fun i => mounted env ((saved i).rootdir.rdropWhile isSpace)) _
    (List.nodup_finRange _)]
  funext i
  rw [if_pos (List.mem_finRange i)]

/-! ### The round trip -/

theorem rdropWhile_eq_iff : path.rdropWhile isSpace = path ↔ EndsVisibly path := by
  rw [List.rdropWhile_eq_self_iff, EndsVisibly]
  rcases eq_or_ne path [] with rfl | hne
  · simp
  · rw [List.getLast?_eq_some_getLast hne, Option.all_some, Bool.not_eq_true']
    simp [hne]

theorem length_rdropWhile_lt (h : ¬EndsVisibly path) :
    (path.rdropWhile isSpace).length < path.length := by
  have hfront : path.rdropWhile isSpace <+: path := List.rdropWhile_prefix _ _
  apply Nat.lt_of_le_of_ne hfront.length_le
  intro hlength
  exact h (rdropWhile_eq_iff.mp (hfront.eq_of_length hlength))

theorem Root.genPath_eq (h : Root path) : genPath path false = path := by
  obtain ⟨dir, rfl⟩ := h.normal
  exact genPath_genPath dir false

theorem mounted_root (hroot : Root root) (hexists : env.opendir root = true)
    (hlocked : env.drivesLocked = true) (hends : EndsVisibly root) (before : HostDrive) :
    (mounted env (root.rdropWhile isSpace) before).rootdir = root := by
  rw [rdropWhile_eq_iff.mpr hends, mounted, hroot.genPath_eq, if_pos ⟨hexists, hlocked⟩]

theorem mounted_trimmed (hroot : Root root) (hends : ¬EndsVisibly root) {before : HostDrive}
    (hbefore : before.rootdir ≠ root) :
    (mounted env (root.rdropWhile isSpace) before).rootdir ≠ root := by
  rw [mounted]
  split
  · obtain ⟨rest, hrest⟩ := rdropWhile_root hroot.head
    have hshort : (genPath (root.rdropWhile isSpace) false).length ≤
        (root.rdropWhile isSpace).length :=
      length_genPath_of_head (by rw [hrest]; rfl)
    have hless := length_rdropWhile_lt hends
    intro heq
    have hlength := congrArg List.length heq
    dsimp only at hlength
    omega
  · exact hbefore

/-- Loading a saved map restores all root directories, whatever they are meanwhile, exactly if
none of them ends in white space. -/
theorem load_saved_iff (env : MountEnv) (saved : Drives) (hroot : ∀ i, Root (saved i).rootdir)
    (hexists : ∀ i, env.opendir (saved i).rootdir = true) (hlocked : env.drivesLocked = true) :
    (∀ before i, (loadMapfile env (some (saveDrives saved)) before i).rootdir =
        (saved i).rootdir) ↔
      ∀ i, EndsVisibly (saved i).rootdir := by
  simp only [loadMapfile_saveDrives hroot]
  constructor
  · intro hrestored i
    by_contra hends
    let before : Drives := fun _ => { rootdir := [slash], currdir := [slash] }
    have hother : (before i).rootdir ≠ (saved i).rootdir := by
      intro heq
      rw [← heq] at hends
      exact hends (by decide : EndsVisibly [slash])
    exact mounted_trimmed (hroot i) hends hother (hrestored before i)
  · exact fun hends before i =>
      mounted_root (hroot i) (hexists i) hlocked (hends i) (before i)

/-- Every directory can be mounted. -/
def anyMount : MountEnv where
  rootdir := [slash]
  opendir := fun _ => true
  drivesLocked := true

/-- The same root for all drives. -/
def allDrives (root : Path) : Drives := fun _ => { rootdir := root, currdir := [slash] }

theorem root_named : Root [47, 49, 61, 32, 97] :=
  ⟨⟨[47, 49, 61, 32, 97], by decide⟩, by decide, by decide, by decide⟩

theorem root_spaced : Root [47, 97, 32] :=
  ⟨⟨[47, 97, 32], by decide⟩, by decide, by decide, by decide⟩

/-- `/1= a` is found again. -/
theorem load_saved_name :
    let saved := allDrives [47, 49, 61, 32, 97]
    EndsVisibly [47, 49, 61, 32, 97] ∧
      ∀ before i, (loadMapfile anyMount (some (saveDrives saved)) before i).rootdir =
        (saved i).rootdir := by
  have hends : EndsVisibly [47, 49, 61, 32, 97] := by decide
  exact ⟨hends, (load_saved_iff anyMount (allDrives [47, 49, 61, 32, 97]) (fun _ => root_named)
    (fun _ => rfl) rfl).mpr fun _ => hends⟩

/-- `/a` with a blank at its end is mounted as `/a`. -/
theorem load_saved_trims :
    let saved := allDrives [47, 97, 32]
    (∀ i, Root (saved i).rootdir) ∧ (∀ i, anyMount.opendir (saved i).rootdir = true) ∧
      ¬∀ before i, (loadMapfile anyMount (some (saveDrives saved)) before i).rootdir =
        (saved i).rootdir := by
  intro saved
  refine ⟨fun _ => root_spaced, fun _ => rfl, fun hrestored => ?_⟩
  have hfirst := hrestored saved ⟨0, by decide⟩
  rw [loadMapfile_saveDrives fun _ => root_spaced] at hfirst
  revert hfirst
  decide

end PsplinkUsb.UsbHostfsPc.DriveMap
