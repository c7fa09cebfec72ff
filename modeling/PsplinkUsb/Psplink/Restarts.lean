import PsplinkUsb.Library.CString
import PsplinkUsb.Psplink.CommandBuffers

namespace PsplinkUsb.Psplink.Restarts

open PsplinkUsb.Library.CString
open PsplinkUsb.Library.CheckedBuffer
open PsplinkUsb.Library.LexicalPath
open PsplinkUsb.Library.PathText
open PsplinkUsb.Psplink.CommandBuffers (handled_fits_iff head?_spelled PathFits)
open PsplinkUsb.Psplink.DecodeAddr (isASpace text)
open PsplinkUsb.Psplink.HandlePath
open PsplinkUsb.Psplink.NormalizePath
open PsplinkUsb.Psplink.PathResolving

def maxArgs : ℕ := 16

/-- The loop of `parse_sceargs`, with so many strings to go. -/
def argsFrom : ℕ → Bytes → List Bytes
  | 0, _ => []
  | _ + 1, [] => []
  | n + 1, c :: argp =>
      let arg := cstr (c :: argp)
      arg :: argsFrom n ((c :: argp).drop (arg.length + 1))

/-- `parse_sceargs`. -/
def parseSceargs (argp : Bytes) : List Bytes := argsFrom (maxArgs - 1) argp

/-- A path up to its last slash, with that. -/
def directory (path : Bytes) : Bytes := path.rdropWhile fun c => c ≠ slash

/-- A string that is stored, with its end, to an array of so many bytes. -/
def stored (size : ℕ) (s : Bytes) : Checked Bytes :=
  if s.length < size then .ok s else .error .outside

/-- `_main` of `boot271/main.c`: the path of the module that it starts with the arguments that it
has been given. -/
def prxPath (argv0 : Bytes) : Checked (Option Bytes) := do
  let path ← stored 1024 argv0
  if slash ∈ path then do
    let path ← stored 1024 (directory path ++ text "psplink.prx")
    .ok (some path)
  else .ok none

/-- The module that has been loaded, and what `g_context` has of the paths. -/
structure Shell where
  prx : Bytes
  bootfile : Bytes
  bootpath : Bytes
  currdir : Bytes
  deriving DecidableEq

/-- `initialise`, and `shellInit`. -/
def initialise (prx argp : Bytes) : Shell :=
  let argv := parseSceargs argp
  { prx := prx
    bootfile := argv.getD 0 []
    bootpath := directory (argv.getD 0 [])
    currdir := argv.getD 1 (text "host0:/") }

/-- The boot file is loaded with arguments, and starts the module, if it finds it. -/
def loadExec (argp : Bytes) : Checked (Option Shell) := do
  let prx ← prxPath (cstr argp)
  .ok (prx.map fun prx => initialise prx argp)

/-- `psplinkReset`, from the firmware 2.00 on. -/
def Shell.reset (sh : Shell) : Checked (Option Shell) := do
  let argp ← stored 256 (sh.bootfile ++ 0 :: sh.currdir)
  loadExec (argp ++ [0])

/-- `chdir_cmd`. -/
def Shell.chdir (sh : Shell) (io : Device) (dir : Bytes) : Checked Shell := do
  let h ← handlepath io sh.currdir dir .dir true ((joined sh.currdir dir).length + 3)
  if 1024 < h.size then .error .outside
  else .ok (if h.ret = 0 then sh else { sh with currdir := h.path })

/-- What the shell is told to do, with what the drivers say meanwhile. -/
inductive Command where
  | cd (io : Device) (dir : Bytes)
  | reset

/-- A command to the shell, if there is one. -/
def run : Option Shell → Command → Checked (Option Shell)
  | none, _ => .ok none
  | some sh, .cd io dir => do
      let sh ← sh.chdir io dir
      .ok (some sh)
  | some sh, .reset => sh.reset

section

variable {io : Device} {cur cur' : Currdir} {arg : Argument} {dev bootfile first : Bytes}
  {cs ds : List Bytes} {commands : List Command}

theorem ordinary_of_follow (h : follow here up [] (components cur arg) = some ds) :
    ∀ c ∈ ds, Component c ∧ Name c := by
  intro c hc
  have hsublist := foldl_enter_sublist here up [] (components cur arg)
  rw [foldl_enter_of_follow h, List.nil_append] at hsublist
  have hcomponent := component_of_mem cur arg c (hsublist.subset hc)
  have hname := names_of_follow (fun d hd => absurd hd List.not_mem_nil) h c hc
  exact ⟨hcomponent, hcomponent.ne_nil, hname.1, hname.2⟩

/-- Where an argument leads from a directory, if not above the root. -/
def leads (cur : Currdir) (arg : Argument) : Option Currdir :=
  match h : follow here up [] (components cur arg) with
  | none => none
  | some ds => some { cur with dirs := ds, ordinary := ordinary_of_follow h }

theorem leads_none (h : follow here up [] (components cur arg) = none) : leads cur arg = none := by
  unfold leads
  split
  · rfl
  · rename_i ds hds
    exact absurd (h.symm.trans hds) (by simp)

theorem leads_some (h : follow here up [] (components cur arg) = some ds) :
    leads cur arg = some { cur with dirs := ds, ordinary := ordinary_of_follow h } := by
  unfold leads
  split
  · rename_i hnone
    exact absurd (h.symm.trans hnone) (by simp)
  · rename_i ds' hds
    obtain rfl := Option.some.inj (h.symm.trans hds)
    rfl

/-- A directory is there. The root of a device always is. -/
def there (io : Device) (cur : Currdir) : Bool :=
  cur.dirs = [] || io.getstat (spelled slash cur.root cur.dirs) = some true

/-- Go from `base`, or else stay. -/
def goFrom (io : Device) (base : Currdir) (arg : Argument) (cur : Currdir) : Currdir :=
  match leads base arg with
  | none => cur
  | some cur' => if there io cur' then cur' else cur

def rootOf (dev : Bytes) (hdev : slash ∉ dev ∧ colon ∉ dev ∧ 0 ∉ dev) : Currdir :=
  { dev := dev, dirs := [], dev_notMem := hdev, ordinary := fun _ hc => absurd hc List.not_mem_nil }

/-- The places that a run of commands goes through. The arguments and the strings for the loader
fit into the arrays for them, and a `.` among the components does no harm. -/
inductive Goes (bootfile : Bytes) : Currdir → List Command → Currdir → Prop
  | nil (cur : Currdir) : Goes bootfile cur [] cur
  | relative {cur cur' : Currdir} {commands : List Command} (io : Device) (arg : Argument)
      (hharmless : Harmless (components cur arg) .dir)
      (hfits : (joined cur.text arg.text).length ≤ 1022)
      (h : Goes bootfile (goFrom io cur arg cur) commands cur') :
      Goes bootfile cur (.cd io arg.text :: commands) cur'
  | device {cur cur' : Currdir} {commands : List Command} {dev : Bytes} (io : Device)
      (hdev : slash ∉ dev ∧ colon ∉ dev ∧ 0 ∉ dev) (arg : Argument) (hleading : arg.leading = true)
      (hharmless : Harmless (components (rootOf dev hdev) arg) .dir)
      (hfits : (dev ++ colon :: arg.text).length ≤ 1022)
      (h : Goes bootfile (goFrom io (rootOf dev hdev) arg cur) commands cur') :
      Goes bootfile cur (.cd io (dev ++ colon :: arg.text) :: commands) cur'
  | reset {cur cur' : Currdir} {commands : List Command}
      (hfits : bootfile.length + cur.text.length + 2 ≤ 256)
      (h : Goes bootfile cur commands cur') : Goes bootfile cur (.reset :: commands) cur'

/-- The shell with its boot file, in a directory. -/
def shellAt (bootfile : Bytes) (cur : Currdir) : Shell where
  prx := directory bootfile ++ text "psplink.prx"
  bootfile := bootfile
  bootpath := directory bootfile
  currdir := cur.text

theorem cstr_append_zero_drop {s : Bytes} (h : 0 ∉ s) (rest : Bytes) :
    cstr (s ++ 0 :: rest) = s ∧ (s ++ 0 :: rest).drop (s.length + 1) = rest := by
  refine ⟨cstr_append_zero h rest, ?_⟩
  rw [List.append_cons, List.drop_left' (by rw [List.length_append, List.length_singleton])]

theorem argsFrom_cons {s : Bytes} (h : 0 ∉ s) (n : ℕ) (rest : Bytes) :
    argsFrom (n + 1) (s ++ 0 :: rest) = s :: argsFrom n rest := by
  obtain ⟨hcstr, hdrop⟩ := cstr_append_zero_drop h rest
  obtain ⟨c, argp, hargp⟩ := List.exists_cons_of_ne_nil
    (List.append_ne_nil_of_right_ne_nil s (List.cons_ne_nil 0 rest))
  rw [hargp] at hcstr hdrop ⊢
  rw [argsFrom, hcstr, hdrop]

theorem argsFrom_strings (n : ℕ) {argv : List Bytes} (h : ∀ arg ∈ argv, 0 ∉ arg) :
    argsFrom n (argv.flatMap fun arg => arg ++ [0]) = argv.take n := by
  induction n generalizing argv with
  | zero => rfl
  | succ n ih =>
      cases argv with
      | nil => rfl
      | cons arg argv =>
          obtain ⟨harg, hargv⟩ := List.forall_mem_cons.mp h
          rw [List.flatMap_cons, List.append_assoc, List.singleton_append, argsFrom_cons harg,
            ih hargv, List.take_succ_cons]

theorem length_directory_le (path : Bytes) : (directory path).length ≤ path.length :=
  (List.rdropWhile_prefix _ path).length_le

theorem reset_shellAt (hslash : slash ∈ bootfile) (hnul : 0 ∉ bootfile) (hcur : 0 ∉ cur.text)
    (hfits : bootfile.length + cur.text.length + 2 ≤ 256) :
    (shellAt bootfile cur).reset = .ok (some (shellAt bootfile cur)) := by
  have hargp : stored 256 (bootfile ++ 0 :: cur.text) = .ok (bootfile ++ 0 :: cur.text) := by
    refine if_pos ?_
    rw [List.length_append, List.length_cons]
    omega
  have hstrings : bootfile ++ 0 :: cur.text ++ [0] =
      [bootfile, cur.text].flatMap fun arg => arg ++ [0] := by simp
  have hargv : parseSceargs (bootfile ++ 0 :: cur.text ++ [0]) = [bootfile, cur.text] := by
    rw [parseSceargs, hstrings, argsFrom_strings _ (by simp [hnul, hcur])]
    rfl
  have hpath : stored 1024 bootfile = .ok bootfile := if_pos (by omega)
  have hprx : stored 1024 (directory bootfile ++ text "psplink.prx") =
      .ok (directory bootfile ++ text "psplink.prx") := by
    have hname : (text "psplink.prx").length = 11 := rfl
    have hlength := length_directory_le bootfile
    refine if_pos ?_
    rw [List.length_append]
    omega
  have hargv0 : cstr (bootfile ++ 0 :: cur.text ++ [0]) = bootfile := by
    rw [List.append_assoc, List.cons_append, cstr_append_zero hnul]
  rw [Shell.reset, shellAt, hargp, ok_bind, loadExec, hargv0, prxPath, hpath, ok_bind,
    if_pos hslash, hprx, ok_bind, ok_bind, Option.map_some, initialise, hargv]
  rfl

/-- The directory can be too long for a reset, which then stores outside its array. -/
theorem reset_faults_iff (hslash : slash ∈ bootfile) (hnul : 0 ∉ bootfile) (hcur : 0 ∉ cur.text) :
    (shellAt bootfile cur).reset = .error .outside ↔
      256 < bootfile.length + cur.text.length + 2 := by
  constructor
  · intro hfault
    by_contra hfits
    rw [reset_shellAt hslash hnul hcur (not_lt.mp hfits)] at hfault
    cases hfault
  · intro hlong
    have hargp : stored 256 (bootfile ++ 0 :: cur.text) = .error .outside := by
      refine if_neg ?_
      rw [List.length_append, List.length_cons]
      omega
    rw [Shell.reset, shellAt, hargp]
    rfl

theorem nul_notMem_spelled (hfirst : 0 ∉ first) (hcs : ∀ c ∈ cs, 0 ∉ c) :
    0 ∉ spelled slash first cs := by
  rw [spelled, List.mem_append, not_or, List.mem_flatMap]
  refine ⟨hfirst, ?_⟩
  rintro ⟨c, hc, hmem⟩
  rcases List.mem_cons.mp hmem with h | h
  · exact absurd h (by decide)
  · exact hcs c hc h

theorem nul_notMem_root (cur : Currdir) : 0 ∉ cur.root := by
  rw [Currdir.root, List.mem_append, List.mem_singleton, not_or]
  exact ⟨cur.dev_notMem.2.2, by decide⟩

theorem nul_notMem_text (cur : Currdir) : 0 ∉ cur.text := by
  refine nul_notMem_spelled (nul_notMem_root cur) (List.forall_mem_append.mpr ⟨fun c hc => ?_, ?_⟩)
  · exact (cur.ordinary c hc).1.nul_notMem
  · exact fun c hc => List.mem_singleton.mp hc ▸ List.not_mem_nil

theorem isdir_text (io : Device) (cur : Currdir) : isdir io cur.text = there io cur := by
  have htext : cur.text = spelled slash cur.root cur.dirs ++ [slash] := spelled_concat
  have hroot : 1 ≤ cur.root.length := List.length_pos_of_ne_nil cur.root_ne_nil
  have hlength : cur.root.length ≤ (spelled slash cur.root cur.dirs).length := by
    rw [spelled, List.length_append]
    exact Nat.le_add_right _ _
  have htwo : ¬(spelled slash cur.root cur.dirs ++ [slash]).length < 2 := by
    rw [List.length_append, List.length_singleton]
    omega
  rw [htext, isdir, if_neg htwo, if_pos List.getLast?_concat, List.dropLast_concat, there]
  rcases hdirs : cur.dirs with _ | ⟨c, cs⟩
  · have hcolon : (spelled slash cur.root []).getLast? = some colon := by
      rw [spelled_nil, Currdir.root, List.getLast?_concat]
    have hfirst : (spelled slash cur.root [] ++ [slash]).idxOf slash =
        (spelled slash cur.root [] ++ [slash]).length - 1 := by
      rw [spelled_nil, List.idxOf_append_of_notMem cur.notMem_root, List.length_append]
      rfl
    rw [if_pos ⟨hcolon, hfirst⟩]
    rfl
  · have hfirst : (spelled slash cur.root (c :: cs) ++ [slash]).idxOf slash = cur.root.length := by
      rw [spelled_cons, List.append_assoc, List.idxOf_append_of_notMem cur.notMem_root,
        List.cons_append, List.idxOf_cons_self, Nat.add_zero]
    have hlast : (spelled slash cur.root (c :: cs) ++ [slash]).length - 1 ≠ cur.root.length := by
      simp only [spelled_cons, List.length_append, List.length_cons, List.length_nil]
      omega
    rw [if_neg fun h => hlast (h.2.symm.trans hfirst)]
    rfl

/-- A path that is looked for and is not there is not accepted. -/
def refuse (io : Device) (type : PathType) (h : Handled) : Handled :=
  if h.ret = 0 ∨ accepted io h.path type then h else { h with ret := 0 }

theorem afterDots_valid (io : Device) (type : PathType) (size : ℕ) (path : Bytes) (rounds : ℕ) :
    afterDots io type true size path rounds =
      (afterDots io type false size path rounds).map (refuse io type) := by
  rw [afterDots, afterDots]
  dsimp only
  split
  · rfl
  · cases normalizePath (slashEnd type (path.rdropWhile fun c => isASpace c)) rounds with
    | error e => rfl
    | ok r =>
        obtain ⟨ret, path⟩ := r
        rw [ok_bind, ok_bind]
        dsimp only
        by_cases hret : ret = 0
        · rw [if_pos (.inl hret), if_pos (.inl hret)]
          exact congrArg Except.ok (if_pos (.inl rfl)).symm
        · have hfalse : ¬(ret = 0 ∨ false = true ∧ ¬accepted io path type = true) := by simp [hret]
          rw [if_neg hfalse]
          by_cases haccepted : accepted io path type = true
          · rw [if_neg (by simp [hret, haccepted])]
            exact congrArg Except.ok (if_pos (.inr haccepted)).symm
          · rw [if_pos (.inr ⟨rfl, haccepted⟩)]
            exact congrArg Except.ok (if_neg (by simp [haccepted])).symm

theorem handlepath_valid (io : Device) (currentdir relative : Bytes) (type : PathType)
    (rounds : ℕ) : handlepath io currentdir relative type true rounds =
      (handlepath io currentdir relative type false rounds).map (refuse io type) := by
  rw [handlepath, handlepath]
  dsimp only
  cases dotLoop rounds (joined currentdir relative) 0 with
  | error e => rfl
  | ok r =>
      rw [ok_bind, ok_bind]
      split
      · rfl
      · exact afterDots_valid io type _ _ rounds

theorem handlepath_leads (io : Device) (base : Currdir) (arg : Argument)
    (hharmless : Harmless (components base arg) .dir) {rounds : ℕ}
    (hrounds : (components base arg).length + 2 ≤ rounds) :
    ∃ h, handlepath io base.text arg.text .dir true rounds = .ok h ∧
      match leads base arg with
      | none => h.ret = 0
      | some cur => if there io cur then h.ret = 1 ∧ h.path = cur.text else h.ret = 0 := by
  obtain ⟨h, heq, hresult⟩ := handlepath_eq io base arg (by decide : PathType.dir ≠ .ether) hrounds
  have hleft := (left_walk_iff (components base arg) .dir).mpr hharmless
  refine ⟨refuse io .dir h, by rw [handlepath_valid, heq]; rfl, ?_⟩
  cases hfollow : follow here up [] (components base arg) with
  | none =>
      rw [hfollow] at hleft
      rw [show walk [] (components base arg) = none from hleft] at hresult
      have hkept : refuse io .dir h = h := if_pos (.inl hresult)
      rw [leads_none hfollow, hkept]
      exact hresult
  | some ds =>
      rw [hfollow] at hleft
      obtain ⟨ks, hwalk, hks⟩ := hleft
      rw [hwalk] at hresult
      obtain ⟨hret, hpath⟩ := hresult
      rw [hks] at hpath
      have haccepted : accepted io h.path .dir = there io
          { base with dirs := ds, ordinary := ordinary_of_follow hfollow } := by
        rw [hpath]
        exact isdir_text io { base with dirs := ds, ordinary := ordinary_of_follow hfollow }
      rw [leads_some hfollow]
      dsimp only
      rw [← haccepted]
      by_cases hthere : accepted io h.path .dir = true
      · have hkept : refuse io .dir h = h := if_pos (.inr hthere)
        rw [if_pos hthere, hkept]
        exact ⟨hret, hpath⟩
      · have hrefuse : refuse io .dir h = { h with ret := 0 } := if_neg (by simp [hret, hthere])
        rw [if_neg hthere, hrefuse]

theorem length_components_le (base : Currdir) (arg : Argument) :
    (components base arg).length ≤ (joined base.text arg.text).length := by
  obtain ⟨trailing, hspelled⟩ := joined_text base arg
  have hlength := length_le_length_spelled slash base.root
    (components base arg ++ if trailing then [[]] else [])
  rw [List.length_append] at hlength
  rw [hspelled]
  omega

theorem size_handlepath_le {base : Currdir} {h : Handled}
    (hfits : (joined base.text arg.text).length ≤ 1022)
    (heq : handlepath io base.text arg.text .dir true ((joined base.text arg.text).length + 3) =
      .ok h) : h.size ≤ 1024 := by
  obtain ⟨trailing, hspelled⟩ := joined_text base arg
  have hnul : 0 ∉ joined base.text arg.text := by
    rw [hspelled]
    refine nul_notMem_spelled (nul_notMem_root base) (List.forall_mem_append.mpr ⟨?_, ?_⟩)
    · exact fun c hc => (component_of_mem base arg c hc).nul_notMem
    · intro c hc
      split at hc
      · exact List.mem_singleton.mp hc ▸ List.not_mem_nil
      · exact absurd hc List.not_mem_nil
  have hpath : PathFits (joined base.text arg.text) .dir := by
    refine ⟨fun hhead => ?_, by omega, fun hfull => absurd hfull (by omega)⟩
    rw [hspelled] at hhead
    exact absurd (head?_spelled base.notMem_root hhead) base.root_ne_nil
  obtain ⟨h', heq', hsize⟩ := (@handled_fits_iff
    { CommandBuffers.bareShell with currdir := base.text, device := io } arg.text .dir true
    hnul).mpr hpath
  rw [CommandBuffers.Shell.handled] at heq'
  obtain rfl := Except.ok.inj (heq'.symm.trans heq)
  exact hsize

theorem chdir_eq {sh : Shell} {base : Currdir} {dir : Bytes}
    (hjoined : joined sh.currdir dir = joined base.text arg.text) (hcurrdir : sh.currdir = cur.text)
    (hharmless : Harmless (components base arg) .dir)
    (hfits : (joined sh.currdir dir).length ≤ 1022) :
    sh.chdir io dir = .ok { sh with currdir := (goFrom io base arg cur).text } := by
  have hsame : ∀ rounds, handlepath io sh.currdir dir .dir true rounds =
      handlepath io base.text arg.text .dir true rounds := by
    intro rounds
    rw [handlepath, handlepath, hjoined]
  have hcomponents := length_components_le base arg
  obtain ⟨h, heq, hleads⟩ := handlepath_leads io base arg hharmless
    (show _ ≤ (joined base.text arg.text).length + 3 by omega)
  have hsize : h.size ≤ 1024 := size_handlepath_le (hjoined ▸ hfits) heq
  have hstay : { sh with currdir := cur.text } = sh := by
    rw [← hcurrdir]
  rw [Shell.chdir, hsame, hjoined, heq, ok_bind, if_neg (Nat.not_lt.mpr hsize), goFrom]
  cases hcur : leads base arg with
  | none =>
      rw [hcur] at hleads
      rw [if_pos hleads, hstay]
  | some cur' =>
      rw [hcur] at hleads
      dsimp only at hleads ⊢
      by_cases hthere : there io cur' = true
      · rw [if_pos hthere] at hleads ⊢
        rw [hleads.1, if_neg Nat.one_ne_zero, hleads.2]
      · rw [if_neg hthere] at hleads ⊢
        rw [if_pos hleads, hstay]

theorem joined_device (hdev : slash ∉ dev ∧ colon ∉ dev ∧ 0 ∉ dev) (hleading : arg.leading = true)
    (currdir : Bytes) :
    joined currdir (dev ++ colon :: arg.text) = joined (rootOf dev hdev).text arg.text := by
  have hdevice : device (rootOf dev hdev).text = dev ++ [colon] := by
    have htext : (rootOf dev hdev).text = dev ++ colon :: [slash] := by
      rw [Currdir.text, Currdir.root, spelled, List.append_assoc]
      rfl
    rw [htext]
    exact device_append hdev.2.1 [slash]
  have hcolon : colon ∈ dev ++ colon :: arg.text := List.mem_append_right _ List.mem_cons_self
  rw [joined, if_pos hcolon, joined, if_neg arg.colon_notMem_text,
    if_pos (arg.head?_text.mpr hleading), hdevice, List.nil_append, List.append_assoc,
    List.singleton_append]

end

/-- Over any run of `cd` and `reset`, the shell is where its commands lead, and it is the same
module with the same boot file: a reset changes nothing of that. -/
theorem directory_kept {bootfile : Bytes} (hslash : slash ∈ bootfile) (hnul : 0 ∉ bootfile)
    {cur cur' : Currdir} {commands : List Command} (h : Goes bootfile cur commands cur') :
    commands.foldlM run (some (shellAt bootfile cur)) = .ok (some (shellAt bootfile cur')) := by
  induction h with
  | nil cur => rfl
  | @relative cur cur' commands io arg hharmless hfits h ih =>
      have hcd : (shellAt bootfile cur).chdir io arg.text =
          .ok (shellAt bootfile (goFrom io cur arg cur)) := chdir_eq rfl rfl hharmless hfits
      rw [List.foldlM_cons, run, hcd, ok_bind, ok_bind]
      exact ih
  | @device cur cur' commands dev io hdev arg hleading hharmless hfits h ih =>
      have hjoined := joined_device hdev hleading cur.text
      have hlength : (joined cur.text (dev ++ colon :: arg.text)).length ≤ 1022 := by
        rw [joined, if_pos (List.mem_append_right _ List.mem_cons_self)]
        exact hfits
      have hcd : (shellAt bootfile cur).chdir io (dev ++ colon :: arg.text) =
          .ok (shellAt bootfile (goFrom io (rootOf dev hdev) arg cur)) :=
        chdir_eq hjoined rfl hharmless hlength
      rw [List.foldlM_cons, run, hcd, ok_bind, ok_bind]
      exact ih
  | @reset cur cur' commands hfits h ih =>
      rw [List.foldlM_cons, run, reset_shellAt hslash hnul (nul_notMem_text cur) hfits, ok_bind]
      exact ih

/-- `ms0:/a/b` -/
def folderBoot : Bytes := [0x6D, 0x73, 0x30, 0x3A, 0x2F, 0x61, 0x2F, 0x62]

/-- Every directory is there. -/
def everyDirectory : Device := { getstat := fun _ => some true, opens := fun _ => false }

theorem directory_kept_beside : ∃ cur : Currdir,
    cur.text = [0x6D, 0x73, 0x30, 0x3A, 0x2F, 0x62, 0x2F] ∧
      [.cd everyDirectory upAndDown.text, .reset].foldlM run (some (shellAt folderBoot inFolder)) =
        .ok (some (shellAt folderBoot cur)) :=
  ⟨goFrom everyDirectory inFolder upAndDown inFolder, by decide,
    directory_kept (by decide) (by decide)
      (.relative everyDirectory upAndDown (.inl (by decide)) (by decide)
        (.reset (by decide) (.nil _)))⟩

end PsplinkUsb.Psplink.Restarts
