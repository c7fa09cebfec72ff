import PsplinkUsb.Psplink.MemorySearch
import PsplinkUsb.Psplink.PathResolving

/-!
The fixed buffers of the shell commands of `psplink/shell.c` and `psplink/util.c`: the paths that
`handlepath` leaves, the arguments of `build_args`, the parameters of `call` and the values that
`findw` and `findh` look for.
-/

namespace PsplinkUsb.Psplink.CommandBuffers

open PsplinkUsb.Library.CheckedBuffer
open PsplinkUsb.Library.LexicalPath
open PsplinkUsb.Library.LittleEndian (length_toBytes)
open PsplinkUsb.Library.PathText
open PsplinkUsb.Psplink.DecodeAddr (Machine memDecode isASpace text)
open PsplinkUsb.Psplink.HandlePath
open PsplinkUsb.Psplink.MemorySearch (strtoint valueBytes)
open PsplinkUsb.Psplink.NormalizePath
open PsplinkUsb.Psplink.PathResolving
open PsplinkUsb.Psplink.ProgramMemory (Word)

inductive Buffer where
  | path | args | params | search
  deriving DecidableEq, Repr

/-- In bytes, and words for the parameters. -/
def Buffer.size : Buffer → ℕ
  | path => 1024
  | args => 1024
  | params => 6
  | search => 128

/-- How much of a buffer is stored to, from its start on. -/
structure Use where
  buffer : Buffer
  count : ℕ
  deriving DecidableEq, Repr

/-- What the commands run with. -/
structure Shell where
  currdir : Bytes
  bootpath : Bytes
  gdb : Bool
  device : Device
  machine : Machine
  getModuleUid : Bytes → Option Word
  loadModule : Bytes → Bool

/-- The strings one behind the other, each with its NUL. -/
def buildArgs (execfile : Bytes) (argv : List Bytes) : Bytes :=
  argv.foldl (fun args arg => args ++ (arg ++ [0])) (execfile ++ [0])

def argsUse (execfile : Bytes) (argv : List Bytes) : Use :=
  ⟨.args, (buildArgs execfile argv).length⟩

/-- The words that the loop of `call` stores to: `memDecode` stores also where it fails. -/
def paramCount (m : Machine) : List Bytes → ℕ
  | [] => 0
  | arg :: argv => if (memDecode m arg).isSome then paramCount m argv + 1 else 1

/-- The bytes that the loop of `findw` or `findh` stores to. -/
def searchCount (width : ℕ) : List Bytes → ℕ
  | [] => 0
  | arg :: argv => if (strtoint arg).isSome then width + searchCount width argv else 0

/-- The commands, with the calls of `handlepath` that store to nothing but a path as one: some
argument is resolved. -/
inductive Command where
  | path (arg : ℕ) (type : PathType) (valid : Bool)
  | modstart | modexec | ldstart | debug | call | findw | findh
  deriving DecidableEq, Repr

namespace Shell

variable (sh : Shell)

/-- `handlepath`, with rounds enough for its loops. -/
def handled (relative : Bytes) (type : PathType) (valid : Bool) : Checked Handled :=
  handlepath sh.device sh.currdir relative type valid ((joined sh.currdir relative).length + 3)

def pathUse (relative : Bytes) (type : PathType) (valid : Bool) : Checked (List Use) := do
  let h ← sh.handled relative type valid
  .ok [⟨.path, h.size⟩]

def loadStartModule (name : Bytes) (argv : List Bytes) : List Use :=
  if sh.loadModule name then [argsUse name argv] else []

def loadGdb (argv : List Bytes) : List Use :=
  sh.loadStartModule (sh.bootpath ++ text "usbgdb.prx") argv

/-- A file, and what is done with its path when it opens. -/
def withFile (file : Bytes) (act : Bytes → List Use) : Checked (List Use) := do
  let h ← sh.handled file .file true
  .ok (⟨.path, h.size⟩ :: if h.ret = 0 then [] else act h.path)

def modstartCmd (argv : List Bytes) : List Use :=
  if (sh.getModuleUid (argv.getD 0 [])).isSome then
    match argv.tail with
    | [] => [argsUse (text "unknown") []]
    | execfile :: argv => [argsUse execfile argv]
  else []

/-- The file is behind the key, if there is one. -/
def modexecFile (argv : List Bytes) : Option Bytes :=
  if (argv.getD 0 []).head? = some 0x40 then argv[1]? else some (argv.getD 0 [])

def modexecCmd (argv : List Bytes) : Checked (List Use) :=
  match modexecFile argv with
  | none => .ok []
  | some file => sh.withFile file fun path => [argsUse path argv.tail]

def ldstartCmd (argv : List Bytes) : Checked (List Use) :=
  if 0 < argv.length then
    sh.withFile (argv.getD 0 []) fun path => sh.loadStartModule path argv.tail
  else .ok []

def debugCmd (argv : List Bytes) : Checked (List Use) :=
  sh.withFile (argv.getD 0 []) fun path =>
    if sh.gdb then [] else sh.loadGdb (path :: argv.tail)

def callCmd (argv : List Bytes) : List Use :=
  if (memDecode sh.machine (argv.getD 0 [])).isSome then
    [⟨.params, paramCount sh.machine argv.tail⟩]
  else []

/-- `findw` and `findh`, with the bytes of each value. -/
def findCmd (width : ℕ) (argv : List Bytes) : List Use :=
  if (memDecode sh.machine (argv.getD 0 [])).isSome ∧ (memDecode sh.machine (argv.getD 1 [])).isSome
  then [⟨.search, searchCount width (argv.drop 2)⟩]
  else []

def run (argv : List Bytes) : Command → Checked (List Use)
  | .path arg type valid => sh.pathUse (argv.getD arg []) type valid
  | .modstart => .ok (sh.modstartCmd argv)
  | .modexec => sh.modexecCmd argv
  | .ldstart => sh.ldstartCmd argv
  | .debug => sh.debugCmd argv
  | .call => .ok (sh.callCmd argv)
  | .findw => .ok (sh.findCmd 4 argv)
  | .findh => .ok (sh.findCmd 2 argv)

end Shell

/-- A command's arguments, behind its name. -/
structure Delivered (argv : List Bytes) : Prop where
  count : argv.length + 1 ≤ 16
  bytes : (buildArgs [] argv).length ≤ 4095
  nul : ∀ arg ∈ argv, 0 ∉ arg

/-- The bytes that strings take up, each with its NUL. -/
def argBytes : List Bytes → ℕ
  | [] => 0
  | arg :: argv => arg.length + 1 + argBytes argv

/-- There is nothing stored outside of the buffers. -/
def Stays (r : Checked (List Use)) : Prop := ∃ uses, r = .ok uses ∧ ∀ u ∈ uses, u.count ≤ u.buffer.size

/-- The components of a path, behind what stands before its first slash. -/
def behindFirst (path : Bytes) : List Bytes := (path.splitOn slash).tail

/-- A slash is put behind all of the path. -/
structure Grows (path : Bytes) (type : PathType) : Prop where
  dir : type = .dir
  last : ∀ x ∈ path.getLast?, x ≠ slash ∧ isASpace x = false
  names : here ∉ behindFirst path ∧ up ∉ behindFirst path

/-- A path that is put together is not too long, and one that starts with a slash does not lead
above that before its first `.`. -/
structure PathFits (path : Bytes) (type : PathType) : Prop where
  inside : path.head? = some slash → follow here up [] (before (behindFirst path)) ≠ none
  length_le : path.length ≤ 1023
  grows : path.length = 1023 → ¬Grows path type

namespace Shell

variable (sh : Shell)

/-- The path of a file that opens. -/
def resolved (file : Bytes) : Option Bytes :=
  match sh.handled file .file true with
  | .ok h => if h.ret = 0 then none else some h.path
  | .error _ => none

/-- The condition of a command on its arguments: paths that fit, no more than 1024 bytes of
arguments for a module, and no more than six parameters up to the first that is no address. -/
def Fits (argv : List Bytes) : Command → Prop
  | .path arg type _ => PathFits (joined sh.currdir (argv.getD arg [])) type
  | .modstart => (sh.getModuleUid (argv.getD 0 [])).isSome → argBytes argv.tail ≤ 1024
  | .modexec => ∀ file ∈ modexecFile argv, PathFits (joined sh.currdir file) .file ∧
      ∀ path ∈ sh.resolved file, argBytes (path :: argv.tail) ≤ 1024
  | .ldstart => 0 < argv.length → PathFits (joined sh.currdir (argv.getD 0 [])) .file ∧
      ∀ path ∈ sh.resolved (argv.getD 0 []), sh.loadModule path →
        argBytes (path :: argv.tail) ≤ 1024
  | .debug => PathFits (joined sh.currdir (argv.getD 0 [])) .file ∧
      ∀ path ∈ sh.resolved (argv.getD 0 []), ¬sh.gdb →
        sh.loadModule (sh.bootpath ++ text "usbgdb.prx") →
          argBytes ((sh.bootpath ++ text "usbgdb.prx") :: path :: argv.tail) ≤ 1024
  | .call => (memDecode sh.machine (argv.getD 0 [])).isSome →
      argv.tail.length ≤ 6 ∨ ∃ arg ∈ argv.tail.take 6, memDecode sh.machine arg = none
  | .findw => True
  | .findh => True

end Shell

variable {c first path : Bytes} {cs ds kept : List Bytes} {type : PathType} {rounds size : ℕ}
  {io : Device} {valid : Bool}

theorem walk_of_names (kept : List Bytes) (h : ∀ c ∈ cs, c ≠ here ∧ c ≠ up) : walk kept cs = some (kept ++ cs) := by
  induction cs generalizing kept with
  | nil => rw [walk, List.append_nil]
  | cons c cs ih =>
      obtain ⟨⟨hhere, hup⟩, hcs⟩ := List.forall_mem_cons.mp h
      rw [walk, if_neg hhere, climb, if_neg hhere, if_neg hup, Option.bind_some, ih _ hcs,
        List.append_assoc, List.singleton_append]

theorem up_mem_of_walk_eq_none (h : walk kept cs = none) : up ∈ cs := by
  induction cs generalizing kept with
  | nil => exact absurd h (Option.some_ne_none kept)
  | cons c cs ih =>
      by_cases hup : c = up
      · exact hup ▸ List.mem_cons_self
      · rw [walk] at h
        split at h
        · exact absurd h (Option.some_ne_none _)
        · rename_i hhere
          rw [climb, if_neg hhere, if_neg hup, Option.bind_some] at h
          exact List.mem_cons_of_mem c (ih h)

theorem walk_eq_none_iff : walk [] cs = none ↔ follow here up [] (before cs) = none := by
  by_cases hhere : here ∈ cs
  · have hwalk := walk_here [] (here_notMem_before cs) (after cs)
    rw [← eq_before_after hhere] at hwalk
    rw [hwalk, Option.map_eq_none_iff]
  · have hbefore : before cs = cs := by
      rw [before, List.takeWhile_eq_self_iff]
      exact fun c hc => decide_eq_true fun h => hhere (h ▸ hc)
    rw [walk_eq_follow hhere, hbefore]

theorem names_of_walk_eq_self (h : walk [] cs = some cs) : here ∉ cs ∧ up ∉ cs := by
  have hhere : here ∉ cs := by
    intro hmem
    have hcs := eq_before_after hmem
    have hwalk := walk_here [] (here_notMem_before cs) (after cs)
    rw [← hcs, h] at hwalk
    obtain ⟨ks, hks, heq⟩ := Option.map_eq_some_iff.mp hwalk.symm
    rw [← walk_eq_follow (here_notMem_before cs)] at hks
    have hle := (walk_sublist hks).length_le
    have hlength := congrArg List.length (heq.trans hcs)
    simp only [List.length_append, List.length_cons, List.length_nil] at hle hlength
    omega
  refine ⟨hhere, fun hup => ?_⟩
  rw [walk_eq_follow hhere] at h
  exact (names_of_follow (fun d hd => absurd hd List.not_mem_nil) h up hup).2 rfl

theorem head?_spelled (hfirst : slash ∉ first) :
    (spelled slash first cs).head? = some slash → first = [] := by
  intro h
  cases first with
  | nil => rfl
  | cons x first => exact absurd (Option.some.inj h).symm (List.ne_of_not_mem_cons hfirst)

/-- How much of the path is stored to behind the loop. -/
def sizeAfter (size : ℕ) (type : PathType) (path : Bytes) : ℕ :=
  if path = [] then size else max size ((slashEnd type path).length + 1)

theorem length_slashEnd_le (type : PathType) (path : Bytes) :
    (slashEnd type path).length ≤ path.length + 1 := by
  rw [slashEnd]
  split_ifs
  · rw [List.length_append, List.length_singleton]
  · rw [List.length_dropLast]
    omega
  · exact Nat.le_succ _

theorem afterDots_size (io : Device) (type : PathType) (valid : Bool) (size : ℕ) (path : Bytes)
    (hrounds : path.length + 3 ≤ rounds) :
    ∃ h, afterDots io type valid size path rounds = .ok h ∧
      h.size = sizeAfter size type (path.rdropWhile fun c => isASpace c) := by
  have hstripped := (List.rdropWhile_prefix (fun c => isASpace c) (l := path)).length_le
  rw [afterDots]
  dsimp only
  generalize (path.rdropWhile fun c => isASpace c) = path at hstripped ⊢
  have hlength := length_slashEnd_le type path
  rw [sizeAfter]
  split
  · exact ⟨_, rfl, rfl⟩
  · obtain ⟨r, hr⟩ : ∃ r, normalizePath (slashEnd type path) rounds = .ok r := by
      by_cases hhead : (slashEnd type path).head? = some slash
      · exact ⟨(0, slashEnd type path), by rw [normalizePath, if_pos hhead]⟩
      · obtain ⟨path', hends, -⟩ := normalizePath_normalizes hhead
        exact ⟨_, hends rounds (by omega)⟩
    rw [hr, ok_bind]
    split
    · exact ⟨_, rfl, rfl⟩
    · exact ⟨_, rfl, rfl⟩

theorem sizeAfter_le_iff (hslash : slash ∉ first) (hcs : ∀ c ∈ cs, slash ∉ c)
    (hwalk : walk [] cs = some ds) (type : PathType)
    (hlength : (spelled slash first cs).length ≤ 1023) :
    sizeAfter ((spelled slash first cs).length + 1) type
        ((spelled slash first ds).rdropWhile fun c => isASpace c) ≤ 1024 ↔
      ((spelled slash first cs).length = 1023 → ¬Grows (spelled slash first cs) type) := by
  have hbehind : behindFirst (spelled slash first cs) = cs := by
    rw [behindFirst, splitOn_spelled hslash hcs, List.tail_cons]
  have hsublist := walk_sublist hwalk
  rw [List.nil_append] at hsublist
  have hprefix := List.rdropWhile_prefix (fun c => isASpace c) (l := spelled slash first ds)
  have hle := (spelled_sublist slash first hsublist).length_le
  constructor
  · rintro hsize hfull ⟨rfl, hlast, hnames⟩
    rw [hbehind] at hnames
    have hself := walk_of_names [] fun c hc =>
      ⟨fun h => hnames.1 (h ▸ hc), fun h => hnames.2 (h ▸ hc)⟩
    rw [hwalk, List.nil_append] at hself
    obtain rfl : ds = cs := Option.some.inj hself
    have hne : spelled slash first ds ≠ [] := fun h => by
      rw [h] at hfull
      exact absurd hfull (by decide)
    have hstripped : ((spelled slash first ds).rdropWhile fun c => isASpace c) =
        spelled slash first ds := by
      rw [List.rdropWhile_eq_self_iff]
      intro hne
      rw [Bool.not_eq_true]
      exact (hlast _ (List.getLast?_eq_getLast_of_ne_nil hne)).2
    have hend : (spelled slash first ds).getLast? ≠ some slash := fun h => (hlast slash h).1 rfl
    rw [hstripped, sizeAfter, if_neg hne, slashEnd, if_pos ⟨rfl, hend⟩, List.length_append,
      List.length_singleton] at hsize
    omega
  · intro hgrows
    generalize hstripped : ((spelled slash first ds).rdropWhile fun c => isASpace c) = path at hprefix ⊢
    have hpath := hprefix.length_le
    have hend := length_slashEnd_le type path
    rw [sizeAfter]
    split
    · omega
    · rename_i hne
      by_contra hlarge
      have hfull : path.length = 1023 := by omega
      have hsame : path = spelled slash first ds := hprefix.eq_of_length (by omega)
      have hself : spelled slash first ds = spelled slash first cs :=
        (spelled_sublist slash first hsublist).eq_of_length (by omega)
      have hds := (spelled_inj hslash (fun c hc => hcs c (hsublist.subset hc)) hcs).mp hself
      refine hgrows (by omega) ⟨?_, ?_, ?_⟩
      · by_contra htype
        rw [slashEnd, if_neg fun h => htype h.1] at hlarge
        split at hlarge
        · rw [List.length_dropLast] at hlarge
          omega
        · omega
      · intro x hx
        rw [← hself, ← hsame] at hx
        constructor
        · rintro rfl
          rw [slashEnd, if_neg fun h => h.2 hx] at hlarge
          split at hlarge
          · rw [List.length_dropLast] at hlarge
            omega
          · omega
        · have hlast := List.rdropWhile_last_not (fun c => isASpace c) (spelled slash first ds)
            (hstripped ▸ hne)
          rw [Bool.not_eq_true] at hlast
          rw [List.getLast?_eq_getLast_of_ne_nil hne] at hx
          simpa only [hstripped, Option.some.inj hx] using hlast
      · rw [hbehind]
        exact names_of_walk_eq_self (hds ▸ hwalk)

variable {sh : Shell} {relative : Bytes} {argv : List Bytes}

/-- Every path ends within the buffer, or below its start, and how much of the buffer it takes. -/
theorem handled_fits_iff (type : PathType) (valid : Bool)
    (hnul : 0 ∉ joined sh.currdir relative) :
    (∃ h, sh.handled relative type valid = .ok h ∧ h.size ≤ 1024) ↔
      PathFits (joined sh.currdir relative) type := by
  rw [Shell.handled, handlepath]
  dsimp only
  generalize joined sh.currdir relative = path at hnul
  obtain ⟨first, cs, rfl, hslash, hcs⟩ := exists_spelled slash path
  have hbehind : behindFirst (spelled slash first cs) = cs := by
    rw [behindFirst, splitOn_spelled hslash hcs, List.tail_cons]
  have hlength := length_le_length_spelled slash first cs
  have hclean : ∀ c ∈ cs, slash ∉ c ∧ 0 ∉ c := by
    intro c hc
    refine ⟨hcs c hc, fun hmem => hnul ?_⟩
    exact List.mem_append_right _ (List.mem_flatMap.mpr ⟨c, hc, List.mem_cons_of_mem _ hmem⟩)
  have hwalked := walked_dotLoop_spelled hslash hclean
    (by omega : cs.length < (spelled slash first cs).length + 3)
  have hinside : (first = [] → walk [] cs ≠ none) →
      (spelled slash first cs).head? = some slash →
        follow here up [] (before (behindFirst (spelled slash first cs))) ≠ none := by
    intro h hhead
    rw [hbehind, ne_eq, ← walk_eq_none_iff]
    exact h (head?_spelled hslash hhead)
  rcases hwalk : walk [] cs with _ | ds
  · rw [hwalk, Walked] at hwalked
    by_cases hfirst : first = []
    · rw [if_pos hfirst] at hwalked
      rw [hwalked]
      refine iff_of_false ?_ fun h => ?_
      · rintro ⟨h, heq, -⟩
        cases heq
      · subst hfirst
        obtain ⟨c, cs, rfl⟩ := List.exists_cons_of_ne_nil
          (List.ne_nil_of_mem (up_mem_of_walk_eq_none hwalk))
        refine h.inside rfl ?_
        rw [hbehind]
        exact walk_eq_none_iff.mp hwalk
    · rw [if_neg hfirst] at hwalked
      obtain ⟨path, hpath⟩ := hwalked
      rw [hpath, ok_bind]
      constructor
      · rintro ⟨h, heq, hsize⟩
        cases heq
        dsimp only at hsize
        refine ⟨hinside fun h => absurd h hfirst, by omega, fun _ hgrows => hgrows.names.2 ?_⟩
        rw [hbehind]
        exact up_mem_of_walk_eq_none hwalk
      · intro h
        exact ⟨_, rfl, Nat.succ_le_succ h.length_le⟩
  · rw [hwalk, Walked] at hwalked
    have hsublist := walk_sublist hwalk
    rw [List.nil_append] at hsublist
    have hle := (spelled_sublist slash first hsublist).length_le
    obtain ⟨h, heq, hsize⟩ := afterDots_size sh.device type valid ((spelled slash first cs).length + 1)
      (spelled slash first ds) (by omega : _ ≤ (spelled slash first cs).length + 3)
    rw [hwalked, ok_bind]
    dsimp only
    rw [if_neg Nat.one_ne_zero, heq]
    constructor
    · rintro ⟨_, heq, hfits⟩
      cases heq
      rw [hsize] at hfits
      have hfull : (spelled slash first cs).length ≤ 1023 := by
        rw [sizeAfter] at hfits
        split at hfits <;> omega
      refine ⟨hinside fun _ h => Option.some_ne_none ds (hwalk.symm.trans h), hfull, ?_⟩
      exact (sizeAfter_le_iff hslash hcs hwalk type hfull).mp hfits
    · intro hfits
      refine ⟨h, rfl, ?_⟩
      rw [hsize]
      exact (sizeAfter_le_iff hslash hcs hwalk type hfits.length_le).mpr hfits.grows

theorem length_foldl_args (args : Bytes) (argv : List Bytes) :
    (argv.foldl (fun args arg => args ++ (arg ++ [0])) args).length = args.length + argBytes argv := by
  induction argv generalizing args with
  | nil => rfl
  | cons arg argv ih =>
      rw [List.foldl_cons, ih, List.length_append, length_concat, argBytes, Nat.add_assoc]

theorem length_buildArgs (execfile : Bytes) (argv : List Bytes) :
    (buildArgs execfile argv).length = argBytes (execfile :: argv) := by
  rw [buildArgs, length_foldl_args, length_concat, argBytes]

/-- The parameters that are stored are those up to the first that is no address. -/
theorem paramCount_le_iff (m : Machine) (n : ℕ) (argv : List Bytes) :
    paramCount m argv ≤ n ↔
      argv.length ≤ n ∨ ∃ arg ∈ argv.take n, memDecode m arg = none := by
  induction argv generalizing n with
  | nil => exact iff_of_true (Nat.zero_le _) (.inl (Nat.zero_le _))
  | cons arg argv ih =>
      rw [paramCount]
      cases n with
      | zero =>
          refine iff_of_false ?_ ?_
          · split <;> omega
          · rintro (h | ⟨arg, hmem, -⟩)
            · exact absurd h (Nat.not_succ_le_zero _)
            · exact absurd hmem List.not_mem_nil
      | succ n =>
          rw [List.take_succ_cons, List.length_cons, Nat.add_le_add_iff_right]
          cases hdecode : memDecode m arg with
          | none =>
              exact iff_of_true (Nat.le_add_left 1 n) (.inr ⟨arg, List.mem_cons_self, hdecode⟩)
          | some val =>
              rw [if_pos Option.isSome_some, Nat.add_le_add_iff_right, ih]
              refine or_congr_right ⟨fun ⟨a, ha, hnone⟩ => ⟨a, List.mem_cons_of_mem _ ha, hnone⟩, ?_⟩
              rintro ⟨a, ha, hnone⟩
              rcases List.mem_cons.mp ha with rfl | ha
              · exact absurd (hdecode.symm.trans hnone) (Option.some_ne_none val)
              · exact ⟨a, ha, hnone⟩

/-- The values that are stored take up so many bytes. -/
theorem searchCount_le (width : ℕ) (argv : List Bytes) :
    searchCount width argv ≤ width * argv.length := by
  induction argv with
  | nil => exact Nat.zero_le _
  | cons arg argv ih =>
      rw [searchCount, List.length_cons, Nat.mul_succ, Nat.add_comm]
      split
      · exact Nat.add_le_add_right ih width
      · exact Nat.zero_le _

/-- What is looked for is what is stored. -/
theorem searchCount_valueBytes {width : ℕ} {bytes : Bytes} (h : valueBytes width argv = some bytes) :
    searchCount width argv = bytes.length := by
  induction argv generalizing bytes with
  | nil =>
      cases h
      rfl
  | cons arg argv ih =>
      rw [valueBytes] at h
      split at h
      · cases h
      · rename_i val hval
        obtain ⟨rest, hrest, rfl⟩ := Option.map_eq_some_iff.mp h
        rw [searchCount, hval, if_pos Option.isSome_some, ih hrest, List.length_append,
          length_toBytes]

theorem stays_singleton (b : Buffer) (n : ℕ) : Stays (.ok [⟨b, n⟩]) ↔ n ≤ b.size := by
  constructor
  · rintro ⟨_, heq, hall⟩
    cases heq
    exact hall _ List.mem_cons_self
  · intro h
    refine ⟨_, rfl, fun u hu => ?_⟩
    obtain rfl := List.mem_singleton.mp hu
    exact h

theorem stays_nil : Stays (.ok []) := ⟨[], rfl, fun _ hu => absurd hu List.not_mem_nil⟩

theorem stays_ite (p : Prop) [Decidable p] (b : Buffer) (n : ℕ) :
    Stays (.ok (if p then [⟨b, n⟩] else [])) ↔ p → n ≤ b.size := by
  split
  · rename_i h
    exact (stays_singleton b n).trans ⟨fun hn _ => hn, fun hn => hn h⟩
  · rename_i h
    exact iff_of_true stays_nil fun hp => absurd hp h

theorem stays_pathUse (hnul : 0 ∉ joined sh.currdir relative) :
    Stays (sh.pathUse relative type valid) ↔ PathFits (joined sh.currdir relative) type := by
  rw [← handled_fits_iff type valid hnul, Shell.pathUse]
  rcases hhandled : sh.handled relative type valid with fault | h
  · refine iff_of_false ?_ ?_
    · rintro ⟨uses, heq, -⟩
      cases heq
    · rintro ⟨h, heq, -⟩
      cases heq
  · rw [ok_bind, stays_singleton]
    exact ⟨fun hsize => ⟨h, rfl, hsize⟩, fun ⟨_, heq, hsize⟩ => Except.ok.inj heq ▸ hsize⟩

/-- The path of a file stays in its buffer, and what is done with it in others. -/
theorem stays_withFile {act : Bytes → List Use} (hnul : 0 ∉ joined sh.currdir relative) :
    Stays (sh.withFile relative act) ↔ PathFits (joined sh.currdir relative) .file ∧
      ∀ path ∈ sh.resolved relative, Stays (.ok (act path)) := by
  rw [← handled_fits_iff .file true hnul, Shell.withFile, Shell.resolved]
  rcases hhandled : sh.handled relative .file true with fault | h
  · refine iff_of_false ?_ ?_
    · rintro ⟨uses, heq, -⟩
      cases heq
    · rintro ⟨⟨h, heq, -⟩, -⟩
      cases heq
  · have hsize : (∃ h', (Except.ok h : Checked Handled) = .ok h' ∧ h'.size ≤ 1024) ↔ h.size ≤ 1024 :=
      ⟨fun ⟨_, heq, hsize⟩ => Except.ok.inj heq ▸ hsize, fun hsize => ⟨h, rfl, hsize⟩⟩
    rw [hsize, ok_bind]
    dsimp only
    constructor
    · rintro ⟨_, heq, hall⟩
      cases heq
      obtain ⟨hpath, hrest⟩ := List.forall_mem_cons.mp hall
      refine ⟨hpath, fun path hmem => ⟨_, rfl, ?_⟩⟩
      split at hmem
      · cases hmem
      · rename_i hret
        cases hmem
        rwa [if_neg hret] at hrest
    · rintro ⟨hpath, hrest⟩
      refine ⟨_, rfl, List.forall_mem_cons.mpr ⟨hpath, ?_⟩⟩
      split
      · exact fun _ hu => absurd hu List.not_mem_nil
      · rename_i hret
        obtain ⟨_, heq, hall⟩ := hrest h.path (by rw [if_neg hret]; rfl)
        cases heq
        exact hall

theorem nul_notMem_joined (hcur : 0 ∉ sh.currdir) (hrelative : 0 ∉ relative) :
    0 ∉ joined sh.currdir relative := by
  have hdevice : ∀ cur : Bytes, 0 ∉ cur → 0 ∉ device cur := by
    intro cur hnul
    induction cur with
    | nil => exact hnul
    | cons c cur ih =>
        rw [device]
        split
        · exact fun h => hnul (List.mem_cons.mpr (.inl (List.mem_singleton.mp h)))
        · exact List.not_mem_cons_of_ne_of_not_mem (List.ne_of_not_mem_cons hnul)
            (ih (List.not_mem_of_not_mem_cons hnul))
  rw [joined, List.mem_append, not_or]
  refine ⟨?_, hrelative⟩
  split_ifs
  · exact List.not_mem_nil
  · exact hdevice _ hcur
  · exact hcur

theorem Delivered.nul_getD (h : Delivered argv) (i : ℕ) : 0 ∉ argv.getD i [] := by
  rw [List.getD_eq_getElem?_getD]
  cases harg : argv[i]? with
  | none => exact List.not_mem_nil
  | some arg => exact h.nul arg (List.mem_of_getElem? harg)

/-- The commands store within their buffers just when the arguments are as they must be. -/
theorem stays_iff (sh : Shell) (hcur : 0 ∉ sh.currdir) {argv : List Bytes} (h : Delivered argv)
    (cmd : Command) : Stays (sh.run argv cmd) ↔ sh.Fits argv cmd := by
  have hjoined : ∀ i, 0 ∉ joined sh.currdir (argv.getD i []) := fun i =>
    nul_notMem_joined hcur (h.nul_getD i)
  have hargs : ∀ execfile rest, Stays (.ok [argsUse execfile rest]) ↔
      argBytes (execfile :: rest) ≤ 1024 := by
    intro execfile rest
    rw [argsUse, stays_singleton, length_buildArgs]
    rfl
  have hload : ∀ name rest, Stays (.ok (sh.loadStartModule name rest)) ↔
      (sh.loadModule name → argBytes (name :: rest) ≤ 1024) := by
    intro name rest
    rw [Shell.loadStartModule, argsUse, stays_ite, length_buildArgs]
    rfl
  have hsearch : ∀ width ≤ 4, searchCount width (argv.drop 2) ≤ Buffer.search.size := by
    intro width hwidth
    have hcount := h.count
    have hlength : (argv.drop 2).length ≤ 32 := by
      rw [List.length_drop]
      omega
    calc searchCount width (argv.drop 2) ≤ width * (argv.drop 2).length := searchCount_le _ _
      _ ≤ 4 * 32 := Nat.mul_le_mul hwidth hlength
      _ = Buffer.search.size := rfl
  cases cmd with
  | path arg type valid => exact stays_pathUse (hjoined arg)
  | modstart =>
      rw [Shell.run, Shell.modstartCmd, Shell.Fits]
      split
      · rename_i huid
        rw [imp_iff_right huid]
        rcases argv.tail with _ | ⟨execfile, rest⟩
        · exact iff_of_true ((hargs _ _).mpr (by decide)) (Nat.zero_le _)
        · exact hargs execfile rest
      · rename_i huid
        exact iff_of_true stays_nil fun h => absurd h huid
  | modexec =>
      rw [Shell.run, Shell.modexecCmd, Shell.Fits]
      rcases hfile : Shell.modexecFile argv with _ | file
      · exact iff_of_true stays_nil fun file h => absurd h.symm (Option.some_ne_none file)
      · have hnul : 0 ∉ file := by
          rw [Shell.modexecFile] at hfile
          split at hfile
          · exact h.nul file (List.mem_of_getElem? hfile)
          · exact Option.some.inj hfile ▸ h.nul_getD 0
        dsimp only
        rw [stays_withFile (nul_notMem_joined hcur hnul)]
        simp only [hargs, Option.mem_some_iff, forall_eq']
  | ldstart =>
      rw [Shell.run, Shell.ldstartCmd, Shell.Fits]
      split
      · rename_i hpos
        rw [imp_iff_right hpos, stays_withFile (hjoined 0)]
        simp only [hload]
      · rename_i hpos
        exact iff_of_true stays_nil fun h => absurd h hpos
  | debug =>
      rw [Shell.run, Shell.debugCmd, Shell.Fits, stays_withFile (hjoined 0)]
      refine and_congr_right fun _ => forall₂_congr fun path _ => ?_
      split
      · rename_i hgdb
        exact iff_of_true stays_nil fun h => absurd hgdb h
      · rename_i hgdb
        rw [imp_iff_right hgdb, Shell.loadGdb, hload]
  | call =>
      rw [Shell.run, Shell.callCmd, stays_ite]
      exact imp_congr_right fun _ => paramCount_le_iff sh.machine 6 argv.tail
  | findw => exact iff_of_true ((stays_ite _ _ _).mpr fun _ => hsearch 4 (by decide)) trivial
  | findh => exact iff_of_true ((stays_ite _ _ _).mpr fun _ => hsearch 2 (by decide)) trivial

/-- A shell on a machine without anything, where every module is found. -/
def bareShell : Shell :=
  { currdir := text "ms0:/", bootpath := [], gdb := false, device := bare
    machine := MemoryRegions.blank, getModuleUid := fun _ => some 1, loadModule := fun _ => false }

/-- `modstart` of a module with arguments that fill the buffer. -/
def fullArguments : List Bytes := [text "1", List.replicate 1021 0x61, text "b"]

theorem argBytes_fullArguments : argBytes fullArguments.tail = 1024 := by
  rw [fullArguments, List.tail_cons, argBytes, argBytes, argBytes, List.length_replicate]
  rfl

theorem delivered_full : Delivered fullArguments where
  count := by decide
  bytes := by
    rw [length_buildArgs, argBytes, show fullArguments = text "1" :: fullArguments.tail from rfl,
      argBytes, argBytes_fullArguments]
    decide
  nul := by
    refine List.forall_mem_cons.mpr ⟨by decide, List.forall_mem_cons.mpr ⟨fun h => ?_, by decide⟩⟩
    exact absurd (List.eq_of_mem_replicate h) (by decide)

theorem modstart_stays : Stays (bareShell.run fullArguments .modstart) :=
  (stays_iff bareShell (by decide) delivered_full .modstart).mpr fun _ => argBytes_fullArguments.le

/-- `modstart` of a module with an argument of 1100 characters. -/
def longArgument : List Bytes := [text "1", List.replicate 1100 0x61]

theorem modstart_overflows : Delivered longArgument ∧ ¬Stays (bareShell.run longArgument .modstart) := by
  have hbytes : argBytes longArgument = 1103 := by
    rw [longArgument, argBytes, argBytes, argBytes, List.length_replicate]
    rfl
  constructor
  · refine ⟨by decide, ?_, ?_⟩
    · rw [length_buildArgs, argBytes, hbytes]
      decide
    · refine List.forall_mem_cons.mpr ⟨by decide, List.forall_mem_singleton.mpr fun h => ?_⟩
      exact absurd (List.eq_of_mem_replicate h) (by decide)
  · intro h
    have hfits : Stays (.ok [argsUse (List.replicate 1100 0x61) []]) := h
    rw [argsUse, stays_singleton, length_buildArgs, argBytes, List.length_replicate] at hfits
    exact absurd hfits (by decide)

end PsplinkUsb.Psplink.CommandBuffers
