import PsplinkUsb.Psplink.CopyInside

namespace PsplinkUsb.Psplink.CopyLoss

open PsplinkUsb.Library.FileTree
open PsplinkUsb.Psplink.CopyTree
open PsplinkUsb.Psplink.CopyBlocks
open PsplinkUsb.Psplink.CopyOutcome
open PsplinkUsb.Psplink.CopyInside

/-- A file system: a tree of finitely many files and directories. -/
structure Disk where
  fs : Fs
  closed : Closed fs

/-- Every file of the source is where it was, or at the place for it at the destination. -/
def NothingLost (fs fs' : Fs) (src dst : Path) : Prop :=
  ∀ r content, fs.lookup (r ++ src) = some (.file content) →
    fs'.lookup (r ++ src) = some (.file content) ∨ fs'.lookup (r ++ dst) = some (.file content)

def SameTree (fs fs' : Fs) (src dst : Path) : Prop :=
  ∀ r, fs'.lookup (r ++ dst) = fs.lookup (r ++ src)

/-- No call fails, though reads and writes may come short. -/
structure Results.NoneFails (results : Results) : Prop where
  openSrc : ∀ p, (results.file p).openSrc = true
  openDst : ∀ p, (results.file p).openDst = true
  read : ∀ p k, (results.file p).read k ≠ none
  write : ∀ p k, (results.file p).write k ≠ none
  dopen : ∀ p, (results.dir p).dopen = true
  mkdir : ∀ p, (results.dir p).mkdir = true
  dread : ∀ p, (results.dir p).dread = none

/-- What copying is to keep: with `move` the files, else the tree if no call fails. -/
def Kept (results : Results) (fs fs' : Fs) (src dst : Path) : Bool → Prop
  | true => NothingLost fs fs' src dst
  | false => Results.NoneFails results → SameTree fs fs' src dst

/-- A file whose copy has to be whole: with `move`, one that is come to and removed. -/
def Needed (results : Results) (fs : Fs) (src r : Path) : Bool → Prop
  | true => Reached results fs src r ∧ (results.file (r ++ src)).remove = true
  | false => Results.NoneFails results

def CopiesWhole (results : Results) (fs : Fs) (src : Path) (move : Bool) : Prop :=
  ∀ r content, fs.lookup (r ++ src) = some (.file content) → Needed results fs src r move →
    Whole (results.file (r ++ src)) content

/-- What nothing is lost under: the files that have to be are copied whole. When the recursion comes
to the destination, which lies inside of the source, with `move` their copies are not to be removed,
or no call for a directory fails, and it never returns. -/
def Careful (results : Results) (fs : Fs) (src dst : Path) (move : Bool) : Prop :=
  (¬Enters results dst fs src dst → CopiesWhole results fs src move) ∧
    (Enters results dst fs src dst → move = true →
      DirsSucceed results ∨ MovesWhole results fs src dst)

variable {results : Results} {move : Bool} {fs fs' : Fs} {src dst : Path}

theorem Results.NoneFails.dirsSucceed (h : Results.NoneFails results) : DirsSucceed results :=
  ⟨h.dopen, h.mkdir, h.dread⟩

theorem delivered_of_noneFails (h : Results.NoneFails results) (p : Path) :
    delivered results fs p = names fs p := by
  rw [delivered, readEntries, h.dopen, h.dread]
  exact filterMap_dirents fs p

theorem reached_of_noneFails (h : Results.NoneFails results) (hclosed : Closed fs) {r : Path}
    (hr : r ++ src ∈ fs) : Reached results fs src r := by
  induction r with
  | nil => trivial
  | cons n r ih =>
      have hdir := hclosed.parent n (r ++ src) hr
      refine ⟨ih (mem_of_lookup hdir), hdir, ?_⟩
      rw [delivered_of_noneFails h]
      exact mem_names.mpr hr

theorem not_in_copy (hfree : ∀ r, fs.lookup (r ++ dst) = none) {p : Path} (hp : p ∈ fs) :
    ¬dst <:+ p := by
  rintro ⟨r, rfl⟩
  exact AList.lookup_eq_none.mp (hfree r) hp

section Outcome

variable (hfree : ∀ r, fs.lookup (r ++ dst) = none)

include hfree

theorem nothingLost_iff (h : Outcome results true dst fs src dst fs') :
    NothingLost fs fs' src dst ↔ CopiesWhole results fs src true := by
  refine forall₃_congr fun r content hr => ?_
  have hout := not_in_copy hfree (mem_of_lookup hr)
  rw [h.src_file r content hout hr, h.dst_file r content hout hr, Needed, ← copied_eq_iff]
  by_cases hneeded : Reached results fs src r ∧ (results.file (r ++ src)).remove = true
  · rw [if_pos ⟨hneeded.1, rfl, hneeded.2⟩]
    simp only [hneeded, true_and]
    constructor
    · rintro (hnone | hcopy) -
      · cases hnone
      · split at hcopy
        · rename_i hopen
          simpa [hopen] using hcopy
        · cases hcopy
    · intro hwhole
      obtain ⟨hopen, hcopied⟩ := hwhole trivial
      rw [if_pos hopen, hcopied]
      exact .inr rfl
  · rw [if_neg fun hall => hneeded ⟨hall.1, hall.2.2⟩]
    exact iff_of_true (.inl rfl) fun hall => absurd hall hneeded

theorem sameTree_iff (h : Outcome results false dst fs src dst fs') (hclosed : Closed fs) :
    (Results.NoneFails results → SameTree fs fs' src dst) ↔
      CopiesWhole results fs src false := by
  constructor
  · intro hsame r content hr hnone
    have hcopy := hsame hnone r
    have hreached := reached_of_noneFails hnone hclosed (mem_of_lookup hr)
    rw [h.dst_file r content (not_in_copy hfree (mem_of_lookup hr)) hr, hr,
      if_pos ⟨hreached, hnone.openDst _⟩] at hcopy
    rw [← copied_eq_iff]
    exact ⟨hnone.openDst _, by simpa using hcopy⟩
  · intro hwhole hnone r
    cases hr : fs.lookup (r ++ src) with
    | none => exact h.dst_none r (.inr hr)
    | some node =>
        have hreached := reached_of_noneFails hnone hclosed (mem_of_lookup hr)
        have hout := not_in_copy hfree (mem_of_lookup hr)
        cases node with
        | file content =>
            obtain ⟨hopen, hcopied⟩ := copied_eq_iff.mpr (hwhole r content hr hnone)
            rw [h.dst_file r content hout hr, if_pos ⟨hreached, hopen⟩, hcopied]
        | dir => rw [h.dst_dir r hout hr, if_pos ⟨hreached, hnone.mkdir _⟩]

theorem kept_iff (h : Outcome results move dst fs src dst fs') (hclosed : Closed fs) :
    Kept results fs fs' src dst move ↔ CopiesWhole results fs src move := by
  cases move with
  | true => exact nothingLost_iff hfree h
  | false => exact sameTree_iff hfree h hclosed

end Outcome

theorem exists_shallow (results : Results) (fs : Fs) (s : Path) :
    ∃ depth, Shallow results fs s depth := by
  have hbound : ∀ keys : List Path, ∃ depth, ∀ q ∈ keys, q.length < depth := by
    intro keys
    induction keys with
    | nil => exact ⟨0, fun q hq => absurd hq List.not_mem_nil⟩
    | cons p keys ih =>
        obtain ⟨depth, hdepth⟩ := ih
        refine ⟨max (p.length + 1) depth, fun q hq => ?_⟩
        rcases List.mem_cons.mp hq with rfl | hq
        · omega
        · have hlength := hdepth q hq
          omega
  obtain ⟨depth, hdepth⟩ := hbound fs.keys
  refine ⟨depth + 1, fun r hr => ?_⟩
  rcases eq_or_ne r [] with rfl | hne
  · exact Nat.zero_lt_succ depth
  · have hlength := hdepth _ (AList.mem_keys.mp (hr.mem hne))
    rw [List.length_append] at hlength
    omega

theorem Disk.apart (disk : Disk) (hsrc : src ∈ disk.fs) (hdst : dst ∉ disk.fs) :
    Apart dst disk.fs src dst where
  outside h := by
    have hdir : disk.fs.lookup dst ≠ some .dir := fun hdir => hdst (mem_of_lookup hdir)
    exact disk.closed.not_mem_below hdir h (fun heq => hdst (heq ▸ hsrc)) hsrc
  inside := List.suffix_refl dst
  free r := by
    apply AList.lookup_eq_none.mpr
    intro hmem
    rcases eq_or_ne (r ++ dst) dst with heq | hne
    · exact hdst (heq ▸ hmem)
    · have hdir : disk.fs.lookup dst ≠ some .dir := fun hdir => hdst (mem_of_lookup hdir)
      exact disk.closed.not_mem_below hdir (List.suffix_append r dst) hne hmem

/-- Copying comes to its end, with the outcome that the results of the calls make. -/
theorem returns_copy (move : Bool) (hapart : Apart dst fs src dst)
    (hnot : ¬Enters results dst fs src dst) (hsrc : src ∈ fs) :
    ∃ fs', Returns results move src dst fs fs' ∧ Outcome results move dst fs src dst fs' := by
  cases hnode : fs.lookup src with
  | none => exact absurd hsrc (AList.lookup_eq_none.mp hnode)
  | some node =>
      cases node with
      | file content =>
          refine ⟨_, ⟨0, ?_⟩, outcome_copyFile hnode hapart⟩
          rw [copy, if_neg]
          rw [hnode]
          simp
      | dir =>
          obtain ⟨depth, hdepth⟩ := exists_shallow results fs src
          obtain ⟨fs', hcopy, -, houtcome⟩ := copies_copyDirectory depth hnode hapart hnot hdepth
          refine ⟨fs', ⟨depth, ?_⟩, houtcome⟩
          rw [copy, if_pos hnode, hcopy]

/-- The recursion cannot come to a destination outside of the source. -/
theorem not_enters_of_not_suffix (hout : ¬src <:+ dst) : ¬Enters results dst fs src dst := by
  rintro ⟨n, -, r, rfl, -⟩
  exact hout ((List.suffix_cons n src).trans (List.suffix_append r _))

/-- It does not come to one that is an entry of the source itself, whose entries were read before
the destination was made. -/
theorem not_enters_child {n : Name} (hdst : n :: src ∉ fs) :
    ¬Enters results (n :: src) fs src (n :: src) := by
  rintro ⟨m, hm, r, heq, -⟩
  have hlength := congrArg List.length heq
  simp only [List.length_append, List.length_cons] at hlength
  obtain rfl := List.length_eq_zero_iff.mp (show r.length = 0 by omega)
  exact hdst (heq ▸ mem_of_delivered hm)

/-- The paths `a` and `b` from the root. -/
def pathA : Path := [⟨[0x61], by decide⟩]
def pathB : Path := [⟨[0x62], by decide⟩]

/-- A file of two bytes. -/
def oneFile : Disk where
  fs := (AList.singleton [] .dir).insert pathA (.file [1, 2])
  closed := by
    constructor
    · rfl
    · intro n p hmem
      rcases (AList.mem_insert _).mp hmem with heq | hroot
      · obtain ⟨-, rfl⟩ := List.cons.inj heq
        rfl
      · rw [AList.mem_keys, AList.keys_singleton] at hroot
        exact absurd (List.mem_singleton.mp hroot) (List.cons_ne_nil n p)

/-- All goes well. -/
def allWell : Results where
  file _ := ⟨true, true, fun _ => some 4096, fun _ => some 4096, true⟩
  dir _ := ⟨true, true, none, true⟩

theorem whole_allWell (p : Path) (content : Bytes) : Whole (allWell.file p) content :=
  ⟨rfl, fun _ _ => ⟨rfl, ⟨4096, rfl, min_le_left cpbufSize _⟩, 4096, rfl, min_le_left cpbufSize _⟩⟩

def pathC : Path := [⟨[0x63], by decide⟩]

/-- A file of two bytes in a directory. -/
def nested : Disk where
  fs := ((AList.singleton [] .dir).insert pathA .dir).insert (pathC ++ pathA) (.file [1, 2])
  closed := by
    constructor
    · rfl
    · intro n p hmem
      rcases (AList.mem_insert _).mp hmem with heq | hmem
      · obtain ⟨-, rfl⟩ := List.cons.inj heq
        rfl
      rcases (AList.mem_insert _).mp hmem with heq | hroot
      · obtain ⟨-, rfl⟩ := List.cons.inj heq
        rfl
      · rw [AList.mem_keys, AList.keys_singleton] at hroot
        exact absurd (List.mem_singleton.mp hroot) (List.cons_ne_nil n p)

/-- All goes well but for the first read, which gives one byte. -/
def shortRead : Results where
  file _ := ⟨true, true, fun k => if k = 0 then some 1 else some 4096, fun _ => some 4096, true⟩
  dir _ := ⟨true, true, none, true⟩

end PsplinkUsb.Psplink.CopyLoss
