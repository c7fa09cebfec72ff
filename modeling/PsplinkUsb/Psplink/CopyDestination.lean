import PsplinkUsb.Library.CString
import PsplinkUsb.Psplink.HandlePath

/-!
`cp_cmd` and `mv_cmd` of `psplink/shell.c`, up to the calls that copy: where the source is to go,
in the buffer of the destination.
-/

namespace PsplinkUsb.Psplink.CopyDestination

open PsplinkUsb.Library.CString (cstr)
open PsplinkUsb.Library.PathText
open PsplinkUsb.Psplink.HandlePath
open PsplinkUsb.Psplink.NormalizePath

/-- What goes wrong in a command: in `handlepath`, over a `NULL`, or outside of a buffer. -/
inductive Fault where
  | path (fault : Library.CheckedBuffer.Fault)
  | null | outside
  deriving DecidableEq, Repr

abbrev Checked := Except Fault

/-- Files, with a call that renames them, if it succeeds. -/
structure Volume extends Device where
  devctl : Bytes → Bytes → Bytes → Bool

def maxPathLen : ℕ := 1024

/-- The rest of a string from the last `c` on. -/
def strrchr (c : UInt8) : Bytes → Option Bytes
  | [] => none
  | x :: s => (strrchr c s).or (if x = c then some (x :: s) else none)

/-- Whether `strcmp` is not 0. -/
def strcmp : Option Bytes → Option Bytes → Checked Bool
  | some s, some t => .ok (s ≠ t)
  | _, _ => .error .null

/-- `strcat` to a buffer of `MAXPATHLEN`. -/
def strcat (dst src : Bytes) : Checked Bytes :=
  if dst.length + src.length < maxPathLen then .ok (dst ++ src) else .error .outside

def needsSlash (fdst : Bytes) : Prop := 0 < fdst.length ∧ fdst.getLast? ≠ some slash

instance (fdst : Bytes) : Decidable (needsSlash fdst) := inferInstanceAs (Decidable (_ ∧ _))

def appendSlash (fdst : Bytes) : Checked Bytes :=
  if needsSlash fdst then strcat fdst [slash] else .ok fdst

/-- The name behind the last slash of the source, which may be `NULL`. -/
def appendName (fdst : Bytes) (last : Option Bytes) : Checked Bytes := do
  let fdst ← appendSlash fdst
  match last with
  | none => .error .null
  | some last => strcat fdst last.tail

/-- The last components are compared for a directory only. -/
def differ (srcisdir : Bool) (fsrc fdst : Bytes) : Checked Bool :=
  if srcisdir then strcmp (strrchr slash fsrc) (strrchr slash fdst) else .ok true

/-- What is left in `fdst`. -/
def destination (srcisdir into : Bool) (fsrc fdst : Bytes) : Checked Bytes :=
  if into then do
    let differ ← differ srcisdir fsrc fdst
    if differ then appendName fdst (strrchr slash fsrc) else .ok fdst
  else .ok fdst

/-- There is something at the destination already. -/
def taken (vol : Volume) (srcisdir : Bool) (fdst : Bytes) : Bool :=
  if srcisdir then isdir vol.toDevice fdst else vol.opens fdst

inductive Action where
  | refuse | copyDirectory | copyFile | rename
  deriving DecidableEq, Repr

/-- The destination that a command comes to, and what it does then. -/
structure Copied where
  fdst : Bytes
  action : Action
  deriving DecidableEq, Repr

def copies (srcisdir : Bool) : Action := if srcisdir then .copyDirectory else .copyFile

/-- `cp_cmd` behind the calls of `handlepath`; nothing when the source is not there. -/
def cpPaths (vol : Volume) (fsrc fdst : Bytes) : Checked (Option Copied) :=
  let srcisdir := isdir vol.toDevice fsrc
  if ¬srcisdir ∧ ¬vol.opens fsrc then .ok none
  else do
    let fdst ← destination srcisdir (isdir vol.toDevice fdst) fsrc fdst
    if taken vol srcisdir fdst then .ok (some ⟨fdst, .refuse⟩)
    else .ok (some ⟨fdst, copies srcisdir⟩)

/-- The buffer that a path is in, with what was there before behind its NUL. -/
def contents (path : Bytes) (stale : ℕ → UInt8) (n : ℕ) : UInt8 := (path ++ [0]).getD n (stale n)

/-- The loop that fills `src_devname`, for so many more characters, and its `n`. -/
def devnameLoop (fsrc : ℕ → UInt8) : ℕ → ℕ → Bytes → Checked (Bytes × ℕ)
  | 0, n, devname => .ok (devname, n)
  | more + 1, n, devname =>
      let devname := devname ++ [fsrc n]
      if fsrc n = colon then
        if n + 1 < 8 then .ok (devname ++ [0], n + 1) else .error .outside
      else devnameLoop fsrc more (n + 1) devname

/-- `mv_cmd` behind the destination it comes to. -/
def moveTo (vol : Volume) (stale : ℕ → UInt8) (fsrc fdst : Bytes) : Checked (Option Copied) :=
  if taken vol (isdir vol.toDevice fsrc) fdst then .ok (some ⟨fdst, .refuse⟩)
  else do
    let (devname, n) ← devnameLoop (contents fsrc stale) 8 0 []
    if strncmp (cstr devname) fdst n ∧ vol.devctl (cstr devname) (fsrc.drop n) (fdst.drop n) then
      .ok (some ⟨fdst, .rename⟩)
    else .ok (some ⟨fdst, copies (isdir vol.toDevice fsrc)⟩)

/-- `mv_cmd` behind the calls of `handlepath`. -/
def mvPaths (vol : Volume) (stale : ℕ → UInt8) (fsrc fdst : Bytes) : Checked (Option Copied) :=
  let srcisdir := isdir vol.toDevice fsrc
  if ¬srcisdir ∧ ¬vol.opens fsrc then .ok none
  else do
    let fdst ← destination srcisdir (isdir vol.toDevice fdst ∨ fdst.getLast? = some colon) fsrc fdst
    moveTo vol stale fsrc fdst

/-- Two arguments, and what is done with their paths if both have one. -/
def withPaths (vol : Volume) (currdir source dest : Bytes) (rounds : ℕ)
    (act : Bytes → Bytes → Checked (Option Copied)) : Checked (Option Copied) := do
  let src ← (handlepath vol.toDevice currdir source .ether false rounds).mapError .path
  if src.ret = 0 then .ok none
  else do
    let dst ← (handlepath vol.toDevice currdir dest .ether false rounds).mapError .path
    if dst.ret = 0 then .ok none else act src.path dst.path

def cpCmd (vol : Volume) (currdir source dest : Bytes) (rounds : ℕ) : Checked (Option Copied) :=
  withPaths vol currdir source dest rounds (cpPaths vol)

def mvCmd (vol : Volume) (stale : ℕ → UInt8) (currdir source dest : Bytes) (rounds : ℕ) :
    Checked (Option Copied) :=
  withPaths vol currdir source dest rounds (mvPaths vol stale)

/-- The last component of a path that is not empty. -/
def lastComponent (path : Bytes) : Bytes :=
  ((path.splitOn slash).tail.filter fun c => c ≠ []).getLast?.getD []

/-- What stands behind the last slash. -/
def nameOf (path : Bytes) : Bytes := ((strrchr slash path).getD []).tail

def inDirectory (dir name : Bytes) : Bytes := dir ++ (if needsSlash dir then [slash] else []) ++ name

/-- Nothing goes wrong, and what goes to a directory that is there is to have the name of the
source in it. -/
def Handles (vol : Volume) (fsrc fdst : Bytes) (r : Checked (Option Copied)) : Prop :=
  ∃ outcome, r = .ok outcome ∧ ∀ copied ∈ outcome,
    isdir vol.toDevice fdst → copied.fdst = inDirectory fdst (lastComponent fsrc)

/-- Both are directories, with the same text behind the last slash. -/
def SameName (vol : Volume) (fsrc fdst : Bytes) : Prop :=
  isdir vol.toDevice fsrc ∧ strrchr slash fsrc = strrchr slash fdst

instance (vol : Volume) (fsrc fdst : Bytes) : Decidable (SameName vol fsrc fdst) :=
  inferInstanceAs (Decidable (_ ∧ _))

/-- A source that goes into the destination has a slash, as has the destination if both are to be
compared; both do not have the same name; there is room for it; and there is no slash at the end of
the source. -/
structure GoesInto (vol : Volume) (fsrc fdst : Bytes) : Prop where
  src_slash : slash ∈ fsrc
  dst_slash : isdir vol.toDevice fsrc → slash ∈ fdst
  other : SameName vol fsrc fdst → isdir vol.toDevice fdst → lastComponent fsrc = []
  room : ¬SameName vol fsrc fdst → (inDirectory fdst (nameOf fsrc)).length < maxPathLen
  named : ¬SameName vol fsrc fdst → isdir vol.toDevice fdst → nameOf fsrc = [] →
    lastComponent fsrc = []

/-- The source is there. -/
def Exists (vol : Volume) (fsrc : Bytes) : Prop := isdir vol.toDevice fsrc ∨ vol.opens fsrc

/-- Where the source is to go, when nothing goes wrong. -/
def target (vol : Volume) (into : Bool) (fsrc fdst : Bytes) : Bytes :=
  if into ∧ ¬SameName vol fsrc fdst then inDirectory fdst (nameOf fsrc) else fdst

/-- The first colon in front of the source is in the eighth place. -/
def LongDevice (fsrc : ℕ → UInt8) : Prop := fsrc 7 = colon ∧ ∀ n < 7, fsrc n ≠ colon

variable {c : UInt8} {s fsrc fdst d : Bytes} {vol : Volume} {into : Bool}

theorem strrchr_eq_none_iff : strrchr c s = none ↔ c ∉ s := by
  induction s with
  | nil => exact iff_of_true rfl List.not_mem_nil
  | cons x s ih =>
      rw [strrchr, Option.or_eq_none_iff, ih, List.mem_cons, not_or, and_comm]
      refine and_congr_left fun _ => ?_
      split
      · rename_i hx
        exact iff_of_false (Option.some_ne_none _) fun h => h hx.symm
      · rename_i hx
        exact iff_of_true rfl (Ne.symm hx)

theorem strrchr_append (front : Bytes) (hs : c ∉ s) :
    strrchr c (front ++ c :: s) = some (c :: s) := by
  induction front with
  | nil => rw [List.nil_append, strrchr, strrchr_eq_none_iff.mpr hs, if_pos rfl, Option.none_or]
  | cons x front ih => rw [List.cons_append, strrchr, ih, Option.some_or]

theorem strrchr_eq_some {last : Bytes} (h : strrchr c s = some last) :
    ∃ name, last = c :: name ∧ ∃ front, s = front ++ c :: name := by
  induction s with
  | nil => cases h
  | cons x s ih =>
      rw [strrchr] at h
      rcases hrest : strrchr c s with _ | rest
      · rw [hrest, Option.none_or] at h
        split at h
        · rename_i hx
          cases h
          exact ⟨s, congrArg (· :: s) hx, [], congrArg (· :: s) hx⟩
        · cases h
      · rw [hrest, Option.some_or] at h
        obtain ⟨name, hname, front, hfront⟩ := ih (hrest.trans h)
        exact ⟨name, hname, x :: front, congrArg (x :: ·) hfront⟩

theorem ok_bind {α β : Type} (a : α) (f : α → Checked β) : (Except.ok a : Checked α) >>= f = f a := rfl

theorem error_bind {α β : Type} (fault : Fault) (f : α → Checked β) :
    (Except.error fault : Checked α) >>= f = .error fault := rfl

theorem nameOf_eq_iff (path : Bytes) :
    nameOf path = lastComponent path ↔ (nameOf path = [] → lastComponent path = []) := by
  refine ⟨fun h hnil => h ▸ hnil, fun h => ?_⟩
  obtain ⟨first, cs, rfl, hfirst, hcs⟩ := exists_spelled slash path
  rcases cs.eq_nil_or_concat with rfl | ⟨cs, l, rfl⟩
  · have hnone : nameOf (spelled slash first []) = [] := by
      rw [nameOf, spelled_nil, strrchr_eq_none_iff.mpr hfirst]
      rfl
    exact hnone.trans (h hnone).symm
  · rw [List.concat_eq_append] at hcs h ⊢
    have hname : nameOf (spelled slash first (cs ++ [l])) = l := by
      rw [nameOf, spelled_concat, strrchr_append _ (hcs l (List.mem_append_right _ List.mem_cons_self))]
      rfl
    by_cases hl : l = []
    · have hnone := hname.trans hl
      exact hnone.trans (h hnone).symm
    · have hfilter : (cs ++ [l]).filter (fun c => c ≠ []) = cs.filter (fun c => c ≠ []) ++ [l] := by
        rw [List.filter_append, List.filter_cons_of_pos (by simpa using hl), List.filter_nil]
      rw [hname, lastComponent, splitOn_spelled hfirst hcs, List.tail_cons, hfilter, List.getLast?_concat,
        Option.getD_some]

theorem appendName_some (fdst last : Bytes) :
    appendName fdst (some last) =
      if (inDirectory fdst last.tail).length < maxPathLen then .ok (inDirectory fdst last.tail)
      else .error .outside := by
  rw [appendName, appendSlash, inDirectory]
  split
  · rw [strcat, List.length_append, List.length_append]
    split
    · rw [ok_bind]
      dsimp only
      rw [strcat, List.length_append]
    · rename_i hlong
      rw [error_bind, if_neg (by omega)]
  · rw [ok_bind, List.append_nil]
    dsimp only
    rw [strcat, List.length_append]

theorem appendName_none (fdst : Bytes) : ∃ fault, appendName fdst none = .error fault := by
  rw [appendName]
  cases appendSlash fdst with
  | error fault => exact ⟨fault, rfl⟩
  | ok fdst => exact ⟨.null, rfl⟩

theorem slash_mem {last : Bytes} (h : strrchr slash s = some last) : slash ∈ s := by
  by_contra hnone
  rw [strrchr_eq_none_iff.mpr hnone] at h
  cases h

theorem appendName_eq_ok_iff : appendName fdst (strrchr slash fsrc) = .ok d ↔
    slash ∈ fsrc ∧ (inDirectory fdst (nameOf fsrc)).length < maxPathLen ∧
      inDirectory fdst (nameOf fsrc) = d := by
  rw [nameOf]
  rcases hlast : strrchr slash fsrc with _ | last
  · obtain ⟨fault, hfault⟩ := appendName_none fdst
    rw [hfault]
    refine iff_of_false (fun h => ?_) fun h => strrchr_eq_none_iff.mp hlast h.1
    cases h
  · rw [appendName_some, Option.getD_some]
    split
    · rename_i hroom
      rw [Except.ok.injEq]
      exact ⟨fun h => ⟨slash_mem hlast, hroom, h⟩, fun h => h.2.2⟩
    · rename_i hroom
      refine iff_of_false (fun h => ?_) fun h => hroom h.2.1
      cases h

theorem differ_eq_ok_iff {b : Bool} :
    differ (isdir vol.toDevice fsrc) fsrc fdst = .ok b ↔
      (isdir vol.toDevice fsrc → slash ∈ fsrc ∧ slash ∈ fdst) ∧
        (b = true ↔ ¬SameName vol fsrc fdst) := by
  rw [differ, SameName]
  cases isdir vol.toDevice fsrc with
  | false => simp [eq_comm]
  | true =>
      rcases hsrc : strrchr slash fsrc with _ | s
      · have hnone := strrchr_eq_none_iff.mp hsrc
        simp [strcmp, hnone]
      · rcases hdst : strrchr slash fdst with _ | t
        · have hnone := strrchr_eq_none_iff.mp hdst
          simp [strcmp, hnone]
        · have hs := slash_mem hsrc
          have ht := slash_mem hdst
          cases b <;> simp [strcmp, hs, ht]

theorem destination_eq_ok_iff :
    destination (isdir vol.toDevice fsrc) into fsrc fdst = .ok d ↔
      (into = true → (isdir vol.toDevice fsrc → slash ∈ fsrc ∧ slash ∈ fdst) ∧
        (¬SameName vol fsrc fdst →
          slash ∈ fsrc ∧ (inDirectory fdst (nameOf fsrc)).length < maxPathLen)) ∧
      target vol into fsrc fdst = d := by
  rw [destination, target]
  cases into with
  | false => simp
  | true =>
      have hdiffer := @differ_eq_ok_iff fsrc fdst vol
      rw [imp_iff_right rfl]
      rw [if_pos rfl]
      rcases hresult : differ (isdir vol.toDevice fsrc) fsrc fdst with fault | b
      · rw [error_bind]
        refine iff_of_false (fun h => ?_) fun h => ?_
        · cases h
        · have hok : differ (isdir vol.toDevice fsrc) fsrc fdst =
              .ok (decide ¬SameName vol fsrc fdst) := hdiffer.mpr ⟨h.1.1, decide_eq_true_iff⟩
          rw [hresult] at hok
          cases hok
      · rw [ok_bind]
        obtain ⟨hslash, hb⟩ := hdiffer.mp hresult
        by_cases hsame : SameName vol fsrc fdst
        · have hfalse : ¬b = true := fun h => hb.mp h hsame
          rw [if_neg hfalse, if_neg fun h => h.2 hsame, Except.ok.injEq]
          exact ⟨fun h => ⟨⟨hslash, fun h => absurd hsame h⟩, h⟩, fun h => h.2⟩
        · rw [if_pos (hb.mpr hsame), if_pos ⟨rfl, hsame⟩, appendName_eq_ok_iff]
          exact ⟨fun h => ⟨⟨hslash, fun _ => ⟨h.1, h.2.1⟩⟩, h.2.2⟩,
            fun h => ⟨(h.1.2 hsame).1, (h.1.2 hsame).2, h.2⟩⟩

theorem devnameLoop_ok_iff (buf : ℕ → UInt8) (more n : ℕ) (devname : Bytes) (hn : n + more = 8) :
    (∃ r, devnameLoop buf more n devname = .ok r) ↔
      ¬(n ≤ 7 ∧ buf 7 = colon ∧ ∀ i, n ≤ i → i < 7 → buf i ≠ colon) := by
  induction more generalizing n devname with
  | zero => exact iff_of_true ⟨_, rfl⟩ fun h => by omega
  | succ more ih =>
      rw [devnameLoop]
      split
      · rename_i hcolon
        split
        · rename_i hlt
          exact iff_of_true ⟨_, rfl⟩ fun h => h.2.2 n le_rfl (by omega) hcolon
        · rename_i hlt
          have hlast : n = 7 := by omega
          subst hlast
          refine iff_of_false ?_ (not_not_intro ⟨le_rfl, hcolon, fun i hi hi' => by omega⟩)
          rintro ⟨r, hr⟩
          cases hr
      · rename_i hcolon
        rw [ih (n + 1) _ (by omega), not_iff_not]
        constructor
        · rintro ⟨hle, hseven, hall⟩
          refine ⟨by omega, hseven, fun i hi hi' => ?_⟩
          rcases Nat.eq_or_lt_of_le hi with rfl | hi
          · exact hcolon
          · exact hall i hi hi'
        · rintro ⟨hle, hseven, hall⟩
          have hne : n ≠ 7 := fun h => hcolon (h ▸ hseven)
          exact ⟨by omega, hseven, fun i hi hi' => hall i (by omega) hi'⟩

theorem exists_devname_iff (buf : ℕ → UInt8) :
    (∃ r, devnameLoop buf 8 0 [] = .ok r) ↔ ¬LongDevice buf := by
  rw [devnameLoop_ok_iff buf 8 0 [] rfl, LongDevice]
  exact not_congr ⟨fun h => ⟨h.2.1, fun n hn => h.2.2 n (Nat.zero_le n) hn⟩,
    fun h => ⟨Nat.zero_le 7, h.1, fun n _ hn => h.2 n hn⟩⟩

theorem inDirectory_inj {dir name name' : Bytes} :
    inDirectory dir name = inDirectory dir name' ↔ name = name' :=
  List.append_right_inj _

/-- Going to the directory that is there, with its own name already, is going into it only for
what has no name. -/
theorem eq_inDirectory_iff (hsame : SameName vol fsrc fdst) (hslash : slash ∈ fsrc) :
    fdst = inDirectory fdst (lastComponent fsrc) ↔ lastComponent fsrc = [] := by
  constructor
  · intro h
    have hlength := congrArg List.length h
    rw [inDirectory, List.length_append, List.length_append] at hlength
    exact List.eq_nil_of_length_eq_zero (by omega)
  · intro hnone
    -- What has no name ends with a slash, and so does the destination.
    have hname : nameOf fsrc = [] := ((nameOf_eq_iff fsrc).mpr fun _ => hnone).trans hnone
    rcases hlast : strrchr slash fsrc with _ | last
    · exact absurd hslash (strrchr_eq_none_iff.mp hlast)
    · obtain ⟨name, rfl, -⟩ := strrchr_eq_some hlast
      rw [nameOf, hlast, Option.getD_some, List.tail_cons] at hname
      subst hname
      obtain ⟨_, heq, front, hfdst⟩ := strrchr_eq_some (hsame.2.symm.trans hlast)
      cases heq
      have hend : ¬needsSlash fdst := fun h => h.2 (hfdst ▸ List.getLast?_concat)
      rw [inDirectory, if_neg hend, hnone, List.append_nil, List.append_nil]

theorem destination_handles_iff (hinto : isdir vol.toDevice fdst = true → into = true) :
    (∃ d, destination (isdir vol.toDevice fsrc) into fsrc fdst = .ok d ∧
        (isdir vol.toDevice fdst = true → d = inDirectory fdst (lastComponent fsrc))) ↔
      (into = true → GoesInto vol fsrc fdst) := by
  simp only [destination_eq_ok_iff]
  by_cases hgoes : into = true
  · by_cases hsame : SameName vol fsrc fdst
    · have htarget : target vol into fsrc fdst = fdst := if_neg fun h => h.2 hsame
      constructor
      · rintro ⟨d, ⟨hslash, hd⟩, hdir⟩ -
        have hslashes := (hslash hgoes).1 hsame.1
        rw [← hd, htarget] at hdir
        exact ⟨hslashes.1, fun _ => hslashes.2,
          fun _ h => (eq_inDirectory_iff hsame hslashes.1).mp (hdir h),
          fun h => absurd hsame h, fun h => absurd hsame h⟩
      · intro h
        have hinto := h hgoes
        refine ⟨fdst, ⟨fun _ => ⟨fun hdir => ⟨hinto.src_slash, hinto.dst_slash hdir⟩,
          fun h => absurd hsame h⟩, htarget⟩, fun hdir => ?_⟩
        exact (eq_inDirectory_iff hsame hinto.src_slash).mpr (hinto.other hsame hdir)
    · have htarget : target vol into fsrc fdst = inDirectory fdst (nameOf fsrc) :=
        if_pos ⟨hgoes, hsame⟩
      constructor
      · rintro ⟨d, ⟨hslash, hd⟩, hdir⟩ -
        obtain ⟨hslashes, hroom⟩ := hslash hgoes
        rw [← hd, htarget, inDirectory_inj, nameOf_eq_iff] at hdir
        exact ⟨(hroom hsame).1, fun h => (hslashes h).2, fun h => absurd h hsame,
          fun _ => (hroom hsame).2, fun _ => hdir⟩
      · intro h
        have hinto := h hgoes
        refine ⟨_, ⟨fun _ => ⟨fun hdir => ⟨hinto.src_slash, hinto.dst_slash hdir⟩,
          fun _ => ⟨hinto.src_slash, hinto.room hsame⟩⟩, htarget⟩, fun hdir => ?_⟩
        rw [inDirectory_inj, nameOf_eq_iff]
        exact hinto.named hsame hdir
  · have htarget : target vol into fsrc fdst = fdst := if_neg fun h => hgoes h.1
    exact iff_of_true ⟨fdst, ⟨fun h => absurd h hgoes, htarget⟩, fun h => absurd (hinto h) hgoes⟩
      fun h => absurd h hgoes

/-- What `cp` needs of its paths. -/
def CpFine (vol : Volume) (fsrc fdst : Bytes) : Prop :=
  Exists vol fsrc → isdir vol.toDevice fdst → GoesInto vol fsrc fdst

/-- What `mv` needs of its paths, and of what is in front of the colon of the source, if there is
something to move. -/
def MvFine (vol : Volume) (stale : ℕ → UInt8) (fsrc fdst : Bytes) : Prop :=
  Exists vol fsrc →
    (isdir vol.toDevice fdst ∨ fdst.getLast? = some colon → GoesInto vol fsrc fdst) ∧
      (¬taken vol (isdir vol.toDevice fsrc)
          (target vol (isdir vol.toDevice fdst ∨ fdst.getLast? = some colon) fsrc fdst) →
        ¬LongDevice (contents fsrc stale))

theorem handles_bind_iff {next : Bytes → Checked (Option Copied)} {q : Bytes → Prop}
    (hinto : isdir vol.toDevice fdst = true → into = true)
    (hnext : ∀ d, (∃ copied, next d = .ok (some copied) ∧ copied.fdst = d) ↔ q d)
    (hfault : ∀ d, ¬q d → ∃ fault, next d = .error fault) :
    Handles vol fsrc fdst (destination (isdir vol.toDevice fsrc) into fsrc fdst >>= next) ↔
      (into = true → GoesInto vol fsrc fdst) ∧ q (target vol into fsrc fdst) := by
  rw [← destination_handles_iff hinto, Handles]
  rcases hd : destination (isdir vol.toDevice fsrc) into fsrc fdst with fault | d
  · rw [error_bind]
    refine iff_of_false ?_ ?_
    · rintro ⟨outcome, heq, -⟩
      cases heq
    · rintro ⟨⟨d, heq, -⟩, -⟩
      cases heq
  · rw [(destination_eq_ok_iff.mp hd).2, ok_bind]
    constructor
    · rintro ⟨outcome, heq, hall⟩
      have hq : q d := by
        by_contra hnot
        obtain ⟨fault, hfault⟩ := hfault d hnot
        rw [hfault] at heq
        cases heq
      obtain ⟨copied, hcopied, hfdst⟩ := (hnext d).mpr hq
      rw [hcopied] at heq
      cases heq
      exact ⟨⟨d, rfl, fun hdir => hfdst.symm.trans (hall copied rfl hdir)⟩, hq⟩
    · rintro ⟨⟨_, heq, hdir⟩, hq⟩
      cases heq
      obtain ⟨copied, hcopied, hfdst⟩ := (hnext d).mpr hq
      refine ⟨_, hcopied, fun c hc h => ?_⟩
      cases hc
      exact hfdst.trans (hdir h)

theorem cpPaths_handles_iff (vol : Volume) (fsrc fdst : Bytes) :
    Handles vol fsrc fdst (cpPaths vol fsrc fdst) ↔ CpFine vol fsrc fdst := by
  rw [cpPaths, CpFine, Exists]
  split
  · rename_i hnone
    refine iff_of_true ⟨none, rfl, fun c hc => absurd hc.symm (Option.some_ne_none c)⟩ fun h => ?_
    exact absurd h (not_or.mpr hnone)
  · rename_i hexists
    rw [not_and_or, not_not, not_not] at hexists
    rw [imp_iff_right hexists]
    have hbind := @handles_bind_iff fsrc fdst vol (isdir vol.toDevice fdst)
      (fun d => if taken vol (isdir vol.toDevice fsrc) d then .ok (some ⟨d, .refuse⟩)
        else .ok (some ⟨d, copies (isdir vol.toDevice fsrc)⟩)) (fun _ => True) id
      (fun d => iff_true_intro (by split <;> exact ⟨_, rfl, rfl⟩)) (fun d h => absurd trivial h)
    exact hbind.trans (and_iff_left trivial)

theorem moveTo_iff (vol : Volume) (stale : ℕ → UInt8) (fsrc d : Bytes) :
    (∃ copied, moveTo vol stale fsrc d = .ok (some copied) ∧ copied.fdst = d) ↔
      (¬taken vol (isdir vol.toDevice fsrc) d → ¬LongDevice (contents fsrc stale)) := by
  rw [← exists_devname_iff, moveTo]
  split
  · rename_i htaken
    exact iff_of_true ⟨_, rfl, rfl⟩ fun h => absurd htaken h
  · rename_i htaken
    rw [imp_iff_right htaken]
    rcases devnameLoop (contents fsrc stale) 8 0 [] with fault | ⟨devname, n⟩
    · refine iff_of_false ?_ ?_
      · rintro ⟨copied, heq, -⟩
        cases heq
      · rintro ⟨r, heq⟩
        cases heq
    · refine iff_of_true ?_ ⟨_, rfl⟩
      rw [ok_bind]
      dsimp only
      split
      · exact ⟨_, rfl, rfl⟩
      · exact ⟨_, rfl, rfl⟩

theorem moveTo_fault (vol : Volume) (stale : ℕ → UInt8) (fsrc d : Bytes)
    (h : ¬(¬taken vol (isdir vol.toDevice fsrc) d → ¬LongDevice (contents fsrc stale))) :
    ∃ fault, moveTo vol stale fsrc d = .error fault := by
  rw [← exists_devname_iff, Classical.not_imp] at h
  rw [moveTo, if_neg h.1]
  rcases hloop : devnameLoop (contents fsrc stale) 8 0 [] with fault | r
  · exact ⟨fault, rfl⟩
  · exact absurd ⟨r, hloop⟩ h.2

theorem mvPaths_handles_iff (vol : Volume) (stale : ℕ → UInt8) (fsrc fdst : Bytes) :
    Handles vol fsrc fdst (mvPaths vol stale fsrc fdst) ↔ MvFine vol stale fsrc fdst := by
  rw [mvPaths, MvFine, Exists]
  split
  · rename_i hnone
    refine iff_of_true ⟨none, rfl, fun c hc => absurd hc.symm (Option.some_ne_none c)⟩ fun h => ?_
    exact absurd h (not_or.mpr hnone)
  · rename_i hexists
    rw [not_and_or, not_not, not_not] at hexists
    rw [imp_iff_right hexists]
    have hbind := @handles_bind_iff fsrc fdst vol
      (isdir vol.toDevice fdst ∨ fdst.getLast? = some colon) _ _
      (fun h => decide_eq_true (.inl h)) (moveTo_iff vol stale fsrc) (moveTo_fault vol stale fsrc)
    rw [decide_eq_true_iff] at hbind
    exact hbind

theorem withPaths_eq {vol : Volume} {currdir source dest : Bytes} {rounds : ℕ} {src dst : Handled}
    (hsrc : handlepath vol.toDevice currdir source .ether false rounds = .ok src) (hsrcret : src.ret = 1)
    (hdst : handlepath vol.toDevice currdir dest .ether false rounds = .ok dst) (hdstret : dst.ret = 1)
    (act : Bytes → Bytes → Checked (Option Copied)) :
    withPaths vol currdir source dest rounds act = act src.path dst.path := by
  have hsrcne : src.ret ≠ 0 := fun h => Nat.one_ne_zero (hsrcret.symm.trans h)
  have hdstne : dst.ret ≠ 0 := fun h => Nat.one_ne_zero (hdstret.symm.trans h)
  rw [withPaths, hsrc, hdst]
  change (if src.ret = 0 then _ else _) = _
  rw [if_neg hsrcne]
  change (if dst.ret = 0 then _ else _) = _
  rw [if_neg hdstne]

/-- Both commands handle two paths just when the paths are as they must be for that. -/
theorem commands_handle_iff (vol : Volume) (stale : ℕ → UInt8) {currdir source dest : Bytes}
    {rounds : ℕ} {src dst : Handled}
    (hsrc : handlepath vol.toDevice currdir source .ether false rounds = .ok src) (hsrcret : src.ret = 1)
    (hdst : handlepath vol.toDevice currdir dest .ether false rounds = .ok dst) (hdstret : dst.ret = 1) :
    (Handles vol src.path dst.path (cpCmd vol currdir source dest rounds) ↔
      CpFine vol src.path dst.path) ∧
    (Handles vol src.path dst.path (mvCmd vol stale currdir source dest rounds) ↔
      MvFine vol stale src.path dst.path) := by
  rw [cpCmd, mvCmd, withPaths_eq hsrc hsrcret hdst hdstret, withPaths_eq hsrc hsrcret hdst hdstret]
  exact ⟨cpPaths_handles_iff vol _ _, mvPaths_handles_iff vol stale _ _⟩

/-- `ms0:/`. -/
def root : Bytes := [0x6D, 0x73, 0x30, colon, slash]

/-- `ms0:/d`. -/
def folder : Bytes := root ++ [0x64]

/-- `ms0:/x`, behind a slash, and `ms0:x`, behind the device alone. -/
def inRoot : Bytes := root ++ [0x78]

def unslashed : Bytes := [0x6D, 0x73, 0x30, colon, 0x78]

/-- A folder, and a file under both names. -/
def memoryStick : Volume :=
  { getstat := fun path => if path = folder then some true else none
    opens := fun path => path = inRoot ∨ path = unslashed
    devctl := fun _ _ _ => false }

theorem inRoot_handled : Handles memoryStick inRoot folder (cpCmd memoryStick root inRoot folder 9) ∧
    Handles memoryStick inRoot folder (mvCmd memoryStick (fun _ => 0) root inRoot folder 9) := by
  have hpaths : ∀ path ∈ [inRoot, folder],
      handlepath memoryStick.toDevice root path .ether false 9 =
        .ok { ret := 1, path := path, size := 7 } := by
    refine List.forall_mem_cons.mpr ⟨rfl, List.forall_mem_singleton.mpr rfl⟩
  have hsrc := hpaths inRoot List.mem_cons_self
  have hdst := hpaths folder (List.mem_cons_of_mem _ List.mem_cons_self)
  obtain ⟨hcp, hmv⟩ := commands_handle_iff memoryStick (fun _ => 0) hsrc rfl hdst rfl
  have hinto : GoesInto memoryStick inRoot folder :=
    ⟨by decide, by decide, by decide, fun _ => by decide, fun _ _ h => absurd h (by decide)⟩
  exact ⟨hcp.mpr fun _ _ => hinto, hmv.mpr fun _ => ⟨fun _ => hinto, fun _ h => absurd h.1 (by decide)⟩⟩

/-- `ms0:x` has no slash for its name to stand behind. -/
theorem unslashed_fails : handlepath memoryStick.toDevice root unslashed .ether false 9 =
      .ok { ret := 1, path := unslashed, size := 6 } ∧
    cpCmd memoryStick root unslashed folder 9 = .error .null ∧
    ¬Handles memoryStick unslashed folder (cpCmd memoryStick root unslashed folder 9) := by
  have hnull : cpCmd memoryStick root unslashed folder 9 = .error .null := by rfl
  refine ⟨rfl, hnull, ?_⟩
  rintro ⟨outcome, heq, -⟩
  rw [hnull] at heq
  cases heq

end PsplinkUsb.Psplink.CopyDestination
