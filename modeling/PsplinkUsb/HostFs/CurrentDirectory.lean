import PsplinkUsb.Library.CString
import PsplinkUsb.HostFs.Framing
import PsplinkUsb.UsbHostfsPc.PathResolution

namespace PsplinkUsb.HostFs.CurrentDirectory

open PsplinkUsb.Library.CString
open PsplinkUsb.Library.LexicalPath
open PsplinkUsb.Library.Tokens
open PsplinkUsb.HostFs.Wire
open PsplinkUsb.HostFs.Exchange
open PsplinkUsb.HostFs.Answers
open PsplinkUsb.HostFs.Requests
open PsplinkUsb.HostFs.Framing
open PsplinkUsb.UsbHostfs.CommandXchg
open PsplinkUsb.UsbHostfs.HostDriver
open PsplinkUsb.UsbHostfsPc.HostPath
open PsplinkUsb.UsbHostfsPc.OsCalls
open PsplinkUsb.UsbHostfsPc.HostFiles
open PsplinkUsb.UsbHostfsPc.Handlers
open PsplinkUsb.UsbHostfsPc.PlainFile
open PsplinkUsb.UsbHostfsPc.PathConfinement
open PsplinkUsb.UsbHostfsPc.PathResolution

/-- The components that a path names in a directory. -/
def named (d p : Path) : List Path :=
  if p.head? = some slash then p.splitOn slash else d.splitOn slash ++ p.splitOn slash

/-- What a path leaves of the components before it. -/
def leftBefore (kept : List Path) (p : Path) : List Path :=
  kept.take (kept.length - (effect dot dotdot (tokens slash p)).climbs)

/-- The directory and the path need no separator between them, or what they make without one is
dropped again by the rest of the path. An absolute path drops the whole directory. -/
def Separate (d p : Path) : Prop :=
  if p.head? = some slash then
    (lexical (d.splitOn slash)).length ≤ (effect dot dotdot (tokens slash p)).climbs
  else
    let first := p.takeWhile fun c => c ≠ slash
    let rest := p.dropWhile fun c => c ≠ slash
    d = [] ∨ d.getLast? = some slash ∨ p = [] ∨
      leftBefore (lexical ((d ++ first).splitOn slash)) rest =
        leftBefore (lexical ((d ++ slash :: first).splitOn slash)) rest

/-- For how many components `gen_path` has room below the root. -/
def room (rootdir : Path) : ℕ := maxTokens - 1 - (components rootdir).length

/-- The components that `gen_path` does not look at take back as many of the others as there is no
room for, and name again what else they take back. With room for all of them there is nothing to
take back. -/
def Spared (rootdir path : Path) : Prop :=
  let kept := resolve dot dotdot (pathTokens path)
  let unseen := effect dot dotdot ((tokens slash path).drop (maxTokens - 1))
  min (room rootdir) kept.length = kept.length - unseen.climbs + unseen.leaves.length ∧
    unseen.leaves <+: kept.drop (kept.length - unseen.climbs)

/-- The first components of the path are those that are wanted, although it is not the path that is
wanted. -/
def Coincides (rootdir path : Path) (wanted : List Path) : Prop :=
  (resolve dot dotdot (pathTokens path)).take (room rootdir) = wanted

/-- When the path in the directory is found below the root: the two are separate, and nothing is
lost for want of room. Where they are not separate, they can lose what is too much. -/
def Resolves (rootdir d p : Path) : Prop :=
  (Separate d p → Spared rootdir (d ++ p)) ∧
    (¬Separate d p →
      maxTokens - 1 < (tokens slash (d ++ p)).length + (components rootdir).length ∧
        Coincides rootdir (d ++ p) (lexical (named d p)))

variable {d p rootdir : Path} {dir : Bool}

theorem lexical_splitOn (path : Path) :
    lexical (path.splitOn slash) = resolve dot dotdot (tokens slash path) := lexical_eq _

theorem lexical_splitOn_append (a b : Path) :
    lexical (a.splitOn slash ++ b.splitOn slash) =
      resolve dot dotdot (tokens slash a ++ tokens slash b) := by
  rw [lexical_eq, List.filter_append]
  rfl

/-- Behind two readings of a directory, the rest of a path comes to the same if it leaves the same
of both. -/
theorem seam_iff (first : Path) {rest : Path} (hrest : rest = [] ∨ rest.head? = some slash) :
    resolve dot dotdot (tokens slash (d ++ (first ++ rest))) =
        resolve dot dotdot (tokens slash d ++ tokens slash (first ++ rest)) ↔
      leftBefore (lexical ((d ++ first).splitOn slash)) rest =
        leftBefore (lexical ((d ++ slash :: first).splitOn slash)) rest := by
  have hjoined : tokens slash (d ++ (first ++ rest)) =
      tokens slash (d ++ first) ++ tokens slash rest := by
    rw [← List.append_assoc, tokens_append_of_head hrest]
  have hseparated : tokens slash d ++ tokens slash (first ++ rest) =
      tokens slash (d ++ slash :: first) ++ tokens slash rest := by
    rw [tokens_append_of_head hrest, tokens_append_sep, List.append_assoc]
  rw [hjoined, hseparated, resolve_append, resolve_append, foldl_enter_eq_iff, lexical_splitOn,
    lexical_splitOn, leftBefore, leftBefore]

theorem head?_dropWhile_slash (p : Path) :
    (p.dropWhile fun c => c ≠ slash) = [] ∨
      (p.dropWhile fun c => c ≠ slash).head? = some slash := by
  have hhead := List.head?_dropWhile_not (fun c => decide (c ≠ slash)) p
  cases hrest : p.dropWhile fun c => c ≠ slash with
  | nil => exact .inl rfl
  | cons c rest =>
      rw [hrest] at hhead
      exact .inr (congrArg some (by simpa using hhead))

theorem separate_iff :
    Separate d p ↔ resolve dot dotdot (tokens slash (d ++ p)) = lexical (named d p) := by
  rw [Separate, named]
  split
  · rename_i habsolute
    rw [tokens_append_of_head (.inr habsolute), lexical_splitOn, lexical_splitOn,
      resolve_append_eq_iff]
  · have hseam := @seam_iff d (p.takeWhile fun c => c ≠ slash) _ (head?_dropWhile_slash p)
    rw [List.takeWhile_append_dropWhile] at hseam
    rw [lexical_splitOn_append]
    dsimp only
    rw [← hseam]
    constructor
    · rintro (rfl | hd | rfl | hsame)
      · rw [tokens_append_of_getLast (.inl rfl)]
      · rw [tokens_append_of_getLast (.inr hd)]
      · rw [tokens_append_of_head (.inl rfl)]
      · exact hsame
    · exact fun hsame => .inr (.inr (.inr hsame))

/-! ### What `make_path` builds -/

theorem plain_lexical (path : List Path) (hpath : ∀ c ∈ path, slash ∉ c) :
    ∀ c ∈ lexical path, Plain c := by
  rw [lexical_eq]
  refine foldl_pushToken_plain (by simp) fun c hc => ?_
  obtain ⟨hmem, hne⟩ := List.mem_filter.mp hc
  exact ⟨of_decide_eq_true hne, hpath c hmem⟩

theorem absolute_inj {cs cs' : List Path} (hcs : ∀ c ∈ cs, Plain c) (hcs' : ∀ c ∈ cs', Plain c) :
    absolute dir cs = absolute dir cs' ↔ cs = cs' := by
  constructor
  · intro heq
    rw [absolute, absolute, ← joined_eq, ← joined_eq] at heq
    rw [← @components_joined cs dir hcs, heq, components_joined hcs']
  · rintro rfl
    rfl

theorem lexical_firstComponents (path : Path) :
    lexical (firstComponents path) = (pathTokens path).foldl pushToken [] := by
  rw [lexical_eq, filter_firstComponents]
  rfl

theorem take_eq_take_append_iff {α : Type*} {l more : List α} {i n : ℕ} (hn : n ≤ l.length) :
    l.take i = l.take n ++ more ↔ min i l.length = n + more.length ∧ more <+: l.drop n := by
  constructor
  · intro h
    have hlength := congrArg List.length h
    rw [List.length_append, List.length_take, List.length_take, min_eq_left hn] at hlength
    refine ⟨hlength, ?_⟩
    have hmore : (l.take i).drop n = more := by
      rw [h]
      exact List.drop_left' (by rw [List.length_take, min_eq_left hn])
    rw [← hmore, List.drop_take]
    exact List.take_prefix _ _
  · rintro ⟨hlength, hprefix⟩
    rw [List.take_eq_take_min, hlength, List.take_add, ← List.prefix_iff_eq_take.mp hprefix]

theorem spared_iff (path : Path) :
    Spared rootdir path ↔ Coincides rootdir path (resolve dot dotdot (tokens slash path)) := by
  have hall : resolve dot dotdot (tokens slash path) =
      ((tokens slash path).drop (maxTokens - 1)).foldl (enter dot dotdot)
        (resolve dot dotdot (pathTokens path)) := by
    rw [← resolve_append, pathTokens, List.take_append_drop]
  rw [Coincides, hall, foldl_enter]
  exact (take_eq_take_append_iff (Nat.sub_le _ _)).symm

theorem coincides_of_length
    (hlength : (tokens slash p).length + (components rootdir).length ≤ maxTokens - 1) :
    Coincides rootdir p (resolve dot dotdot (tokens slash p)) := by
  have hseen : pathTokens p = tokens slash p := List.take_of_length_le (by omega)
  have hkept := @length_foldl_pushToken (tokens slash p) []
  rw [List.length_nil] at hkept
  rw [Coincides, hseen]
  exact List.take_of_length_le (hkept.trans (by rw [room]; omega))

/-- Without the two flags, `make_path` puts what `gen_path` makes of the joined string below the
root. -/
theorem makePath_joined {env : PathEnv} {drive : BitVec 32} {n : Fin maxHostdrives}
    {root : Path} (hdrive : toDrive drive = some n)
    (henv : env.drives n = { rootdir := rootdir, currdir := d })
    (hroot : rootdir = genPath root false) (hlocked : env.drivesLocked = true)
    (hmsslash : env.msslash = false) (hnocase : env.nocase = false)
    (hlength : (d ++ p).length < pathMax)
    (hretlength : (rootdir ++ slash :: genPath (d ++ p) dir).length < pathMax) :
    makePath env drive p dir = some (absolute dir (components rootdir ++
      (lexical (firstComponents (d ++ p))).take
        (maxTokens - 1 - (components rootdir).length))) := by
  obtain ⟨rootCs, hrootCs⟩ := genPath_normal root false
  rw [← hroot] at hrootCs
  have hrelative : relativePath env rootdir (d ++ p) dir = genPath (d ++ p) dir := by
    rw [relativePath, hmsslash, hnocase]
    rfl
  have hbelow : Normal dir _ _ := genPath_below hrootCs (normal_genPath (d ++ p) dir)
  rw [makePath, hdrive]
  dsimp only
  rw [henv]
  dsimp only
  rw [hlocked, hrelative, if_neg (by decide), if_neg (Nat.not_le.mpr hlength),
    if_neg (Nat.not_le.mpr hretlength), hrootCs.components_eq, lexical_firstComponents, hbelow.1,
    absolute, joined_eq]

theorem plain_firstComponents (path : Path) : ∀ c ∈ lexical (firstComponents path), Plain c := by
  apply plain_lexical
  intro c hc
  rw [firstComponents] at hc
  exact not_mem_of_mem_splitOn (List.mem_filter.mp (List.mem_of_mem_take hc)).1

theorem plain_named (d p : Path) : ∀ c ∈ lexical (named d p), Plain c := by
  apply plain_lexical
  intro c hc
  rw [named] at hc
  split at hc
  · exact not_mem_of_mem_splitOn hc
  · rcases List.mem_append.mp hc with hc | hc
    · exact not_mem_of_mem_splitOn hc
    · exact not_mem_of_mem_splitOn hc

theorem resolves_iff :
    Resolves rootdir d p ↔
      (lexical (firstComponents (d ++ p))).take (maxTokens - 1 - (components rootdir).length) =
        lexical (named d p) := by
  rw [lexical_firstComponents]
  change _ ↔ Coincides rootdir (d ++ p) _
  rw [Resolves, spared_iff]
  constructor
  · rintro ⟨hspared, hseam⟩
    rcases em (Separate d p) with hseparate | hnot
    · rw [← separate_iff.mp hseparate]
      exact hspared hseparate
    · exact (hseam hnot).2
  · intro hwanted
    refine ⟨fun hseparate => ?_, fun hnot => ⟨?_, hwanted⟩⟩
    · rw [separate_iff.mp hseparate]
      exact hwanted
    · by_contra hlength
      have hseen := @coincides_of_length (d ++ p) rootdir (Nat.not_lt.mp hlength)
      exact hnot (separate_iff.mpr (hseen.symm.trans hwanted))

/-! ### The request -/

variable {σ : Type} {os : HostOs σ} {arg : PspIoDrvFileArg}

/-- The request of `io_chdir`. -/
def chdirRequest (arg : PspIoDrvFileArg) (d : Bytes) : XchgRequest :=
  pathRequest .chdir (le32 arg.fsNum) d 0

/-- What is left of a host when a drive has another current directory. -/
def enterDirectory (n : Fin maxHostdrives) (d : Path) (h : Host σ) : Host σ :=
  { h with drives := Function.update h.drives n { h.drives n with currdir := d } }

theorem runs_chdir {n : Fin maxHostdrives} (hd : 0 ∉ d) (hreq : Sendable (chdirRequest arg d))
    (hdrive : toDrive arg.fsNum = some n) (h : Host σ) :
    Runs os (ioChdir true arg (some d)) h { ret := 0, arg := arg, indata := [] }
      (enterDirectory n d h) := by
  have hserve : doHostfs os h (chdirRequest arg d).outcmd =
      handleChdir h (chdirRequest arg d).outcmd := doHostfs_outcmd h
  have hname : cString (chdirRequest arg d).outdata = d := cstr_append_zero hd []
  have hfsnum : field32 (chdirRequest arg d).outcmd 12 = arg.fsNum :=
    @field32_outcmd .chdir _ [] (le32 arg.fsNum) _ 0 12 arg.fsNum [] (by simp) rfl
  have hanswers : Answers .chdir (handleChdir h (chdirRequest arg d).outcmd)
      (chdirRequest arg d).outdata _ :=
    answers_handleData hreq.outcmd_length (by rw [decode_outcmd]; exact hreq.expected)
      (by rw [decode_outcmd]; exact hreq.outdata_length)
  dsimp only at hanswers
  rw [hfsnum, hname, hdrive] at hanswers
  dsimp only at hanswers
  have hruns := runs_exchangeOnce arg hreq (by rw [hserve]; exact hanswers) (replyOk_res rfl 0)
    (returnRes arg)
  rw [returnRes, takenReply_res rfl] at hruns
  exact hruns

theorem drives_of_chdir {n : Fin maxHostdrives} {h h' : Host σ} {r : IoResult} (hd : 0 ∉ d)
    (hdrive : toDrive arg.fsNum = some n)
    (hruns : Runs os (ioChdir true arg (some d)) h r h') :
    r.ret = 0 ∧ h'.drives n = { h.drives n with currdir := d } := by
  obtain ⟨rfl, rfl⟩ := hruns.unique (runs_chdir hd (hruns.sendable_path trivial nofun) hdrive h)
  exact ⟨rfl, Function.update_self ..⟩

/-- After a `chdir`, a path is found below the root where the components of the directory and its
own lead, exactly if it is separate from the directory; as long as `gen_path` has room for the
components. -/
theorem makePath_resolves_iff {n : Fin maxHostdrives} {root : Path} {h h' later : Host σ}
    {r : IoResult} (hd : 0 ∉ d) (hdrive : toDrive arg.fsNum = some n)
    (hroot : (h.drives n).rootdir = genPath root false)
    (hruns : Runs os (ioChdir true arg (some d)) h r h')
    (hlater : later.drives n = h'.drives n) (hlocked : os.drivesLocked later.os = true)
    (hmsslash : later.msslash = false) (hnocase : later.nocase = false)
    (hlength : (d ++ p).length < pathMax)
    (hretlength : ((h.drives n).rootdir ++ slash :: genPath (d ++ p) dir).length < pathMax) :
    makePath (later.pathEnv os) arg.fsNum p dir =
        some (absolute dir (components (h.drives n).rootdir ++ lexical (named d p))) ↔
      Resolves (h.drives n).rootdir d p := by
  obtain ⟨-, hstored⟩ := drives_of_chdir hd hdrive hruns
  obtain ⟨rootCs, hrootCs⟩ := genPath_normal root false
  rw [← hroot] at hrootCs
  have hrootPlain : ∀ c ∈ components (h.drives n).rootdir, Plain c := by
    rw [hrootCs.components_eq]
    exact hrootCs.2.1
  have hbuilt := plain_firstComponents (d ++ p)
  have hjoined := @makePath_joined d p (h.drives n).rootdir dir (later.pathEnv os) arg.fsNum n root
    hdrive (hlater.trans hstored) hroot hlocked hmsslash hnocase hlength hretlength
  rw [hjoined, Option.some_inj, absolute_inj, List.append_cancel_left_eq, resolves_iff]
  · intro c hc
    rcases List.mem_append.mp hc with hc | hc
    · exact hrootPlain c hc
    · exact hbuilt c (List.mem_of_mem_take hc)
  · intro c hc
    rcases List.mem_append.mp hc with hc | hc
    · exact hrootPlain c hc
    · exact plain_named d p c hc

def firstDrive : Fin maxHostdrives := ⟨0, by decide⟩

/-- A PC whose root directory is `/srv`. -/
def srvHost : Host Stat where
  openFiles := fun _ => FileHandle.closed
  openDirs := fun _ => DirHandle.closed
  drives := fun _ => { rootdir := genPath [47, 115, 114, 118] false, currdir := [slash] }
  msslash := false
  nocase := false
  os := { size := 0, mode := 0o100644, ctime := 0, atime := 0, mtime := 0 }

theorem runs_chdir_srv {d : Path} (hd : 0 ∉ d) (hreq : Sendable (chdirRequest ⟨0, 0⟩ d)) :
    Runs (refusingOs Stat) (ioChdir true ⟨0, 0⟩ (some d)) srvHost
      { ret := 0, arg := ⟨0, 0⟩, indata := [] } (enterDirectory firstDrive d srvHost) :=
  runs_chdir hd hreq rfl srvHost

theorem sendable_srv {d : Path} (hlength : d.length < hostfsPathmax) :
    Sendable (chdirRequest ⟨0, 0⟩ d) :=
  sendable_path trivial (by simp; rfl) hlength (fun h => nomatch h)

/-- In `/d/`, the path `f` is `/srv/d/f`. -/
theorem makePath_resolves_separated :
    makePath ((enterDirectory firstDrive [47, 100, 47] srvHost).pathEnv (refusingOs Stat)) 0 [102]
        false = some (absolute false (components (srvHost.drives firstDrive).rootdir ++
          lexical (named [47, 100, 47] [102]))) ↔
      Resolves (srvHost.drives firstDrive).rootdir [47, 100, 47] [102] :=
  makePath_resolves_iff (by decide) rfl rfl
    (runs_chdir_srv (by decide) (sendable_srv (by decide))) rfl rfl rfl rfl (by decide)
    (by decide)

/-- In `/d` it is `/srv/df`. -/
theorem makePath_runs_together :
    ∃ r h', Runs (refusingOs Stat) (ioChdir true ⟨0, 0⟩ (some [47, 100])) srvHost r h' ∧
      r.ret = 0 ∧ h'.msslash = false ∧ h'.nocase = false ∧
      makePath (h'.pathEnv (refusingOs Stat)) 0 [102] false ≠
        some (absolute false (components (srvHost.drives firstDrive).rootdir ++
          lexical (named [47, 100] [102]))) := by
  refine ⟨_, _, runs_chdir_srv (by decide) (sendable_srv (by decide)), rfl, rfl, rfl, ?_⟩
  decide

end PsplinkUsb.HostFs.CurrentDirectory
