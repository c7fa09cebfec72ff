import Mathlib.Data.List.Forall2
import PsplinkUsb.Library.LexicalPath
import PsplinkUsb.UsbHostfsPc.HostPath

namespace PsplinkUsb.UsbHostfsPc.PathConfinement

open PsplinkUsb.Library.LexicalPath
open PsplinkUsb.Library.Tokens
open PsplinkUsb.UsbHostfsPc.HostPath

/-- The pieces between the separators of an absolute path, a closing separator
not starting another piece. -/
def components (path : Path) : List Path :=
  let pieces := (path.splitOn slash).tail
  if pieces.getLast? = some [] then pieces.dropLast else pieces

/-- A component that names an entry of its directory. -/
structure Plain (c : Path) : Prop where
  ne_nil : c ≠ []
  no_slash : slash ∉ c
  ne_dot : c ≠ dot
  ne_dotdot : c ≠ dotdot

variable {cs ts : List Path} {path : Path} {dir : Bool}

theorem tokens_joined_of_plain (hcs : ∀ c ∈ cs, Plain c) :
    tokens slash (joined slash dir cs) = cs :=
  tokens_joined fun c hc => ⟨(hcs c hc).ne_nil, (hcs c hc).no_slash⟩

theorem components_joined (hcs : ∀ c ∈ cs, Plain c) :
    components (slash :: joined slash dir cs) = cs := by
  have hsplit : (slash :: joined slash dir cs).splitOn slash =
      [] :: (cs ++ if dir = true ∨ cs = [] then [[]] else []) := by
    rw [List.splitOn_cons_eq_if_modifyHead, if_pos (by simp),
      splitOn_joined fun c hc => (hcs c hc).no_slash]
  simp only [components, hsplit, List.tail_cons]
  by_cases hopen : dir = true ∨ cs = []
  · rw [if_pos hopen, if_pos (by simp), List.dropLast_concat]
  · rw [if_neg hopen, List.append_nil, if_neg]
    intro hlast
    exact (hcs _ (List.mem_of_getLast? hlast)).ne_nil rfl

theorem pushToken_plain {outtokens : List Path} {token : Path}
    (hout : ∀ c ∈ outtokens, Plain c) (htoken : token ≠ [] ∧ slash ∉ token) :
    ∀ c ∈ pushToken outtokens token, Plain c := by
  intro c hc
  rw [pushToken] at hc
  split at hc
  · exact hout c hc
  · rename_i hdot
    split at hc
    · exact hout c (List.dropLast_subset _ hc)
    · rename_i hdotdot
      rcases List.mem_append.mp hc with hc | hc
      · exact hout c hc
      · obtain rfl := List.mem_singleton.mp hc
        exact ⟨htoken.1, htoken.2, hdot, hdotdot⟩

theorem foldl_pushToken_plain {outtokens : List Path} (hout : ∀ c ∈ outtokens, Plain c)
    (hts : ∀ t ∈ ts, t ≠ [] ∧ slash ∉ t) :
    ∀ c ∈ ts.foldl pushToken outtokens, Plain c := by
  induction ts generalizing outtokens with
  | nil => exact hout
  | cons t ts ih =>
      exact ih (pushToken_plain hout (hts t (List.mem_cons_self ..)))
        fun u hu => hts u (List.mem_cons_of_mem _ hu)

theorem foldl_pushToken_of_names {outtokens : List Path}
    (hts : ∀ t ∈ ts, t ≠ dot ∧ t ≠ dotdot) :
    ts.foldl pushToken outtokens = outtokens ++ ts :=
  foldl_enter_of_names hts

theorem foldl_pushToken_of_plain {outtokens : List Path} (hts : ∀ t ∈ ts, Plain t) :
    ts.foldl pushToken outtokens = outtokens ++ ts :=
  foldl_pushToken_of_names fun t ht => ⟨(hts t ht).ne_dot, (hts t ht).ne_dotdot⟩

theorem length_foldl_pushToken (outtokens : List Path) :
    (ts.foldl pushToken outtokens).length ≤ outtokens.length + ts.length := by
  induction ts generalizing outtokens with
  | nil => simp
  | cons t ts ih =>
      have hpush : (pushToken outtokens t).length ≤ outtokens.length + 1 := by
        rw [pushToken]
        split
        · omega
        · split
          · simp
            omega
          · simp
      have hrest := ih (pushToken outtokens t)
      simp only [List.foldl_cons, List.length_cons]
      omega

/-- A path as `gen_path` leaves it: its components, few enough to be read back. -/
def Normal (dir : Bool) (cs : List Path) (path : Path) : Prop :=
  path = slash :: joined slash dir cs ∧ (∀ c ∈ cs, Plain c) ∧ cs.length ≤ maxTokens - 1

theorem normal_genPath (path : Path) (dir : Bool) :
    Normal dir ((pathTokens path).foldl pushToken []) (genPath path dir) := by
  refine ⟨rfl, foldl_pushToken_plain (by simp) fun t ht => ?_, ?_⟩
  · exact mem_tokens (List.mem_of_mem_take ht)
  · have hlength := @length_foldl_pushToken (pathTokens path) []
    have htake : (pathTokens path).length ≤ maxTokens - 1 := List.length_take_le ..
    simp only [List.length_nil] at hlength
    omega

theorem genPath_normal (path : Path) (dir : Bool) :
    ∃ cs, Normal dir cs (genPath path dir) :=
  ⟨_, normal_genPath path dir⟩

theorem Normal.tokens_eq (h : Normal dir cs path) : tokens slash path = cs := by
  rw [h.1, tokens_cons_sep, tokens_joined_of_plain h.2.1]

theorem Normal.components_eq (h : Normal dir cs path) : components path = cs := by
  rw [h.1, components_joined h.2.1]

theorem Normal.pathTokens_eq (h : Normal dir cs path) : pathTokens path = cs := by
  rw [pathTokens, h.tokens_eq, List.take_of_length_le h.2.2]

theorem tolower_eq_iff {c d : UInt8} (hd : d < 65) : tolower c = d ↔ c = d := by
  rw [tolower]
  split
  · rename_i hletter
    obtain ⟨hlower, hupper⟩ := hletter
    have hc : c.toNat + 32 < 256 := by
      have : c.toNat ≤ 90 := UInt8.le_iff_toNat_le.mp hupper
      omega
    have hle : 65 ≤ c.toNat := UInt8.le_iff_toNat_le.mp hlower
    have hlt : d.toNat < 65 := UInt8.lt_iff_toNat_lt.mp hd
    have hsum : (c + 32).toNat = c.toNat + 32 := by
      rw [UInt8.toNat_add]
      exact Nat.mod_eq_of_lt hc
    constructor
    · rintro rfl
      omega
    · rintro rfl
      omega
  · rfl

theorem sameNocase_eq {a b : Path} (h : sameNocase a b) (hb : ∀ c ∈ b, c < 65) : a = b := by
  induction b generalizing a with
  | nil => simpa [sameNocase] using h
  | cons d b ih =>
      cases a with
      | nil => simp [sameNocase] at h
      | cons c a =>
          have hd := hb d (List.mem_cons_self ..)
          obtain ⟨hhead, htail⟩ := List.cons.inj h
          rw [(tolower_eq_iff hd).mpr rfl, tolower_eq_iff hd] at hhead
          rw [hhead, ih htail fun e he => hb e (List.mem_cons_of_mem _ he)]

/-- A name that matches a plain component but for case is plain: directory
entries cannot bring in a separator, `.` or `..`. -/
theorem plain_of_sameNocase {name token : Path} (htoken : Plain token)
    (hsame : sameNocase name token) : Plain name where
  ne_nil := by
    rintro rfl
    exact htoken.ne_nil (sameNocase_eq hsame.symm (by simp))
  no_slash := by
    intro hmem
    have hlower : slash ∈ token.map tolower := by
      rw [← hsame]
      exact List.mem_map.mpr ⟨slash, hmem, rfl⟩
    obtain ⟨c, hc, heq⟩ := List.mem_map.mp hlower
    rw [tolower_eq_iff (by decide)] at heq
    exact htoken.no_slash (heq ▸ hc)
  ne_dot := by
    rintro rfl
    exact htoken.ne_dot (sameNocase_eq hsame.symm (by simp [dot]))
  ne_dotdot := by
    rintro rfl
    exact htoken.ne_dotdot (sameNocase_eq hsame.symm (by simp [dotdot]))

theorem considerEntry_sameNocase {token name : Path} {found : Match}
    (hfound : ∀ m ∈ found, sameNocase m.1 token) :
    ∀ m ∈ considerEntry token found name, sameNocase m.1 token := by
  intro m hm
  rw [considerEntry] at hm
  split at hm
  · rename_i hname
    dsimp only at hm
    split at hm
    · obtain rfl := Option.mem_some_iff.mp hm
      exact hname
    · split at hm
      · obtain rfl := Option.mem_some_iff.mp hm
        exact hname
      · exact hfound m hm
  · exact hfound m hm

theorem findNocase_sameNocase {readNames : Path → Option (List Path)}
    {rootdir relpath token name : Path}
    (h : findNocase readNames rootdir relpath token = some name) :
    sameNocase name token := by
  have hfold (names : List Path) {found : Match}
      (hfound : ∀ m ∈ found, sameNocase m.1 token) :
      ∀ m ∈ names.foldl (considerEntry token) found, sameNocase m.1 token := by
    induction names generalizing found with
    | nil => exact hfound
    | cons n names ih => exact ih (considerEntry_sameNocase hfound)
  simp only [findNocase] at h
  split at h
  · simp at h
  · split at h
    · simp at h
    · obtain ⟨m, hm, rfl⟩ := Option.map_eq_some_iff.mp h
      exact hfold _ (by simp) m hm

theorem nocaseLoop_joined {readNames : Path → Option (List Path)} {rootdir retpath out : Path}
    (h : nocaseLoop readNames rootdir dir retpath ts = some out) :
    ∃ names, out = retpath ++ joined slash dir names ∧ List.Forall₂ sameNocase names ts := by
  induction ts generalizing retpath with
  | nil => exact ⟨[], by simpa [nocaseLoop, joined] using h.symm, .nil⟩
  | cons t ts ih =>
      have happend (name : Path) (hname : sameNocase name t)
          (hout : nocaseLoop readNames rootdir dir
            (retpath ++ name ++ if dir ∨ ts ≠ [] then [slash] else []) ts = some out) :
          ∃ names, out = retpath ++ joined slash dir names ∧
            List.Forall₂ sameNocase names (t :: ts) := by
        obtain ⟨names, hjoined, hsame⟩ := ih hout
        refine ⟨name :: names, ?_, .cons hname hsame⟩
        cases hsame with
        | nil => cases dir <;> simpa [joined] using hjoined
        | cons => simpa [joined] using hjoined
      rw [nocaseLoop] at h
      split at h
      · rename_i name hfound
        exact happend name (findNocase_sameNocase hfound) h
      · split at h
        · simp at h
        · exact happend t rfl h

theorem plain_of_forall₂ {names : List Path} (h : List.Forall₂ sameNocase names ts)
    (hts : ∀ t ∈ ts, Plain t) : ∀ name ∈ names, Plain name := by
  induction h with
  | nil => simp
  | cons hsame _ ih =>
      obtain ⟨ht, hrest⟩ := List.forall_mem_cons.mp hts
      exact List.forall_mem_cons.mpr ⟨plain_of_sameNocase ht hsame, ih hrest⟩

theorem makeNocase_names {readNames : Path → Option (List Path)} (rootdir : Path)
    (h : Normal dir cs path) :
    ∃ names, List.Forall₂ sameNocase names cs ∧
      Normal dir names (makeNocase readNames rootdir path dir) := by
  rw [makeNocase, h.pathTokens_eq]
  cases hloop : nocaseLoop readNames rootdir dir [slash] cs with
  | none => exact ⟨cs, List.forall₂_same.mpr fun _ _ => rfl, h⟩
  | some out =>
      obtain ⟨names, rfl, hsame⟩ := nocaseLoop_joined hloop
      exact ⟨names, hsame, rfl, plain_of_forall₂ hsame h.2.1, hsame.length_eq ▸ h.2.2⟩

theorem relativePath_normal (env : PathEnv) (rootdir path : Path) (dir : Bool) :
    ∃ cs, Normal dir cs (relativePath env rootdir path dir) := by
  rw [relativePath]
  obtain ⟨cs, hcs⟩ := genPath_normal (if env.msslash then convertSlashes path else path) dir
  split
  · obtain ⟨names, -, hnames⟩ := makeNocase_names rootdir hcs
    exact ⟨names, hnames⟩
  · exact ⟨cs, hcs⟩

/-- A relative path put below a root directory names an entry below it: the
components of the root come first. -/
theorem genPath_below {rootCs relCs : List Path} {rootdir relpath : Path} {dir' : Bool}
    (hroot : Normal dir' rootCs rootdir) (hrel : Normal dir relCs relpath) :
    Normal dir (rootCs ++ relCs.take (maxTokens - 1 - rootCs.length))
      (genPath (rootdir ++ slash :: relpath) dir) := by
  have htokens : pathTokens (rootdir ++ slash :: relpath) =
      rootCs ++ relCs.take (maxTokens - 1 - rootCs.length) := by
    rw [pathTokens, tokens_append_sep, hroot.tokens_eq, hrel.tokens_eq, List.take_append,
      List.take_of_length_le hroot.2.2]
  have hplain : ∀ c ∈ pathTokens (rootdir ++ slash :: relpath), Plain c := by
    rw [htokens]
    intro c hc
    rcases List.mem_append.mp hc with hc | hc
    · exact hroot.2.1 c hc
    · exact hrel.2.1 c (List.mem_of_mem_take hc)
  have hlength : (pathTokens (rootdir ++ slash :: relpath)).length ≤ maxTokens - 1 :=
    List.length_take_le ..
  rw [← htokens]
  exact ⟨by rw [genPath, foldl_pushToken_of_plain hplain, List.nil_append], hplain, hlength⟩

theorem makePath_some {env : PathEnv} {drive : BitVec 32} {d : Fin maxHostdrives}
    {retpath : Path} (hdrive : toDrive drive = some d)
    (hret : makePath env drive path dir = some retpath) :
    retpath = genPath ((env.drives d).rootdir ++ slash ::
      relativePath env (env.drives d).rootdir ((env.drives d).currdir ++ path) dir) dir := by
  rw [makePath, hdrive] at hret
  dsimp only at hret
  repeat' split at hret
  · simp at hret
  · simp at hret
  · simp at hret
  · simpa using hret.symm

/-- Every path `make_path` builds lies below the root directory of its drive:
it is absolute, its components start with those of the root, and none is empty,
`.` or `..`. -/
theorem makePath_confined (env : PathEnv) (drive : BitVec 32) (path : Path) (dir : Bool)
    (d : Fin maxHostdrives) (root retpath : Path) (hdrive : toDrive drive = some d)
    (hroot : (env.drives d).rootdir = genPath root false)
    (hret : makePath env drive path dir = some retpath) :
    retpath.head? = some slash ∧
      components (env.drives d).rootdir <+: components retpath ∧
      ∀ c ∈ components retpath, c ≠ [] ∧ c ≠ dot ∧ c ≠ dotdot := by
  obtain ⟨rootCs, hrootCs⟩ := genPath_normal root false
  rw [← hroot] at hrootCs
  obtain ⟨relCs, hrelCs⟩ := relativePath_normal env (env.drives d).rootdir
    ((env.drives d).currdir ++ path) dir
  have hbelow := genPath_below hrootCs hrelCs
  rw [← makePath_some hdrive hret] at hbelow
  rw [hbelow.components_eq, hrootCs.components_eq]
  refine ⟨by rw [hbelow.1]; rfl, List.prefix_append .., fun c hc => ?_⟩
  have hplain := hbelow.2.1 c hc
  exact ⟨hplain.ne_nil, hplain.ne_dot, hplain.ne_dotdot⟩

def srvDrive : HostDrive where
  rootdir := genPath [115, 114, 118, 47, 47, 112, 115, 112, 47] false
  currdir := [46, 46, 92]

def srvEnv : PathEnv where
  drives := fun _ => srvDrive
  msslash := true
  nocase := true
  readNames := fun path =>
    if path = [47, 115, 114, 118, 47, 112, 115, 112, 47] then some [[66], [97]] else none
  drivesLocked := true

/-- `..\./DOC/../b` is the path `/srv/psp/B`. -/
theorem makePath_confined_srv :
    let path : Path := [46, 46, 92, 46, 47, 68, 79, 67, 47, 46, 46, 47, 98]
    let retpath : Path := [47, 115, 114, 118, 47, 112, 115, 112, 47, 66]
    makePath srvEnv 3 path false = some retpath ∧
      retpath.head? = some slash ∧ components srvDrive.rootdir <+: components retpath ∧
      ∀ c ∈ components retpath, c ≠ [] ∧ c ≠ dot ∧ c ≠ dotdot := by
  refine ⟨by decide, ?_⟩
  exact makePath_confined srvEnv 3 [46, 46, 92, 46, 47, 68, 79, 67, 47, 46, 46, 47, 98] false
    ⟨3, by decide⟩ [115, 114, 118, 47, 47, 112, 115, 112, 47] _ (by decide) rfl
    (by decide)

end PsplinkUsb.UsbHostfsPc.PathConfinement
