import Mathlib.Data.List.Perm.Basic
import PsplinkUsb.Library.CString
import PsplinkUsb.Psplink.ProgramMemory

namespace PsplinkUsb.Psplink.TabCompletion

open PsplinkUsb.Library.CString
open PsplinkUsb.Psplink.ProgramMemory (Word)

abbrev Bytes := List UInt8

abbrev SceUID := ℤ

def atSign : UInt8 := 0x40
def slash : UInt8 := 0x2F
def dot : UInt8 := 0x2E

structure SceIoDirent where
  name : CStr
  attr : Word
  mode : Word

/-- `FIO_SO_ISDIR(attr) || FIO_S_ISDIR(mode)`. -/
def SceIoDirent.IsDir (entry : SceIoDirent) : Prop :=
  entry.attr &&& 0x0038 = 0x0010 ∨ entry.mode &&& 0xF000 = 0x1000

instance (entry : SceIoDirent) : Decidable entry.IsDir := inferInstanceAs (Decidable (_ ∨ _))

/-- What `g_QueryModuleInfo` returns, and the name that it leaves in the info. -/
structure ModuleQuery where
  ret : ℤ
  name : CStr

/-- The modules that `g_GetModuleIdList` finds, when there is room for all of them. -/
structure ModuleIds where
  ids : List SceUID
  room : ids.length ≤ 100

/-- What `tab_cmd` asks for: the entries of a directory, unless its path is refused or it cannot be
opened, the modules, and what is known of one. -/
structure System where
  directory : CStr → Option (List SceIoDirent)
  modules : Option ModuleIds
  query : SceUID → ModuleQuery

variable (sys : System)

def psplinkReferModule (uid : SceUID) : ℤ := if (sys.query uid).ret = 0 then 1 else 0

/-- `strncmp` with the length of `name` finds no difference. -/
def Starts (name s : Bytes) : Prop := name <+: s

instance : DecidableRel Starts := fun name s => inferInstanceAs (Decidable (name <+: s))

/-- The texts of the completions that `tab_do_uid` prints. -/
def tabDoUid (arg : CStr) : List Bytes :=
  let name := arg.val.drop 1
  match sys.modules with
  | none => []
  | some modules => modules.ids.flatMap fun uid =>
      if psplinkReferModule sys uid = 0 then
        let info := sys.query uid
        if Starts name info.name.val then [atSign :: info.name.val] else []
      else []

/-- Those that `tab_do_dir` prints. -/
def tabDoDir (dir : CStr) (args : List CStr) : List Bytes :=
  match sys.directory dir with
  | none => []
  | some entries =>
      let name := (args.head?.map Subtype.val).getD []
      entries.flatMap fun entry =>
        if entry.name.val ≠ [dot] ∧ entry.name.val ≠ [dot, dot] then
          if Starts name entry.name.val then
            if entry.IsDir then [entry.name.val ++ [slash]] else [entry.name.val]
          else []
        else []

def tabCmd (arg : CStr) (args : List CStr) : List Bytes :=
  if arg.val.head? = some atSign then tabDoUid sys arg else tabDoDir sys arg args

/-- An entry that a prefix completes to. -/
def Completes (name : Bytes) (entry : SceIoDirent) : Prop :=
  entry.name.val ∉ [[dot], [dot, dot]] ∧ Starts name entry.name.val

instance (name : Bytes) : DecidablePred (Completes name) := fun _ => inferInstanceAs (Decidable (_ ∧ _))

def completion (entry : SceIoDirent) : Bytes :=
  if entry.IsDir then entry.name.val ++ [slash] else entry.name.val

/-- A loaded module that a prefix completes to. -/
def Known (name : Bytes) (uid : SceUID) : Prop :=
  (sys.query uid).ret = 0 ∧ Starts name (sys.query uid).name.val

instance (name : Bytes) : DecidablePred (Known sys name) := fun _ => inferInstanceAs (Decidable (_ ∧ _))

/-- One completion for each entry with the prefix in a directory, in order, or for each module with
the prefix behind `@`. -/
def Exact (arg : CStr) (args : List CStr) : Prop :=
  if arg.val.head? = some atSign then
    ∀ modules, sys.modules = some modules →
      (tabCmd sys arg args).Perm ((modules.ids.filter fun uid => Known sys (arg.val.drop 1) uid).map
        fun uid => atSign :: (sys.query uid).name.val)
  else
    ∀ entries, sys.directory arg = some entries →
      tabCmd sys arg args =
        (entries.filter fun entry => Completes ((args.head?.map Subtype.val).getD []) entry).map completion

/-- Of the modules with any name that has the prefix, the query fails for as many as it succeeds. -/
def Balanced (name : Bytes) : Prop :=
  ∀ modules, sys.modules = some modules → ∀ s, Starts name s →
    (modules.ids.countP fun uid => (sys.query uid).ret ≠ 0 ∧ (sys.query uid).name.val = s) =
      modules.ids.countP fun uid => (sys.query uid).ret = 0 ∧ (sys.query uid).name.val = s

section

variable {sys} {arg dir : CStr} {args : List CStr}

theorem flatMap_if {α β : Type} (p : α → Prop) [DecidablePred p] (f : α → β) (l : List α) :
    (l.flatMap fun a => if p a then [f a] else []) = (l.filter fun a => p a).map f := by
  induction l with
  | nil => rfl
  | cons a l ih =>
      rw [List.flatMap_cons, ih]
      by_cases ha : p a
      · rw [if_pos ha, List.filter_cons, if_pos (decide_eq_true ha)]
        rfl
      · rw [if_neg ha, List.filter_cons, if_neg (by simpa using ha)]
        rfl

theorem tabDoDir_eq {entries : List SceIoDirent} (h : sys.directory dir = some entries) :
    tabDoDir sys dir args =
      (entries.filter fun entry => Completes ((args.head?.map Subtype.val).getD []) entry).map
        completion := by
  rw [tabDoDir, h, ← flatMap_if]
  dsimp only
  congr 1
  funext entry
  have hcompletes : Completes ((args.head?.map Subtype.val).getD []) entry ↔
      (entry.name.val ≠ [dot] ∧ entry.name.val ≠ [dot, dot]) ∧
        Starts ((args.head?.map Subtype.val).getD []) entry.name.val := by
    simp [Completes]
  by_cases hdots : entry.name.val ≠ [dot] ∧ entry.name.val ≠ [dot, dot]
  · by_cases hstarts : Starts ((args.head?.map Subtype.val).getD []) entry.name.val
    · rw [if_pos hdots, if_pos hstarts, if_pos (hcompletes.mpr ⟨hdots, hstarts⟩), completion]
      split
      · rfl
      · rfl
    · rw [if_pos hdots, if_neg hstarts, if_neg fun h => hstarts (hcompletes.mp h).2]
  · rw [if_neg hdots, if_neg fun h => hdots (hcompletes.mp h).1]

theorem tabDoUid_eq {modules : ModuleIds} (h : sys.modules = some modules) :
    tabDoUid sys arg = (modules.ids.filter fun uid =>
      (sys.query uid).ret ≠ 0 ∧ Starts (arg.val.drop 1) (sys.query uid).name.val).map
        fun uid => atSign :: (sys.query uid).name.val := by
  rw [tabDoUid, h, ← flatMap_if]
  dsimp only
  congr 1
  funext uid
  by_cases hret : (sys.query uid).ret = 0
  · simp [psplinkReferModule, hret]
  · simp [psplinkReferModule, hret]

theorem count_names (sys : System) (name : Bytes) (ids : List SceUID) (p : ℤ → Prop) [DecidablePred p] (s : Bytes) :
    ((ids.filter fun uid => p (sys.query uid).ret ∧ Starts name (sys.query uid).name.val).map
        fun uid => (sys.query uid).name.val).count s =
      if Starts name s then
        ids.countP fun uid => p (sys.query uid).ret ∧ (sys.query uid).name.val = s
      else 0 := by
  rw [List.count, List.countP_map, List.countP_filter]
  split
  · rename_i hstarts
    apply List.countP_congr
    intro uid _
    simp only [Function.comp_apply, beq_iff_eq, decide_eq_true_eq, Bool.and_eq_true]
    constructor
    · rintro ⟨hname, hp, -⟩
      exact ⟨hp, hname⟩
    · rintro ⟨hp, rfl⟩
      exact ⟨rfl, hp, hstarts⟩
  · rename_i hstarts
    apply List.countP_eq_zero.mpr
    intro uid _ h
    simp only [Function.comp_apply, beq_iff_eq, decide_eq_true_eq, Bool.and_eq_true] at h
    exact hstarts (h.1 ▸ h.2.2)

theorem tabDoUid_perm_iff {modules : ModuleIds} (h : sys.modules = some modules) :
    (tabDoUid sys arg).Perm ((modules.ids.filter fun uid => Known sys (arg.val.drop 1) uid).map
        fun uid => atSign :: (sys.query uid).name.val) ↔
      ∀ s, Starts (arg.val.drop 1) s →
        (modules.ids.countP fun uid => (sys.query uid).ret ≠ 0 ∧ (sys.query uid).name.val = s) =
          modules.ids.countP fun uid => (sys.query uid).ret = 0 ∧ (sys.query uid).name.val = s := by
  have hmap : ∀ l : List SceUID, (l.map fun uid => atSign :: (sys.query uid).name.val) =
      (l.map fun uid => (sys.query uid).name.val).map (List.cons atSign) := by
    intro l
    rw [List.map_map]
    rfl
  rw [tabDoUid_eq h, hmap, hmap, List.map_perm_map_iff List.cons_injective, List.perm_iff_count]
  have hfail := count_names sys (arg.val.drop 1) modules.ids (· ≠ 0)
  have hknown : ∀ s, ((modules.ids.filter fun uid => Known sys (arg.val.drop 1) uid).map
      fun uid => (sys.query uid).name.val).count s =
        if Starts (arg.val.drop 1) s then
          modules.ids.countP fun uid => (sys.query uid).ret = 0 ∧ (sys.query uid).name.val = s
        else 0 :=
    count_names sys (arg.val.drop 1) modules.ids (· = 0)
  apply forall_congr'
  intro s
  rw [hfail, hknown]
  by_cases hstarts : Starts (arg.val.drop 1) s
  · rw [if_pos hstarts, if_pos hstarts]
    exact ⟨fun heq _ => heq, fun h => h hstarts⟩
  · rw [if_neg hstarts, if_neg hstarts]
    exact iff_of_true rfl fun h => absurd h hstarts

end

/-- Files are completed to exactly what is there; behind `@` the modules whose query fails stand for
those whose query succeeds. -/
theorem tab_exact_iff (arg : CStr) (args : List CStr) :
    Exact sys arg args ↔ (arg.val.head? = some atSign → Balanced sys (arg.val.drop 1)) := by
  rw [Exact]
  split
  · rename_i hat
    rw [tabCmd, if_pos hat]
    simp only [hat, true_implies, Balanced]
    apply forall_congr'
    intro modules
    apply imp_congr_right
    exact tabDoUid_perm_iff
  · rename_i hat
    rw [tabCmd, if_neg hat]
    exact iff_of_true (fun entries hentries => tabDoDir_eq hentries) fun h => absurd h hat

/-- One module, `main`, whose query succeeds. -/
def oneModule : System where
  directory _ := none
  modules := some ⟨[1], by decide⟩
  query _ := ⟨0, ⟨[0x6D, 0x61, 0x69, 0x6E], by decide⟩⟩

/-- Nothing is printed for `@m`. -/
theorem known_module_missing :
    ¬Exact oneModule ⟨[atSign, 0x6D], by decide⟩ [] := by
  intro h
  have hperm := h _ rfl
  revert hperm
  decide

end PsplinkUsb.Psplink.TabCompletion
