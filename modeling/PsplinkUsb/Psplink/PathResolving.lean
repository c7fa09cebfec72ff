import PsplinkUsb.Psplink.HandlePath

namespace PsplinkUsb.Psplink.PathResolving

open PsplinkUsb.Library.CheckedBuffer
open PsplinkUsb.Library.LexicalPath
open PsplinkUsb.Library.PathText
open PsplinkUsb.Psplink.DecodeAddr (isASpace)
open PsplinkUsb.Psplink.HandlePath
open PsplinkUsb.Psplink.NormalizePath

/-- A component that a path may end with. -/
structure Component (c : Bytes) : Prop where
  ne_nil : c ≠ []
  slash_notMem : slash ∉ c
  nul_notMem : 0 ∉ c
  last : ∀ x ∈ c.getLast?, isASpace x = false

/-- A current directory, as `dev:/`, with a slash behind each of its directories. -/
structure Currdir where
  dev : Bytes
  dirs : List Bytes
  dev_notMem : slash ∉ dev ∧ colon ∉ dev ∧ 0 ∉ dev
  ordinary : ∀ c ∈ dirs, Component c ∧ Name c

/-- A relative path of components without colons and white space, with or without a slash in
front and at the end. -/
structure Argument where
  comps : List Bytes
  leading : Bool
  trailing : Bool
  ne_nil : ∀ c ∈ comps, c ≠ []
  chars : ∀ c ∈ comps, ∀ x ∈ c, x ≠ slash ∧ x ≠ colon ∧ x ≠ 0 ∧ isASpace x = false
  behind : comps = [] → trailing = false

namespace Currdir

def root (cur : Currdir) : Bytes := cur.dev ++ [colon]

def text (cur : Currdir) : Bytes := spelled slash cur.root (cur.dirs ++ [[]])

end Currdir

def Argument.text (arg : Argument) : Bytes :=
  (if arg.leading then [slash] else []) ++ [slash].intercalate arg.comps ++
    if arg.trailing then [slash] else []

/-- The components of an argument, behind those of the current directory if it is relative to
that. -/
def components (cur : Currdir) (arg : Argument) : List Bytes :=
  (if arg.leading then [] else cur.dirs) ++ arg.comps

/-- What is to be left of the components, resolved from left to right. -/
def Resolves (cur : Currdir) (arg : Argument) (type : PathType) (h : Handled) : Prop :=
  match follow here up [] (components cur arg) with
  | none => h.ret = 0
  | some cs =>
      h.ret = 1 ∧ h.path = spelled slash cur.root (cs ++ if type = .dir then [[]] else [])

/-- The components before the first `.`, and those behind it. -/
def before (cs : List Bytes) : List Bytes := cs.takeWhile fun c => c ≠ here

def after (cs : List Bytes) : List Bytes := (cs.dropWhile fun c => c ≠ here).tail

/-- There is no `.`, or the components before it go up too far, or all of them are followed, and
the last one behind it is the name of a file. -/
def Harmless (cs : List Bytes) (type : PathType) : Prop :=
  here ∉ cs ∨ follow here up [] (before cs) = none ∨
    follow here up [] cs ≠ none ∧ (type = .dir ∨ ∀ c ∈ (after cs).getLast?, c ≠ here ∧ c ≠ up)

/-- What is left of components that `dotLoop` leaves. -/
def left (cs : List Bytes) (type : PathType) : List Bytes :=
  if type = .dir then resolve here up cs ++ [[]]
  else resolve here up cs.dropLast ++ cs.getLast?.toList

variable {c first : Bytes} {cs ds kept : List Bytes} {type : PathType}

theorem walk_eq_follow (h : here ∉ cs) : walk kept cs = follow here up kept cs := by
  induction cs generalizing kept with
  | nil => rfl
  | cons c cs ih =>
      rw [walk, if_neg (List.ne_of_not_mem_cons h).symm, follow, List.foldlM_cons]
      congr 1
      funext ks
      exact ih (List.not_mem_of_not_mem_cons h)

theorem walk_here (kept : List Bytes) (h : here ∉ cs) (ds : List Bytes) :
    walk kept (cs ++ here :: ds) = (follow here up kept cs).map (· ++ ds) := by
  induction cs generalizing kept with
  | nil =>
      rw [List.nil_append, walk, if_pos rfl]
      rfl
  | cons c cs ih =>
      rw [List.cons_append, walk, if_neg (List.ne_of_not_mem_cons h).symm, follow, List.foldlM_cons]
      cases climb here up kept c with
      | none => rfl
      | some ks => exact ih ks (List.not_mem_of_not_mem_cons h)

theorem walk_append_nil (kept cs : List Bytes) :
    walk kept (cs ++ [[]]) = (walk kept cs).map (· ++ [[]]) := by
  induction cs generalizing kept with
  | nil => rfl
  | cons c cs ih =>
      rw [List.cons_append, walk, walk]
      split
      · rw [Option.map_some, List.append_assoc]
      · cases climb here up kept c with
        | none => rfl
        | some ks => exact ih ks

theorem climb_sublist (h : climb here up kept c = some ds) : ds.Sublist (kept ++ [c]) := by
  rw [climb] at h
  split_ifs at h
  · exact Option.some.inj h ▸ List.sublist_append_left kept [c]
  · cases h
    exact (List.dropLast_sublist kept).trans (List.sublist_append_left kept [c])
  · cases h
    exact List.Sublist.refl _

theorem walk_sublist (h : walk kept cs = some ds) : ds.Sublist (kept ++ cs) := by
  induction cs generalizing kept with
  | nil => exact Option.some.inj h ▸ List.sublist_append_left kept []
  | cons c cs ih =>
      rw [walk] at h
      split at h
      · cases h
        exact (List.sublist_cons_self c cs).append_left kept
      · obtain ⟨ks, hclimb, hwalk⟩ := Option.bind_eq_some_iff.mp h
        have hstep := (climb_sublist hclimb).append_right cs
        rw [List.append_assoc, List.singleton_append] at hstep
        exact (ih hwalk).trans hstep

theorem names_of_follow (hkept : ∀ d ∈ kept, d ≠ here ∧ d ≠ up)
    (h : follow here up kept cs = some ds) : ∀ d ∈ ds, d ≠ here ∧ d ≠ up := by
  induction cs generalizing kept with
  | nil =>
      cases h
      exact hkept
  | cons c cs ih =>
      rw [follow, List.foldlM_cons] at h
      obtain ⟨ks, hclimb, hfollow⟩ := Option.bind_eq_some_iff.mp h
      refine ih ?_ hfollow
      rw [climb] at hclimb
      split_ifs at hclimb with hhere hup
      · cases hclimb
        exact hkept
      · cases hclimb
        exact fun d hd => hkept d (kept.dropLast_subset hd)
      · cases hclimb
        exact List.forall_mem_append.mpr ⟨hkept, fun d hd => List.mem_singleton.mp hd ▸ ⟨hhere, hup⟩⟩

theorem left_of_names (h : ∀ d ∈ ds, d ≠ here ∧ d ≠ up) (type : PathType) :
    left ds type = ds ++ if type = .dir then [[]] else [] := by
  rw [left]
  split
  · rw [resolve, foldl_enter_of_names h, List.nil_append]
  · rw [resolve, foldl_enter_of_names fun d hd => h d (ds.dropLast_subset hd), List.nil_append,
      List.append_nil]
    rcases ds.eq_nil_or_concat with rfl | ⟨ds, d, rfl⟩
    · rfl
    · rw [List.concat_eq_append, List.dropLast_concat, List.getLast?_concat]
      rfl

theorem enter_eq_concat_iff : enter here up kept c = kept ++ [c] ↔ c ≠ here ∧ c ≠ up := by
  have hlength : (kept ++ [c]).length = kept.length + 1 := by
    rw [List.length_append, List.length_singleton]
  rw [enter]
  split_ifs with hhere hup
  · refine iff_of_false (fun h => ?_) fun h => h.1 hhere
    have := congrArg List.length h
    omega
  · refine iff_of_false (fun h => ?_) fun h => h.2 hup
    have := congrArg List.length h
    rw [List.length_dropLast] at this
    omega
  · exact iff_of_true rfl ⟨hhere, hup⟩

theorem eq_before_after (h : here ∈ cs) : cs = before cs ++ here :: after cs := by
  induction cs with
  | nil => exact absurd h List.not_mem_nil
  | cons c cs ih =>
      by_cases hc : c = here
      · subst hc
        rw [before, after, List.takeWhile_cons_of_neg (by simp), List.dropWhile_cons_of_neg (by simp)]
        rfl
      · have hrest := ih (List.mem_of_ne_of_mem (Ne.symm hc) h)
        rw [before, after] at hrest ⊢
        rw [List.takeWhile_cons_of_pos (by simpa using hc), List.dropWhile_cons_of_pos (by simpa using hc),
          List.cons_append, ← hrest]

theorem here_notMem_before (cs : List Bytes) : here ∉ before cs := by
  intro h
  have hne := List.mem_takeWhile_imp h
  exact of_decide_eq_true hne rfl

theorem left_append_iff (hkept : ∀ d ∈ kept, d ≠ here ∧ d ≠ up)
    (h : follow here up kept cs = some ds) :
    left (kept ++ cs) type = ds ++ (if type = .dir then [[]] else []) ↔
      type = .dir ∨ ∀ c ∈ cs.getLast?, c ≠ here ∧ c ≠ up := by
  have hresolve : ∀ cs, resolve here up (kept ++ cs) = cs.foldl (enter here up) kept := by
    intro cs
    have hself : resolve here up kept = kept := by
      rw [resolve, foldl_enter_of_names hkept, List.nil_append]
    rw [resolve_append, hself]
  have hds := foldl_enter_of_follow h
  by_cases htype : type = .dir
  · rw [left, if_pos htype, if_pos htype, hresolve, hds]
    exact iff_of_true rfl (.inl htype)
  · rw [or_iff_right htype]
    rcases cs.eq_nil_or_concat with rfl | ⟨cs, c, rfl⟩
    · cases h
      rw [List.append_nil, left_of_names hkept]
      exact iff_of_true rfl fun c hc => absurd hc.symm (Option.some_ne_none c)
    · rw [List.concat_eq_append] at hds ⊢
      rw [List.foldl_append, List.foldl_cons, List.foldl_nil] at hds
      rw [left, if_neg htype, if_neg htype, ← List.append_assoc, List.dropLast_concat, hresolve,
        List.getLast?_concat, List.getLast?_concat, List.append_nil, ← hds, eq_comm]
      refine enter_eq_concat_iff.trans ⟨fun hc d hd => ?_, fun hall => hall c rfl⟩
      exact Option.some.inj hd ▸ hc

/-- The components that the loop leaves come to those that are followed just when the `.` does no
harm. -/
theorem left_walk_iff (cs : List Bytes) (type : PathType) :
    (match follow here up [] cs with
      | none => walk [] cs = none
      | some ds => ∃ ks, walk [] cs = some ks ∧ left ks type = ds ++ if type = .dir then [[]] else []) ↔
    Harmless cs type := by
  rw [Harmless]
  by_cases hhere : here ∈ cs
  · have hcs := eq_before_after hhere
    have hwalk := walk_here [] (here_notMem_before cs) (after cs)
    rw [← hcs] at hwalk
    have hfollow := follow_append here up [] (before cs) (here :: after cs)
    rw [← hcs] at hfollow
    rw [hwalk]
    rcases hbefore : follow here up [] (before cs) with _ | ks
    · rw [hbefore, Option.bind_none] at hfollow
      rw [hfollow]
      exact iff_of_true rfl (.inr (.inl rfl))
    · rw [hbefore, Option.bind_some] at hfollow
      have hall : follow here up [] cs = follow here up ks (after cs) := hfollow
      have hnames := names_of_follow (fun d hd => absurd hd List.not_mem_nil) hbefore
      rw [hall, Option.map_some]
      rcases hafter : follow here up ks (after cs) with _ | ds
      · refine iff_of_false (fun h => Option.some_ne_none _ h) ?_
        rintro (h | h | h)
        · exact h hhere
        · exact Option.some_ne_none _ h
        · exact h.1 rfl
      · have hleft : left (ks ++ after cs) type = ds ++ (if type = .dir then [[]] else []) ↔
            type = .dir ∨ ∀ c ∈ (after cs).getLast?, c ≠ here ∧ c ≠ up :=
          left_append_iff hnames hafter
        constructor
        · rintro ⟨_, heq, h⟩
          cases heq
          exact .inr (.inr ⟨Option.some_ne_none _, hleft.mp h⟩)
        · rintro (h | h | h)
          · exact absurd hhere h
          · exact absurd h (Option.some_ne_none _)
          · exact ⟨_, rfl, hleft.mpr h.2⟩
  · rw [walk_eq_follow hhere]
    refine iff_of_true ?_ (.inl hhere)
    rcases hfollow : follow here up [] cs with _ | ds
    · rfl
    · exact ⟨ds, rfl, left_of_names (names_of_follow (fun d hd => absurd hd List.not_mem_nil) hfollow)
        type⟩

theorem device_append {dev : Bytes} (hdev : colon ∉ dev) (rest : Bytes) :
    device (dev ++ colon :: rest) = dev ++ [colon] := by
  induction dev with
  | nil => rfl
  | cons c dev ih =>
      rw [List.cons_append, device, if_neg (List.ne_of_not_mem_cons hdev).symm,
        ih (List.not_mem_of_not_mem_cons hdev), List.cons_append]

namespace Argument

variable (arg : Argument)

theorem colon_notMem_text : colon ∉ arg.text := by
  rw [text, List.mem_append, List.mem_append, not_or, not_or]
  refine ⟨⟨?_, ?_⟩, ?_⟩
  · split <;> decide
  · rcases hcomps : arg.comps with _ | ⟨c, cs⟩
    · exact List.not_mem_nil
    · rw [intercalate_cons, spelled, List.mem_append, List.mem_flatMap, not_or]
      have hcolon : ∀ c ∈ arg.comps, colon ∉ c := fun c hc hmem => (arg.chars c hc _ hmem).2.1 rfl
      rw [hcomps] at hcolon
      refine ⟨hcolon c List.mem_cons_self, ?_⟩
      rintro ⟨d, hd, hmem⟩
      rcases List.mem_cons.mp hmem with h | h
      · exact absurd h (by decide)
      · exact hcolon d (List.mem_cons_of_mem c hd) h
  · split <;> decide

theorem head?_text : arg.text.head? = some slash ↔ arg.leading = true := by
  rw [text]
  cases hleading : arg.leading with
  | true => exact iff_of_true rfl rfl
  | false =>
      refine iff_of_false (fun h => ?_) Bool.false_ne_true
      rcases hcomps : arg.comps with _ | ⟨c, cs⟩
      · rw [hcomps, arg.behind hcomps] at h
        exact Option.some_ne_none _ h.symm
      · have hmem : c ∈ arg.comps := hcomps ▸ List.mem_cons_self
        obtain ⟨x, c, rfl⟩ := List.exists_cons_of_ne_nil (arg.ne_nil c hmem)
        rw [hcomps, intercalate_cons] at h
        exact (arg.chars _ hmem x List.mem_cons_self).1 (Option.some.inj h)

end Argument

/-- The path that is put together, with an empty component behind its last slash when there is a
slash at its end. -/
theorem joined_text (cur : Currdir) (arg : Argument) : ∃ trailing : Bool,
    joined cur.text arg.text = spelled slash cur.root (components cur arg ++
      if trailing then [[]] else []) := by
  have htext : cur.text = cur.dev ++ colon :: (cur.dirs ++ [[]]).flatMap fun c => slash :: c := by
    rw [Currdir.text, spelled, Currdir.root, List.append_assoc, List.singleton_append]
  have hdevice : device cur.text = cur.root := htext ▸ device_append cur.dev_notMem.2.1 _
  have hslash : ∀ c cs, cur.root ++ slash :: spelled slash c cs = spelled slash cur.root (c :: cs) :=
    fun c cs => spelled_cons.symm
  have hbehind : ∀ c cs, cur.text ++ spelled slash c cs =
      spelled slash cur.root (cur.dirs ++ c :: cs) := by
    intro c cs
    rw [Currdir.text, spelled_concat, spelled_append, spelled_cons, List.append_assoc,
      List.cons_append, List.nil_append]
  rw [joined, if_neg arg.colon_notMem_text, components]
  have htrailing : ∀ path ds, path = spelled slash cur.root ds →
      path ++ (if arg.trailing then [slash] else []) =
        spelled slash cur.root (ds ++ if arg.trailing then [[]] else []) := by
    intro path ds h
    cases arg.trailing with
    | true =>
        rw [if_pos rfl, if_pos rfl, spelled_concat, h]
    | false =>
        rw [if_neg Bool.false_ne_true, if_neg Bool.false_ne_true, List.append_nil, List.append_nil, h]
  by_cases hleading : arg.leading = true
  · rw [if_pos (arg.head?_text.mpr hleading), hdevice, if_pos hleading, List.nil_append, Argument.text,
      if_pos hleading]
    rcases hcomps : arg.comps with _ | ⟨c, cs⟩
    · rw [arg.behind hcomps]
      exact ⟨true, rfl⟩
    · refine ⟨arg.trailing, ?_⟩
      rw [intercalate_cons, List.singleton_append, ← List.append_assoc]
      exact htrailing _ _ (hslash c cs)
  · rw [if_neg fun h => hleading (arg.head?_text.mp h), if_neg hleading, Argument.text,
      if_neg hleading, List.nil_append]
    rcases hcomps : arg.comps with _ | ⟨c, cs⟩
    · rw [arg.behind hcomps]
      exact ⟨true, by rw [List.append_nil]; exact List.append_nil _⟩
    · refine ⟨arg.trailing, ?_⟩
      rw [intercalate_cons, ← List.append_assoc]
      exact htrailing _ _ (hbehind c cs)

theorem slashEnd_spelled (hfirst : ∀ x ∈ first.getLast?, x ≠ slash) (hcs : ∀ c ∈ cs, Component c)
    (htype : type ≠ .ether) (trailing : Bool) :
    slashEnd type (spelled slash first (cs ++ if trailing then [[]] else [])) =
      spelled slash first (cs ++ if type = .dir then [[]] else []) := by
  have hends : (spelled slash first (cs ++ [[]])).getLast? = some slash := by
    rw [spelled_concat, List.getLast?_concat]
  have hname : (spelled slash first cs).getLast? ≠ some slash := by
    intro h
    exact of_mem_getLast?_spelled hfirst (fun c hc => ⟨(hcs c hc).ne_nil, fun x hx hslash =>
      (hcs c hc).slash_notMem (hslash ▸ List.mem_of_getLast? hx)⟩) slash h rfl
  have hconcat : spelled slash first (cs ++ [[]]) = spelled slash first cs ++ [slash] := spelled_concat
  rw [slashEnd]
  cases type with
  | ether => exact absurd rfl htype
  | dir =>
      cases trailing with
      | true => rw [if_pos rfl, if_neg fun h => h.2 hends, if_neg fun h => absurd h.1 (by decide), if_pos rfl]
      | false =>
          rw [if_neg Bool.false_ne_true, List.append_nil, if_pos ⟨rfl, hname⟩, if_pos rfl, hconcat]
  | file =>
      rw [if_neg fun h => absurd h.1 (by decide), if_neg (show PathType.file ≠ .dir by decide),
        List.append_nil]
      cases trailing with
      | true => rw [if_pos rfl, if_pos ⟨rfl, hends⟩, hconcat, List.dropLast_concat]
      | false => rw [if_neg Bool.false_ne_true, List.append_nil, if_neg fun h => hname h.2]

theorem foldl_take_eq (hcs : ∀ c ∈ cs, c ≠ []) :
    cs.foldl take kept = cs.foldl (enter here up) kept := by
  induction cs generalizing kept with
  | nil => rfl
  | cons c cs ih =>
      obtain ⟨hc, hcs⟩ := List.forall_mem_cons.mp hcs
      rw [List.foldl_cons, List.foldl_cons, take, if_neg hc, ih hcs]

theorem normalizePath_left (hfirst : first ≠ []) (hslash : slash ∉ first)
    (hcs : ∀ c ∈ cs, Component c) (type : PathType) :
    Ends (normalizePath (spelled slash first (cs ++ if type = .dir then [[]] else []))) (cs.length + 2)
      (1, spelled slash first (left cs type)) := by
  have hne : ∀ c ∈ cs, c ≠ [] := fun c hc => (hcs c hc).ne_nil
  have hmem : ∀ c ∈ cs, slash ∉ c := fun c hc => (hcs c hc).slash_notMem
  rw [left]
  split
  · have hends := normalizePath_eq hfirst hslash (l := []) List.not_mem_nil hmem
    rwa [foldl_take_eq hne] at hends
  · rw [List.append_nil]
    rcases cs.eq_nil_or_concat with rfl | ⟨cs, c, rfl⟩
    · intro rounds hrounds
      have hnil : spelled slash first (resolve here up [] ++ []) = first := spelled_nil
      rw [spelled_nil, normalizePath_plain hslash rounds (by omega)]
      exact congrArg (fun path => Except.ok (1, path)) hnil.symm
    · rw [List.concat_eq_append] at hne hmem ⊢
      obtain ⟨hmem, hc⟩ := List.forall_mem_append.mp hmem
      have hends := normalizePath_eq hfirst hslash (hc c List.mem_cons_self) hmem
      rw [foldl_take_eq fun d hd => hne d (List.mem_append_left _ hd)] at hends
      rw [List.dropLast_concat, List.getLast?_concat]
      intro rounds hrounds
      rw [List.length_append] at hrounds
      exact hends rounds (by omega)

theorem rdropWhile_spelled (hfirst : ∀ x ∈ first.getLast?, isASpace x = false)
    (hcs : ∀ c ∈ cs, Component c) (trailing : Bool) :
    ((spelled slash first (cs ++ if trailing then [[]] else [])).rdropWhile fun c => isASpace c) =
      spelled slash first (cs ++ if trailing then [[]] else []) := by
  cases trailing with
  | true =>
      rw [if_pos rfl, spelled_concat]
      exact List.rdropWhile_concat_neg _ _ slash (by decide)
  | false =>
      rw [if_neg Bool.false_ne_true, List.append_nil]
      apply List.rdropWhile_eq_self_iff.mpr
      intro hne
      rw [Bool.not_eq_true]
      exact of_mem_getLast?_spelled hfirst (fun c hc => ⟨(hcs c hc).ne_nil, (hcs c hc).last⟩) _
        (List.getLast?_eq_getLast_of_ne_nil hne)

theorem afterDots_spelled (io : Device) (hfirst : first ≠ []) (hslash : slash ∉ first)
    (hspace : ∀ x ∈ first.getLast?, isASpace x = false) (hcs : ∀ c ∈ cs, Component c)
    (htype : type ≠ .ether) (trailing : Bool) (size : ℕ) : ∃ size',
      Ends (afterDots io type false size (spelled slash first (cs ++ if trailing then [[]] else [])))
        (cs.length + 2) { ret := 1, path := spelled slash first (left cs type), size := size' } := by
  have hlast : ∀ x ∈ first.getLast?, x ≠ slash := by
    intro x hx h
    exact hslash (h ▸ List.mem_of_getLast? hx)
  have hne : spelled slash first (cs ++ if trailing then [[]] else []) ≠ [] := fun h =>
    hfirst (List.append_eq_nil_iff.mp h).1
  refine ⟨max size ((spelled slash first (cs ++ if type = .dir then [[]] else [])).length + 1),
    fun rounds hrounds => ?_⟩
  rw [afterDots]
  dsimp only
  rw [rdropWhile_spelled hspace hcs, if_neg hne, slashEnd_spelled hlast hcs htype,
    normalizePath_left hfirst hslash hcs type rounds hrounds, ok_bind]
  exact if_neg fun h => h.elim Nat.one_ne_zero fun h => Bool.false_ne_true h.1

theorem component_of_mem (cur : Currdir) (arg : Argument) : ∀ c ∈ components cur arg, Component c := by
  intro c hc
  rcases List.mem_append.mp hc with hc | hc
  · split at hc
    · exact absurd hc List.not_mem_nil
    · exact (cur.ordinary c hc).1
  · exact ⟨arg.ne_nil c hc, fun h => (arg.chars c hc _ h).1 rfl, fun h => (arg.chars c hc _ h).2.2.1 rfl,
      fun x hx => (arg.chars c hc x (List.mem_of_getLast? hx)).2.2.2⟩

namespace Currdir

variable (cur : Currdir)

theorem root_ne_nil : cur.root ≠ [] := List.append_ne_nil_of_right_ne_nil _ (List.cons_ne_nil _ _)

theorem notMem_root : slash ∉ cur.root := by
  rw [root, List.mem_append, List.mem_singleton, not_or]
  exact ⟨cur.dev_notMem.1, by decide⟩

theorem last_root : ∀ x ∈ cur.root.getLast?, isASpace x = false := by
  intro x hx
  rw [root, List.getLast?_concat] at hx
  cases hx
  decide

end Currdir

/-- Whatever the components are, with rounds enough the call ends within the buffer. -/
theorem handlepath_eq (io : Device) (cur : Currdir) (arg : Argument) (htype : type ≠ .ether)
    {rounds : ℕ} (hrounds : (components cur arg).length + 2 ≤ rounds) :
    ∃ h, handlepath io cur.text arg.text type false rounds = .ok h ∧
      match walk [] (components cur arg) with
      | none => h.ret = 0
      | some cs => h.ret = 1 ∧ h.path = spelled slash cur.root (left cs type) := by
  obtain ⟨trailing, hjoined⟩ := joined_text cur arg
  have hcomponents := component_of_mem cur arg
  have hclean : ∀ c ∈ components cur arg ++ (if trailing then [[]] else []), slash ∉ c ∧ 0 ∉ c := by
    refine List.forall_mem_append.mpr
      ⟨fun c hc => ⟨(hcomponents c hc).slash_notMem, (hcomponents c hc).nul_notMem⟩, fun c hc => ?_⟩
    split at hc
    · exact List.mem_singleton.mp hc ▸ ⟨List.not_mem_nil, List.not_mem_nil⟩
    · exact absurd hc List.not_mem_nil
  have hwalk : walk [] (components cur arg ++ if trailing then [[]] else []) =
      (walk [] (components cur arg)).map (· ++ if trailing then [[]] else []) := by
    cases trailing with
    | true => exact walk_append_nil [] _
    | false => simp
  have hlength : (components cur arg ++ if trailing then [[]] else []).length ≤
      (components cur arg).length + 1 := by
    cases trailing <;> simp
  have hwalked : Walked cur.root (dotLoop rounds (joined cur.text arg.text) 0)
      ((walk [] (components cur arg)).map (· ++ if trailing then [[]] else [])) := by
    rw [← hwalk, hjoined]
    exact walked_dotLoop_spelled cur.notMem_root hclean (by omega)
  rw [handlepath]
  dsimp only
  rcases hcs : walk [] (components cur arg) with _ | cs
  · rw [hcs, Option.map_none, Walked, if_neg cur.root_ne_nil] at hwalked
    obtain ⟨path, hpath⟩ := hwalked
    rw [hpath, ok_bind]
    exact ⟨_, rfl, rfl⟩
  · rw [hcs, Option.map_some, Walked] at hwalked
    have hsublist := walk_sublist hcs
    rw [List.nil_append] at hsublist
    obtain ⟨size, hends⟩ := afterDots_spelled io cur.root_ne_nil cur.notMem_root cur.last_root
      (fun c hc => hcomponents c (hsublist.subset hc)) htype trailing
      ((joined cur.text arg.text).length + 1)
    have hle := hsublist.length_le
    rw [hwalked, ok_bind]
    exact ⟨_, hends rounds (by omega), rfl, rfl⟩

theorem slash_notMem_left (hcs : ∀ c ∈ cs, slash ∉ c) : ∀ c ∈ left cs type, slash ∉ c := by
  have hresolve : ∀ ks : List Bytes, ks.Sublist cs → ∀ c ∈ resolve here up ks, slash ∉ c := by
    intro ks hks c hc
    have hsublist := foldl_enter_sublist here up [] ks
    exact hcs c (hks.subset (hsublist.subset hc))
  intro c hc
  rw [left] at hc
  split at hc
  · rcases List.mem_append.mp hc with hc | hc
    · exact hresolve cs (List.Sublist.refl cs) c hc
    · exact List.mem_singleton.mp hc ▸ List.not_mem_nil
  · rcases List.mem_append.mp hc with hc | hc
    · exact hresolve _ (List.dropLast_sublist cs) c hc
    · exact hcs c (List.mem_of_getLast? (Option.mem_toList.mp hc))

/-- With rounds enough the call ends within the buffer, with a result that is the path that the
components lead to just when the first `.` among them does no harm. -/
theorem handlepath_resolves_iff (io : Device) (cur : Currdir) (arg : Argument)
    (htype : type ≠ .ether) {rounds : ℕ} (hrounds : (components cur arg).length + 2 ≤ rounds) :
    ∃ h, handlepath io cur.text arg.text type false rounds = .ok h ∧
      (Resolves cur arg type h ↔ Harmless (components cur arg) type) := by
  obtain ⟨h, heq, hresult⟩ := handlepath_eq io cur arg htype hrounds
  refine ⟨h, heq, ?_⟩
  have hcomponents : ∀ c ∈ components cur arg, slash ∉ c := fun c hc =>
    (component_of_mem cur arg c hc).slash_notMem
  rw [← left_walk_iff, Resolves]
  rcases hfollow : follow here up [] (components cur arg) with _ | ds
  · dsimp only
    rcases hwalk : walk [] (components cur arg) with _ | ks
    · rw [hwalk] at hresult
      exact iff_of_true hresult rfl
    · rw [hwalk] at hresult
      refine iff_of_false (fun hret => ?_) (Option.some_ne_none ks)
      exact Nat.one_ne_zero (hresult.1.symm.trans hret)
  · dsimp only
    rcases hwalk : walk [] (components cur arg) with _ | ks
    · rw [hwalk] at hresult
      refine iff_of_false (fun hret => Nat.zero_ne_one (hresult.symm.trans hret.1)) ?_
      rintro ⟨ks, hks, -⟩
      exact Option.some_ne_none ks hks.symm
    · rw [hwalk] at hresult
      obtain ⟨hret, hpath⟩ := hresult
      have hks : ∀ c ∈ ks, slash ∉ c := fun c hc => hcomponents c ((walk_sublist hwalk).subset hc)
      have hds : ∀ c ∈ ds ++ (if type = .dir then [[]] else []), slash ∉ c := by
        have hsublist := foldl_enter_sublist here up [] (components cur arg)
        rw [foldl_enter_of_follow hfollow, List.nil_append] at hsublist
        refine List.forall_mem_append.mpr ⟨fun c hc => hcomponents c (hsublist.subset hc), fun c hc => ?_⟩
        split at hc
        · exact List.mem_singleton.mp hc ▸ List.not_mem_nil
        · exact absurd hc List.not_mem_nil
      rw [hpath, spelled_inj cur.notMem_root (slash_notMem_left hks) hds, and_iff_right hret]
      exact ⟨fun h => ⟨ks, rfl, h⟩, fun ⟨_, heq, h⟩ => Option.some.inj heq ▸ h⟩

/-- A driver with nothing on it. -/
def bare : Device := { getstat := fun _ => none, opens := fun _ => false }

/-- `ms0:/a/`. -/
def inFolder : Currdir :=
  { dev := [0x6D, 0x73, 0x30], dirs := [[0x61]], dev_notMem := by decide
    ordinary := by
      intro c hc
      obtain rfl := List.mem_singleton.mp hc
      refine ⟨⟨by decide, by decide, by decide, fun x hx => ?_⟩, by decide, by decide, by decide⟩
      obtain rfl := Option.some.inj hx
      decide }

/-- `../b`. -/
def upAndDown : Argument :=
  { comps := [up, [0x62]], leading := false, trailing := false
    ne_nil := by decide, chars := by decide, behind := by decide }

theorem upAndDown_resolves : ∃ h,
    handlepath bare inFolder.text upAndDown.text .file false 5 = .ok h ∧
      Resolves inFolder upAndDown .file h := by
  obtain ⟨h, heq, hiff⟩ := handlepath_resolves_iff bare inFolder upAndDown
    (show PathType.file ≠ .ether by decide) (show _ ≤ 5 by decide)
  exact ⟨h, heq, hiff.mpr (.inl (by decide))⟩

/-- `/./..`, which goes up from the root behind a `.`. -/
def hereAndUp : Argument :=
  { comps := [here, up], leading := true, trailing := false
    ne_nil := by decide, chars := by decide, behind := by decide }

theorem hereAndUp_escapes : ∃ h,
    handlepath bare inFolder.text hereAndUp.text .dir false 4 = .ok h ∧ h.ret = 1 ∧
      ¬Resolves inFolder hereAndUp .dir h := by
  obtain ⟨h, heq, hresult⟩ := handlepath_eq bare inFolder hereAndUp
    (show PathType.dir ≠ .ether by decide) (show _ ≤ 4 by decide)
  have hret : h.ret = 1 := hresult.1
  exact ⟨h, heq, hret, fun hresolves => Nat.one_ne_zero (hret.symm.trans hresolves)⟩

end PsplinkUsb.Psplink.PathResolving
