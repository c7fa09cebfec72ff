import PsplinkUsb.Psplink.CopyBlocks

namespace PsplinkUsb.Psplink.CopyOutcome

open PsplinkUsb.Library.FileTree
open PsplinkUsb.Psplink.CopyTree
open PsplinkUsb.Psplink.CopyBlocks

def entryName (e : Dirent) : Option Name := if h : Named e.name then some ⟨e.name, h⟩ else none

/-- The names that `CopyDirectory` comes to in a directory. -/
def delivered (results : Results) (fs : Fs) (p : Path) : List Name :=
  (readEntries results fs p).filterMap entryName

/-- The recursion comes from `s` down to the path `r` below it. -/
def Reached (results : Results) (fs : Fs) (s : Path) : Path → Prop
  | [] => True
  | n :: r =>
      Reached results fs s r ∧ fs.lookup (r ++ s) = some .dir ∧
        n ∈ delivered results fs (r ++ s)

instance decidableReached (results : Results) (fs : Fs) (s : Path) :
    (r : Path) → Decidable (Reached results fs s r)
  | [] => inferInstanceAs (Decidable True)
  | _ :: r => @instDecidableAnd _ _ (decidableReached results fs s r) inferInstance

/-- From the entries of `s` the recursion comes down to `dst`, once the directory `d` is made. -/
def Enters (results : Results) (dst : Path) (fs : Fs) (s d : Path) : Prop :=
  ∃ n ∈ delivered results fs s, ∃ r, dst = r ++ n :: s ∧
    Reached results (makeDir results s d fs) (n :: s) r

variable {results : Results} {move : Bool} {fs fs' fs₂ g : Fs} {s d dst p q r : Path} {n m : Name}

theorem entryName_eq_some {e : Dirent} : entryName e = some n ↔ e.name = n.val := by
  rw [entryName]
  split
  · rw [Option.some.injEq, Subtype.ext_iff]
  · rename_i h
    constructor
    · intro hnone
      cases hnone
    · intro hname
      exact absurd (hname ▸ n.property) h

theorem mem_readEntries {e : Dirent} (he : e ∈ readEntries results fs p)
    (hn : entryName e = some n) :
    n ∈ names fs p ∧ e.isdir = decide (fs.lookup (n :: p) = some .dir) := by
  have hmem : e ∈ dirents fs p := by
    rw [readEntries] at he
    split at he
    · split at he
      · exact he
      · exact List.mem_of_mem_take he
    · exact absurd he List.not_mem_nil
  have hname := entryName_eq_some.mp hn
  rw [dirents] at hmem
  rcases List.mem_cons.mp hmem with rfl | hmem
  · exact absurd hname.symm n.property.2.1
  rcases List.mem_cons.mp hmem with rfl | hmem
  · exact absurd hname.symm n.property.2.2
  obtain ⟨n', hn', rfl⟩ := List.mem_map.mp hmem
  obtain rfl : n' = n := Subtype.ext hname
  exact ⟨hn', rfl⟩

theorem filterMap_dirents (fs : Fs) (p : Path) : (dirents fs p).filterMap entryName = names fs p := by
  have hdot : entryName ⟨dot, true⟩ = none := rfl
  have hdotdot : entryName ⟨dotdot, true⟩ = none := rfl
  have hnamed : ∀ n : Name, entryName ⟨n.val, fs.lookup (n :: p) = some .dir⟩ = some n :=
    fun n => entryName_eq_some.mpr rfl
  rw [dirents, List.filterMap_cons, hdot, List.filterMap_cons, hdotdot, List.filterMap_map]
  exact (List.filterMap_congr fun n _ => hnamed n).trans List.filterMap_some

theorem delivered_cases (results : Results) (p : Path) :
    (∀ fs, delivered results fs p = names fs p) ∨
      ∃ k, ∀ fs, delivered results fs p = (names fs p).take k := by
  cases hopen : (results.dir p).dopen with
  | false =>
      refine .inr ⟨0, fun fs => ?_⟩
      rw [delivered, readEntries, hopen]
      rfl
  | true =>
      cases hdread : (results.dir p).dread with
      | none =>
          refine .inl fun fs => ?_
          rw [delivered, readEntries, hopen, hdread]
          exact filterMap_dirents fs p
      | some count =>
          refine .inr ⟨count - 2, fun fs => ?_⟩
          rw [delivered, readEntries, hopen, hdread, if_pos rfl]
          have hdot : entryName ⟨dot, true⟩ = none := rfl
          have hdotdot : entryName ⟨dotdot, true⟩ = none := rfl
          match count with
          | 0 => rfl
          | 1 => rfl
          | count + 2 =>
              have hnamed : ∀ n : Name, entryName ⟨n.val, fs.lookup (n :: p) = some .dir⟩ = some n :=
                fun n => entryName_eq_some.mpr rfl
              dsimp only
              rw [dirents, List.take_succ_cons, List.take_succ_cons, List.filterMap_cons, hdot,
                List.filterMap_cons, hdotdot, ← List.map_take, List.filterMap_map]
              exact (List.filterMap_congr fun n _ => hnamed n).trans List.filterMap_some

theorem delivered_sublist (results : Results) (fs : Fs) (p : Path) :
    (delivered results fs p).Sublist (names fs p) := by
  rcases delivered_cases results p with hall | ⟨k, hfirst⟩
  · rw [hall]
  · rw [hfirst]
    exact List.take_sublist _ _

theorem mem_of_delivered (h : n ∈ delivered results fs p) : n :: p ∈ fs :=
  mem_names.mp ((delivered_sublist results fs p).subset h)

theorem delivered_congr (hnames : names fs₂ p = names fs p) :
    delivered results fs₂ p = delivered results fs p := by
  rcases delivered_cases results p with hall | ⟨k, hfirst⟩
  · rw [hall, hall, hnames]
  · rw [hfirst, hfirst, hnames]

theorem delivered_insert {node : Node Bytes} (hnew : n :: p ∉ fs)
    (hnot : n ∉ delivered results (fs.insert (n :: p) node) p) :
    delivered results (fs.insert (n :: p) node) p = [] ∧ delivered results fs p = [] := by
  have hnames : names (fs.insert (n :: p) node) p = n :: names fs p := by
    have hkeys : n :: p ∉ fs.keys := fun h => hnew (AList.mem_keys.mpr h)
    rw [names, AList.keys_insert, @List.erase_of_not_mem _ instBEqOfDecidableEq _ _ _ hkeys,
      List.filterMap_cons, childName_eq_some.mpr rfl, names]
  rcases delivered_cases results p with hall | ⟨k, hfirst⟩
  · rw [hall, hnames] at hnot
    exact absurd List.mem_cons_self hnot
  · rw [hfirst, hnames] at hnot
    cases k with
    | zero => exact ⟨by rw [hfirst, List.take_zero], by rw [hfirst, List.take_zero]⟩
    | succ k => exact absurd List.mem_cons_self hnot

theorem reached_append : Reached results fs s (r ++ [n]) ↔
    fs.lookup s = some .dir ∧ n ∈ delivered results fs s ∧ Reached results fs (n :: s) r := by
  induction r with
  | nil =>
      rw [List.nil_append, Reached, Reached, List.nil_append]
      tauto
  | cons m r ih =>
      rw [List.cons_append, Reached, Reached, ih, List.append_assoc, List.singleton_append]
      tauto

theorem Reached.of_append {u : Path} (h : Reached results fs s (u ++ r)) :
    Reached results fs s r := by
  induction u with
  | nil => exact h
  | cons n u ih => exact ih h.1

theorem Reached.mem (h : Reached results fs s r) (hr : r ≠ []) : r ++ s ∈ fs := by
  cases r with
  | nil => exact absurd rfl hr
  | cons n r => exact mem_of_delivered h.2.2

theorem Reached.dir {u : Path} (h : Reached results fs s (u ++ r)) (hu : u ≠ []) :
    fs.lookup (r ++ s) = some .dir := by
  induction u with
  | nil => exact absurd rfl hu
  | cons n u ih =>
      cases u with
      | nil => exact h.2.1
      | cons m u => exact ih h.1 (List.cons_ne_nil m u)

theorem not_reached_of_file (hs : fs.lookup s ≠ some .dir) (hr : r ≠ []) :
    ¬Reached results fs s r := by
  rcases r.eq_nil_or_concat with rfl | ⟨r, n, rfl⟩
  · exact absurd rfl hr
  · rw [List.concat_eq_append, reached_append]
    exact fun h => hs h.1

theorem not_suffix_tail (h : ¬dst <:+ n :: p) : ¬dst <:+ p :=
  fun hbelow => h (hbelow.trans (List.suffix_cons n p))

/-- Two trees are the same below `s`, but for what lies in `dst`. -/
structure Same (results : Results) (dst : Path) (fs fs₂ : Fs) (s : Path) : Prop where
  lookup : ∀ r, ¬dst <:+ r ++ s → fs₂.lookup (r ++ s) = fs.lookup (r ++ s)
  delivered : ∀ r, ¬dst <:+ r ++ s → delivered results fs₂ (r ++ s) = delivered results fs (r ++ s)

theorem Same.trans {fs₃ : Fs} (h : Same results dst fs fs₂ s) (h' : Same results dst fs₂ fs₃ s) :
    Same results dst fs fs₃ s where
  lookup r hr := (h'.lookup r hr).trans (h.lookup r hr)
  delivered r hr := (h'.delivered r hr).trans (h.delivered r hr)

theorem Same.child (h : Same results dst fs fs₂ s) (n : Name) : Same results dst fs fs₂ (n :: s) where
  lookup r hr := by
    rw [List.append_cons] at hr ⊢
    exact h.lookup _ hr
  delivered r hr := by
    rw [List.append_cons] at hr ⊢
    exact h.delivered _ hr

theorem Same.reached_cons (h : Same results dst fs fs₂ s) (hr : ¬dst <:+ r ++ s) (n : Name) :
    Reached results fs₂ s (n :: r) ↔ Reached results fs s (n :: r) := by
  induction r generalizing n with
  | nil => rw [Reached, Reached, h.lookup [] hr, h.delivered [] hr, Reached, Reached]
  | cons m r ih =>
      refine and_congr (ih (not_suffix_tail hr) m) ?_
      rw [h.lookup _ hr, h.delivered _ hr]

theorem Same.reached (h : Same results dst fs fs₂ s) (hr : ¬dst <:+ r ++ s) :
    Reached results fs₂ s r ↔ Reached results fs s r := by
  cases r with
  | nil => exact Iff.rfl
  | cons n r => exact h.reached_cons (not_suffix_tail hr) n

theorem Same.reached_dst (h : Same results dst fs fs₂ s) (hdst : dst = r ++ s) :
    Reached results fs₂ s r ↔ Reached results fs s r := by
  cases r with
  | nil => exact Iff.rfl
  | cons n r =>
      refine h.reached_cons (fun hbelow => ?_) n
      rw [hdst, List.cons_append] at hbelow
      exact not_cons_suffix_self hbelow

theorem same_of_agreeOff {P : Path → Prop} (h : AgreeOff P fs fs₂)
    (hP : ∀ r, ¬dst <:+ r ++ s → ¬P (r ++ s) ∧ ∀ n, ¬P (n :: (r ++ s))) :
    Same results dst fs fs₂ s where
  lookup r hr := h.lookup _ (hP r hr).1
  delivered r hr := delivered_congr (h.names _ (hP r hr).2)

/-- How a tree `s` and its copy `d` in `dst` are found afterwards. -/
structure Outcome (results : Results) (move : Bool) (dst : Path) (fs : Fs) (s d : Path)
    (fs' : Fs) : Prop where
  src_file : ∀ r content, ¬dst <:+ r ++ s → fs.lookup (r ++ s) = some (.file content) →
    fs'.lookup (r ++ s) =
      if Reached results fs s r ∧ move ∧ (results.file (r ++ s)).remove then none
      else some (.file content)
  dst_file : ∀ r content, ¬dst <:+ r ++ s → fs.lookup (r ++ s) = some (.file content) →
    fs'.lookup (r ++ d) =
      if Reached results fs s r ∧ (results.file (r ++ s)).openDst then
        some (.file (copied (results.file (r ++ s)) content))
      else none
  dst_dir : ∀ r, ¬dst <:+ r ++ s → fs.lookup (r ++ s) = some .dir →
    fs'.lookup (r ++ d) =
      if Reached results fs s r ∧ (results.dir (r ++ s)).mkdir then some .dir else none
  dst_none : ∀ r, dst <:+ r ++ s ∨ fs.lookup (r ++ s) = none → fs'.lookup (r ++ d) = none

theorem Outcome.congr (h : Outcome results move dst fs₂ s d fs')
    (hlookup : ∀ r, ¬dst <:+ r ++ s → fs₂.lookup (r ++ s) = fs.lookup (r ++ s))
    (hreached : ∀ r, ¬dst <:+ r ++ s → (Reached results fs₂ s r ↔ Reached results fs s r)) :
    Outcome results move dst fs s d fs' where
  src_file r content hout hr := by
    rw [h.src_file r content hout ((hlookup r hout).trans hr)]
    simp only [hreached r hout]
  dst_file r content hout hr := by
    rw [h.dst_file r content hout ((hlookup r hout).trans hr)]
    simp only [hreached r hout]
  dst_dir r hout hr := by
    rw [h.dst_dir r hout ((hlookup r hout).trans hr)]
    simp only [hreached r hout]
  dst_none r hr := by
    by_cases hin : dst <:+ r ++ s
    · exact h.dst_none r (.inl hin)
    · exact h.dst_none r (.inr ((hlookup r hin).trans (hr.resolve_left hin)))

theorem Outcome.of_agreeOff {P : Path → Prop} (h : Outcome results move dst fs s d g)
    (hagree : AgreeOff P g fs') (hs : ∀ r, ¬dst <:+ r ++ s → ¬P (r ++ s))
    (hd : ∀ r, ¬P (r ++ d)) : Outcome results move dst fs s d fs' where
  src_file r content hout hr := (hagree.lookup _ (hs r hout)).trans (h.src_file r content hout hr)
  dst_file r content hout hr := (hagree.lookup _ (hd r)).trans (h.dst_file r content hout hr)
  dst_dir r hout hr := (hagree.lookup _ (hd r)).trans (h.dst_dir r hout hr)
  dst_none r hr := (hagree.lookup _ (hd r)).trans (h.dst_none r hr)

/-- A tree `s` outside `dst` is to be copied to `d` in `dst`, where there is nothing yet. -/
structure Apart (dst : Path) (fs : Fs) (s d : Path) : Prop where
  outside : ¬dst <:+ s
  inside : dst <:+ d
  free : ∀ r, fs.lookup (r ++ d) = none

theorem Apart.in_copy (h : Apart dst fs s d) (r : Path) : dst <:+ r ++ d :=
  h.inside.trans (List.suffix_append r d)

theorem outcome_copyFile {content : Bytes} (hfile : fs.lookup s = some (.file content))
    (h : Apart dst fs s d) : Outcome results move dst fs s d (copyFile results move s d fs) := by
  have hne : d ≠ s := fun heq => h.outside (heq ▸ h.inside)
  have hdst : fs.lookup d = none := h.free []
  have hnot : ∀ r, r ≠ [] → ¬Reached results fs s r :=
    fun r => not_reached_of_file (by rw [hfile]; simp)
  have hagree := copyFile_agree results move s d fs
  have hsrc : ∀ r, r ≠ [] → ¬dst <:+ r ++ s →
      (copyFile results move s d fs).lookup (r ++ s) = fs.lookup (r ++ s) := by
    intro r hr hout
    apply hagree.lookup
    rintro (heq | heq)
    · exact hr (List.append_left_eq_self.mp heq)
    · exact hout (heq ▸ h.inside)
  have hcopy : ∀ r, r ≠ [] → (copyFile results move s d fs).lookup (r ++ d) = none := by
    intro r hr
    rw [hagree.lookup, h.free]
    rintro (heq | heq)
    · exact h.outside (heq ▸ h.in_copy r)
    · exact hr (List.append_left_eq_self.mp heq)
  constructor
  · intro r content' hout hr
    rcases eq_or_ne r [] with rfl | hne'
    · rw [List.nil_append] at hr ⊢
      simp only [Reached, true_and]
      exact copyFile_src hne hr
    · rw [hsrc r hne' hout, if_neg (fun hreached => hnot r hne' hreached.1), hr]
  · intro r content' _ hr
    rcases eq_or_ne r [] with rfl | hne'
    · rw [List.nil_append] at hr ⊢
      simp only [Reached, true_and]
      exact copyFile_dst hne hr hdst
    · rw [hcopy r hne', if_neg fun hreached => hnot r hne' hreached.1]
  · intro r _ hr
    rcases eq_or_ne r [] with rfl | hne'
    · rw [List.nil_append, hfile] at hr
      cases hr
    · rw [hcopy r hne', if_neg fun hreached => hnot r hne' hreached.1]
  · intro r hr
    rcases eq_or_ne r [] with rfl | hne'
    · rw [List.nil_append, hfile] at hr
      rcases hr with hin | hr
      · exact absurd hin h.outside
      · cases hr
    · exact hcopy r hne'

section MakeDir

theorem makeDir_agree (results : Results) (s d : Path) (fs : Fs) :
    AgreeOff (· = d) fs (makeDir results s d fs) := by
  rw [makeDir]
  split
  · apply agreeOff_insert
    rfl
  · exact .refl fs

theorem removed_agree (results : Results) (move : Bool) (s : Path) (fs : Fs) :
    AgreeOff (· = s) fs (if move then removeDir results s fs else fs) := by
  split
  · rw [removeDir]
    split
    · apply agreeOff_erase
      rfl
    · exact .refl fs
  · exact .refl fs

theorem makeDir_lookup (hfree : fs.lookup d = none) : (makeDir results s d fs).lookup d =
    if (results.dir s).mkdir then some .dir else none := by
  have hnew : d ∉ fs := AList.lookup_eq_none.mp hfree
  rw [makeDir]
  split
  · rename_i hmkdir
    rw [if_pos hmkdir.1, AList.lookup_insert]
  · rename_i hmkdir
    rw [if_neg fun hd => hmkdir ⟨hd, hnew⟩, hfree]

theorem delivered_makeDir (hd : ∀ n, n :: p ≠ d) :
    delivered results (makeDir results s d fs) p = delivered results fs p :=
  delivered_congr ((makeDir_agree results s d fs).names p hd)

theorem same_makeDir (results : Results) (hin : dst <:+ d) (n : Name) (fs : Fs) (q s : Path) :
    Same results dst fs (makeDir results q (n :: d) fs) s := by
  refine same_of_agreeOff (makeDir_agree results q (n :: d) fs) fun r hr => ⟨?_, fun m => ?_⟩
  · rintro heq
    exact hr (heq ▸ hin.trans (List.suffix_cons n d))
  · rintro heq
    exact hr ((List.cons.inj heq).2 ▸ hin)

variable (hapart : Apart dst fs s d) (hnot : ¬Enters results dst fs s d)
  (hn : n ∈ delivered results fs s)

include hapart hnot hn

theorem reached_makeDir (hr : ¬dst <:+ r ++ n :: s) :
    Reached results (makeDir results s d fs) (n :: s) r ↔ Reached results fs (n :: s) r := by
  induction r with
  | nil => exact Iff.rfl
  | cons m r ih =>
      have hr' : ¬dst <:+ r ++ n :: s := not_suffix_tail hr
      have hlookup : (makeDir results s d fs).lookup (r ++ n :: s) = fs.lookup (r ++ n :: s) :=
        (makeDir_agree results s d fs).lookup _ fun heq => hr' (heq ▸ hapart.inside)
      by_cases hparent : ∃ k, k :: (r ++ n :: s) = d
      · obtain ⟨k, hk⟩ := hparent
        have hdst : dst = k :: (r ++ n :: s) := by
          have hin := hapart.inside
          rw [← hk] at hin
          exact (List.suffix_cons_iff.mp hin).resolve_right hr'
        have hcome : ¬Reached results (makeDir results s d fs) (n :: s) (k :: r) :=
          fun h => hnot ⟨n, hn, k :: r, hdst, h⟩
        rw [Reached, Reached, ih hr', hlookup]
        rw [Reached, ih hr', hlookup] at hcome
        refine and_congr_right fun hreached => and_congr_right fun hdir => ?_
        have hnone : k ∉ delivered results (makeDir results s d fs) (r ++ n :: s) :=
          fun h => hcome ⟨hreached, hdir, h⟩
        rw [makeDir] at hnone ⊢
        split at hnone
        · rename_i hmkdir
          rw [if_pos hmkdir]
          rw [← hk] at hnone ⊢
          have hnew : k :: (r ++ n :: s) ∉ fs := by
            rw [hk]
            exact AList.lookup_eq_none.mp (hapart.free [])
          obtain ⟨hafter, hbefore⟩ := delivered_insert hnew hnone
          rw [hafter, hbefore]
        · rename_i hmkdir
          rw [if_neg hmkdir]
      · rw [Reached, Reached, ih hr', hlookup,
          delivered_makeDir fun k hk => hparent ⟨k, hk⟩]

end MakeDir

theorem not_reached_in (hapart : Apart dst fs s d) (hnot : ¬Enters results dst fs s d)
    (hin : dst <:+ r ++ s) : ¬Reached results fs s r := by
  intro hreached
  have hbelow : s <:+ dst :=
    (List.suffix_or_suffix_of_suffix hin (List.suffix_append r s)).resolve_left hapart.outside
  obtain ⟨u, hu⟩ := hin
  obtain ⟨t, rfl⟩ := hbelow
  rw [← List.append_assoc] at hu
  obtain rfl := List.append_cancel_right hu
  have ht := hreached.of_append
  rcases t.eq_nil_or_concat with rfl | ⟨t, n, rfl⟩
  · exact hapart.outside (List.suffix_refl s)
  rw [List.concat_eq_append] at *
  obtain ⟨-, hn, hreached'⟩ := reached_append.mp ht
  refine hnot ⟨n, hn, t, (List.append_cons t n s).symm, ?_⟩
  cases t with
  | nil => trivial
  | cons k t =>
      have hdst : (k :: t) ++ [n] ++ s = k :: (t ++ n :: s) := (List.append_cons (k :: t) n s).symm
      rw [hdst] at hapart hnot
      have hout : ¬k :: (t ++ n :: s) <:+ t ++ n :: s := not_cons_suffix_self
      have hmem := hreached'.mem (List.cons_ne_nil k t)
      have hparent : ∀ m, m :: (t ++ n :: s) ≠ d := by
        rintro m rfl
        have heq := (List.suffix_cons_iff.mp hapart.inside).resolve_right hout
        have hfree := hapart.free []
        rw [List.nil_append, ← heq] at hfree
        exact AList.lookup_eq_none.mp hfree hmem
      refine ⟨(reached_makeDir hapart hnot hn hout).mpr hreached'.1, ?_, ?_⟩
      · rw [(makeDir_agree results s d fs).lookup, hreached'.2.1]
        rintro heq
        exact hout (heq ▸ hapart.inside)
      · rw [delivered_makeDir hparent]
        exact hreached'.2.2

/-- What copying `s` to `d` may touch. -/
def Touched (dst s d q : Path) : Prop := s <:+ q ∧ ¬dst <:+ q ∨ d <:+ q

/-- In the loop of `CopyDirectory`, after the entries `done`. -/
structure Looped (results : Results) (move : Bool) (dst : Path) (fs : Fs) (s d : Path)
    (done : List Name) (g : Fs) : Prop where
  agree : AgreeOff (fun q => ∃ n ∈ done, Touched dst (n :: s) (n :: d) q)
    (makeDir results s d fs) g
  outcome : ∀ n ∈ done, Outcome results move dst fs (n :: s) (n :: d) g

theorem Touched.of_child (h : Touched dst (n :: s) (n :: d) q) : Touched dst s d q :=
  h.imp (fun hq => ⟨(List.suffix_cons n s).trans hq.1, hq.2⟩) (List.suffix_cons n d).trans

theorem not_touched_src (hin : dst <:+ d) (hne : m ≠ n) (hr : ¬dst <:+ r ++ n :: s) :
    ¬Touched dst (m :: s) (m :: d) (r ++ n :: s) := by
  rintro (⟨hbelow, -⟩ | hbelow)
  · exact not_suffix_of_ne hne r hbelow
  · exact hr ((hin.trans (List.suffix_cons m d)).trans hbelow)

theorem not_touched_dst (hin : dst <:+ d) (hne : m ≠ n) (r : Path) :
    ¬Touched dst (m :: s) (m :: d) (r ++ n :: d) := by
  rintro (⟨-, hout⟩ | hbelow)
  · exact hout ((hin.trans (List.suffix_cons n d)).trans (List.suffix_append r _))
  · exact not_suffix_of_ne hne r hbelow

theorem same_of_touched {done : List Name} (results : Results) (hin : dst <:+ d) (hn : n ∉ done)
    (h : AgreeOff (fun q => ∃ m ∈ done, Touched dst (m :: s) (m :: d) q) fs fs₂) :
    Same results dst fs fs₂ (n :: s) := by
  refine same_of_agreeOff h fun r hr => ⟨?_, fun k => ?_⟩
  · rintro ⟨m, hm, htouched⟩
    exact not_touched_src hin (ne_of_mem_of_not_mem hm hn) hr htouched
  · rintro ⟨m, hm, ⟨hbelow, -⟩ | hbelow⟩
    · exact not_suffix_of_ne (ne_of_mem_of_not_mem hm hn) (k :: r) hbelow
    · exact not_suffix_cons (fun hd => hr (hin.trans hd)) hbelow

section Looped

variable {done : List Name} (hapart : Apart dst fs s d)
  (h : Looped results move dst fs s d done g) (hn : n ∉ done)

include hapart h hn

theorem Looped.lookup (hr : ¬dst <:+ r ++ n :: s) :
    g.lookup (r ++ n :: s) = fs.lookup (r ++ n :: s) := by
  rw [(same_of_touched results hapart.inside hn h.agree).lookup r hr]
  exact (makeDir_agree results s d fs).lookup _ fun heq => hr (heq ▸ hapart.inside)

theorem Looped.free (r : Path) : g.lookup (r ++ n :: d) = none := by
  rw [h.agree.lookup, (makeDir_agree results s d fs).lookup, List.append_cons, hapart.free]
  · intro heq
    rw [List.append_cons] at heq
    exact absurd (List.append_left_eq_self.mp heq) (by simp)
  · rintro ⟨m, hm, htouched⟩
    exact not_touched_dst hapart.inside (ne_of_mem_of_not_mem hm hn) r htouched

variable (hnot : ¬Enters results dst fs s d) (hdelivered : n ∈ delivered results fs s)

include hnot hdelivered

theorem Looped.reached (hr : ¬dst <:+ r ++ n :: s) :
    Reached results g (n :: s) r ↔ Reached results fs (n :: s) r :=
  ((same_of_touched results hapart.inside hn h.agree).reached hr).trans
    (reached_makeDir hapart hnot hdelivered hr)

theorem Looped.apart : Apart dst g (n :: s) (n :: d) where
  outside hin := by
    have heq := (List.suffix_cons_iff.mp hin).resolve_right hapart.outside
    exact hnot ⟨n, hdelivered, [], heq, trivial⟩
  inside := hapart.inside.trans (List.suffix_cons n d)
  free := h.free hapart hn

theorem Looped.not_enters (hdir : g.lookup (n :: s) = some .dir) :
    ¬Enters results dst g (n :: s) (n :: d) := by
  have hout := (h.apart hapart hn hnot hdelivered).outside
  have hsame := (same_of_touched results hapart.inside hn h.agree).trans
    (same_makeDir results hapart.inside n g (n :: s) (n :: s))
  rintro ⟨m, hm, r, hdst, hreached⟩
  rw [List.append_cons] at hdst
  refine hnot ⟨n, hdelivered, r ++ [m], hdst, (hsame.reached_dst hdst).mp ?_⟩
  refine reached_append.mpr ⟨?_, ?_, hreached⟩
  · rw [← hdir]
    exact (same_makeDir results hapart.inside n g (n :: s) (n :: s)).lookup [] hout
  · have hkept := (same_makeDir results hapart.inside n g (n :: s) (n :: s)).delivered
      [] hout
    rw [List.nil_append] at hkept
    rwa [hkept]

end Looped

theorem looped_step {done : List Name} (hapart : Apart dst fs s d)
    (hnot : ¬Enters results dst fs s d) (h : Looped results move dst fs s d done g) (hn : n ∉ done)
    (hdelivered : n ∈ delivered results fs s)
    (hagree : AgreeOff (Touched dst (n :: s) (n :: d)) g fs')
    (houtcome : Outcome results move dst g (n :: s) (n :: d) fs') :
    Looped results move dst fs s d (n :: done) fs' where
  agree := by
    refine (h.agree.mono ?_).trans (hagree.mono ?_)
    · rintro q ⟨m, hm, hq⟩
      exact ⟨m, List.mem_cons_of_mem _ hm, hq⟩
    · intro q hq
      exact ⟨n, List.mem_cons_self, hq⟩
  outcome m hm := by
    rcases eq_or_ne n m with rfl | hne
    · exact houtcome.congr (fun r hr => h.lookup hapart hn hr)
        fun r hr => h.reached hapart hn hnot hdelivered hr
    · have hm := (List.mem_cons.mp hm).resolve_left hne.symm
      exact (h.outcome m hm).of_agreeOff hagree (fun r hr => not_touched_src hapart.inside hne hr)
        (not_touched_dst hapart.inside hne)

theorem Looped.outcome_dir {done : List Name} (h : Looped results move dst fs s d done g)
    (hs : fs.lookup s = some .dir) (hapart : Apart dst fs s d)
    (hdone : ∀ n, n ∈ done ↔ n ∈ delivered results fs s) :
    Outcome results move dst fs s d g := by
  have hreached : ∀ r n, n ∈ done →
      (Reached results fs s (r ++ [n]) ↔ Reached results fs (n :: s) r) := by
    intro r n hn
    rw [hdone] at hn
    rw [reached_append]
    tauto
  have hunreached : ∀ r n, n ∉ done → ¬Reached results fs s (r ++ [n]) := by
    intro r n hn
    rw [hdone] at hn
    rw [reached_append]
    tauto
  constructor
  · intro r content hout hr
    rcases r.eq_nil_or_concat with rfl | ⟨r, n, rfl⟩
    · rw [List.nil_append, hs] at hr
      cases hr
    · rw [List.concat_eq_append] at hout hr ⊢
      rw [← List.append_cons] at hout hr ⊢
      by_cases hn : n ∈ done
      · rw [List.append_cons]
        simp only [hreached r n hn]
        rw [← List.append_cons]
        exact (h.outcome n hn).src_file r content hout hr
      · rw [h.lookup hapart hn hout, if_neg fun hreached => hunreached r n hn hreached.1, hr]
  · intro r content hout hr
    rcases r.eq_nil_or_concat with rfl | ⟨r, n, rfl⟩
    · rw [List.nil_append, hs] at hr
      cases hr
    · rw [List.concat_eq_append] at hout hr ⊢
      rw [← List.append_cons] at hout hr
      rw [← List.append_cons, ← List.append_cons]
      by_cases hn : n ∈ done
      · simp only [hreached r n hn]
        exact (h.outcome n hn).dst_file r content hout hr
      · rw [h.free hapart hn r, if_neg fun hreached => hunreached r n hn hreached.1]
  · intro r hout hr
    rcases r.eq_nil_or_concat with rfl | ⟨r, n, rfl⟩
    · simp only [Reached, true_and, List.nil_append]
      rw [h.agree.lookup]
      · exact makeDir_lookup (hapart.free [])
      · rintro ⟨m, -, ⟨-, hout⟩ | hbelow⟩
        · exact hout hapart.inside
        · exact not_cons_suffix_self hbelow
    · rw [List.concat_eq_append] at hout hr ⊢
      rw [← List.append_cons] at hout hr
      rw [← List.append_cons, ← List.append_cons]
      by_cases hn : n ∈ done
      · simp only [hreached r n hn]
        exact (h.outcome n hn).dst_dir r hout hr
      · rw [h.free hapart hn r, if_neg fun hreached => hunreached r n hn hreached.1]
  · intro r hr
    rcases r.eq_nil_or_concat with rfl | ⟨r, n, rfl⟩
    · rw [List.nil_append, hs] at hr
      rcases hr with hin | hr
      · exact absurd hin hapart.outside
      · cases hr
    · rw [List.concat_eq_append] at hr ⊢
      rw [← List.append_cons] at hr ⊢
      by_cases hn : n ∈ done
      · exact (h.outcome n hn).dst_none r hr
      · exact h.free hapart hn r

/-- A source is copied, and nothing is touched but it and the copy. -/
def Copies (results : Results) (move : Bool) (dst : Path) (fs : Fs) (s d : Path)
    (copied : Option Fs) : Prop :=
  ∃ fs', copied = some fs' ∧ AgreeOff (Touched dst s d) fs fs' ∧
    Outcome results move dst fs s d fs'

theorem copies_copyFile {content : Bytes} (hfile : fs.lookup s = some (.file content))
    (h : Apart dst fs s d) :
    Copies results move dst fs s d (some (copyFile results move s d fs)) := by
  refine ⟨_, rfl, (copyFile_agree results move s d fs).mono ?_, outcome_copyFile hfile h⟩
  rintro q (rfl | rfl)
  · exact .inl ⟨List.suffix_refl q, h.outside⟩
  · exact .inr (List.suffix_refl q)

section Loop

variable {copyDir : Path → Path → Fs → Option Fs}

theorem copyEntry_named (isdir : Bool) : copyEntry copyDir results move s d g ⟨n.val, isdir⟩ =
    if isdir then copyDir (n :: s) (n :: d) g
    else some (copyFile results move (n :: s) (n :: d) g) :=
  dif_pos n.property

theorem copyEntry_skipped {e : Dirent} (h : entryName e = none) :
    copyEntry copyDir results move s d g e = some g := by
  rw [copyEntry]
  rw [entryName] at h
  split at h
  · cases h
  · rename_i hnamed
    rw [dif_neg hnamed]

theorem looped_foldlM (hapart : Apart dst fs s d) (hnot : ¬Enters results dst fs s d)
    (hcopy : ∀ (n : Name) (done : List Name) (g : Fs), n ∈ delivered results fs s → n ∉ done →
      Looped results move dst fs s d done g → g.lookup (n :: s) = some .dir →
      Copies results move dst g (n :: s) (n :: d) (copyDir (n :: s) (n :: d) g))
    (es : List Dirent) (hes : ∀ e ∈ es, e ∈ readEntries results fs s) (done : List Name)
    (hnodup : (es.filterMap entryName).Nodup) (hnew : ∀ n ∈ es.filterMap entryName, n ∉ done)
    (h : Looped results move dst fs s d done g) :
    ∃ fs', es.foldlM (copyEntry copyDir results move s d) g = some fs' ∧
      Looped results move dst fs s d ((es.filterMap entryName).reverse ++ done) fs' := by
  induction es generalizing done g with
  | nil => exact ⟨g, rfl, h⟩
  | cons e es ih =>
      have hes' : ∀ e ∈ es, e ∈ readEntries results fs s :=
        fun e he => hes e (List.mem_cons_of_mem _ he)
      rw [List.foldlM_cons]
      cases hname : entryName e with
      | none =>
          rw [List.filterMap_cons, hname] at hnodup hnew ⊢
          rw [copyEntry_skipped hname]
          exact ih hes' done hnodup hnew h
      | some n =>
          have hdelivered : n ∈ delivered results fs s :=
            List.mem_filterMap.mpr ⟨e, hes e List.mem_cons_self, hname⟩
          rw [List.filterMap_cons, hname] at hnodup hnew ⊢
          dsimp only at hnodup hnew ⊢
          obtain ⟨hfirst, hnodup⟩ := List.nodup_cons.mp hnodup
          have hn : n ∉ done := hnew n List.mem_cons_self
          have hchild := h.apart hapart hn hnot hdelivered
          obtain ⟨hmem, hisdir⟩ := mem_readEntries (hes e List.mem_cons_self) hname
          have hlookup : g.lookup (n :: s) = fs.lookup (n :: s) :=
            @Looped.lookup results move fs g s d dst [] n done hapart h hn hchild.outside
          have hentry : e = ⟨n.val, decide (g.lookup (n :: s) = some .dir)⟩ := by
            rw [hlookup, ← hisdir, ← entryName_eq_some.mp hname]
          have hcopied : Copies results move dst g (n :: s) (n :: d)
              (copyEntry copyDir results move s d g e) := by
            rw [hentry, copyEntry_named]
            cases hnode : g.lookup (n :: s) with
            | none =>
                rw [hlookup] at hnode
                exact absurd (mem_names.mp hmem) (AList.lookup_eq_none.mp hnode)
            | some node =>
                cases node with
                | file content => exact copies_copyFile hnode hchild
                | dir => exact hcopy n done g hdelivered hn h hnode
          obtain ⟨g', hg', hagree, houtcome⟩ := hcopied
          have hnext := looped_step hapart hnot h hn hdelivered hagree houtcome
          rw [hg']
          obtain ⟨fs', hfold, hlooped⟩ := ih hes' (n :: done) hnodup
            (fun m hm hmem => (List.mem_cons.mp hmem).elim (fun heq => hfirst (heq ▸ hm))
              fun hdone => hnew m (List.mem_cons_of_mem _ hm) hdone) hnext
          refine ⟨fs', hfold, ?_⟩
          rwa [List.reverse_cons, List.append_assoc]

end Loop

/-- The recursion comes to nothing that lies deeper below the root of the tree. -/
def Shallow (results : Results) (fs : Fs) (s : Path) (depth : ℕ) : Prop :=
  ∀ r, Reached results fs s r → r.length < depth

theorem copies_copyDirectory (fuel : ℕ) (hs : fs.lookup s = some .dir) (hapart : Apart dst fs s d)
    (hnot : ¬Enters results dst fs s d) (hshallow : Shallow results fs s fuel) :
    Copies results move dst fs s d (copyDirectory results move fuel s d fs) := by
  induction fuel generalizing fs s d with
  | zero => exact absurd (hshallow [] trivial) (Nat.not_lt_zero _)
  | succ fuel ih =>
      have hnodup : (delivered results fs s).Nodup :=
        (nodup_names fs s).sublist (delivered_sublist results fs s)
      have hstart : Looped results move dst fs s d [] (makeDir results s d fs) :=
        ⟨.refl _, fun n hn => absurd hn List.not_mem_nil⟩
      have hcopy : ∀ (n : Name) (done : List Name) (g : Fs), n ∈ delivered results fs s →
          n ∉ done → Looped results move dst fs s d done g → g.lookup (n :: s) = some .dir →
          Copies results move dst g (n :: s) (n :: d)
            (copyDirectory results move fuel (n :: s) (n :: d) g) := by
        intro n done g hdelivered hn hlooped hdir
        have hchild := hlooped.apart hapart hn hnot hdelivered
        have hnot' := hlooped.not_enters hapart hn hnot hdelivered hdir
        refine ih hdir hchild hnot' fun r hr => ?_
        have hout : ¬dst <:+ r ++ n :: s := fun hin => not_reached_in hchild hnot' hin hr
        have hlength := hshallow (r ++ [n]) (reached_append.mpr
          ⟨hs, hdelivered, (hlooped.reached hapart hn hnot hdelivered hout).mp hr⟩)
        rw [List.length_append, List.length_singleton] at hlength
        omega
      obtain ⟨g, hfold, hlooped⟩ := looped_foldlM hapart hnot hcopy (readEntries results fs s)
        (fun e he => he) [] hnodup (fun n _ => List.not_mem_nil) hstart
      have houtcome := hlooped.outcome_dir hs hapart fun n => by
        rw [List.append_nil, List.mem_reverse, delivered]
      have hremoved := removed_agree results move s g
      refine ⟨if move then removeDir results s g else g, ?_, ?_, ?_⟩
      · rw [copyDirectory]
        rw [hfold, Option.map_some]
      · refine ((makeDir_agree results s d fs).mono ?_).trans
          ((hlooped.agree.mono ?_).trans (hremoved.mono ?_))
        · rintro q rfl
          exact .inr (List.suffix_refl q)
        · rintro q ⟨n, -, hq⟩
          exact hq.of_child
        · rintro q rfl
          exact .inl ⟨List.suffix_refl q, hapart.outside⟩
      · have hsrc : ∀ r content, fs.lookup (r ++ s) = some (.file content) → r ++ s ≠ s := by
          intro r content hr heq
          rw [heq, hs] at hr
          cases hr
        have hdst : ∀ r, r ++ d ≠ s := fun r heq => hapart.outside (heq ▸ hapart.in_copy r)
        constructor
        · intro r content hout hr
          rw [hremoved.lookup _ (hsrc r content hr)]
          exact houtcome.src_file r content hout hr
        · intro r content hout hr
          rw [hremoved.lookup _ (hdst r)]
          exact houtcome.dst_file r content hout hr
        · intro r hout hr
          rw [hremoved.lookup _ (hdst r)]
          exact houtcome.dst_dir r hout hr
        · intro r hr
          rw [hremoved.lookup _ (hdst r)]
          exact houtcome.dst_none r hr

end PsplinkUsb.Psplink.CopyOutcome
