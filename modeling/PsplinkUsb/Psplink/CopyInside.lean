import PsplinkUsb.Psplink.CopyOutcome

namespace PsplinkUsb.Psplink.CopyInside

open PsplinkUsb.Library.FileTree
open PsplinkUsb.Psplink.CopyTree
open PsplinkUsb.Psplink.CopyBlocks
open PsplinkUsb.Psplink.CopyOutcome

/-- No call for a directory fails. -/
structure DirsSucceed (results : Results) : Prop where
  dopen : ∀ p, (results.dir p).dopen = true
  mkdir : ∀ p, (results.dir p).mkdir = true
  dread : ∀ p, (results.dir p).dread = none

/-- With `move`: each file that is come to and removed is copied whole, and its copy is not
removed in turn. -/
def MovesWhole (results : Results) (fs : Fs) (src dst : Path) : Prop :=
  ∀ r content, fs.lookup (r ++ src) = some (.file content) →
    Reached results (makeDir results src dst fs) src r → (results.file (r ++ src)).remove = true →
      Whole (results.file (r ++ src)) content ∧ (results.file (r ++ dst)).remove = false

variable {results : Results} {move : Bool} {fs fs' g g' : Fs} {src dst s d p q r t : Path}
  {n m : Name} {content : Bytes} {copyDir : Path → Path → Fs → Option Fs} {fuel : ℕ} {e : Dirent}

section Folds

variable {A B : Type} {f : B → A → Option B} (Inv : B → Prop) {a : A} {as : List A} {b b' : B}

theorem foldlM_invariant (hstep : ∀ a ∈ as, ∀ b b', Inv b → f b a = some b' → Inv b')
    (h : as.foldlM f b = some b') (hb : Inv b) : Inv b' := by
  induction as generalizing b with
  | nil =>
      rw [List.foldlM_nil] at h
      obtain rfl := Option.some.inj h
      exact hb
  | cons a as ih =>
      rw [List.foldlM_cons] at h
      obtain ⟨b₁, hfirst, hrest⟩ := Option.bind_eq_some_iff.mp h
      exact ih (fun a ha => hstep a (List.mem_cons_of_mem _ ha)) hrest
        (hstep a List.mem_cons_self b b₁ hb hfirst)

theorem foldlM_eq_none (ha : a ∈ as) (hnone : ∀ b, Inv b → f b a = none)
    (hstep : ∀ a ∈ as, ∀ b b', Inv b → f b a = some b' → Inv b') (hb : Inv b) :
    as.foldlM f b = none := by
  obtain ⟨before, after, rfl⟩ := List.append_of_mem ha
  rw [List.foldlM_append]
  cases h : before.foldlM f b with
  | none => rfl
  | some b' =>
      have hinv := foldlM_invariant Inv (fun a ha => hstep a (List.mem_append_left _ ha)) h hb
      show List.foldlM f b' (a :: after) = none
      rw [List.foldlM_cons, hnone b' hinv]
      rfl

end Folds

theorem copyEntry_cases (h : copyEntry copyDir results move s d g e = some g') :
    (entryName e = none ∧ g' = g) ∨
      ∃ n, entryName e = some n ∧
        (e.isdir = true ∧ copyDir (n :: s) (n :: d) g = some g' ∨
          e.isdir = false ∧ g' = copyFile results move (n :: s) (n :: d) g) := by
  cases hname : entryName e with
  | none =>
      rw [copyEntry_skipped hname] at h
      exact .inl ⟨rfl, (Option.some.inj h).symm⟩
  | some n =>
      have hentry : e = ⟨n.val, e.isdir⟩ := by rw [← entryName_eq_some.mp hname]
      rw [hentry, copyEntry_named] at h
      refine .inr ⟨n, rfl, ?_⟩
      split at h
      · rename_i hdir
        exact .inl ⟨hdir, h⟩
      · rename_i hdir
        exact .inr ⟨by simpa using hdir, (Option.some.inj h).symm⟩

theorem copyDirectory_cases (h : copyDirectory results move (fuel + 1) s d fs = some fs') :
    ∃ g, (readEntries results fs s).foldlM
        (copyEntry (copyDirectory results move fuel) results move s d) (makeDir results s d fs) =
          some g ∧ fs' = if move then removeDir results s g else g := by
  rw [copyDirectory] at h
  obtain ⟨g, hg, rfl⟩ := Option.map_eq_some_iff.mp h
  exact ⟨g, hg, rfl⟩

/-- In the tree that is copied, or in its copy. -/
def Within (s d q : Path) : Prop := s <:+ q ∨ d <:+ q

theorem copyEntry_agree
    (hcopy : ∀ s d g g', copyDir s d g = some g' → AgreeOff (Within s d) g g')
    (hname : entryName e = some n) (h : copyEntry copyDir results move s d g e = some g') :
    AgreeOff (Within (n :: s) (n :: d)) g g' := by
  rcases copyEntry_cases h with ⟨hnone, -⟩ | ⟨m, hm, ⟨-, hdir⟩ | ⟨-, rfl⟩⟩
  · cases hname.symm.trans hnone
  · cases hname.symm.trans hm
    exact hcopy _ _ _ _ hdir
  · cases hname.symm.trans hm
    refine (copyFile_agree results move _ _ g).mono ?_
    rintro q (rfl | rfl)
    · exact .inl (List.suffix_refl _)
    · exact .inr (List.suffix_refl _)

theorem copyDirectory_agree (h : copyDirectory results move fuel s d fs = some fs') :
    AgreeOff (Within s d) fs fs' := by
  induction fuel generalizing s d fs fs' with
  | zero => cases h
  | succ fuel ih =>
      obtain ⟨g, hfold, rfl⟩ := copyDirectory_cases h
      have hmade : AgreeOff (Within s d) fs (makeDir results s d fs) :=
        (makeDir_agree results s d fs).mono fun q hq => .inr (hq ▸ List.suffix_refl q)
      refine AgreeOff.trans ?_ ((removed_agree results move s g).mono fun q hq =>
        .inl (hq ▸ List.suffix_refl q))
      refine foldlM_invariant (AgreeOff (Within s d) fs) ?_ hfold hmade
      intro e _ g₁ g₂ hbefore hstep
      cases hname : entryName e with
      | none =>
          rw [copyEntry_skipped hname] at hstep
          exact Option.some.inj hstep ▸ hbefore
      | some n =>
          refine hbefore.trans ((copyEntry_agree (fun _ _ _ _ => ih) hname hstep).mono ?_)
          exact fun q hq => hq.imp (List.suffix_cons n s).trans (List.suffix_cons n d).trans

section Forever

/-- The directories from `s` to its copy `t ++ s` are there, and the copy is not yet. -/
structure Spine (fs : Fs) (s t : Path) : Prop where
  long : 2 ≤ t.length
  dirs : ∀ u r, u ≠ [] → t = u ++ r → fs.lookup (r ++ s) = some .dir
  free : ∀ r, fs.lookup (r ++ (t ++ s)) = none

theorem Spine.makeDir (hsucceed : DirsSucceed results) (h : Spine fs s (t ++ [n])) :
    Spine (CopyTree.makeDir results s (t ++ [n] ++ s) fs) (n :: s) (n :: t) := by
  obtain ⟨hlong, hdirs, hfree⟩ := h
  rw [List.length_append, List.length_singleton] at hlong
  have hagree := makeDir_agree results s (t ++ [n] ++ s) fs
  refine ⟨by rw [List.length_cons]; exact hlong, ?_, ?_⟩
  · intro u r hu hr
    obtain ⟨k, u, rfl⟩ := List.exists_cons_of_ne_nil hu
    obtain rfl : n = k := (List.cons.inj hr).1
    obtain rfl : t = u ++ r := (List.cons.inj hr).2
    rw [List.append_cons]
    rcases eq_or_ne u [] with rfl | hu
    · exact (makeDir_lookup (hfree [])).trans (if_pos (hsucceed.mkdir s))
    · rw [hagree.lookup, hdirs u (r ++ [n]) hu (List.append_assoc ..)]
      intro heq
      have hlength := congrArg List.length heq
      have hpos := List.length_pos_iff.mpr hu
      simp only [List.length_append] at hlength
      omega
  · intro r
    have hcopy : r ++ (n :: t ++ n :: s) = r ++ [n] ++ (t ++ [n] ++ s) := by simp
    rw [hcopy, hagree.lookup, hfree]
    intro heq
    exact absurd (List.append_left_eq_self.mp heq) (by simp)

theorem Spine.of_agree (h : Spine g (n :: s) (n :: t)) (hne : m ≠ n)
    (hagree : AgreeOff (Within (m :: s) (m :: (t ++ n :: s))) g g') :
    Spine g' (n :: s) (n :: t) := by
  obtain ⟨hlong, hdirs, hfree⟩ := h
  refine ⟨hlong, ?_, ?_⟩
  · intro u r hu hr
    rw [hagree.lookup, hdirs u r hu hr]
    rintro (hbelow | hbelow)
    · exact not_suffix_of_ne hne r hbelow
    · have hlength := hbelow.length_le
      have hsplit := congrArg List.length hr
      have hpos := List.length_pos_iff.mpr hu
      simp only [List.length_append, List.length_cons] at hlength hsplit
      omega
  · intro r
    rw [hagree.lookup, hfree]
    rintro (hbelow | hbelow)
    · rw [← List.append_assoc] at hbelow
      exact not_suffix_of_ne hne _ hbelow
    · exact not_suffix_of_ne hne r hbelow

theorem never_returns (hsucceed : DirsSucceed results) (h : Spine fs s t) :
    copyDirectory results move fuel s (t ++ s) fs = none := by
  induction fuel generalizing fs s t with
  | zero => rfl
  | succ fuel ih =>
      have hlong := h.long
      rcases t.eq_nil_or_concat with rfl | ⟨t, n, rfl⟩
      · exact absurd hlong (by decide)
      rw [List.concat_eq_append] at h hlong ⊢
      rw [List.length_append, List.length_singleton] at hlong
      have hcopy : t ++ [n] ++ s = t ++ n :: s := (List.append_cons t n s).symm
      have hdir : fs.lookup (n :: s) = some .dir :=
        h.dirs t [n] (List.ne_nil_of_length_pos (by omega)) rfl
      have hentry : ⟨n.val, true⟩ ∈ readEntries results fs s := by
        have hisdir : decide (fs.lookup (n :: s) = some .dir) = true := decide_eq_true hdir
        rw [readEntries, hsucceed.dopen, hsucceed.dread, if_pos rfl, dirents, ← hisdir]
        exact List.mem_cons_of_mem _ (List.mem_cons_of_mem _
          (List.mem_map.mpr ⟨n, mem_names.mpr (mem_of_lookup hdir), rfl⟩))
      have hnone : ∀ g, Spine g (n :: s) (n :: t) →
          copyDirectory results move fuel (n :: s) (n :: (t ++ n :: s)) g = none := fun g => ih
      rw [copyDirectory]
      rw [foldlM_eq_none (fun g => Spine g (n :: s) (n :: t)) hentry ?_ ?_ (h.makeDir hsucceed),
        Option.map_none]
      · intro g hg
        rw [copyEntry_named, if_pos rfl, hcopy]
        exact hnone g hg
      · intro e he g g' hg hstep
        cases hname : entryName e with
        | none =>
            rw [copyEntry_skipped hname] at hstep
            exact Option.some.inj hstep ▸ hg
        | some m =>
            rcases eq_or_ne m n with rfl | hne
            · have hdirs : e.isdir = true := by
                rw [(mem_readEntries he hname).2, hdir]
                rfl
              rcases copyEntry_cases hstep with ⟨hskip, -⟩ | ⟨k, hk, ⟨-, hcopied⟩ | ⟨hfile, -⟩⟩
              · cases hname.symm.trans hskip
              · cases hname.symm.trans hk
                rw [hcopy, hnone g hg] at hcopied
                cases hcopied
              · cases hdirs.symm.trans hfile
            · rw [hcopy] at hstep
              exact hg.of_agree hne
                (copyEntry_agree (fun _ _ _ _ => copyDirectory_agree) hname hstep)

end Forever

section Moved

theorem copyFile_keeps (hfile : g.lookup p = some (.file content)) (hcopy : p ≠ d)
    (hkept : p = s → (results.file p).remove = false) :
    (copyFile results move s d g).lookup p = some (.file content) := by
  rcases eq_or_ne p s with rfl | hne
  · rw [copyFile_src hcopy.symm hfile, hkept rfl]
    simp
  · rw [(copyFile_agree results move s d g).lookup p (fun h => h.elim hne hcopy), hfile]

theorem copyDirectory_keeps (h : copyDirectory results move fuel s d g = some g')
    (hfile : g.lookup p = some (.file content)) (hne : p ≠ s) (hcopy : ¬d <:+ p)
    (hkept : (results.file p).remove = false) : g'.lookup p = some (.file content) := by
  induction fuel generalizing s d g g' with
  | zero => cases h
  | succ fuel ih =>
      obtain ⟨g₁, hfold, rfl⟩ := copyDirectory_cases h
      rw [(removed_agree results move s g₁).lookup p hne]
      have hmade : (makeDir results s d g).lookup p = some (.file content) := by
        rw [(makeDir_agree results s d g).lookup p fun heq => hcopy (heq ▸ List.suffix_refl p)]
        exact hfile
      refine foldlM_invariant (fun g => g.lookup p = some (.file content)) ?_ hfold hmade
      intro e he g₂ g₃ hbefore hstep
      rcases copyEntry_cases hstep with ⟨-, rfl⟩ | ⟨n, hname, ⟨hdir, hcopied⟩ | ⟨-, rfl⟩⟩
      · exact hbefore
      · refine ih hcopied hbefore ?_ fun h => hcopy ((List.suffix_cons n d).trans h)
        rintro rfl
        rw [(mem_readEntries he hname).2, hfile] at hdir
        simp at hdir
      · refine copyFile_keeps hbefore ?_ fun _ => hkept
        rintro rfl
        exact hcopy (List.suffix_cons n d)

/-- The file is where it was, or at its place in the copy, from where it is not removed. -/
def Safe (results : Results) (src dst r : Path) (content : Bytes) (g : Fs) : Prop :=
  g.lookup (r ++ src) = some (.file content) ∨
    g.lookup (r ++ dst) = some (.file content) ∧ (results.file (r ++ dst)).remove = false

theorem Safe.copyEntry {u : Path} (h : Safe results src dst (u ++ n :: r) content g)
    (hname : entryName e = some m) (hne : m ≠ n) (hout : ¬dst <:+ u ++ n :: r ++ src)
    (hlong : src.length < dst.length)
    (hstep : CopyTree.copyEntry (copyDirectory results move fuel) results move (r ++ src) (r ++ dst)
      g e = some g') : Safe results src dst (u ++ n :: r) content g' := by
  have hcopy : ¬m :: (r ++ dst) <:+ u ++ n :: r ++ dst := by
    rw [List.append_assoc]
    exact not_suffix_of_ne hne u
  have hplace : u ++ n :: r ++ dst ≠ m :: (r ++ src) := by
    intro heq
    have hlength := congrArg List.length heq
    simp only [List.length_append, List.length_cons] at hlength
    omega
  rcases h with hsrc | ⟨hdst, hkept⟩
  · left
    rw [(copyEntry_agree (fun _ _ _ _ => copyDirectory_agree) hname hstep).lookup, hsrc]
    rintro (hbelow | hbelow)
    · rw [List.append_assoc] at hbelow
      exact not_suffix_of_ne hne u hbelow
    · exact hout (((List.suffix_append r dst).trans (List.suffix_cons m _)).trans hbelow)
  · right
    refine ⟨?_, hkept⟩
    rcases copyEntry_cases hstep with ⟨-, rfl⟩ | ⟨k, hk, ⟨-, hcopied⟩ | ⟨-, rfl⟩⟩
    · exact hdst
    · cases hname.symm.trans hk
      exact copyDirectory_keeps hcopied hdst hplace hcopy hkept
    · cases hname.symm.trans hk
      refine copyFile_keeps hdst ?_ fun _ => hkept
      intro heq
      exact hcopy (heq ▸ List.suffix_refl _)

theorem others_agree (es : List Dirent) (hes : ∀ e ∈ es, entryName e ≠ some n)
    (h : es.foldlM (CopyTree.copyEntry (copyDirectory results move fuel) results move s d) g =
      some g') : AgreeOff (fun q => ∃ m, m ≠ n ∧ Within (m :: s) (m :: d) q) g g' := by
  refine foldlM_invariant (AgreeOff (fun q => ∃ m, m ≠ n ∧ Within (m :: s) (m :: d) q) g) ?_ h
    (.refl g)
  intro e he g₁ g₂ hbefore hstep
  cases hname : entryName e with
  | none =>
      rw [copyEntry_skipped hname] at hstep
      exact Option.some.inj hstep ▸ hbefore
  | some m =>
      refine hbefore.trans ((copyEntry_agree (fun _ _ _ _ => copyDirectory_agree) hname hstep).mono
        fun q hq => ⟨m, ?_, hq⟩)
      rintro rfl
      exact hes e he hname

theorem not_others (hin : dst <:+ d) {u : Path} (hout : ¬dst <:+ u ++ n :: s) :
    ¬∃ m, m ≠ n ∧ Within (m :: s) (m :: d) (u ++ n :: s) := by
  rintro ⟨m, hne, hbelow | hbelow⟩
  · exact not_suffix_of_ne hne u hbelow
  · exact hout ((hin.trans (List.suffix_cons m d)).trans hbelow)

theorem same_of_others (hin : dst <:+ d)
    (h : AgreeOff (fun q => ∃ m, m ≠ n ∧ Within (m :: s) (m :: d) q) g g') :
    Same results dst g g' (n :: s) := by
  refine same_of_agreeOff h fun r hr => ⟨not_others hin hr, fun k => ?_⟩
  rintro ⟨m, hne, hbelow | hbelow⟩
  · exact not_suffix_of_ne hne (k :: r) hbelow
  · exact not_suffix_cons (fun hd => hr (hin.trans hd)) hbelow

theorem safe_entry {u : Path} (hout : ¬dst <:+ u ++ n :: r ++ src)
    (hcopy : u ≠ [] → ∀ g', g.lookup (n :: r ++ src) = some .dir →
      copyDir (n :: r ++ src) (n :: r ++ dst) g = some g' →
      Safe results src dst (u ++ n :: r) content g')
    (hmoves : u = [] → (results.file (n :: r ++ src)).remove = true →
      Whole (results.file (n :: r ++ src)) content ∧ (results.file (n :: r ++ dst)).remove = false)
    (hfile : g.lookup (u ++ n :: r ++ src) = some (.file content)) (hname : entryName e = some n)
    (hisdir : e.isdir = decide (g.lookup (n :: r ++ src) = some .dir))
    (hstep : CopyTree.copyEntry copyDir results move (r ++ src) (r ++ dst) g e = some g') :
    Safe results src dst (u ++ n :: r) content g' := by
  have hplace : u ++ n :: r ++ src ≠ n :: (r ++ dst) := by
    intro heq
    exact hout (heq ▸ (List.suffix_append r dst).trans (List.suffix_cons n _))
  rcases copyEntry_cases hstep with ⟨hnone, -⟩ | ⟨k, hk, ⟨hdir, hcopied⟩ | ⟨-, rfl⟩⟩
  · cases hname.symm.trans hnone
  · cases hname.symm.trans hk
    rw [hisdir, decide_eq_true_eq] at hdir
    refine hcopy ?_ g' hdir hcopied
    rintro rfl
    cases hfile.symm.trans hdir
  · cases hname.symm.trans hk
    rcases eq_or_ne u [] with rfl | hu
    · cases hremove : (results.file (n :: r ++ src)).remove with
      | false => exact .inl (copyFile_keeps hfile hplace fun _ => hremove)
      | true =>
          obtain ⟨hwhole, hkept⟩ := hmoves rfl hremove
          obtain ⟨hopen, hcopied⟩ := copied_eq_iff.mpr hwhole
          refine .inr ⟨?_, hkept⟩
          refine (copyFile_open hplace.symm hfile hopen).trans ?_
          exact congrArg (fun content => some (Node.file content)) hcopied
    · refine .inl (copyFile_keeps hfile hplace fun heq => ?_)
      have hlength := congrArg List.length heq
      have hpos := List.length_pos_iff.mpr hu
      simp only [List.length_append, List.length_cons] at hlength
      omega

theorem Safe.others {u : Path} {es : List Dirent} (h : Safe results src dst (u ++ n :: r) content g)
    (hes : ∀ e ∈ es, entryName e ≠ some n) (hout : ¬dst <:+ u ++ n :: r ++ src)
    (hlong : src.length < dst.length)
    (hfold : es.foldlM (CopyTree.copyEntry (copyDirectory results move fuel) results move (r ++ src)
      (r ++ dst)) g = some g') : Safe results src dst (u ++ n :: r) content g' := by
  refine foldlM_invariant (Safe results src dst (u ++ n :: r) content) ?_ hfold h
  intro e he g₁ g₂ hbefore hstep
  cases hname : entryName e with
  | none =>
      rw [copyEntry_skipped hname] at hstep
      exact Option.some.inj hstep ▸ hbefore
  | some m =>
      refine hbefore.copyEntry hname ?_ hout hlong hstep
      rintro rfl
      exact hes e he hname

theorem Safe.removed {u : Path} (h : Safe results src dst (u ++ n :: r) content g)
    (hlong : src.length ≤ dst.length) :
    Safe results src dst (u ++ n :: r) content
      (if move then removeDir results (r ++ src) g else g) := by
  have hagree := removed_agree results move (r ++ src) g
  have hne : ∀ q, src.length ≤ q.length → u ++ n :: r ++ q ≠ r ++ src := by
    intro q hq heq
    have hlength := congrArg List.length heq
    simp only [List.length_append, List.length_cons] at hlength
    omega
  rw [Safe, hagree.lookup _ (hne src le_rfl), hagree.lookup _ (hne dst hlong)]
  exact h

theorem safe_entries {u : Path} {es : List Dirent} (hnodup : (es.filterMap entryName).Nodup)
    (hout : ¬dst <:+ u ++ n :: r ++ src) (hlong : src.length < dst.length)
    (hfile : g.lookup (u ++ n :: r ++ src) = some (.file content))
    (hentry : ∀ e ∈ es, entryName e = some n → ∀ g₁ g₂,
      AgreeOff (fun q => ∃ m, m ≠ n ∧ Within (m :: (r ++ src)) (m :: (r ++ dst)) q) g g₁ →
      CopyTree.copyEntry (copyDirectory results move fuel) results move (r ++ src) (r ++ dst) g₁ e =
        some g₂ → Safe results src dst (u ++ n :: r) content g₂)
    (hfold : es.foldlM (CopyTree.copyEntry (copyDirectory results move fuel) results move (r ++ src)
      (r ++ dst)) g = some g') : Safe results src dst (u ++ n :: r) content g' := by
  by_cases hmem : n ∈ es.filterMap entryName
  · obtain ⟨e, he, hname⟩ := List.mem_filterMap.mp hmem
    obtain ⟨before, after, rfl⟩ := List.append_of_mem he
    rw [List.filterMap_append, List.filterMap_cons, hname] at hnodup
    obtain ⟨-, hafter, hdisjoint⟩ := List.nodup_append.mp hnodup
    rw [List.foldlM_append] at hfold
    obtain ⟨g₁, hfirst, hrest⟩ := Option.bind_eq_some_iff.mp hfold
    rw [List.foldlM_cons] at hrest
    obtain ⟨g₂, hstep, hlast⟩ := Option.bind_eq_some_iff.mp hrest
    have hothers := others_agree before (fun e he hn =>
      hdisjoint n (List.mem_filterMap.mpr ⟨e, he, hn⟩) n List.mem_cons_self rfl) hfirst
    refine (hentry e he hname g₁ g₂ hothers hstep).others (fun e he hn => ?_) hout hlong hlast
    exact (List.nodup_cons.mp hafter).1 (List.mem_filterMap.mpr ⟨e, he, hn⟩)
  · have hothers := others_agree (n := n) es (fun e he hname =>
      hmem (List.mem_filterMap.mpr ⟨e, he, hname⟩)) hfold
    left
    rw [hothers.lookup, hfile]
    rw [List.append_assoc] at hout ⊢
    exact not_others (List.suffix_append r dst) hout

theorem safe_copyDirectory {made : Fs} {w u : Path} (hlong : src.length + 1 < dst.length)
    (hout : ¬dst <:+ w ++ src)
    (hmoves : Reached results made src w → (results.file (w ++ src)).remove = true →
      Whole (results.file (w ++ src)) content ∧ (results.file (w ++ dst)).remove = false)
    (hw : w = u ++ r) (hu : u ≠ []) (hreached : Reached results made src r)
    (hdir : g.lookup (r ++ src) = some .dir) (hfile : g.lookup (w ++ src) = some (.file content))
    (hsame : Same results dst made (makeDir results (r ++ src) (r ++ dst) g) (r ++ src))
    (h : copyDirectory results move fuel (r ++ src) (r ++ dst) g = some g') :
    Safe results src dst w content g' := by
  induction fuel generalizing u r g g' with
  | zero => cases h
  | succ fuel ih =>
      rcases u.eq_nil_or_concat with rfl | ⟨u, n, rfl⟩
      · exact absurd rfl hu
      rw [List.concat_eq_append, ← List.append_cons] at hw
      subst hw
      have hin : dst <:+ r ++ dst := List.suffix_append r dst
      have houtn : ¬dst <:+ n :: r ++ src := by
        intro hbelow
        rw [List.append_assoc] at hout
        exact hout (hbelow.trans (List.suffix_append u _))
      have houtdir : ¬dst <:+ r ++ src := fun hbelow => houtn (hbelow.trans (List.suffix_cons n _))
      have hplace : ∀ q, ¬dst <:+ q → q ≠ r ++ dst := fun q hq heq => hq (heq ▸ hin)
      have hagree := makeDir_agree results (r ++ src) (r ++ dst) g
      have hmade : (makeDir results (r ++ src) (r ++ dst) g).lookup (u ++ n :: r ++ src) =
          some (.file content) := by rw [hagree.lookup _ (hplace _ hout), hfile]
      have hmadedir : made.lookup (r ++ src) = some .dir := by
        rw [← hdir, ← hagree.lookup _ (hplace _ houtdir)]
        exact (hsame.lookup [] houtdir).symm
      have hchildren : delivered results g (r ++ src) = delivered results made (r ++ src) := by
        refine (delivered_makeDir fun k heq => ?_).symm.trans (hsame.delivered [] houtdir)
        have hlength := congrArg List.length heq
        simp only [List.length_append, List.length_cons] at hlength
        omega
      have hnodup : (delivered results g (r ++ src)).Nodup :=
        (nodup_names g (r ++ src)).sublist (delivered_sublist results g (r ++ src))
      obtain ⟨g₁, hfold, rfl⟩ := copyDirectory_cases h
      refine (safe_entries hnodup hout (by omega) hmade ?_ hfold).removed (by omega)
      intro e he hname g₂ g₃ hothers hstep
      have hentry : n ∈ delivered results made (r ++ src) :=
        hchildren ▸ List.mem_filterMap.mpr ⟨e, he, hname⟩
      have hsame₂ := (hsame.child n).trans (same_of_others hin hothers)
      have hfile₂ : g₂.lookup (u ++ n :: r ++ src) = some (.file content) := by
        rw [hothers.lookup, hmade]
        rw [List.append_assoc] at hout ⊢
        exact not_others hin hout
      have hisdir : e.isdir = decide (g₂.lookup (n :: r ++ src) = some .dir) := by
        rw [hothers.lookup, hagree.lookup _ (hplace _ houtn)]
        · exact (mem_readEntries he hname).2
        · exact @not_others dst (r ++ src) (r ++ dst) n hin [] houtn
      refine safe_entry hout ?_ ?_ hfile₂ hname hisdir hstep
      · intro hu g' hdir₂ hcopied
        exact ih rfl hu ⟨hreached, hmadedir, hentry⟩ hdir₂ hfile₂
          (hsame₂.trans (same_makeDir results hin n g₂ _ _)) hcopied
      · rintro rfl
        exact hmoves ⟨hreached, hmadedir, hentry⟩

end Moved

section Enters

variable (hclosed : Closed fs) (hdst : dst ∉ fs) (h : Enters results dst fs src dst)

include hclosed hdst h

theorem exists_spine : ∃ t, dst = t ++ src ∧ Spine fs src t := by
  obtain ⟨n, hn, r, rfl, hreached⟩ := h
  have hmem := mem_of_delivered hn
  have hfree : ∀ u, fs.lookup (u ++ (r ++ n :: src)) = none := by
    intro u
    have hdir : fs.lookup (r ++ n :: src) ≠ some .dir := fun hdir => hdst (mem_of_lookup hdir)
    refine AList.lookup_eq_none.mpr fun hin => ?_
    rcases eq_or_ne (u ++ (r ++ n :: src)) (r ++ n :: src) with heq | hne
    · exact hdst (heq ▸ hin)
    · exact hclosed.not_mem_below hdir (List.suffix_append u _) hne hin
  rcases eq_or_ne r [] with rfl | hr
  · exact absurd hmem hdst
  have hpos := List.length_pos_iff.mpr hr
  refine ⟨r ++ [n], List.append_cons r n src, ?_, ?_, ?_⟩
  · rw [List.length_append, List.length_singleton]
    omega
  · intro u v hu hv
    rcases v.eq_nil_or_concat with rfl | ⟨v, m, rfl⟩
    · exact hclosed.parent n src hmem
    · rw [List.concat_eq_append] at hv ⊢
      rw [← List.append_assoc] at hv
      obtain ⟨rfl, heq⟩ := List.append_inj' hv rfl
      obtain rfl : n = m := (List.cons.inj heq).1
      rw [← List.append_cons, ← hreached.dir hu, (makeDir_agree results src _ fs).lookup]
      intro heq
      rw [List.append_assoc] at heq
      exact hu (List.append_left_eq_self.mp heq.symm)
  · rwa [← List.append_cons]

/-- From a destination to which the recursion comes no call for a directory lets it return. -/
theorem not_returns_of_dirsSucceed (hsucceed : DirsSucceed results) :
    ¬Returns results move src dst fs fs' := by
  obtain ⟨t, rfl, hspine⟩ := exists_spine hclosed hdst h
  rintro ⟨fuel, hreturns⟩
  have hlong := hspine.long
  have hdir : fs.lookup src = some .dir :=
    hspine.dirs t [] (List.ne_nil_of_length_pos (by omega)) (by simp)
  rw [copy, if_pos hdir, never_returns hsucceed hspine] at hreturns
  cases hreturns

theorem safe_of_movesWhole (hmoves : MovesWhole results fs src dst)
    (hreturns : Returns results move src dst fs fs') {w : Path}
    (hfile : fs.lookup (w ++ src) = some (.file content)) :
    Safe results src dst w content fs' := by
  obtain ⟨t, rfl, hspine⟩ := exists_spine hclosed hdst h
  have hlong := hspine.long
  obtain ⟨fuel, hreturns⟩ := hreturns
  have hdir : fs.lookup src = some .dir :=
    hspine.dirs t [] (List.ne_nil_of_length_pos (by omega)) (by simp)
  have hw : w ≠ [] := by
    rintro rfl
    cases hdir.symm.trans hfile
  have hout : ¬t ++ src <:+ w ++ src := by
    rintro ⟨u, hu⟩
    have hfree := hspine.free u
    rw [hu, hfile] at hfree
    cases hfree
  rw [copy, if_pos hdir] at hreturns
  refine @safe_copyDirectory results move fs fs' src (t ++ src) [] content fuel
    (makeDir results src (t ++ src) fs) w w ?_ hout (hmoves w content hfile) (by simp) hw trivial
    hdir hfile ⟨fun _ _ => rfl, fun _ _ => rfl⟩ hreturns
  rw [List.length_append]
  omega

end Enters

end PsplinkUsb.Psplink.CopyInside
