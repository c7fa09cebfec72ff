import PsplinkUsb.Library.FileTree
import PsplinkUsb.UsbHostfsPc.PathResolution

namespace PsplinkUsb.UsbHostfsPc.NocasePaths

open PsplinkUsb.Library.FileTree
open PsplinkUsb.Library.Tokens
open PsplinkUsb.UsbHostfsPc.HostPath
open PsplinkUsb.UsbHostfsPc.PathConfinement
open PsplinkUsb.UsbHostfsPc.PathResolution

section Tree

variable {C : Type}

/-- Where components lead from a place, through directories only. -/
def walk (nodes : Nodes Path C) : List Path → List Path → Option (List Path)
  | place, [] => some place
  | place, c :: cs =>
      match nodes.lookup place with
      | some .dir =>
          walk nodes (if c = dot then place else if c = dotdot then place.tail else c :: place) cs
      | _ => none

/-- The names in the directory that components lead to from the root of the tree. -/
def entries (nodes : Nodes Path C) (cs : List Path) : Option (List Path) :=
  match walk nodes [] cs with
  | none => none
  | some place =>
      match nodes.lookup place with
      | some .dir => some (names nodes place)
      | _ => none

def openDir (nodes : Nodes Path C) (path : Path) : Option (List Path) :=
  entries nodes (tokens slash path)

end Tree

/-! ### The best spelling of a name -/

variable {token name : Path} {ns seen : List Path}

/-- The match after a scan is among the names that the scan saw, and none is rated higher. -/
structure Best (token : Path) (seen : List Path) (found : Match) : Prop where
  of_some : ∀ name rating, found = some (name, rating) →
    name ∈ seen ∧ sameNocase name token ∧ rating = calcRating token name
  rated : ∀ name ∈ seen, sameNocase name token →
    ∃ best rating, found = some (best, rating) ∧ calcRating token name ≤ rating

theorem best_considerEntry {found : Match} (h : Best token seen found) (name : Path) :
    Best token (seen ++ [name]) (considerEntry token found name) := by
  have hkept (hle : sameNocase name token → ∃ best rating,
      found = some (best, rating) ∧ calcRating token name ≤ rating) :
      Best token (seen ++ [name]) found := by
    refine ⟨fun n r hn => ?_, fun n hn hsame => ?_⟩
    · obtain ⟨hmem, hrest⟩ := h.of_some n r hn
      exact ⟨List.mem_append_left _ hmem, hrest⟩
    · rcases List.mem_append.mp hn with hn | hn
      · exact h.rated n hn hsame
      · obtain rfl := List.mem_singleton.mp hn
        exact hle hsame
  have htaken (hsame : sameNocase name token) (hlt : ∀ best rating,
      found = some (best, rating) → rating < calcRating token name) :
      Best token (seen ++ [name]) (some (name, calcRating token name)) := by
    refine ⟨fun n r hn => ?_, fun n hn hn' => ⟨name, _, rfl, ?_⟩⟩
    · obtain ⟨rfl, rfl⟩ := Prod.mk.inj (Option.some.inj hn)
      exact ⟨List.mem_append_right _ (List.mem_singleton.mpr rfl), hsame, rfl⟩
    · rcases List.mem_append.mp hn with hn | hn
      · obtain ⟨best, rating, hfound, hle⟩ := h.rated n hn hn'
        exact Nat.le_trans hle (Nat.le_of_lt (hlt best rating hfound))
      · rw [List.mem_singleton.mp hn]
  rw [considerEntry]
  split
  · rename_i hsame
    cases found with
    | none =>
        apply htaken hsame
        intro best rating hnone
        cases hnone
    | some found =>
        obtain ⟨best, rating⟩ := found
        dsimp only
        split
        · rename_i hlt
          apply htaken hsame
          intro best' rating' heq
          obtain ⟨-, rfl⟩ := Prod.mk.inj (Option.some.inj heq)
          exact hlt
        · rename_i hle
          exact hkept fun _ => ⟨best, rating, rfl, Nat.not_lt.mp hle⟩
  · rename_i hother
    exact hkept fun hsame => absurd hsame hother

theorem best_foldl (token : Path) (ns : List Path) :
    Best token ns (ns.foldl (considerEntry token) none) := by
  have hfold (ns seen : List Path) {found : Match} (h : Best token seen found) :
      Best token (seen ++ ns) (ns.foldl (considerEntry token) found) := by
    induction ns generalizing seen found with
    | nil => rwa [List.append_nil]
    | cons n ns ih =>
        rw [List.append_cons]
        exact ih (seen ++ [n]) (best_considerEntry h n)
  apply hfold ns []
  constructor
  · intro name rating h
    cases h
  · intro name h
    cases h

/-- What the scan of a directory leaves in `match`. -/
def pick (token : Path) (ns : List Path) : Option Path :=
  (ns.foldl (considerEntry token) none).map Prod.fst

theorem mem_of_pick (h : pick token ns = some name) : name ∈ ns ∧ sameNocase name token := by
  obtain ⟨⟨n, rating⟩, hfound, rfl⟩ := Option.map_eq_some_iff.mp h
  obtain ⟨hmem, hsame, -⟩ := (best_foldl token ns).of_some n rating hfound
  exact ⟨hmem, hsame⟩

theorem exists_pick (hname : name ∈ ns) (hsame : sameNocase name token) :
    ∃ best, pick token ns = some best := by
  obtain ⟨best, rating, hfound, -⟩ := (best_foldl token ns).rated name hname hsame
  exact ⟨best, by rw [pick, hfound]; rfl⟩

theorem calcRating_self (token : Path) : calcRating token token = token.length := by
  induction token with
  | nil => rfl
  | cons c token ih =>
      rw [calcRating, if_pos rfl, ih, List.length_cons, Nat.add_comm]

theorem calcRating_le (token name : Path) : calcRating token name ≤ token.length := by
  induction token generalizing name with
  | nil => exact Nat.le_refl _
  | cons c token ih =>
      cases name with
      | nil => exact Nat.zero_le _
      | cons d name =>
          have htail := ih name
          rw [calcRating, List.length_cons]
          split
          · omega
          · omega

theorem eq_of_calcRating (hsame : sameNocase name token)
    (hrating : calcRating token name = token.length) : name = token := by
  induction token generalizing name with
  | nil => simpa [sameNocase] using hsame
  | cons c token ih =>
      cases name with
      | nil => simp [sameNocase] at hsame
      | cons d name =>
          have htail := (List.cons.inj hsame).2
          have hle := calcRating_le token name
          rw [calcRating, List.length_cons] at hrating
          split at hrating
          · rename_i hcd
            rw [hcd, ih htail (by omega)]
          · omega

theorem pick_self (h : token ∈ ns) : pick token ns = some token := by
  obtain ⟨best, rating, hfound, hle⟩ := (best_foldl token ns).rated token h rfl
  obtain ⟨-, hsame, rfl⟩ := (best_foldl token ns).of_some best rating hfound
  rw [calcRating_self] at hle
  rw [pick, hfound, Option.map_some,
    eq_of_calcRating hsame (Nat.le_antisymm (calcRating_le token best) hle)]

/-! ### The loop on components -/

/-- The loop of `make_nocase` on components, with what it finds below the components before. -/
def rewriteWith (find : List Path → Path → Option Path) : List Path → List Path →
    Option (List Path)
  | _, [] => some []
  | before, token :: rest =>
      match find before token with
      | some name => (rewriteWith find (before ++ [name]) rest).map (name :: ·)
      | none => if rest ≠ [] then none else some [token]

/-- What `find_nocase` finds below the root and components before. -/
def findBelow (readNames : Path → Option (List Path)) (rootdir : Path) (before : List Path)
    (token : Path) : Option Path :=
  findNocase readNames rootdir (slash :: joined slash true before) token

variable {readNames : Path → Option (List Path)} {rootdir path : Path} {dir : Bool}
  {before ts cs : List Path}

theorem joined_concat (before : List Path) (name : Path) :
    joined slash true (before ++ [name]) = joined slash true before ++ name ++ [slash] := by
  induction before with
  | nil => rfl
  | cons c before ih =>
      cases before with
      | nil => simp [joined]
      | cons d before =>
          rw [List.cons_append, List.cons_append, joined, ← List.cons_append, ih, joined]
          simp

theorem rewriteWith_ne_nil {find : List Path → Path → Option Path} {names : List Path}
    (hts : ts ≠ []) (h : rewriteWith find before ts = some names) : names ≠ [] := by
  cases ts with
  | nil => exact absurd rfl hts
  | cons t ts =>
      rw [rewriteWith] at h
      split at h
      · obtain ⟨rest, -, rfl⟩ := Option.map_eq_some_iff.mp h
        exact List.cons_ne_nil _ _
      · split at h
        · cases h
        · obtain rfl := Option.some.inj h
          exact List.cons_ne_nil _ _

theorem joined_cons {names : List Path} (hnames : names ≠ []) :
    joined slash dir (name :: names) = name ++ slash :: joined slash dir names := by
  cases names with
  | nil => exact absurd rfl hnames
  | cons n names => rw [joined]

theorem joined_singleton (name : Path) (dir : Bool) :
    joined slash dir [name] = name ++ if dir then [slash] else [] := by
  cases dir with
  | false => simp [joined]
  | true => simp [joined]

theorem nocaseLoop_eq (readNames : Path → Option (List Path)) (rootdir : Path) (dir : Bool)
    (before ts : List Path) :
    nocaseLoop readNames rootdir dir (slash :: joined slash true before) ts =
      (rewriteWith (findBelow readNames rootdir) before ts).map fun names =>
        slash :: joined slash true before ++ joined slash dir names := by
  induction ts generalizing before with
  | nil => simp [nocaseLoop, rewriteWith, joined]
  | cons t ts ih =>
      have hnext (name : Path) :
          nocaseLoop readNames rootdir dir (slash :: joined slash true before ++ name ++
            if dir ∨ ts ≠ [] then [slash] else []) ts =
          (rewriteWith (findBelow readNames rootdir) (before ++ [name]) ts).map fun names =>
            slash :: joined slash true before ++ joined slash dir (name :: names) := by
        cases ts with
        | nil =>
            rw [nocaseLoop, rewriteWith, Option.map_some, joined_singleton, List.append_assoc]
            simp
        | cons u us =>
            rw [if_pos (.inr (List.cons_ne_nil _ _)), List.cons_append, List.cons_append,
              ← joined_concat, ih]
            apply Option.map_congr
            intro names hnames
            rw [joined_cons (rewriteWith_ne_nil (List.cons_ne_nil _ _) hnames), joined_concat]
            simp
      rw [nocaseLoop, rewriteWith, findBelow]
      cases findNocase readNames rootdir (slash :: joined slash true before) t with
      | some name =>
          dsimp only
          rw [hnext, Option.map_map]
          rfl
      | none =>
          dsimp only
          split
          · rfl
          · rename_i hlast
            obtain rfl := Decidable.not_not.mp hlast
            rw [hnext, rewriteWith]
            rfl

theorem makeNocase_eq (readNames : Path → Option (List Path)) (rootdir : Path)
    (h : Normal dir cs path) :
    makeNocase readNames rootdir path dir =
      slash :: joined slash dir
        ((rewriteWith (findBelow readNames rootdir) [] cs).getD cs) := by
  have hloop := nocaseLoop_eq readNames rootdir dir [] cs
  rw [show slash :: joined slash true [] = [slash] from rfl] at hloop
  rw [makeNocase, h.pathTokens_eq, hloop]
  cases rewriteWith (findBelow readNames rootdir) [] cs with
  | none => exact h.1
  | some names => rfl

/-! ### In the directories -/

/-- A directory that components lead to has an entry of this name. -/
def IsEntry (entriesAt : List Path → Option (List Path)) (place : List Path) (name : Path) :
    Prop :=
  ∃ ns, entriesAt place = some ns ∧ name ∈ ns

def HasSpelling (entriesAt : List Path → Option (List Path)) (place : List Path)
    (c : Path) : Prop :=
  ∃ name, IsEntry entriesAt place name ∧ sameNocase name c

/-- The best spelling of a name in a directory, or the name. -/
def choice (entriesAt : List Path → Option (List Path)) (place : List Path)
    (token : Path) : Path :=
  ((entriesAt place).bind (pick token)).getD token

/-- The chain of the best spellings. -/
def chosen (entriesAt : List Path → Option (List Path)) : List Path → List Path → List Path
  | _, [] => []
  | place, token :: rest =>
      choice entriesAt place token ::
        chosen entriesAt (place ++ [choice entriesAt place token]) rest

variable {entriesAt : List Path → Option (List Path)} {place names after : List Path} {c : Path}

theorem bind_pick_some (h : (entriesAt place).bind (pick token) = some name) :
    IsEntry entriesAt place name ∧ sameNocase name token := by
  obtain ⟨ns, hns, hpick⟩ := Option.bind_eq_some_iff.mp h
  obtain ⟨hmem, hsame⟩ := mem_of_pick hpick
  exact ⟨⟨ns, hns, hmem⟩, hsame⟩

theorem bind_pick_self (h : IsEntry entriesAt place token) :
    (entriesAt place).bind (pick token) = some token := by
  obtain ⟨ns, hns, hmem⟩ := h
  rw [hns, Option.bind_some, pick_self hmem]

theorem sameNocase_choice (entriesAt : List Path → Option (List Path)) (place : List Path)
    (token : Path) : sameNocase (choice entriesAt place token) token := by
  rw [choice]
  cases h : (entriesAt place).bind (pick token) with
  | none => rfl
  | some name => exact (bind_pick_some h).2

theorem bind_pick_of_hasSpelling (h : HasSpelling entriesAt place token) :
    (entriesAt place).bind (pick token) = some (choice entriesAt place token) ∧
      IsEntry entriesAt place (choice entriesAt place token) := by
  obtain ⟨name, ⟨ns, hns, hmem⟩, hsame⟩ := h
  obtain ⟨best, hbest⟩ := exists_pick hmem hsame
  have hbind : (entriesAt place).bind (pick token) = some best := by
    rw [hns, Option.bind_some, hbest]
  rw [choice, hbind]
  exact ⟨rfl, (bind_pick_some hbind).1⟩

theorem hasSpelling_congr (hsame : sameNocase c token) :
    HasSpelling entriesAt place c ↔ HasSpelling entriesAt place token := by
  constructor
  · rintro ⟨name, hname, hc⟩
    exact ⟨name, hname, hc.trans hsame⟩
  · rintro ⟨name, hname, htoken⟩
    exact ⟨name, hname, htoken.trans hsame.symm⟩

theorem exists_closed (before : List Path) :
    ∃ text, slash :: joined slash true before = text ++ [slash] := by
  rcases List.eq_nil_or_concat before with rfl | ⟨before, name, rfl⟩
  · exact ⟨[], rfl⟩
  · exact ⟨slash :: joined slash true before ++ name, by
      rw [List.concat_eq_append, joined_concat]
      rfl⟩

theorem tokens_take (before : List Path) (hfit : ¬pathMax <
    (rootdir ++ slash :: joined slash true before).length) :
    tokens slash ((rootdir ++ slash :: joined slash true before).take (pathMax - 1)) =
      tokens slash (rootdir ++ slash :: joined slash true before) := by
  rcases Nat.lt_or_ge (rootdir ++ slash :: joined slash true before).length pathMax with
    hshort | hfull
  · rw [List.take_of_length_le (Nat.le_sub_one_of_lt hshort)]
  · obtain ⟨text, htext⟩ := exists_closed before
    rw [htext, ← List.append_assoc] at hfit hfull ⊢
    have hlength : pathMax - 1 = (rootdir ++ text).length := by
      simp only [List.length_append, List.length_singleton] at hfit hfull ⊢
      omega
    rw [hlength, List.take_left, tokens_append_sep]
    exact (List.append_nil _).symm

theorem findBelow_eq (hbefore : ∀ c ∈ before, Plain c) (token : Path) :
    findBelow (fun path => entriesAt (tokens slash path)) rootdir before token =
      if pathMax < (rootdir ++ slash :: joined slash true before).length then none
      else (entriesAt (tokens slash rootdir ++ before)).bind (pick token) := by
  rw [findBelow, findNocase]
  split
  · rfl
  · rename_i hfit
    rw [tokens_take before hfit, tokens_append_sep, tokens_joined_of_plain hbefore]
    cases entriesAt (tokens slash rootdir ++ before) with
    | none => rfl
    | some ns => rfl

/-- What `find_nocase` finds where the entries of the directories are these. -/
def findIn (entriesAt : List Path → Option (List Path)) (rootdir : Path) :
    List Path → Path → Option Path :=
  findBelow (fun path => entriesAt (tokens slash path)) rootdir

theorem findIn_some (hbefore : ∀ c ∈ before, Plain c)
    (h : findIn entriesAt rootdir before token = some name) :
    IsEntry entriesAt (tokens slash rootdir ++ before) name ∧ sameNocase name token := by
  rw [findIn, findBelow_eq hbefore] at h
  split at h
  · cases h
  · exact bind_pick_some h

theorem findIn_self (hbefore : ∀ c ∈ before, Plain c)
    (htoken : IsEntry entriesAt (tokens slash rootdir ++ before) token)
    (h : findIn entriesAt rootdir before token = some name) : name = token := by
  rw [findIn, findBelow_eq hbefore] at h
  split at h
  · cases h
  · rw [bind_pick_self htoken] at h
    exact (Option.some.inj h).symm

theorem plain_concat (hbefore : ∀ c ∈ before, Plain c) (hname : Plain name) :
    ∀ c ∈ before ++ [name], Plain c := by
  intro c hc
  rcases List.mem_append.mp hc with hc | hc
  · exact hbefore c hc
  · exact List.mem_singleton.mp hc ▸ hname

theorem rewriteWith_sameNocase (hbefore : ∀ c ∈ before, Plain c) (hts : ∀ t ∈ ts, Plain t)
    (h : rewriteWith (findIn entriesAt rootdir) before ts = some names) :
    List.Forall₂ sameNocase names ts := by
  induction ts generalizing before names with
  | nil =>
      obtain rfl := Option.some.inj h
      exact .nil
  | cons t ts ih =>
      obtain ⟨ht, hplain⟩ := List.forall_mem_cons.mp hts
      rw [rewriteWith] at h
      split at h
      · rename_i name hfound
        obtain ⟨rest, hrest, rfl⟩ := Option.map_eq_some_iff.mp h
        have hsame := (findIn_some hbefore hfound).2
        exact .cons hsame (ih (plain_concat hbefore (plain_of_sameNocase ht hsame)) hplain hrest)
      · split at h
        · cases h
        · rename_i hlast
          obtain rfl := Option.some.inj h
          rw [Decidable.not_not.mp hlast]
          exact .cons rfl .nil

/-- A path that is rewritten has entries for components, but for a last one as it was. -/
theorem rewriteWith_entries (hbefore : ∀ c ∈ before, Plain c) (hts : ∀ t ∈ ts, Plain t)
    (h : rewriteWith (findIn entriesAt rootdir) before ts = some names) {left : List Path}
    (hsplit : names = left ++ c :: after) (hc : after ≠ [] ∨ ts[left.length]? ≠ some c) :
    IsEntry entriesAt (tokens slash rootdir ++ (before ++ left)) c := by
  induction ts generalizing before names left with
  | nil =>
      obtain rfl := Option.some.inj h
      simp at hsplit
  | cons t ts ih =>
      obtain ⟨ht, hplain⟩ := List.forall_mem_cons.mp hts
      rw [rewriteWith] at h
      split at h
      · rename_i name hfound
        obtain ⟨rest, hrest, rfl⟩ := Option.map_eq_some_iff.mp h
        obtain ⟨hentry, hsame⟩ := findIn_some hbefore hfound
        cases left with
        | nil =>
            obtain ⟨rfl, -⟩ := List.cons.inj hsplit
            rwa [List.append_nil]
        | cons n left =>
            obtain ⟨rfl, hrestSplit⟩ := List.cons.inj hsplit
            have hbelow := ih (plain_concat hbefore (plain_of_sameNocase ht hsame)) hplain hrest
              hrestSplit (by simpa using hc)
            rwa [List.append_assoc, List.singleton_append] at hbelow
      · split at h
        · cases h
        · obtain rfl := Option.some.inj h
          cases left with
          | nil =>
              obtain ⟨rfl, rfl⟩ := List.cons.inj hsplit
              simp at hc
          | cons n left => simp at hsplit

/-- Where the path is spelled as the entries are, so is what it is rewritten to. -/
theorem rewriteWith_exact (hbefore : ∀ c ∈ before, Plain c) (hts : ∀ t ∈ ts, Plain t)
    (hexact : ∀ left c after, ts = left ++ c :: after →
      IsEntry entriesAt (tokens slash rootdir ++ (before ++ left)) c)
    (h : rewriteWith (findIn entriesAt rootdir) before ts = some names) : names = ts := by
  induction ts generalizing before names with
  | nil => exact (Option.some.inj h).symm
  | cons t ts ih =>
      obtain ⟨ht, hplain⟩ := List.forall_mem_cons.mp hts
      have hentry := hexact [] t ts rfl
      rw [List.append_nil] at hentry
      rw [rewriteWith] at h
      split at h
      · rename_i name hfound
        obtain ⟨rest, hrest, rfl⟩ := Option.map_eq_some_iff.mp h
        obtain rfl := findIn_self hbefore hentry hfound
        rw [ih (plain_concat hbefore ht) hplain ?_ hrest]
        intro left c after hsplit
        rw [List.append_assoc, List.singleton_append]
        exact hexact (name :: left) c after (by rw [hsplit]; rfl)
      · split at h
        · cases h
        · rename_i hlast
          rw [← Option.some.inj h, Decidable.not_not.mp hlast]

theorem length_closed (before : List Path) :
    (slash :: joined slash true before).length = weight before + 1 := by
  cases before with
  | nil => rfl
  | cons c before =>
      rw [List.length_cons, ← @length_joined _ slash _ true (List.cons_ne_nil c before)]
      rfl

/-- Along the chain of the best spellings the loop finds each component. -/
theorem rewriteWith_chosen (hbefore : ∀ c ∈ before, Plain c) (hts : ∀ t ∈ ts, Plain t)
    (hfit : rootdir.length + weight before + weight ts ≤ pathMax)
    (hspelled : ∀ left c after,
      chosen entriesAt (tokens slash rootdir ++ before) ts = left ++ c :: after →
        after ≠ [] → HasSpelling entriesAt (tokens slash rootdir ++ (before ++ left)) c) :
    rewriteWith (findIn entriesAt rootdir) before ts =
      some (chosen entriesAt (tokens slash rootdir ++ before) ts) := by
  induction ts generalizing before with
  | nil => rfl
  | cons t ts ih =>
      obtain ⟨ht, hplain⟩ := List.forall_mem_cons.mp hts
      rw [weight_cons] at hfit
      have hfind : findIn entriesAt rootdir before t =
          (entriesAt (tokens slash rootdir ++ before)).bind (pick t) := by
        rw [findIn, findBelow_eq hbefore, if_neg]
        rw [List.length_append, length_closed]
        omega
      have hsame := sameNocase_choice entriesAt (tokens slash rootdir ++ before) t
      rw [rewriteWith, hfind]
      cases hpick : (entriesAt (tokens slash rootdir ++ before)).bind (pick t) with
      | some name =>
          have hchoice : choice entriesAt (tokens slash rootdir ++ before) t = name := by
            rw [choice, hpick]
            rfl
          rw [hchoice] at hsame
          have hrest := ih (plain_concat hbefore (plain_of_sameNocase ht hsame)) hplain ?_ ?_
          · simp only [chosen, hchoice]
            rw [hrest, Option.map_some, ← List.append_assoc]
          · have hlength := congrArg List.length hsame
            rw [List.length_map, List.length_map] at hlength
            rw [weight_append, weight_cons, weight_nil, hlength]
            omega
          · intro left c after hsplit hafter
            rw [List.append_assoc before]
            refine hspelled (name :: left) c after ?_ hafter
            rw [chosen, hchoice, List.append_assoc, hsplit]
            rfl
      | none =>
          have hchoice : choice entriesAt (tokens slash rootdir ++ before) t = t := by
            rw [choice, hpick]
            rfl
          cases ts with
          | nil =>
              rw [chosen, hchoice]
              rfl
          | cons u us =>
              have hspelling := hspelled [] _ _ rfl (List.cons_ne_nil _ _)
              rw [List.append_nil, hasSpelling_congr hsame] at hspelling
              rw [(bind_pick_of_hasSpelling hspelling).1] at hpick
              cases hpick

theorem chosen_entries {left : List Path}
    (hsplit : chosen entriesAt place ts = left ++ c :: after)
    (hc : HasSpelling entriesAt (place ++ left) c) : IsEntry entriesAt (place ++ left) c := by
  induction ts generalizing place left with
  | nil => simp [chosen] at hsplit
  | cons t ts ih =>
      cases left with
      | nil =>
          obtain ⟨rfl, -⟩ := List.cons.inj hsplit
          rw [hasSpelling_congr (sameNocase_choice ..), List.append_nil] at hc
          rw [List.append_nil]
          exact (bind_pick_of_hasSpelling hc).2
      | cons n left =>
          obtain ⟨rfl, hrest⟩ := List.cons.inj hsplit
          rw [List.append_cons] at hc ⊢
          exact ih hrest hc

theorem weight_le_length (h : Normal dir cs path) : weight cs ≤ path.length := by
  rw [h.1, List.length_cons]
  cases cs with
  | nil => exact Nat.zero_le _
  | cons c cs =>
      have hlength := @length_joined _ slash _ dir (List.cons_ne_nil c cs)
      split at hlength
      · omega
      · omega

/-- What `make_nocase` leaves has the components that the loop comes to, or the given ones. -/
theorem makeNocase_components (h : Normal dir cs path) :
    let names := (rewriteWith (findIn entriesAt rootdir) [] cs).getD cs
    makeNocase (fun path => entriesAt (tokens slash path)) rootdir path dir =
        slash :: joined slash dir names ∧
      components (makeNocase (fun path => entriesAt (tokens slash path)) rootdir path dir) =
        names ∧
      List.Forall₂ sameNocase names cs := by
  intro names
  have hsame : List.Forall₂ sameNocase names cs := by
    cases hloop : rewriteWith (findIn entriesAt rootdir) [] cs with
    | none =>
        simp only [names, hloop, Option.getD_none]
        exact List.forall₂_same.mpr fun _ _ => rfl
    | some found =>
        simp only [names, hloop, Option.getD_some]
        exact rewriteWith_sameNocase (List.forall_mem_nil _) h.2.1 hloop
  have hret := makeNocase_eq (fun path => entriesAt (tokens slash path)) rootdir h
  refine ⟨hret, ?_, hsame⟩
  rw [hret]
  exact components_joined (plain_of_forall₂ hsame h.2.1)

/-- `make_nocase` changes letters but for case at most, leaves a path that is spelled as the
entries are, and makes a path of which all components but possibly the last name entries, if it
makes another at all. It does where some spelling of these components exists, unless the path
is too long to be looked up below the root. -/
theorem makeNocase_faithful {C : Type} (nodes : Nodes Path C) (rootdir path : Path)
    (dir : Bool) :
    let hostpath := genPath path dir
    let given := components hostpath
    let retpath := makeNocase (openDir nodes) rootdir hostpath dir
    let names := components retpath
    let root := tokens slash rootdir
    (retpath = absolute dir names ∧ List.Forall₂ sameNocase names given) ∧
      ((∀ before c after, given = before ++ c :: after →
        IsEntry (entries nodes) (root ++ before) c) → retpath = hostpath) ∧
      (retpath ≠ hostpath → ∀ before c after, names = before ++ c :: after →
        after ≠ [] ∨ given[before.length]? ≠ some c →
          IsEntry (entries nodes) (root ++ before) c) ∧
      (rootdir.length + hostpath.length ≤ pathMax →
        (∀ before c after, chosen (entries nodes) root given = before ++ c :: after →
          after ≠ [] → HasSpelling (entries nodes) (root ++ before) c) →
        ∀ before c after, names = before ++ c :: after →
          after ≠ [] ∨ HasSpelling (entries nodes) (root ++ before) c →
            IsEntry (entries nodes) (root ++ before) c) := by
  intro hostpath given retpath names root
  obtain ⟨cs, hcs⟩ := genPath_normal path dir
  obtain rfl : given = cs := hcs.components_eq
  have hloop := @makeNocase_components rootdir _ dir _ (entries nodes) hcs
  have hnames : names = (rewriteWith (findIn (entries nodes) rootdir) [] given).getD given :=
    hloop.2.1
  have hretpath : retpath = slash :: joined slash dir names := by
    rw [hnames]
    exact hloop.1
  have hsame : List.Forall₂ sameNocase names given := by
    rw [hnames]
    exact hloop.2.2
  have hunchanged (h : names = given) : retpath = hostpath := by
    rw [hretpath, h]
    exact hcs.1.symm
  have hnil : ∀ c ∈ ([] : List Path), Plain c := List.forall_mem_nil _
  refine ⟨⟨?_, hsame⟩, ?_, ?_, ?_⟩
  · rw [hretpath, absolute, joined_eq]
  · intro hexact
    apply hunchanged
    rw [hnames]
    cases hfound : rewriteWith (findIn (entries nodes) rootdir) [] given with
    | none => rfl
    | some found => exact rewriteWith_exact hnil hcs.2.1 hexact hfound
  · intro hchanged before c after hsplit hc
    cases hfound : rewriteWith (findIn (entries nodes) rootdir) [] given with
    | none =>
        rw [hfound, Option.getD_none] at hnames
        exact absurd (hunchanged hnames) hchanged
    | some found =>
        rw [hfound, Option.getD_some] at hnames
        exact rewriteWith_entries hnil hcs.2.1 hfound (hnames ▸ hsplit) hc
  · intro hfit hspelled before c after hsplit hc
    have hweight : rootdir.length + weight ([] : List Path) + weight given ≤ pathMax :=
      Nat.le_trans (Nat.add_le_add_left (weight_le_length hcs) _) hfit
    have hfound := rewriteWith_chosen hnil hcs.2.1 hweight (by simpa using hspelled)
    rw [hfound, Option.getD_some, List.append_nil] at hnames
    rw [hnames] at hsplit
    apply chosen_entries hsplit
    rcases hc with hafter | hc
    · exact hspelled before c after hsplit hafter
    · exact hc

/-- `/A/c`, `/a/B` and `/a/b`. -/
def spellings : Nodes Path Unit where
  entries := [⟨[], .dir⟩, ⟨[[65]], .dir⟩, ⟨[[99], [65]], .file ()⟩, ⟨[[97]], .dir⟩,
    ⟨[[66], [97]], .file ()⟩, ⟨[[98], [97]], .file ()⟩]
  nodupKeys := by
    rw [List.NodupKeys]
    decide

/-- `/a/b` is left, and `/A/C` is rewritten, but `/A/b` is not taken for `/a/b`. -/
example :
    let rewritten := fun path => makeNocase (openDir spellings) [slash] path false
    rewritten [47, 97, 47, 98] = [47, 97, 47, 98] ∧
      rewritten [47, 65, 47, 67] = [47, 65, 47, 99] ∧
      rewritten [47, 65, 47, 98] = [47, 65, 47, 98] := by
  decide

end PsplinkUsb.UsbHostfsPc.NocasePaths