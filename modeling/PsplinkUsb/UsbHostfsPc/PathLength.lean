import PsplinkUsb.UsbHostfsPc.PathConfinement

namespace PsplinkUsb.UsbHostfsPc.PathLength

open PsplinkUsb.Library.Tokens
open PsplinkUsb.UsbHostfsPc.HostPath
open PsplinkUsb.UsbHostfsPc.PathConfinement

/-- What `gen_path` makes of the path fits with its NUL into `PATH_MAX` bytes, and so does what
`make_nocase` makes of that. -/
structure GenPathFits (path : Path) (dir : Bool) : Prop where
  genPath : (genPath path dir).length + 1 ≤ pathMax
  makeNocase : ∀ readNames rootdir,
    (makeNocase readNames rootdir (HostPath.genPath path dir) dir).length + 1 ≤ pathMax

/-- A component is left out, or an empty one, or the path leaves room for the separators
that `gen_path` adds. -/
def RoomLeft (path : Path) (dir : Bool) : Prop :=
  (∃ c ∈ path.splitOn slash, c = dot ∨ c = dotdot) ∨
    maxTokens ≤ ((path.splitOn slash).filter fun c => c ≠ []).length ∨
    path.length + dir.toNat + 1 < pathMax + (path.splitOn slash).count []

variable {outtokens ts names cs : List Path} {token path : Path} {dir : Bool}

theorem weight_dropLast_le (ts : List Path) : weight ts.dropLast ≤ weight ts := by
  induction ts with
  | nil => exact Nat.le_refl _
  | cons t ts ih =>
      cases ts with
      | nil => exact Nat.zero_le _
      | cons u ts =>
          rw [List.dropLast_cons_cons, weight_cons, weight_cons]
          exact Nat.add_le_add_left ih _

theorem weight_pushToken_le (outtokens : List Path) (token : Path) :
    weight (pushToken outtokens token) ≤ weight outtokens + (token.length + 1) := by
  rw [pushToken]
  split
  · exact Nat.le_add_right _ _
  · split
    · exact Nat.le_trans (weight_dropLast_le outtokens) (Nat.le_add_right _ _)
    · simp

theorem weight_pushToken_of_dots (htoken : token = dot ∨ token = dotdot) :
    weight (pushToken outtokens token) ≤ weight outtokens := by
  rw [pushToken]
  rcases htoken with rfl | rfl
  · exact Nat.le_of_eq (congrArg weight (if_pos rfl))
  · rw [if_neg (by decide), if_pos rfl]
    exact weight_dropLast_le outtokens

theorem weight_foldl_le (outtokens ts : List Path) :
    weight (ts.foldl pushToken outtokens) ≤ weight outtokens + weight ts := by
  induction ts generalizing outtokens with
  | nil => exact Nat.le_refl _
  | cons t ts ih =>
      have hpush := weight_pushToken_le outtokens t
      have hrest := ih (pushToken outtokens t)
      rw [List.foldl_cons, weight_cons]
      omega

theorem weight_foldl_of_dots (hdots : ∃ t ∈ ts, t = dot ∨ t = dotdot) :
    weight (ts.foldl pushToken outtokens) + 2 ≤ weight outtokens + weight ts := by
  induction ts generalizing outtokens with
  | nil => simp at hdots
  | cons t ts ih =>
      rw [List.foldl_cons, weight_cons]
      obtain ⟨d, hd, hdot⟩ := hdots
      rcases List.mem_cons.mp hd with rfl | hd
      · have hpush := @weight_pushToken_of_dots outtokens d hdot
        have hrest := weight_foldl_le (pushToken outtokens d) ts
        have hlength : 1 ≤ d.length := by
          rcases hdot with rfl | rfl
          · exact Nat.le_refl _
          · exact Nat.le_succ _
        omega
      · have hpush := weight_pushToken_le outtokens t
        have hrest := @ih (pushToken outtokens t) ⟨d, hd, hdot⟩
        omega

theorem length_genPath (path : Path) (dir : Bool) :
    (genPath path dir).length = weight ((pathTokens path).foldl pushToken []) +
      if dir ∨ (pathTokens path).foldl pushToken [] = [] then 1 else 0 := by
  by_cases hnil : (pathTokens path).foldl pushToken [] = []
  · simp [genPath, hnil, joined]
  · have hjoined := @length_joined _ slash _ dir hnil
    cases dir with
    | false =>
        simp only [genPath, List.length_cons, hnil]
        simpa using hjoined
    | true =>
        simp only [genPath, List.length_cons]
        simpa using hjoined

theorem weight_pathTokens (path : Path) :
    weight (pathTokens path) + (if maxTokens ≤ (tokens slash path).length then 2 else 0) ≤
      weight (tokens slash path) := by
  have happend := weight_append (pathTokens path) ((tokens slash path).drop (maxTokens - 1))
  rw [pathTokens, List.take_append_drop] at happend
  rw [happend, pathTokens]
  split
  · rename_i hmany
    obtain ⟨t, rest, hdrop⟩ := List.exists_cons_of_ne_nil
      (show (tokens slash path).drop (maxTokens - 1) ≠ [] by
        rw [ne_eq, List.drop_eq_nil_iff]
        simp only [maxTokens] at hmany ⊢
        omega)
    have ht : t ∈ tokens slash path :=
      List.mem_of_mem_drop (hdrop ▸ List.mem_cons_self ..)
    have hlength := List.length_pos_iff.mpr (mem_tokens ht).1
    rw [hdrop, weight_cons]
    omega
  · omega

theorem weight_eq_of_sameNocase (h : List.Forall₂ sameNocase names cs) :
    weight names = weight cs := by
  induction h with
  | nil => rfl
  | cons hsame _ ih =>
      have hlength := congrArg List.length hsame
      rw [List.length_map, List.length_map] at hlength
      rw [weight_cons, weight_cons, hlength, ih]

theorem length_joined_of_sameNocase (h : List.Forall₂ sameNocase names cs) :
    (joined slash dir names).length = (joined slash dir cs).length := by
  have hweight := weight_eq_of_sameNocase h
  cases h with
  | nil => rfl
  | @cons name c names cs =>
      rw [← @length_joined _ slash (name :: names) dir (List.cons_ne_nil _ _),
        ← @length_joined _ slash (c :: cs) dir (List.cons_ne_nil _ _)] at hweight
      exact Nat.add_right_cancel hweight

theorem length_makeNocase (readNames : Path → Option (List Path)) (rootdir path : Path)
    (dir : Bool) :
    (makeNocase readNames rootdir (genPath path dir) dir).length =
      (genPath path dir).length := by
  obtain ⟨cs, hcs⟩ := genPath_normal path dir
  obtain ⟨names, hsame, hnames⟩ := @makeNocase_names _ _ _ readNames rootdir hcs
  rw [hnames.1, hcs.1, List.length_cons, List.length_cons, length_joined_of_sameNocase hsame]

theorem genPathFits_iff_length :
    GenPathFits path dir ↔ (genPath path dir).length < pathMax := by
  constructor
  · exact GenPathFits.genPath
  · intro h
    refine ⟨h, fun readNames rootdir => ?_⟩
    rw [length_makeNocase]
    exact h

theorem length_genPath_le (hless : weight ((pathTokens path).foldl pushToken []) + 2 ≤
    weight (tokens slash path)) :
    (genPath path dir).length ≤ path.length := by
  have htokens := @weight_tokens _ _ slash path
  have hlength := length_genPath path dir
  split at hlength
  · omega
  · omega

theorem length_genPath_of_head (hhead : path.head? = some slash) :
    (genPath path false).length ≤ path.length := by
  obtain ⟨rest, rfl⟩ := List.head?_eq_some_iff.mp hhead
  have htokens := @weight_tokens _ _ slash (slash :: rest)
  have hfirst := weight_pathTokens (slash :: rest)
  have hfold := weight_foldl_le [] (pathTokens (slash :: rest))
  have hempty : 0 < ((slash :: rest).splitOn slash).count [] := by
    rw [List.splitOn_cons_eq_if_modifyHead, if_pos (beq_self_eq_true slash),
      List.count_cons_self]
    exact Nat.succ_pos _
  rw [length_genPath]
  rw [weight_nil] at hfold
  split
  · rename_i hnil
    rw [hnil.resolve_left Bool.false_ne_true, weight_nil, List.length_cons]
    omega
  · omega

theorem length_le_of_many (hmany : maxTokens ≤ (tokens slash path).length) :
    (genPath path dir).length ≤ path.length := by
  apply length_genPath_le
  have hfirst := weight_pathTokens path
  have hfold := weight_foldl_le [] (pathTokens path)
  rw [if_pos hmany] at hfirst
  rw [weight_nil] at hfold
  omega

theorem pathTokens_of_few (hfew : (tokens slash path).length < maxTokens) :
    pathTokens path = tokens slash path :=
  List.take_of_length_le (Nat.le_sub_one_of_lt hfew)

theorem length_le_of_dots (hfew : (tokens slash path).length < maxTokens)
    (hdots : ∃ c ∈ path.splitOn slash, c = dot ∨ c = dotdot) :
    (genPath path dir).length ≤ path.length := by
  apply length_genPath_le
  rw [pathTokens_of_few hfew]
  obtain ⟨c, hc, hdot⟩ := hdots
  have hne : c ≠ [] := by
    rcases hdot with rfl | rfl
    · exact List.cons_ne_nil _ _
    · exact List.cons_ne_nil _ _
  have hmem : c ∈ tokens slash path := List.mem_filter.mpr ⟨hc, decide_eq_true hne⟩
  have hless := @weight_foldl_of_dots [] (tokens slash path) ⟨c, hmem, hdot⟩
  rwa [weight_nil, Nat.zero_add] at hless

/-- Where no component is left out, the separators that are added have to fit. -/
theorem length_lt_iff_of_kept (hfew : (tokens slash path).length < maxTokens)
    (hdots : ¬∃ c ∈ path.splitOn slash, c = dot ∨ c = dotdot) :
    (genPath path dir).length < pathMax ↔
      path.length + dir.toNat + 1 < pathMax + (path.splitOn slash).count [] := by
  have hkept : (tokens slash path).foldl pushToken [] = tokens slash path := by
    apply foldl_pushToken_of_names
    intro t ht
    have hnot : ¬(t = dot ∨ t = dotdot) := fun h => hdots ⟨t, (List.mem_filter.mp ht).1, h⟩
    exact not_or.mp hnot
  have htokens := @weight_tokens _ _ slash path
  have hdir : dir.toNat ≤ 1 := Bool.toNat_le dir
  rw [length_genPath, pathTokens_of_few hfew, hkept]
  rcases em (tokens slash path = []) with hnil | hnil
  · rw [hnil, weight_nil] at htokens
    rw [hnil, weight_nil, if_pos (.inr rfl)]
    simp only [pathMax]
    omega
  · cases dir with
    | false =>
        rw [if_neg (by simp [hnil]), Bool.toNat_false]
        omega
    | true =>
        rw [if_pos (.inl rfl), Bool.toNat_true]
        omega

/-- `gen_path` stays in its buffer exactly where the path leaves room. -/
theorem genPath_fits_iff (path : Path) (dir : Bool) (hlength : path.length < pathMax) :
    GenPathFits path dir ↔ RoomLeft path dir := by
  rw [genPathFits_iff_length]
  rcases Nat.lt_or_ge (tokens slash path).length maxTokens with hfew | hmany
  · rcases em (∃ c ∈ path.splitOn slash, c = dot ∨ c = dotdot) with hdots | hdots
    · exact ⟨fun _ => .inl hdots, fun _ =>
        Nat.lt_of_le_of_lt (length_le_of_dots hfew hdots) hlength⟩
    · rw [length_lt_iff_of_kept hfew hdots]
      constructor
      · exact fun h => .inr (.inr h)
      · rintro (h | h | h)
        · exact absurd h hdots
        · exact absurd h (Nat.not_le.mpr hfew)
        · exact h
  · exact ⟨fun _ => .inr (.inl hmany), fun _ =>
      Nat.lt_of_le_of_lt (length_le_of_many hmany) hlength⟩

/-- `/sub` with a closing separator fits. -/
theorem genPath_fits_sub :
    let path : Path := [47, 115, 117, 98]
    path.length < pathMax ∧ (GenPathFits path true ↔ RoomLeft path true) :=
  ⟨by decide, genPath_fits_iff _ true (by decide)⟩

/-- A separator and one name, as long as the buffer allows. -/
def fullPath : Path := slash :: List.replicate 4094 120

/-- `dopen` of a name that fills the buffer: the separator that `gen_path` puts behind it and
the NUL are two bytes too many. -/
theorem genPath_overflows : fullPath.length < pathMax ∧ ¬GenPathFits fullPath true := by
  rw [genPathFits_iff_length]
  constructor
  · decide +kernel
  · decide +kernel

end PsplinkUsb.UsbHostfsPc.PathLength
