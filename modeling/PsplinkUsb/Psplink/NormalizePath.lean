import Mathlib.Data.Int.Basic
import Mathlib.Data.List.DropRight
import PsplinkUsb.Library.CheckedBuffer
import PsplinkUsb.Library.LexicalPath
import PsplinkUsb.Library.PathText

namespace PsplinkUsb.Psplink.NormalizePath

open PsplinkUsb.Library.CheckedBuffer
open PsplinkUsb.Library.LexicalPath
open PsplinkUsb.Library.PathText

abbrev Bytes := List UInt8

def slash : UInt8 := 0x2F
def dot : UInt8 := 0x2E

def here : Bytes := [dot]
def up : Bytes := [dot, dot]

/-- The character at a place of the string, or the NUL behind it. -/
def charAt (path : Bytes) (i : ℤ) : Checked UInt8 :=
  if 0 ≤ i then read (path ++ [0]) i.toNat else .error .outside

/-- The place of the first `c` from a place on. -/
def strchrFrom (c : UInt8) (path : Bytes) (i : ℕ) : Option ℕ :=
  let skipped := ((path.drop i).takeWhile (· ≠ c)).length
  if i + skipped < path.length then some (i + skipped) else none

/-- Whether `strncmp` returns 0: strings end with their NUL. -/
def strncmp : Bytes → Bytes → ℕ → Bool
  | _, _, 0 => true
  | [], [], _ + 1 => true
  | a :: s, b :: t, n + 1 => a = b && strncmp s t n
  | _, _, _ + 1 => false

/-- `strcpy` to a place of the string, from another one behind it. -/
def strcpy (path : Bytes) (to' src : ℕ) : Bytes := path.take to' ++ path.drop src

/-- The last slash before a place, or the start. -/
def backToSlash (path : Bytes) (lastPos : ℤ) : Checked ℤ :=
  if lastPos > 0 then do
    let c ← charAt path lastPos
    if c = slash then .ok lastPos else backToSlash path (lastPos - 1)
  else .ok lastPos
termination_by lastPos.toNat

/-- What a round does to the path, and to `curr_pos`. -/
def normalizeStep (path : Bytes) (lastDir : Option ℕ) (currPos : ℕ) : Checked (Bytes × ℕ) :=
  match lastDir with
  | none => .ok (path, currPos)
  | some lastDir =>
      if strncmp (path.drop lastDir) (slash :: here) (currPos - lastDir) then
        .ok (strcpy path lastDir currPos, lastDir)
      else if strncmp (path.drop lastDir) (slash :: up) (currPos - lastDir) then do
        let lastPos ← backToSlash path (lastDir - 1)
        let lastDir := if lastPos > 0 then lastPos.toNat else lastDir
        .ok (strcpy path lastDir currPos, lastDir)
      else .ok (path, currPos)

def normalizeLoop : ℕ → Bytes → Option ℕ → Option ℕ → Checked Bytes
  | 0, _, _, _ => .error .unfinished
  | _ + 1, path, _, none => .ok path
  | rounds + 1, path, lastDir, some currPos => do
      let (path, currPos) ← normalizeStep path lastDir currPos
      normalizeLoop rounds path (some currPos) (strchrFrom slash path (currPos + 1))

/-- What is returned, and the path that is left. -/
def normalizePath (path : Bytes) (rounds : ℕ) : Checked (ℕ × Bytes) :=
  if path.head? = some slash then .ok (0, path)
  else do
    let path ← normalizeLoop rounds path none (strchrFrom slash path 0)
    .ok (1, path)

variable {first c tail rest : Bytes} {kept : List Bytes}

/-- A component is taken in among those that are kept. -/
def take (kept : List Bytes) (c : Bytes) : List Bytes := if c = [] then kept else enter here up kept c

theorem takeWhile_append_slash (hc : slash ∉ c) :
    (c ++ slash :: tail).takeWhile (· ≠ slash) = c := by
  have hskip : ∀ x ∈ c, decide (x ≠ slash) = true := by
    intro x hx
    exact decide_eq_true fun h => hc (h ▸ hx)
  rw [List.takeWhile_append_of_pos hskip, List.takeWhile_cons_of_neg (by simp), List.append_nil]

theorem strchrFrom_append (front tail : Bytes) (hc : slash ∉ c) :
    strchrFrom slash (front ++ (c ++ slash :: tail)) front.length = some (front.length + c.length) := by
  have hinside : front.length + c.length < (front ++ (c ++ slash :: tail)).length := by
    rw [List.length_append, List.length_append, List.length_cons]
    omega
  rw [strchrFrom, List.drop_left, takeWhile_append_slash hc]
  exact if_pos hinside

theorem strchrFrom_none (front : Bytes) (hc : slash ∉ c) :
    strchrFrom slash (front ++ c) front.length = none := by
  have hskip : ∀ x ∈ c, decide (x ≠ slash) = true := by
    intro x hx
    exact decide_eq_true fun h => hc (h ▸ hx)
  rw [strchrFrom, List.drop_left, List.takeWhile_eq_self_iff.mpr hskip, ← List.length_append]
  exact if_neg (Nat.lt_irrefl _)

theorem charAt_append (front : Bytes) (x : UInt8) (rest : Bytes) :
    charAt (front ++ x :: rest) front.length = .ok x := by
  rw [charAt, if_pos (Int.natCast_nonneg _), Int.toNat_natCast, List.append_assoc, List.cons_append,
    read_append]

theorem backToSlash_append (hfirst : first ≠ []) (hc : slash ∉ c) (rest : Bytes) :
    backToSlash (first ++ slash :: (c ++ rest)) (first.length + c.length : ℕ) =
      .ok (first.length : ℤ) := by
  have hpos := List.length_pos_of_ne_nil hfirst
  induction c using List.reverseRecOn generalizing rest with
  | nil =>
      rw [backToSlash, if_pos (by simpa using hpos), List.length_nil, Nat.add_zero, List.nil_append,
        charAt_append, ok_bind, if_pos rfl]
  | append_singleton c x ih =>
      rw [List.mem_append, List.mem_singleton, not_or] at hc
      have hplace : ((first.length + (c ++ [x]).length : ℕ) : ℤ) =
          ((first ++ slash :: c).length : ℕ) := by simp
      have hpath : first ++ slash :: (c ++ [x] ++ rest) = (first ++ slash :: c) ++ x :: rest := by simp
      have hnext : ((first ++ slash :: c).length : ℤ) - 1 = (first.length + c.length : ℕ) := by
        rw [List.length_append, List.length_cons]
        omega
      have hrest := ih hc.1 (x :: rest)
      rw [backToSlash, hplace, hpath, if_pos (by simp; omega), charAt_append, ok_bind,
        if_neg (Ne.symm hc.2), hnext, ← hrest]
      simp

theorem backToSlash_start (hc : slash ∉ c) (rest : Bytes) (x : UInt8) :
    backToSlash (x :: (c ++ rest)) (c.length : ℕ) = .ok 0 := by
  induction c using List.reverseRecOn generalizing rest with
  | nil =>
      rw [backToSlash]
      rfl
  | append_singleton c y ih =>
      rw [List.mem_append, List.mem_singleton, not_or] at hc
      have hplace : ((c ++ [y]).length : ℤ) = ((x :: c).length : ℕ) := by simp
      have hpath : x :: (c ++ [y] ++ rest) = (x :: c) ++ y :: rest := by simp
      have hnext : ((x :: c).length : ℤ) - 1 = (c.length : ℕ) := by
        rw [List.length_cons]
        omega
      have hrest := ih hc.1 (y :: rest)
      rw [backToSlash, hplace, hpath, if_pos (by simp), charAt_append, ok_bind,
        if_neg (Ne.symm hc.2), hnext, ← hrest]
      rfl

theorem strncmp_append (c name tail : Bytes) :
    strncmp (c ++ tail) name c.length = true ↔ c <+: name := by
  induction c generalizing name with
  | nil =>
      rw [List.length_nil, strncmp]
      exact iff_of_true rfl List.nil_prefix
  | cons a c ih =>
      cases name with
      | nil =>
          have hends : strncmp (a :: (c ++ tail)) [] (c.length + 1) = false := by simp [strncmp]
          rw [List.cons_append, List.length_cons, hends, List.prefix_nil]
          exact iff_of_false Bool.false_ne_true (List.cons_ne_nil _ _)
      | cons b name =>
          rw [List.cons_append, List.length_cons, strncmp, List.cons_prefix_cons, Bool.and_eq_true,
            decide_eq_true_iff, ih]

theorem strncmp_component (c name tail : Bytes) :
    strncmp (slash :: c ++ tail) (slash :: name) (c.length + 1) = true ↔ c <+: name := by
  have happend := strncmp_append (slash :: c) (slash :: name) tail
  rw [List.cons_prefix_cons, List.length_cons] at happend
  exact happend.trans (and_iff_right rfl)

theorem prefix_here : c <+: here ↔ c = [] ∨ c = here := by
  simp [here, List.prefix_cons_iff]

theorem prefix_up : c <+: up ↔ c = [] ∨ c = here ∨ c = up := by
  simp [here, up, List.prefix_cons_iff, and_or_left, exists_or]

theorem strcpy_append (front middle rest : Bytes) :
    strcpy (front ++ (middle ++ rest)) front.length (front.length + middle.length) = front ++ rest := by
  rw [strcpy, List.take_left, ← List.append_assoc, ← List.length_append, List.drop_left]

theorem normalizeStep_eq (hfirst : first ≠ []) (hslash : slash ∉ first)
    (hkept : ∀ d ∈ kept, slash ∉ d) (c tail : Bytes) :
    normalizeStep (spelled slash first kept ++ (slash :: c ++ slash :: tail))
        (some (spelled slash first kept).length)
        ((spelled slash first kept).length + (c.length + 1)) =
      .ok (spelled slash first (take kept c) ++ slash :: tail,
        (spelled slash first (take kept c)).length) := by
  have hhere := strncmp_component c here (slash :: tail)
  have hup := strncmp_component c up (slash :: tail)
  have hskip := strcpy_append (spelled slash first kept) (slash :: c) (slash :: tail)
  rw [List.length_cons] at hskip
  rw [normalizeStep, List.drop_left, Nat.add_sub_cancel_left]
  dsimp only
  split
  · rename_i h
    rcases prefix_here.mp (hhere.mp h) with rfl | rfl
    · rw [hskip, take, if_pos rfl]
    · rw [hskip, take, if_neg (by decide), enter, if_pos rfl]
  · rename_i h
    have hnot : ¬(c = [] ∨ c = here) := fun hc => h (hhere.mpr (prefix_here.mpr hc))
    obtain ⟨hnil, hdot⟩ := not_or.mp hnot
    split
    · rename_i hc
      obtain rfl : c = up := (prefix_up.mp (hup.mp hc)).resolve_left hnil |>.resolve_left hdot
      rw [take, if_neg (by decide), enter, if_neg (by decide), if_pos rfl]
      rcases kept.eq_nil_or_concat with rfl | ⟨ks, k, rfl⟩
      · obtain ⟨x, first, rfl⟩ := List.exists_cons_of_ne_nil hfirst
        have hback := backToSlash_start (List.not_mem_of_not_mem_cons hslash)
          (slash :: up ++ slash :: tail) x
        have hplace : ((x :: first).length : ℤ) - 1 = (first.length : ℕ) := by
          rw [List.length_cons]
          omega
        rw [spelled_nil] at hskip ⊢
        rw [hplace, List.cons_append, hback, ok_bind, if_neg (by decide), ← List.cons_append,
          hskip, List.dropLast_nil, spelled_nil]
      · have hfront : spelled slash first ks ≠ [] := by
          intro hnil
          exact hfirst (List.append_eq_nil_iff.mp hnil).1
        rw [List.concat_eq_append] at hkept ⊢
        have hk : slash ∉ k := hkept k (List.mem_append_right _ List.mem_cons_self)
        have hback := backToSlash_append hfront hk (slash :: up ++ slash :: tail)
        have hpos := List.length_pos_of_ne_nil hfront
        have hplace : ((spelled slash first ks ++ slash :: k).length : ℤ) - 1 =
            ((spelled slash first ks).length + k.length : ℕ) := by
          rw [List.length_append, List.length_cons]
          omega
        have hcopy := strcpy_append (spelled slash first ks) (slash :: k ++ slash :: up) (slash :: tail)
        rw [spelled_concat, List.append_assoc, List.cons_append, hplace, hback,
          ok_bind, if_pos (by exact_mod_cast hpos), Int.toNat_natCast, List.dropLast_concat]
        have hsource : (spelled slash first ks ++ slash :: k).length + (up.length + 1) =
            (spelled slash first ks).length + (slash :: k ++ slash :: up).length := by
          simp only [List.length_append, List.length_cons]
          omega
        rw [hsource, ← hcopy]
        simp
    · rename_i hc
      have hother : c ≠ up := fun hc' => hc (hup.mpr (prefix_up.mpr (.inr (.inr hc'))))
      rw [take, if_neg hnil, enter, if_neg hdot, if_neg hother, spelled_concat]
      simp [Nat.add_comm, Nat.add_assoc]

theorem slash_notMem_take (hkept : ∀ d ∈ kept, slash ∉ d) (hc : slash ∉ c) :
    ∀ d ∈ take kept c, slash ∉ d := by
  rw [take, enter]
  split_ifs
  · exact hkept
  · exact hkept
  · exact fun d hd => hkept d (kept.dropLast_subset hd)
  · intro d hd
    rcases List.mem_append.mp hd with hd | hd
    · exact hkept d hd
    · exact List.mem_singleton.mp hd ▸ hc

theorem normalizeLoop_eq (hfirst : first ≠ []) (hslash : slash ∉ first) {l : Bytes} {cs : List Bytes}
    (hl : slash ∉ l) (hkept : ∀ d ∈ kept, slash ∉ d) (hcs : ∀ d ∈ cs, slash ∉ d) {rounds : ℕ}
    (hrounds : cs.length < rounds) :
    normalizeLoop rounds (spelled slash (spelled slash first kept) (cs ++ [l]))
        (some (spelled slash first kept).length)
        (strchrFrom slash (spelled slash (spelled slash first kept) (cs ++ [l]))
          ((spelled slash first kept).length + 1)) =
      .ok (spelled slash first (cs.foldl take kept ++ [l])) := by
  induction rounds generalizing kept cs with
  | zero => exact absurd hrounds (Nat.not_lt_zero _)
  | succ rounds ih =>
      cases cs with
      | nil =>
          have hnone := strchrFrom_none (spelled slash first kept ++ [slash]) hl
          rw [length_concat, List.append_assoc, List.singleton_append] at hnone
          rw [List.nil_append, spelled_cons, spelled_nil, hnone, normalizeLoop, List.foldl_nil,
            spelled_concat]
      | cons c cs =>
          obtain ⟨hc, hcs⟩ := List.forall_mem_cons.mp hcs
          obtain ⟨d, ds, hds⟩ := List.exists_cons_of_ne_nil
            (List.append_ne_nil_of_right_ne_nil cs (List.cons_ne_nil l []))
          have hpath : spelled slash (spelled slash first kept) (c :: (cs ++ [l])) =
              spelled slash first kept ++ (slash :: c ++ slash :: spelled slash d ds) := by
            rw [hds, spelled_cons, spelled_cons, List.cons_append]
          have hnext : spelled slash (spelled slash first (take kept c)) (cs ++ [l]) =
              spelled slash first (take kept c) ++ slash :: spelled slash d ds := by
            rw [hds, spelled_cons]
          have hchr := strchrFrom_append (spelled slash first kept ++ [slash])
            (spelled slash d ds) hc
          rw [length_concat, List.append_assoc, List.singleton_append, ← List.cons_append,
            Nat.add_assoc, Nat.add_comm 1] at hchr
          have hrest := ih (slash_notMem_take hkept hc) hcs (Nat.lt_of_succ_lt_succ hrounds)
          rw [hnext] at hrest
          rw [List.cons_append, hpath, hchr, normalizeLoop, normalizeStep_eq hfirst hslash hkept,
            ok_bind]
          exact hrest

/-- What stands before the first slash and behind the last one stays, and what is between them is
resolved, as far as there is something to go up from. -/
theorem normalizePath_eq (hfirst : first ≠ []) (hslash : slash ∉ first) {l : Bytes} {cs : List Bytes}
    (hl : slash ∉ l) (hcs : ∀ d ∈ cs, slash ∉ d) :
    Ends (normalizePath (spelled slash first (cs ++ [l]))) (cs.length + 2)
      (1, spelled slash first (cs.foldl take [] ++ [l])) := by
  intro rounds hrounds
  obtain ⟨rounds, rfl⟩ := Nat.exists_eq_add_of_le' (Nat.le_of_succ_le hrounds)
  obtain ⟨d, ds, hds⟩ := List.exists_cons_of_ne_nil
    (List.append_ne_nil_of_right_ne_nil cs (List.cons_ne_nil l []))
  have hhead : (spelled slash first (cs ++ [l])).head? ≠ some slash := by
    obtain ⟨x, first, rfl⟩ := List.exists_cons_of_ne_nil hfirst
    exact fun h => hslash (List.mem_cons.mpr (.inl (Option.some.inj h).symm))
  have hchr : strchrFrom slash (spelled slash first (cs ++ [l])) 0 = some first.length := by
    have happend := strchrFrom_append [] (spelled slash d ds) hslash
    rw [List.length_nil, Nat.zero_add] at happend
    rwa [hds, spelled_cons]
  have hloop := normalizeLoop_eq hfirst hslash hl
    (fun d (hd : d ∈ ([] : List Bytes)) => absurd hd List.not_mem_nil) hcs
    (by omega : cs.length < rounds + cs.length)
  rw [spelled_nil] at hloop
  rw [normalizePath, if_neg hhead, hchr, ← Nat.add_assoc, normalizeLoop, normalizeStep, ok_bind]
  dsimp only
  rw [hloop, ok_bind]

theorem normalizePath_plain (hslash : slash ∉ first) : Ends (normalizePath first) 1 (1, first) := by
  intro rounds hrounds
  obtain ⟨rounds, rfl⟩ := Nat.exists_eq_add_of_le' hrounds
  have hhead : first.head? ≠ some slash := fun h => hslash (List.mem_of_head? h)
  have hnone : strchrFrom slash first 0 = none := strchrFrom_none [] hslash
  rw [normalizePath, if_neg hhead, hnone, normalizeLoop, ok_bind]

theorem take_sublist (kept : List Bytes) (c : Bytes) : (take kept c).Sublist (kept ++ [c]) := by
  rw [take]
  split
  · exact List.sublist_append_left kept [c]
  · exact enter_sublist here up kept c

theorem foldl_take_sublist (kept cs : List Bytes) : (cs.foldl take kept).Sublist (kept ++ cs) := by
  induction cs generalizing kept with
  | nil =>
      rw [List.append_nil]
      exact List.Sublist.refl _
  | cons c cs ih =>
      have hstep := (take_sublist kept c).append_right cs
      rw [List.append_assoc, List.singleton_append] at hstep
      exact (ih _).trans hstep

/-- A component that is left is the name of something. -/
def Name (c : Bytes) : Prop := c ≠ [] ∧ c ≠ here ∧ c ≠ up

theorem name_of_mem_foldl (cs : List Bytes) (hkept : ∀ d ∈ kept, Name d) :
    ∀ d ∈ cs.foldl take kept, Name d := by
  induction cs generalizing kept with
  | nil => exact hkept
  | cons c cs ih =>
      apply ih
      rw [take, enter]
      split_ifs with hnil hhere hup
      · exact hkept
      · exact hkept
      · exact fun d hd => hkept d (kept.dropLast_subset hd)
      · intro d hd
        rcases List.mem_append.mp hd with hd | hd
        · exact hkept d hd
        · exact List.mem_singleton.mp hd ▸ ⟨hnil, hhere, hup⟩

/-- The text before the first slash and the one behind the last are left, no text is longer than
before, and what is between two slashes is the name of something. -/
structure Normalized (path path' : Bytes) : Prop where
  length_le : path'.length ≤ path.length
  front : (path'.splitOn slash).head? = (path.splitOn slash).head?
  behind : (path'.splitOn slash).getLast? = (path.splitOn slash).getLast?
  slash_mem : slash ∈ path' ↔ slash ∈ path
  names : ∀ c ∈ (path'.splitOn slash).tail.dropLast, Name c

theorem normalizePath_normalizes {path : Bytes} (h : path.head? ≠ some slash) :
    ∃ path', Ends (normalizePath path) (path.length + 2) (1, path') ∧ Normalized path path' := by
  obtain ⟨first, cs, rfl, hslash, hcs⟩ := exists_spelled slash path
  rcases cs.eq_nil_or_concat with rfl | ⟨cs, l, rfl⟩
  · rw [spelled_nil] at h ⊢
    refine ⟨first, fun rounds hrounds => normalizePath_plain hslash rounds (by omega), ?_⟩
    have hsplit := List.splitOn_eq_singleton hslash
    refine ⟨le_rfl, rfl, rfl, Iff.rfl, fun c hc => ?_⟩
    rw [hsplit] at hc
    exact absurd hc List.not_mem_nil
  · rw [List.concat_eq_append] at hcs h ⊢
    have hfirst : first ≠ [] := by
      rintro rfl
      obtain ⟨d, ds, hds⟩ := List.exists_cons_of_ne_nil
        (List.append_ne_nil_of_right_ne_nil cs (List.cons_ne_nil l []))
      rw [hds] at h
      exact h rfl
    obtain ⟨hcs, hl⟩ := List.forall_mem_append.mp hcs
    have hl : slash ∉ l := hl l List.mem_cons_self
    have hsub := foldl_take_sublist [] cs
    rw [List.nil_append] at hsub
    have hkept : ∀ d ∈ cs.foldl take [], slash ∉ d := fun d hd => hcs d (hsub.subset hd)
    have hsplit {ds : List Bytes} (hds : ∀ d ∈ ds, slash ∉ d) :
        (spelled slash first (ds ++ [l])).splitOn slash = first :: (ds ++ [l]) :=
      splitOn_spelled hslash (List.forall_mem_append.mpr
        ⟨hds, fun d hd => List.mem_singleton.mp hd ▸ hl⟩)
    refine ⟨_, fun rounds hrounds => normalizePath_eq hfirst hslash hl hcs rounds ?_, ?_⟩
    · have hlength := length_le_length_spelled slash first (cs ++ [l])
      rw [List.length_append] at hlength
      omega
    · constructor
      · exact (spelled_sublist slash first (hsub.append_right [l])).length_le
      · rw [hsplit hkept, hsplit hcs, List.head?_cons, List.head?_cons]
      · rw [hsplit hkept, hsplit hcs, ← List.cons_append, ← List.cons_append,
          List.getLast?_concat, List.getLast?_concat]
      · rw [spelled_concat, spelled_concat]
        exact iff_of_true (List.mem_append_right _ List.mem_cons_self)
          (List.mem_append_right _ List.mem_cons_self)
      · rw [hsplit hkept, List.tail_cons, List.dropLast_concat]
        exact name_of_mem_foldl cs fun d hd => absurd hd List.not_mem_nil

/-- The path `a/../b`. -/
theorem normalizePath_climb : ∃ path',
    Ends (normalizePath [0x61, slash, dot, dot, slash, 0x62]) 8 (1, path') ∧
      Normalized [0x61, slash, dot, dot, slash, 0x62] path' :=
  normalizePath_normalizes (by decide)

end PsplinkUsb.Psplink.NormalizePath
