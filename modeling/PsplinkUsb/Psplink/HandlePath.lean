import PsplinkUsb.Psplink.DecodeAddr
import PsplinkUsb.Psplink.NormalizePath

/-!
`handlepath` of `psplink/util.c`: a path is put together from the current directory and an
argument, and the components `.` and `..` are taken out of it, once before `normalize_path` is
called.
-/

namespace PsplinkUsb.Psplink.HandlePath

open PsplinkUsb.Library.CheckedBuffer
open PsplinkUsb.Library.LexicalPath
open PsplinkUsb.Library.PathText
open PsplinkUsb.Psplink.DecodeAddr (isASpace)
open PsplinkUsb.Psplink.NormalizePath

def colon : UInt8 := 0x3A

inductive PathType where
  | file | dir | ether
  deriving DecidableEq, Repr

/-- What the calls to the driver of a path say: whether it is a directory, when there is
something, and whether it opens. -/
structure Device where
  getstat : Bytes → Option Bool
  opens : Bytes → Bool

def isdir (io : Device) (path : Bytes) : Bool :=
  if path.length < 2 then false
  else if path.getLast? = some slash then
    if path.dropLast.getLast? = some colon ∧ path.idxOf slash = path.length - 1 then true
    else io.getstat path.dropLast = some true
  else io.getstat path = some true

/-- The current directory up to its colon. -/
def device : Bytes → Bytes
  | [] => []
  | c :: currentdir => if c = colon then [c] else c :: device currentdir

def joined (currentdir relative : Bytes) : Bytes :=
  (if colon ∈ relative then []
    else if relative.head? = some slash then device currentdir
    else currentdir) ++ relative

/-- The place of a text, in the rest of a string from a place on. -/
def strstr (needle : Bytes) : Bytes → ℕ → Option ℕ
  | [], _ => none
  | c :: s, i => if needle <+: c :: s then some i else strstr needle s (i + 1)

/-- The last slash from a place back, or else the start. -/
def slashBefore (path : Bytes) (p : ℤ) : Checked (Option ℕ) := do
  let c ← charAt path p
  if c = slash then .ok (some p.toNat) else if p ≤ 0 then .ok none else slashBefore path (p - 1)
termination_by p.toNat

/-- What is done at a place of `/.`, with the rest of the loop. -/
def dotRound (loop : Bytes → ℕ → Checked (ℕ × Bytes)) (path : Bytes) (p : ℕ) :
    Checked (ℕ × Bytes) := do
  let c ← charAt path (p + 2)
  if c = 0 ∨ c = slash then .ok (1, strcpy path p (p + 2))
  else if c = dot then do
    let c ← charAt path (p + 3)
    if c ≠ 0 ∧ c ≠ slash then loop path (p + 4)
    else
      match ← slashBefore path (p - 1) with
      | none => .ok (0, path)
      | some before => loop (strcpy path before (p + 3)) before
  else loop path (p + 2)

/-- The loop over the places of `/.`, with what is returned in it, or else 1. -/
def dotLoop : ℕ → Bytes → ℕ → Checked (ℕ × Bytes)
  | 0, _, _ => .error .unfinished
  | rounds + 1, path, p =>
      match strstr (slash :: here) (path.drop p) p with
      | none => .ok (1, path)
      | some p => dotRound (dotLoop rounds) path p

/-- A slash at the end, for a directory, or none, for a file. -/
def slashEnd (type : PathType) (path : Bytes) : Bytes :=
  if type = .dir ∧ path.getLast? ≠ some slash then path ++ [slash]
  else if type = .file ∧ path.getLast? = some slash then path.dropLast
  else path

def accepted (io : Device) (path : Bytes) : PathType → Bool
  | .dir => isdir io path
  | .file => io.opens path
  | .ether => false

/-- What is returned, the path that is left, and how many bytes of it are stored to. -/
structure Handled where
  ret : ℕ
  path : Bytes
  size : ℕ
  deriving DecidableEq, Repr

/-- What is done with the path that the loop leaves, of which so many bytes are stored to. -/
def afterDots (io : Device) (type : PathType) (valid : Bool) (size : ℕ) (path : Bytes) (rounds : ℕ) :
    Checked Handled :=
  let path := path.rdropWhile fun c => isASpace c
  if path = [] then .ok { ret := 0, path := path, size := size }
  else do
    let path := slashEnd type path
    let size := max size (path.length + 1)
    let (ret, path) ← normalizePath path rounds
    if ret = 0 ∨ valid ∧ ¬accepted io path type then .ok { ret := 0, path := path, size := size }
    else .ok { ret := 1, path := path, size := size }

def handlepath (io : Device) (currentdir relative : Bytes) (type : PathType) (valid : Bool)
    (rounds : ℕ) : Checked Handled := do
  let path := joined currentdir relative
  let size := path.length + 1
  let (ret, path) ← dotLoop rounds path 0
  if ret = 0 then .ok { ret := 0, path := path, size := size }
  else afterDots io type valid size path rounds

variable {first c s front rest tail : Bytes} {kept cs ds : List Bytes} {i rounds : ℕ}

/-- The components that the loop comes to: the first `.` ends it. -/
def walk (kept : List Bytes) : List Bytes → Option (List Bytes)
  | [] => some kept
  | c :: cs => if c = here then some (kept ++ cs) else (climb here up kept c).bind (walk · cs)

/-- What the loop returns for the components that it comes to, if any, behind `first`. -/
def Walked (first : Bytes) (r : Checked (ℕ × Bytes)) : Option (List Bytes) → Prop
  | some cs => r = .ok (1, spelled slash first cs)
  | none => if first = [] then r = .error .outside else ∃ path, r = .ok (0, path)

theorem strstr_of_notMem (hs : slash ∉ s) :
    strstr (slash :: here) (s ++ rest) i = strstr (slash :: here) rest (i + s.length) := by
  induction s generalizing i with
  | nil => rfl
  | cons c s ih =>
      have hc : ¬slash :: here <+: c :: (s ++ rest) := by
        rw [List.cons_prefix_cons, not_and_or]
        exact .inl (List.ne_of_not_mem_cons hs)
      rw [List.cons_append, strstr, if_neg hc, ih (List.not_mem_of_not_mem_cons hs), List.length_cons,
        Nat.add_right_comm, Nat.add_assoc]

theorem dotLoop_congr {path : Bytes} {p p' : ℕ}
    (h : strstr (slash :: here) (path.drop p) p = strstr (slash :: here) (path.drop p') p')
    (rounds : ℕ) : dotLoop rounds path p = dotLoop rounds path p' := by
  cases rounds with
  | zero => rfl
  | succ rounds => rw [dotLoop, dotLoop, h]

theorem dotLoop_skip (rounds : ℕ) (front rest : Bytes) (hs : slash ∉ s) :
    dotLoop rounds (front ++ (s ++ rest)) front.length =
      dotLoop rounds (front ++ (s ++ rest)) (front.length + s.length) := by
  apply dotLoop_congr
  rw [List.drop_left, strstr_of_notMem hs, ← List.length_append, ← List.append_assoc, List.drop_left]

theorem dotLoop_undotted (rounds : ℕ) (front tail : Bytes) (hc : slash ∉ c)
    (hdot : (c ++ tail).head? ≠ some dot) :
    dotLoop rounds (front ++ (slash :: c ++ tail)) front.length =
      dotLoop rounds (front ++ (slash :: c ++ tail)) (front ++ slash :: c).length := by
  have hhere : ¬slash :: here <+: slash :: (c ++ tail) := by
    rw [List.cons_prefix_cons]
    rintro ⟨-, rest, hrest⟩
    rw [← hrest] at hdot
    exact hdot rfl
  apply dotLoop_congr
  have hdrop : (front ++ (slash :: c ++ tail)).drop (front ++ slash :: c).length = tail := by
    rw [← List.append_assoc, List.drop_left]
  rw [List.drop_left, List.cons_append, strstr, if_neg hhere, strstr_of_notMem hc,
    ← List.cons_append, hdrop, List.length_append, List.length_cons, Nat.add_assoc, Nat.add_comm 1]

theorem charAt_tail (front : Bytes) (cs : List Bytes) :
    ∃ x, charAt (front ++ cs.flatMap fun c => slash :: c) front.length = .ok x ∧
      (x = 0 ∨ x = slash) := by
  cases cs with
  | nil =>
      refine ⟨0, ?_, .inl rfl⟩
      rw [List.flatMap_nil, List.append_nil, charAt, if_pos (Int.natCast_nonneg _), Int.toNat_natCast,
        read_append]
  | cons c cs =>
      refine ⟨slash, ?_, .inr rfl⟩
      rw [List.flatMap_cons, List.cons_append, charAt_append]

theorem slashBefore_append (hc : slash ∉ c) (first rest : Bytes) :
    slashBefore (first ++ slash :: (c ++ rest)) (first.length + c.length : ℕ) =
      .ok (some first.length) := by
  induction c using List.reverseRecOn generalizing rest with
  | nil =>
      rw [slashBefore, List.length_nil, Nat.add_zero, List.nil_append, charAt_append, ok_bind,
        if_pos rfl, Int.toNat_natCast]
  | append_singleton c x ih =>
      rw [List.mem_append, List.mem_singleton, not_or] at hc
      have hplace : ((first.length + (c ++ [x]).length : ℕ) : ℤ) =
          ((first ++ slash :: c).length : ℕ) := by simp
      have hpath : first ++ slash :: (c ++ [x] ++ rest) = (first ++ slash :: c) ++ x :: rest := by simp
      have hnext : ((first ++ slash :: c).length : ℤ) - 1 = (first.length + c.length : ℕ) := by
        rw [List.length_append, List.length_cons]
        omega
      have hpos : ¬((first ++ slash :: c).length : ℤ) ≤ 0 := by
        rw [List.length_append, List.length_cons]
        omega
      have hrest := ih hc.1 (x :: rest)
      rw [slashBefore, hplace, hpath, charAt_append, ok_bind, if_neg (Ne.symm hc.2), if_neg hpos,
        hnext, ← hrest]
      simp

theorem slashBefore_start (hc : slash ∉ c) {x : UInt8} (hx : x ≠ slash) (rest : Bytes) :
    slashBefore (x :: (c ++ rest)) (c.length : ℕ) = .ok none := by
  induction c using List.reverseRecOn generalizing rest with
  | nil =>
      have hread := charAt_append [] x rest
      rw [List.nil_append] at hread
      rw [slashBefore, List.nil_append, hread, ok_bind, if_neg hx]
      rfl
  | append_singleton c y ih =>
      rw [List.mem_append, List.mem_singleton, not_or] at hc
      have hplace : ((c ++ [y]).length : ℤ) = ((x :: c).length : ℕ) := by simp
      have hpath : x :: (c ++ [y] ++ rest) = (x :: c) ++ y :: rest := by simp
      have hnext : ((x :: c).length : ℤ) - 1 = (c.length : ℕ) := by
        rw [List.length_cons]
        omega
      have hpos : ¬((x :: c).length : ℤ) ≤ 0 := by
        rw [List.length_cons]
        omega
      have hrest := ih hc.1 (y :: rest)
      rw [slashBefore, hplace, hpath, charAt_append, ok_bind, if_neg (Ne.symm hc.2), if_neg hpos,
        hnext, ← hrest]
      rfl

theorem spelled_append_flatMap (first : Bytes) (kept cs : List Bytes) :
    spelled slash first (kept ++ cs) = spelled slash first kept ++ cs.flatMap fun c => slash :: c :=
  spelled_append

theorem head?_flatMap_ne_dot (cs : List Bytes) : (cs.flatMap fun c => slash :: c).head? ≠ some dot := by
  cases cs with
  | nil => exact fun h => Option.some_ne_none dot h.symm
  | cons c cs =>
      rw [List.flatMap_cons, List.cons_append, List.head?_cons]
      exact fun h => absurd (Option.some.inj h) (by decide)

theorem dotLoop_dotted (rounds : ℕ) (front rest : Bytes) :
    dotLoop (rounds + 1) (front ++ slash :: dot :: rest) front.length =
      dotRound (dotLoop rounds) (front ++ slash :: dot :: rest) front.length := by
  have hhere : slash :: here <+: slash :: dot :: rest := List.prefix_append (slash :: here) rest
  rw [dotLoop, List.drop_left, strstr, if_pos hhere]

theorem charAt_behind (front s : Bytes) (x : UInt8) (rest : Bytes) :
    charAt (front ++ (s ++ x :: rest)) (front.length + s.length) = .ok x := by
  have hread := charAt_append (front ++ s) x rest
  rwa [List.append_assoc, List.length_append, Nat.cast_add] at hread

section

variable (loop : Bytes → ℕ → Checked (ℕ × Bytes)) {x : UInt8}

theorem dotRound_here (front : Bytes) (cs : List Bytes) :
    dotRound loop (front ++ (slash :: here ++ cs.flatMap fun c => slash :: c)) front.length =
      .ok (1, front ++ cs.flatMap fun c => slash :: c) := by
  obtain ⟨x, hread, hx⟩ := charAt_tail (front ++ slash :: here) cs
  rw [List.append_assoc, List.length_append, Nat.cast_add] at hread
  have hcopy := strcpy_append front (slash :: here) (cs.flatMap fun c => slash :: c)
  rw [dotRound]
  change (charAt _ (front.length + (slash :: here).length)) >>= _ = _
  rw [hread, ok_bind, if_pos hx, ← hcopy]
  rfl

theorem dotRound_name (front rest : Bytes) (hnul : x ≠ 0) (hslash : x ≠ slash) (hdot : x ≠ dot) :
    dotRound loop (front ++ (slash :: here ++ x :: rest)) front.length =
      loop (front ++ (slash :: here ++ x :: rest)) (front.length + 2) := by
  have hread := charAt_behind front (slash :: here) x rest
  rw [dotRound]
  change (charAt _ (front.length + (slash :: here).length)) >>= _ = _
  rw [hread, ok_bind, if_neg (not_or.mpr ⟨hnul, hslash⟩), if_neg hdot]

theorem dotRound_dots (front rest : Bytes) (hnul : x ≠ 0) (hslash : x ≠ slash) :
    dotRound loop (front ++ (slash :: up ++ x :: rest)) front.length =
      loop (front ++ (slash :: up ++ x :: rest)) (front.length + 4) := by
  have hsecond := charAt_behind front (slash :: here) dot (x :: rest)
  have hread := charAt_behind front (slash :: up) x rest
  rw [dotRound]
  change (charAt _ (front.length + (slash :: here).length)) >>= _ = _
  rw [show slash :: up ++ x :: rest = slash :: here ++ dot :: x :: rest from rfl] at hread ⊢
  rw [hsecond, ok_bind, if_neg (by decide), if_pos rfl]
  change (charAt _ (front.length + (slash :: up).length)) >>= _ = _
  rw [hread, ok_bind, if_pos ⟨hnul, hslash⟩]

theorem dotRound_up (front : Bytes) (cs : List Bytes) :
    dotRound loop (front ++ (slash :: up ++ cs.flatMap fun c => slash :: c)) front.length =
      (do
        match ← slashBefore (front ++ (slash :: up ++ cs.flatMap fun c => slash :: c))
          (front.length - 1) with
        | none => .ok (0, front ++ (slash :: up ++ cs.flatMap fun c => slash :: c))
        | some before =>
            loop (strcpy (front ++ (slash :: up ++ cs.flatMap fun c => slash :: c)) before
              (front.length + 3)) before) := by
  obtain ⟨x, hread, hx⟩ := charAt_tail (front ++ slash :: up) cs
  rw [List.append_assoc, List.length_append, Nat.cast_add] at hread
  have hsecond := charAt_behind front (slash :: here) dot (cs.flatMap fun c => slash :: c)
  have hends : ¬(x ≠ 0 ∧ x ≠ slash) := by
    rw [not_and_or, not_not, not_not]
    exact hx
  rw [dotRound]
  change (charAt _ (front.length + (slash :: here).length)) >>= _ = _
  rw [show slash :: up ++ (cs.flatMap fun c => slash :: c) =
    slash :: here ++ dot :: cs.flatMap (fun c => slash :: c) from rfl] at hread ⊢
  rw [hsecond, ok_bind, if_neg (by decide), if_pos rfl]
  change (charAt _ (front.length + (slash :: up).length)) >>= _ = _
  rw [hread, ok_bind, if_neg hends]

theorem dotRound_climb (hfirst : slash ∉ first) (hkept : ∀ d ∈ kept, slash ∉ d) (cs : List Bytes) :
    let path := spelled slash first kept ++ (slash :: up ++ cs.flatMap fun c => slash :: c)
    if kept = [] then Walked first (dotRound loop path (spelled slash first kept).length) none
    else dotRound loop path (spelled slash first kept).length =
      loop (spelled slash first kept.dropLast ++ cs.flatMap fun c => slash :: c)
        (spelled slash first kept.dropLast).length := by
  dsimp only
  rw [dotRound_up]
  rcases kept.eq_nil_or_concat with rfl | ⟨ks, k, rfl⟩
  · rw [if_pos rfl, spelled_nil, Walked]
    cases first with
    | nil =>
        rw [if_pos rfl, slashBefore, charAt, if_neg (by decide)]
        rfl
    | cons x first =>
        have hback := slashBefore_start (List.not_mem_of_not_mem_cons hfirst)
          (List.ne_of_not_mem_cons hfirst).symm (slash :: up ++ cs.flatMap fun c => slash :: c)
        have hplace : ((x :: first).length : ℤ) - 1 = (first.length : ℕ) := by
          rw [List.length_cons]
          omega
        rw [if_neg (List.cons_ne_nil _ _), hplace, List.cons_append, hback, ok_bind]
        exact ⟨_, rfl⟩
  · rw [List.concat_eq_append] at hkept ⊢
    have hk : slash ∉ k := hkept k (List.mem_append_right _ List.mem_cons_self)
    have hback := slashBefore_append hk (spelled slash first ks)
      (slash :: up ++ cs.flatMap fun c => slash :: c)
    have hplace : ((spelled slash first ks ++ slash :: k).length : ℤ) - 1 =
        ((spelled slash first ks).length + k.length : ℕ) := by
      rw [List.length_append, List.length_cons]
      omega
    have hcopy := strcpy_append (spelled slash first ks) (slash :: k ++ slash :: up)
      (cs.flatMap fun c => slash :: c)
    have hsource : (spelled slash first ks ++ slash :: k).length + 3 =
        (spelled slash first ks).length + (slash :: k ++ slash :: up).length := by
      simp [up, Nat.add_assoc]
    have hpath : spelled slash first ks ++ slash :: k ++
        (slash :: up ++ cs.flatMap fun c => slash :: c) = spelled slash first ks ++
          (slash :: k ++ slash :: up ++ cs.flatMap fun c => slash :: c) := by simp
    rw [if_neg (List.append_ne_nil_of_right_ne_nil _ (List.cons_ne_nil _ _)), spelled_concat,
      List.dropLast_concat, hplace]
    rw [List.append_assoc, List.cons_append, hback, ok_bind]
    dsimp only
    rw [← List.cons_append, ← List.append_assoc, hsource, hpath, hcopy]

end

theorem dotLoop_rest (rounds : ℕ) (front a tail : Bytes) {b : Bytes} (hb : slash ∉ b) :
    dotLoop rounds (front ++ (slash :: (a ++ b) ++ tail)) (front.length + (slash :: a).length) =
      dotLoop rounds (front ++ (slash :: (a ++ b) ++ tail)) (front ++ slash :: (a ++ b)).length := by
  have hskip := dotLoop_skip rounds (front ++ slash :: a) tail hb
  have hpath : front ++ slash :: a ++ (b ++ tail) = front ++ (slash :: (a ++ b) ++ tail) := by simp
  have hplace : (front ++ slash :: a).length + b.length = (front ++ slash :: (a ++ b)).length := by
    simp only [List.length_append, List.length_cons]
    omega
  rw [hpath, hplace, List.length_append] at hskip
  exact hskip

theorem dotLoop_name (rounds : ℕ) (front : Bytes) (cs : List Bytes) (hc : slash ∉ c) (hnul : 0 ∉ c)
    (hhere : c ≠ here) (hup : c ≠ up) : ∃ rounds' ≥ rounds,
      dotLoop (rounds + 1) (front ++ (slash :: c ++ cs.flatMap fun c => slash :: c)) front.length =
        dotLoop rounds' (front ++ (slash :: c ++ cs.flatMap fun c => slash :: c))
          (front ++ slash :: c).length := by
  by_cases hdot : (c ++ cs.flatMap fun c => slash :: c).head? = some dot
  · obtain ⟨c, rfl⟩ : ∃ c', c = dot :: c' := by
      cases c with
      | nil => exact absurd hdot (head?_flatMap_ne_dot cs)
      | cons x c => exact ⟨c, congrArg (· :: c) (Option.some.inj hdot)⟩
    refine ⟨rounds, le_rfl, ?_⟩
    have hdotted := dotLoop_dotted rounds front (c ++ cs.flatMap fun c => slash :: c)
    rw [← List.cons_append, ← List.cons_append] at hdotted
    rw [hdotted]
    obtain ⟨x, c, rfl⟩ := List.exists_cons_of_ne_nil fun h : c = [] => hhere (congrArg (dot :: ·) h)
    have hcx := List.not_mem_of_not_mem_cons hc
    have hnulx := List.not_mem_of_not_mem_cons hnul
    by_cases hx : x = dot
    · subst hx
      obtain ⟨y, c, rfl⟩ := List.exists_cons_of_ne_nil fun h : c = [] => hup (congrArg (dot :: dot :: ·) h)
      have hcy := List.not_mem_of_not_mem_cons hcx
      have hround := dotRound_dots (dotLoop rounds) front (c ++ cs.flatMap fun c => slash :: c)
        (List.ne_of_not_mem_cons (List.not_mem_of_not_mem_cons hnulx)).symm
        (List.ne_of_not_mem_cons hcy).symm
      have hrest := dotLoop_rest rounds front [dot, dot, y] (cs.flatMap fun c => slash :: c)
        (List.not_mem_of_not_mem_cons hcy)
      exact hround.trans hrest
    · have hround := dotRound_name (dotLoop rounds) front (c ++ cs.flatMap fun c => slash :: c)
        (List.ne_of_not_mem_cons hnulx).symm (List.ne_of_not_mem_cons hcx).symm hx
      have hrest := dotLoop_rest rounds front here (cs.flatMap fun c => slash :: c) hcx
      exact hround.trans hrest
  · exact ⟨rounds + 1, Nat.le_succ rounds, dotLoop_undotted _ front _ hc hdot⟩

theorem walked_dotLoop (hfirst : slash ∉ first) (hkept : ∀ d ∈ kept, slash ∉ d)
    (hcs : ∀ d ∈ cs, slash ∉ d ∧ 0 ∉ d) (hrounds : cs.length < rounds) :
    Walked first (dotLoop rounds (spelled slash first kept ++ cs.flatMap fun c => slash :: c)
      (spelled slash first kept).length) (walk kept cs) := by
  induction cs generalizing kept rounds with
  | nil =>
      obtain ⟨rounds, rfl⟩ := Nat.exists_eq_succ_of_ne_zero (Nat.ne_of_gt hrounds)
      rw [List.flatMap_nil, List.append_nil, dotLoop, List.drop_length, strstr]
      rfl
  | cons c cs ih =>
      obtain ⟨⟨hc, hnul⟩, hrest⟩ := List.forall_mem_cons.mp hcs
      obtain ⟨rounds, rfl⟩ := Nat.exists_eq_succ_of_ne_zero (Nat.ne_of_gt (Nat.zero_lt_of_lt hrounds))
      have hfewer := Nat.lt_of_succ_lt_succ hrounds
      rw [List.flatMap_cons, walk]
      by_cases hhere : c = here
      · subst hhere
        have hdotted := dotLoop_dotted rounds (spelled slash first kept)
          (cs.flatMap fun c => slash :: c)
        rw [if_pos rfl, Walked, spelled_append_flatMap]
        exact hdotted.trans (dotRound_here (dotLoop rounds) _ cs)
      rw [if_neg hhere, climb, if_neg hhere]
      by_cases hup : c = up
      · subst hup
        have hdotted := dotLoop_dotted rounds (spelled slash first kept)
          (dot :: cs.flatMap fun c => slash :: c)
        have hround := dotRound_climb (dotLoop rounds) hfirst hkept cs
        dsimp only at hround
        rw [if_pos rfl]
        rw [show slash :: dot :: dot :: (cs.flatMap fun c => slash :: c) =
          slash :: up ++ cs.flatMap fun c => slash :: c from rfl] at hdotted
        rw [hdotted]
        by_cases hnil : kept = []
        · rw [if_pos hnil] at hround ⊢
          exact hround
        · rw [if_neg hnil] at hround ⊢
          rw [hround]
          exact ih (fun d hd => hkept d (kept.dropLast_subset hd)) hrest hfewer
      · rw [if_neg hup, Option.bind_some]
        obtain ⟨rounds', hle, hname⟩ := dotLoop_name rounds (spelled slash first kept) cs hc hnul
          hhere hup
        rw [hname, ← spelled_concat, ← List.append_assoc, ← spelled_concat]
        exact ih (List.forall_mem_append.mpr ⟨hkept, fun d hd => List.mem_singleton.mp hd ▸ hc⟩) hrest
          (by omega)

theorem walked_dotLoop_spelled (hfirst : slash ∉ first) (hcs : ∀ d ∈ cs, slash ∉ d ∧ 0 ∉ d)
    (hrounds : cs.length < rounds) :
    Walked first (dotLoop rounds (spelled slash first cs) 0) (walk [] cs) := by
  have hskip := dotLoop_skip rounds [] (cs.flatMap fun c => slash :: c) hfirst
  have hwalked := walked_dotLoop hfirst (fun d hd => absurd hd List.not_mem_nil) hcs hrounds
  rw [List.nil_append, List.length_nil, Nat.zero_add] at hskip
  rw [spelled_nil, ← hskip] at hwalked
  exact hwalked

end PsplinkUsb.Psplink.HandlePath
