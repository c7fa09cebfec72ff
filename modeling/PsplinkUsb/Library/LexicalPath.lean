import Mathlib.Data.List.TakeDrop

namespace PsplinkUsb.Library.LexicalPath

variable {α : Type*} [DecidableEq α] (here up : α)

def enter (kept : List α) (c : α) : List α :=
  if c = here then kept else if c = up then kept.dropLast else kept ++ [c]

def resolve (cs : List α) : List α := cs.foldl (enter here up) []

/-- The components that are come to, when there always is one to go up from. -/
def climb (kept : List α) (c : α) : Option (List α) :=
  if c = here then some kept
  else if c = up then if kept = [] then none else some kept.dropLast
  else some (kept ++ [c])

def follow (kept cs : List α) : Option (List α) := cs.foldlM (climb here up) kept

/-- How many of the components before are dropped, and what is left behind them. -/
structure Effect (α : Type*) where
  climbs : ℕ
  leaves : List α

def Effect.enter (e : Effect α) (c : α) : Effect α :=
  if c = here then e
  else if c = up then
    if e.leaves = [] then { e with climbs := e.climbs + 1 }
    else { e with leaves := e.leaves.dropLast }
  else { e with leaves := e.leaves ++ [c] }

def effect (cs : List α) : Effect α := cs.foldl (Effect.enter here up) ⟨0, []⟩

variable {here up} {kept kept' cs : List α} {c : α}

theorem enter_effect (e : Effect α) :
    enter here up (kept.take (kept.length - e.climbs) ++ e.leaves) c =
      kept.take (kept.length - (e.enter here up c).climbs) ++ (e.enter here up c).leaves := by
  rw [enter, Effect.enter]
  split
  · rfl
  · split
    · split
      · rename_i hleaves
        rw [hleaves, List.append_nil, List.dropLast_eq_take, List.take_take, List.length_take,
          List.append_nil]
        congr 1
        dsimp only
        omega
      · rename_i hleaves
        rw [List.dropLast_append_of_ne_nil hleaves]
    · rw [List.append_assoc]

theorem foldl_enter_effect (cs : List α) (e : Effect α) :
    cs.foldl (enter here up) (kept.take (kept.length - e.climbs) ++ e.leaves) =
      kept.take (kept.length - (cs.foldl (Effect.enter here up) e).climbs) ++
        (cs.foldl (Effect.enter here up) e).leaves := by
  induction cs generalizing e with
  | nil => rfl
  | cons c cs ih => rw [List.foldl_cons, List.foldl_cons, enter_effect, ih]

theorem foldl_enter (kept cs : List α) :
    cs.foldl (enter here up) kept =
      kept.take (kept.length - (effect here up cs).climbs) ++ (effect here up cs).leaves := by
  have heffect := @foldl_enter_effect α _ here up kept cs ⟨0, []⟩
  rwa [Nat.sub_zero, List.take_length, List.append_nil] at heffect

theorem resolve_append (before cs : List α) :
    resolve here up (before ++ cs) = cs.foldl (enter here up) (resolve here up before) :=
  List.foldl_append

theorem foldl_enter_eq_iff :
    cs.foldl (enter here up) kept = cs.foldl (enter here up) kept' ↔
      kept.take (kept.length - (effect here up cs).climbs) =
        kept'.take (kept'.length - (effect here up cs).climbs) := by
  rw [foldl_enter, foldl_enter, List.append_cancel_right_eq]

theorem resolve_append_eq_iff (before cs : List α) :
    resolve here up (before ++ cs) = resolve here up cs ↔
      (resolve here up before).length ≤ (effect here up cs).climbs := by
  have hempty : resolve here up cs = cs.foldl (enter here up) [] := rfl
  rw [resolve_append, hempty, foldl_enter_eq_iff, List.take_nil, List.take_eq_nil_iff,
    ← List.length_eq_zero_iff]
  omega

theorem foldl_enter_of_names (h : ∀ c ∈ cs, c ≠ here ∧ c ≠ up) :
    cs.foldl (enter here up) kept = kept ++ cs := by
  induction cs generalizing kept with
  | nil => exact (List.append_nil kept).symm
  | cons c cs ih =>
      obtain ⟨⟨hhere, hup⟩, hcs⟩ := List.forall_mem_cons.mp h
      rw [List.foldl_cons, ih hcs, enter, if_neg hhere, if_neg hup, List.append_assoc,
        List.singleton_append]

theorem enter_sublist (here up : α) (kept : List α) (c : α) :
    (enter here up kept c).Sublist (kept ++ [c]) := by
  rw [enter]
  split_ifs
  · exact List.sublist_append_left kept [c]
  · exact (List.dropLast_sublist kept).trans (List.sublist_append_left kept [c])
  · exact List.Sublist.refl _

theorem foldl_enter_sublist (here up : α) (kept cs : List α) :
    (cs.foldl (enter here up) kept).Sublist (kept ++ cs) := by
  induction cs generalizing kept with
  | nil => exact List.sublist_append_left kept []
  | cons c cs ih =>
      have hstep := (enter_sublist here up kept c).append_right cs
      rw [List.append_assoc, List.singleton_append] at hstep
      exact (ih _).trans hstep

theorem enter_of_climb (h : climb here up kept c = some kept') : enter here up kept c = kept' := by
  rw [climb] at h
  rw [enter]
  split_ifs at h ⊢
  · exact Option.some.inj h
  · exact Option.some.inj h
  · exact Option.some.inj h

theorem foldl_enter_of_follow (h : follow here up kept cs = some kept') :
    cs.foldl (enter here up) kept = kept' := by
  induction cs generalizing kept with
  | nil => exact Option.some.inj h
  | cons c cs ih =>
      rw [follow, List.foldlM_cons] at h
      obtain ⟨kept'', hclimb, hfollow⟩ := Option.bind_eq_some_iff.mp h
      rw [List.foldl_cons, enter_of_climb hclimb]
      exact ih hfollow

theorem follow_append (here up : α) (kept cs ds : List α) :
    follow here up kept (cs ++ ds) = (follow here up kept cs).bind fun ks => follow here up ks ds :=
  List.foldlM_append

end PsplinkUsb.Library.LexicalPath
