import Mathlib.Logic.Function.Basic

namespace PsplinkUsb.Library.Patch

universe u v

variable {Key : Type u} {Value : Type v} [DecidableEq Key]

/-- Perform the writes of `patches` in order. -/
def applyAll (patches : List (Key × Value)) (store : Key → Value) : Key → Value :=
  patches.foldl (fun m p => Function.update m p.1 p.2) store

theorem applyAll_cons (p : Key × Value) (patches : List (Key × Value))
    (store : Key → Value) :
    applyAll (p :: patches) store =
      applyAll patches (Function.update store p.1 p.2) := rfl

/-- Writes that all carry the value of `base` at their key turn a store that
agrees with `base` elsewhere into `base` itself. The keys need not differ. -/
theorem applyAll_eq_base {patches : List (Key × Value)} {store base : Key → Value}
    (hvalue : ∀ p ∈ patches, p.2 = base p.1)
    (helsewhere : ∀ k, (∀ p ∈ patches, p.1 ≠ k) → store k = base k) :
    applyAll patches store = base := by
  induction patches generalizing store with
  | nil =>
      funext k
      exact helsewhere k (by simp)
  | cons p rest ih =>
      rw [applyAll_cons]
      apply ih
      · intro q hq
        exact hvalue q (by simp [hq])
      · intro k hk
        by_cases hkey : p.1 = k
        · subst hkey
          rw [Function.update_self]
          exact hvalue p (by simp)
        · rw [Function.update_of_ne (Ne.symm hkey)]
          apply helsewhere
          intro q hq
          rcases List.mem_cons.mp hq with rfl | hq
          · exact hkey
          · exact hk q hq

theorem applyAll_of_ne {patches : List (Key × Value)} {k : Key}
    (h : ∀ p ∈ patches, p.1 ≠ k) (store : Key → Value) : applyAll patches store k = store k := by
  induction patches generalizing store with
  | nil => rfl
  | cons p rest ih =>
      rw [applyAll_cons, ih fun q hq => h q (List.mem_cons_of_mem _ hq)]
      exact Function.update_of_ne (Ne.symm (h p List.mem_cons_self)) _ _

theorem applyAll_of_mem {patches : List (Key × Value)} (hkeys : (patches.map Prod.fst).Nodup)
    {p : Key × Value} (hp : p ∈ patches) (store : Key → Value) :
    applyAll patches store p.1 = p.2 := by
  induction patches generalizing store with
  | nil => exact absurd hp List.not_mem_nil
  | cons q rest ih =>
      rw [List.map_cons, List.nodup_cons] at hkeys
      rw [applyAll_cons]
      rcases List.mem_cons.mp hp with rfl | hp
      · rw [applyAll_of_ne, Function.update_self]
        rintro r hr heq
        exact hkeys.1 (heq ▸ List.mem_map_of_mem hr)
      · exact ih hkeys.2 hp _

theorem applyAll_eq_self_iff {patches : List (Key × Value)}
    (hkeys : (patches.map Prod.fst).Nodup) {store : Key → Value} :
    applyAll patches store = store ↔ ∀ p ∈ patches, p.2 = store p.1 := by
  constructor
  · intro h p hp
    rw [← applyAll_of_mem hkeys hp store, h]
  · intro h
    exact applyAll_eq_base h fun _ _ => rfl

theorem map_applyAll_zip {keys : List Key} {values : List Value} (hkeys : keys.Nodup)
    (hlength : keys.length = values.length) (store : Key → Value) :
    keys.map (applyAll (keys.zip values) store) = values := by
  induction keys generalizing values store with
  | nil => exact (List.eq_nil_of_length_eq_zero hlength.symm).symm
  | cons k keys ih =>
      cases values with
      | nil => cases hlength
      | cons v values =>
          rw [List.nodup_cons] at hkeys
          have hk : ∀ p ∈ keys.zip values, p.1 ≠ k := by
            rintro p hp rfl
            exact hkeys.1 (List.of_mem_zip hp).1
          rw [List.zip_cons_cons, List.map_cons, applyAll_cons, applyAll_of_ne hk,
            Function.update_self, ih hkeys.2 (Nat.succ.inj hlength)]

end PsplinkUsb.Library.Patch
