import Mathlib.Data.List.Basic
import Mathlib.Logic.Function.Basic

/-!
Patches that save the value they replace, several of them possibly at one
key, and that are undone in any order. The log lists the patches in force,
the newest first; undoing a patch writes the value it saved.
-/

namespace PsplinkUsb.Library.UndoLog

universe u v w

variable {Key : Type u} {Value : Type v} {Id : Type w} [DecidableEq Key]

/-- The patches in force at one key, the newest first. -/
def atKey (log : List Id) (key : Id → Key) (k : Key) : List Id :=
  log.filter fun i => key i = k

/-- The oldest patch of every patched key saved the base value there, and every
other key holds its base value. -/
def Restorable (base store : Key → Value) (log : List Id) (key : Id → Key)
    (saved : Id → Value) : Prop :=
  ∀ k, match (atKey log key k).getLast? with
    | none => store k = base k
    | some i => saved i = base k

/-- Undoing `i` is harmless: it is alone at its key, or not the oldest there. -/
def MayUndo (log : List Id) (key : Id → Key) (i : Id) : Prop :=
  atKey log key (key i) = [i] ∨ (atKey log key (key i)).getLast? ≠ some i

instance [DecidableEq Id] (log : List Id) (key : Id → Key) (i : Id) :
    Decidable (MayUndo log key i) :=
  inferInstanceAs (Decidable (_ ∨ _))

variable {base store store' : Key → Value} {log : List Id} {key key' : Id → Key}
  {saved saved' : Id → Value} {i : Id}

theorem restorable_nil : Restorable base base [] key saved := by
  intro k
  simp [atKey]

theorem Restorable.store_eq (h : Restorable base store [] key saved) :
    store = base := by
  funext k
  simpa [atKey] using h k

theorem atKey_congr (hkey : ∀ j ∈ log, key' j = key j) (k : Key) :
    atKey log key' k = atKey log key k := by
  apply List.filter_congr
  intro j hj
  rw [hkey j hj]

theorem Restorable.congr (h : Restorable base store log key saved)
    (hkey : ∀ j ∈ log, key' j = key j) (hsaved : ∀ j ∈ log, saved' j = saved j) :
    Restorable base store log key' saved' := by
  intro k
  have hk := h k
  rw [atKey_congr hkey k]
  cases hlast : (atKey log key k).getLast? with
  | none => simpa [hlast] using hk
  | some j =>
      have hj : j ∈ log := (List.mem_filter.mp (List.mem_of_getLast? hlast)).1
      rw [hlast] at hk
      exact (hsaved j hj).trans hk

theorem Restorable.push (h : Restorable base store log key saved)
    (hnew : saved i = store (key i)) (hrest : ∀ k, k ≠ key i → store' k = store k) :
    Restorable base store' (i :: log) key saved := by
  intro k
  have hk := h k
  by_cases hki : key i = k
  · have hcons : atKey (i :: log) key k = i :: atKey log key k := by
      simp [atKey, hki]
    rw [hcons, List.getLast?_cons]
    cases hlast : (atKey log key k).getLast? with
    | none =>
        rw [hlast] at hk
        simp only [Option.getD_none]
        rw [hnew, hki]
        exact hk
    | some j => simpa [hlast] using hk
  · have hcons : atKey (i :: log) key k = atKey log key k := by
      simp [atKey, hki]
    rw [hcons]
    cases hlast : (atKey log key k).getLast? with
    | none =>
        rw [hlast] at hk
        exact (hrest k (Ne.symm hki)).trans hk
    | some j => simpa [hlast] using hk

variable [DecidableEq Id]

theorem atKey_erase (k : Key) :
    atKey (log.erase i) key k = (atKey log key k).erase i := by
  simp [atKey, List.erase_filter]

theorem getLast?_erase_of_ne {l : List Id} {j : Id} (hlast : l.getLast? = some j)
    (hji : j ≠ i) : (l.erase i).getLast? = some j := by
  obtain ⟨front, rfl⟩ := List.getLast?_eq_some_iff.mp hlast
  by_cases hi : i ∈ front
  · simp [List.erase_append_left _ hi]
  · rw [List.erase_append_right _ hi]
    simp [hji]

theorem Restorable.undo (h : Restorable base store log key saved)
    (hmem : i ∈ log) (hmay : MayUndo log key i) (hvalue : store' (key i) = saved i)
    (hrest : ∀ k, k ≠ key i → store' k = store k) :
    Restorable base store' (log.erase i) key saved := by
  intro k
  have hk := h k
  rw [atKey_erase]
  by_cases hki : key i = k
  · subst hki
    rcases hmay with halone | hnewer
    · rw [halone] at hk ⊢
      simpa [hvalue] using hk
    · cases hlast : (atKey log key (key i)).getLast? with
      | none =>
          have hempty : atKey log key (key i) = [] := List.getLast?_eq_none_iff.mp hlast
          have hi : i ∈ atKey log key (key i) := List.mem_filter.mpr ⟨hmem, by simp⟩
          rw [hempty] at hi
          simp at hi
      | some j =>
          rw [hlast] at hk
          have hji : j ≠ i := by
            rintro rfl
            exact hnewer hlast
          rw [getLast?_erase_of_ne hlast hji]
          exact hk
  · have hout : i ∉ atKey log key k := by
      intro hmem
      exact hki (of_decide_eq_true (List.mem_filter.mp hmem).2)
    rw [List.erase_of_not_mem hout]
    cases hlast : (atKey log key k).getLast? with
    | none =>
        rw [hlast] at hk
        exact (hrest k (Ne.symm hki)).trans hk
    | some j =>
        rw [hlast] at hk
        exact hk

end PsplinkUsb.Library.UndoLog
