import PsplinkUsb.Library.Run
import PsplinkUsb.Library.UndoLog
import PsplinkUsb.Psplink.ApiHook

namespace PsplinkUsb.Psplink.ApiHookRestore

open PsplinkUsb.Psplink.ProgramMemory
open PsplinkUsb.Psplink.ApiHook
open PsplinkUsb.Library.Run
open PsplinkUsb.Library.UndoLog

/-- A hook table with the order in which the hooks in force were made, the
newest first. -/
structure Session where
  st : HookState
  made : List HookId

inductive HookOp where
  | create (req : HookRequest)
  | delete (id : Int)
deriving DecidableEq, Repr

def step (env : HookEnv) (t : Session) : HookOp → Option Session
  | .create req =>
      match findFreeHook t.st with
      | none => none
      | some id =>
          let made := apiHookGenericCommon env req t.st
          if made.1 = 1 then some { st := made.2, made := id :: t.made } else none
  | .delete id =>
      some
        { st := apiHookGenericDelete id t.st
          made :=
            match toHookId id with
            | none => t.made
            | some i => if (t.st.hooks i).func = 0 then t.made else t.made.erase i }

def start (base : Memory) : Session :=
  { st := { hooks := fun _ => ApiHookGeneric.empty, mem := base }, made := [] }

/-- The word a hook patched. -/
def site (s : HookState) (i : HookId) : Word := cell (s.hooks i).syscall

/-- The word a hook will write back. -/
def saved (s : HookState) (i : HookId) : Word := restoreWord (s.hooks i)

/-- The discipline under which deletion restores: the oldest hook of a word is
deleted after the other hooks on it, and no import is hooked whose jump leads
to address 0. -/
def oldestLast (t : Session) : HookOp → Prop
  | .create req =>
      req.imphook = true → jumpTarget (lw t.st.mem req.addr) req.addr ≠ 0
  | .delete id =>
      ∀ i, toHookId id = some i → (t.st.hooks i).func ≠ 0 → MayUndo t.made (site t.st) i

instance (t : Session) (op : HookOp) : Decidable (oldestLast t op) :=
  match op with
  | .create _ => inferInstanceAs (Decidable (_ → _))
  | .delete _ => inferInstanceAs (Decidable (∀ _, _))

structure Inv (base : Memory) (t : Session) : Prop where
  nodup : t.made.Nodup
  mem_made : ∀ i, i ∈ t.made ↔ (t.st.hooks i).func ≠ 0
  restorable : Restorable base t.st.mem t.made (site t.st) (saved t.st)

theorem start_inv (base : Memory) : Inv base (start base) where
  nodup := List.nodup_nil
  mem_made := by simp [start, ApiHookGeneric.empty]
  restorable := restorable_nil

theorem hookSite_some {env : HookEnv} {mem : Memory} {addr : Word} {imphook : Bool}
    {syscall target hookaddr : Word}
    (h : hookSite env mem addr imphook = some (syscall, target, hookaddr)) :
    (if imphook then jumpWord target else target) = lw mem syscall ∧
      ((imphook = true → jumpTarget (lw mem addr) addr ≠ 0) → target ≠ 0) := by
  unfold hookSite at h
  split at h
  · simp at h
  · rename_i haddr
    split at h
    · rename_i himp
      dsimp only at h
      split at h
      · simp at h
      · split at h
        · simp at h
        · rename_i hjump
          obtain ⟨rfl, rfl, -⟩ := by simpa using h
          rw [if_pos himp]
          exact ⟨jumpWord_jumpTarget addr (by simpa using hjump), fun hne => hne himp⟩
    · rename_i himp
      dsimp only at h
      split at h
      · simp at h
      · rename_i hfound
        obtain ⟨rfl, rfl, -⟩ := by simpa using h
        rw [if_neg himp]
        exact ⟨(lw_findSyscallAddr hfound).symm, fun _ => haddr⟩

theorem findFreeHook_some {s : HookState} {i : HookId} (h : findFreeHook s = some i) :
    (s.hooks i).func = 0 := by
  simpa using List.find?_some h

theorem apiHookGenericCommon_some {env : HookEnv} {req : HookRequest} {s : HookState}
    {id : HookId} (hfree : findFreeHook s = some id)
    (hok : (apiHookGenericCommon env req s).1 = 1) :
    ∃ hook : ApiHookGeneric, ∃ value : Word,
      restoreWord hook = lw s.mem hook.syscall ∧
      ((req.imphook = true → jumpTarget (lw s.mem req.addr) req.addr ≠ 0) →
        hook.func ≠ 0) ∧
      (apiHookGenericCommon env req s).2 =
        { hooks := Function.update s.hooks id hook, mem := sw s.mem value hook.syscall } := by
  unfold apiHookGenericCommon at hok ⊢
  rw [hfree] at hok ⊢
  dsimp only at hok ⊢
  split at hok
  · simp at hok
  · rename_i syscall target hookaddr hsite
    obtain ⟨hrestore, hfunc⟩ := hookSite_some hsite
    let hook : ApiHookGeneric :=
      { name := req.name.take (apihookMaxname - 1),
        param := req.format.take apihookMaxparam, ret := req.ret,
        func := target, syscall := syscall, sleep := req.sleep,
        imphook := req.imphook }
    let stub := stubAddress hookaddr id
    refine ⟨hook, if req.imphook then jumpWord stub else stub, hrestore, hfunc, ?_⟩
    dsimp only [hook]
    cases req.imphook <;> rfl

variable {base : Memory} {env : HookEnv} {t t' : Session}

theorem create_inv {req : HookRequest} (h : Inv base t)
    (hguard : oldestLast t (.create req)) (hstep : step env t (.create req) = some t') :
    Inv base t' := by
  simp only [step] at hstep
  split at hstep
  · simp at hstep
  · rename_i id hfree
    split at hstep
    · rename_i hok
      simp only [Option.some.injEq] at hstep
      subst hstep
      obtain ⟨hook, value, hrestore, hfunc, hst⟩ := apiHookGenericCommon_some hfree hok
      have hnew : id ∉ t.made := by
        rw [h.mem_made]
        simpa using findFreeHook_some hfree
      have hother : ∀ j ∈ t.made, Function.update t.st.hooks id hook j = t.st.hooks j := by
        intro j hj
        apply Function.update_of_ne
        rintro rfl
        exact hnew hj
      refine ⟨List.nodup_cons.mpr ⟨hnew, h.nodup⟩, ?_, ?_⟩
      · intro i
        rw [hst, List.mem_cons, h.mem_made]
        by_cases hi : i = id
        · subst hi
          simpa using hfunc hguard
        · simp [hi]
      · rw [hst]
        refine Restorable.push (h.restorable.congr ?_ ?_) ?_ ?_
        · intro j hj
          simp only [site, hother j hj]
        · intro j hj
          simp only [saved, hother j hj]
        · simpa [saved, site, lw] using hrestore
        · intro k hk
          exact sw_other _ _ _ (by simpa [site] using Ne.symm hk)
    · simp at hstep

theorem apiHookGenericDelete_eq {id : Int} {i : HookId} {s : HookState}
    (hid : toHookId id = some i) (hfunc : (s.hooks i).func ≠ 0) :
    apiHookGenericDelete id s =
      { hooks := Function.update s.hooks i { s.hooks i with func := 0 },
        mem := sw s.mem (saved s i) (s.hooks i).syscall } := by
  unfold apiHookGenericDelete
  rw [hid]
  dsimp only
  rw [if_neg hfunc]
  congr 1
  simp only [saved, restoreWord]
  cases (s.hooks i).imphook <;> rfl

theorem delete_inv {id : Int} (h : Inv base t) (hguard : oldestLast t (.delete id))
    (hstep : step env t (.delete id) = some t') : Inv base t' := by
  simp only [step, Option.some.injEq] at hstep
  subst hstep
  cases hid : toHookId id with
  | none => simpa [apiHookGenericDelete, hid] using h
  | some i =>
      by_cases hfunc : (t.st.hooks i).func = 0
      · simpa [apiHookGenericDelete, hid, hfunc] using h
      · rw [apiHookGenericDelete_eq hid hfunc]
        dsimp only
        rw [if_neg hfunc]
        have hother : ∀ j ∈ t.made.erase i, j ≠ i := by
          rintro j hj rfl
          exact h.nodup.not_mem_erase hj
        refine ⟨h.nodup.erase i, ?_, ?_⟩
        · intro j
          rw [h.nodup.mem_erase_iff, h.mem_made]
          by_cases hj : j = i
          · subst hj
            simp
          · simp [hj]
        · refine Restorable.congr (h.restorable.undo ((h.mem_made i).mpr hfunc)
            (hguard i hid hfunc) (sw_same _ _ _) ?_) ?_ ?_
          · intro k hk
            exact sw_other _ _ _ (Ne.symm hk)
          · intro j hj
            simp [site, hother j hj]
          · intro j hj
            simp [saved, hother j hj]

theorem step_inv {op : HookOp} (h : Inv base t) (hguard : oldestLast t op)
    (hstep : step env t op = some t') : Inv base t' := by
  cases op with
  | create req => exact create_inv h hguard hstep
  | delete id => exact delete_inv h hguard hstep

/-- If the oldest hook of every word is deleted last, and no hooked import
jumps to address 0, then once no hook is in force memory is what it was before
the first hook. -/
theorem hooks_restored {ops : List HookOp}
    (hrun : Reaches (step env) oldestLast (start base) ops t)
    (hnone : ∀ i, (t.st.hooks i).func = 0) : t.st.mem = base := by
  have h : Inv base t := hrun.invariant (start_inv base) fun _ _ _ => step_inv
  have hempty : t.made = [] := by
    apply List.eq_nil_iff_forall_not_mem.mpr
    intro i hi
    exact (h.mem_made i).mp hi (hnone i)
  have hrestorable := h.restorable
  rw [hempty] at hrestorable
  exact hrestorable.store_eq

section StackedHooks

/-! Two hooks stacked on one import word, the stub of the first being what the
second one saves. -/

def stackedBase : Memory := fun c => if c = 0x08000000#32 then 0x0A000400#32 else 0#32

def stackedEnv : HookEnv := { apiHook0 := 0x88100000#32, userdispatch := 0#32, syscallPtr := 0#32 }

def stackedRequest : HookRequest :=
  { addr := 0x88000000#32, imphook := true, name := [], ret := 118, format := [], sleep := 0 }

def oldestFirst : List HookOp :=
  [.create stackedRequest, .create stackedRequest, .delete 0, .delete 1]

def newestFirst : List HookOp :=
  [.create stackedRequest, .create stackedRequest, .delete 1, .delete 0]

def noHook (t : Session) : Bool := decide (∀ i, (t.st.hooks i).func = 0)

theorem hooks_restored_newestFirst :
    ∃ t, Reaches (step stackedEnv) oldestLast (start stackedBase) newestFirst t ∧
      t.st.mem = stackedBase := by
  have hfound : ∃ t, Reaches (step stackedEnv) oldestLast (start stackedBase) newestFirst t ∧
      noHook t = true := exists_reaches (by decide)
  obtain ⟨t, hrun, hnone⟩ := hfound
  exact ⟨t, hrun, hooks_restored hrun (of_decide_eq_true hnone)⟩

/-- Deleting the first of two stacked hooks first leaves the word jumping to the
stub of a hook that is gone. -/
theorem hooks_not_restored_oldestFirst :
    ∃ t, Reaches (step stackedEnv) anyStep (start stackedBase) oldestFirst t ∧
      (∀ i, (t.st.hooks i).func = 0) ∧
      lw t.st.mem stackedRequest.addr ≠ lw stackedBase stackedRequest.addr := by
  have hfound : ∃ t, Reaches (step stackedEnv) anyStep (start stackedBase) oldestFirst t ∧
      (noHook t &&
        lw t.st.mem stackedRequest.addr != lw stackedBase stackedRequest.addr) = true :=
    exists_reaches (by decide)
  obtain ⟨t, hrun, htest⟩ := hfound
  simp only [Bool.and_eq_true, bne_iff_ne] at htest
  exact ⟨t, hrun, of_decide_eq_true htest.1, htest.2⟩

end StackedHooks

end PsplinkUsb.Psplink.ApiHookRestore
