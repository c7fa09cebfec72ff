import PsplinkUsb.Library.Patch
import PsplinkUsb.Psplink.BreakpointTable

namespace PsplinkUsb.Psplink.BreakpointConsistency

open PsplinkUsb.Psplink.ProgramMemory
open PsplinkUsb.Psplink.BreakpointTable
open PsplinkUsb.Library

/-- The word memory holds at the address of an active breakpoint. -/
def expectedWord (b : Breakpoint) : Word :=
  if b.hardware || b.disabled then b.inst else swBreakInst

/-- Agreement of the table with memory, `program` being memory without any
breakpoint. -/
structure Consistent (program : Memory) (s : DebugState) : Prop where
  cells : ∀ i j, (s.bps i).active = true → (s.bps j).active = true →
    cell (s.bps i).addr = cell (s.bps j).addr → i = j
  oneHardware : ∀ i j, (s.bps i).active = true → (s.bps j).active = true →
    (s.bps i).hardware = true → (s.bps j).hardware = true → i = j
  word : ∀ i, (s.bps i).active = true →
    s.mem (cell (s.bps i).addr) = expectedWord (s.bps i)
  saved : ∀ i, (s.bps i).active = true →
    (s.bps i).inst = program (cell (s.bps i).addr)
  untouched : ∀ c, (∀ i, (s.bps i).active = true → cell (s.bps i).addr ≠ c) →
    s.mem c = program c

def initial (program : Memory) (hw : HwDebugEnv) : DebugState :=
  { bps := fun _ => Breakpoint.zero, mem := program, hw := hw }

@[simp] theorem zero_active : Breakpoint.zero.active = false := rfl

theorem initial_consistent (program : Memory) (hw : HwDebugEnv) :
    Consistent program (initial program hw) := by
  constructor <;> simp [initial]

variable {program : Memory} {s s' : DebugState} {i : Slot} {b : Breakpoint}

theorem Consistent.rearm (h : Consistent program s)
    (hactive : (s.bps i).active = true)
    (haddr : b.addr = (s.bps i).addr) (hinst : b.inst = (s.bps i).inst)
    (hactive' : b.active = true) (hhardware : b.hardware = (s.bps i).hardware)
    (hbps : s'.bps = Function.update s.bps i b)
    (hword : s'.mem (cell b.addr) = expectedWord b)
    (hrest : ∀ c, cell b.addr ≠ c → s'.mem c = s.mem c) :
    Consistent program s' := by
  have hself : s'.bps i = b := by simp [hbps]
  have hother : ∀ j, j ≠ i → s'.bps j = s.bps j := by
    intro j hj
    simp [hbps, hj]
  have hsame : ∀ j, (s'.bps j).active = (s.bps j).active ∧
      (s'.bps j).addr = (s.bps j).addr ∧ (s'.bps j).inst = (s.bps j).inst ∧
      (s'.bps j).hardware = (s.bps j).hardware := by
    intro j
    by_cases hj : j = i
    · subst hj
      simp [hself, haddr, hinst, hactive, hactive', hhardware]
    · simp [hother j hj]
  constructor
  · intro j k hj hk hcell
    rw [(hsame j).1] at hj
    rw [(hsame k).1] at hk
    rw [(hsame j).2.1, (hsame k).2.1] at hcell
    exact h.cells j k hj hk hcell
  · intro j k hj hk hjhw hkhw
    rw [(hsame j).1] at hj
    rw [(hsame k).1] at hk
    rw [(hsame j).2.2.2] at hjhw
    rw [(hsame k).2.2.2] at hkhw
    exact h.oneHardware j k hj hk hjhw hkhw
  · intro j hj
    by_cases hji : j = i
    · subst hji
      rw [hself]
      exact hword
    · rw [(hsame j).1] at hj
      rw [hother j hji, hrest]
      · exact h.word j hj
      · intro hcell
        exact hji (h.cells i j hactive hj (haddr ▸ hcell)).symm
  · intro j hj
    rw [(hsame j).1] at hj
    rw [(hsame j).2.1, (hsame j).2.2.1]
    exact h.saved j hj
  · intro c hc
    have hfree : ∀ j, (s.bps j).active = true → cell (s.bps j).addr ≠ c := by
      intro j hj
      rw [← (hsame j).2.1]
      exact hc j ((hsame j).1.trans hj)
    rw [hrest c (haddr ▸ hfree i hactive)]
    exact h.untouched c hfree

/-- Deactivating a breakpoint whose saved instruction is back in memory. -/
theorem Consistent.remove (h : Consistent program s)
    (hactive : (s.bps i).active = true) (hgone : b.active = false)
    (hbps : s'.bps = Function.update s.bps i b)
    (hword : s'.mem (cell (s.bps i).addr) = (s.bps i).inst)
    (hrest : ∀ c, cell (s.bps i).addr ≠ c → s'.mem c = s.mem c) :
    Consistent program s' := by
  have hkept : ∀ j, (s'.bps j).active = true →
      j ≠ i ∧ s'.bps j = s.bps j ∧ (s.bps j).active = true := by
    intro j hj
    by_cases hji : j = i
    · subst hji
      simp [hbps, hgone] at hj
    · have hbp : s'.bps j = s.bps j := by simp [hbps, hji]
      exact ⟨hji, hbp, hbp ▸ hj⟩
  constructor
  · intro j k hj hk hcell
    obtain ⟨-, hbpj, hj⟩ := hkept j hj
    obtain ⟨-, hbpk, hk⟩ := hkept k hk
    exact h.cells j k hj hk (by rwa [hbpj, hbpk] at hcell)
  · intro j k hj hk hjhw hkhw
    obtain ⟨-, hbpj, hj⟩ := hkept j hj
    obtain ⟨-, hbpk, hk⟩ := hkept k hk
    exact h.oneHardware j k hj hk (hbpj ▸ hjhw) (hbpk ▸ hkhw)
  · intro j hj
    obtain ⟨hji, hbpj, hj⟩ := hkept j hj
    rw [hbpj, hrest]
    · exact h.word j hj
    · intro hcell
      exact hji (h.cells i j hactive hj hcell).symm
  · intro j hj
    obtain ⟨-, hbpj, hj⟩ := hkept j hj
    rw [hbpj]
    exact h.saved j hj
  · intro c hc
    by_cases hcell : cell (s.bps i).addr = c
    · subst hcell
      rw [hword]
      exact h.saved i hactive
    · rw [hrest c hcell]
      apply h.untouched
      intro j hj
      by_cases hji : j = i
      · subst hji
        exact hcell
      · have hbpj : s'.bps j = s.bps j := by simp [hbps, hji]
        rw [← hbpj]
        exact hc j (hbpj ▸ hj)

theorem Consistent.insert (h : Consistent program s)
    (hfree : (s.bps i).active = false)
    (hfresh : ∀ j, (s.bps j).active = true → cell (s.bps j).addr ≠ cell b.addr)
    (hinst : b.inst = s.mem (cell b.addr)) (hactive : b.active = true)
    (hhardware : b.hardware = true →
      ∀ j, (s.bps j).active = true → (s.bps j).hardware = false)
    (hbps : s'.bps = Function.update s.bps i b)
    (hword : s'.mem (cell b.addr) = expectedWord b)
    (hrest : ∀ c, cell b.addr ≠ c → s'.mem c = s.mem c) :
    Consistent program s' := by
  have hself : s'.bps i = b := by simp [hbps]
  have hother : ∀ j, j ≠ i → s'.bps j = s.bps j := by
    intro j hj
    simp [hbps, hj]
  have hprogram : b.inst = program (cell b.addr) :=
    hinst.trans (h.untouched _ hfresh)
  constructor
  · intro j k hj hk hcell
    by_cases hji : j = i <;> by_cases hki : k = i
    · rw [hji, hki]
    · subst hji
      rw [hother k hki] at hk hcell
      exact absurd hcell.symm (hself ▸ hfresh k hk)
    · subst hki
      rw [hother j hji] at hj hcell
      exact absurd hcell (hself ▸ hfresh j hj)
    · rw [hother j hji] at hj hcell
      rw [hother k hki] at hk hcell
      exact h.cells j k hj hk hcell
  · intro j k hj hk hjhw hkhw
    by_cases hji : j = i <;> by_cases hki : k = i
    · rw [hji, hki]
    · subst hji
      rw [hother k hki] at hk hkhw
      rw [hself] at hjhw
      simp [hhardware hjhw k hk] at hkhw
    · subst hki
      rw [hother j hji] at hj hjhw
      rw [hself] at hkhw
      simp [hhardware hkhw j hj] at hjhw
    · rw [hother j hji] at hj hjhw
      rw [hother k hki] at hk hkhw
      exact h.oneHardware j k hj hk hjhw hkhw
  · intro j hj
    by_cases hji : j = i
    · subst hji
      rw [hself]
      exact hword
    · rw [hother j hji] at hj ⊢
      rw [hrest _ (hfresh j hj).symm]
      exact h.word j hj
  · intro j hj
    by_cases hji : j = i
    · subst hji
      rw [hself]
      exact hprogram
    · rw [hother j hji] at hj ⊢
      exact h.saved j hj
  · intro c hc
    have hci : cell b.addr ≠ c := hself ▸ hc i (hself ▸ hactive)
    rw [hrest c hci]
    apply h.untouched
    intro j hj
    have hji : j ≠ i := by
      rintro rfl
      simp [hfree] at hj
    rw [← hother j hji]
    exact hc j (hother j hji ▸ hj)

theorem unplant_mem_self (h : Consistent program s)
    (hactive : (s.bps i).active = true) :
    (unplant s (s.bps i)).mem (cell (s.bps i).addr) = (s.bps i).inst := by
  cases hhw : (s.bps i).hardware with
  | true => simpa [unplant, expectedWord, hhw] using h.word i hactive
  | false => simp [unplant, hhw]

theorem unplant_mem_other {c : Word} (hcell : cell b.addr ≠ c) :
    (unplant s b).mem c = s.mem c := by
  cases hhw : b.hardware with
  | true => simp [unplant, hhw]
  | false => simp [unplant, hhw, sw_other _ _ _ hcell]

@[simp] theorem unplant_bps : (unplant s b).bps = s.bps := by
  cases hhw : b.hardware <;> simp [unplant, hhw]

theorem plant_mem_other {hardware : Bool} {address c : Word}
    (hcell : cell address ≠ c) : (plant s hardware address).mem c = s.mem c := by
  cases hardware with
  | true => simp [plant]
  | false => simp [plant, sw_other _ _ _ hcell]

@[simp] theorem plant_bps {hardware : Bool} {address : Word} :
    (plant s hardware address).bps = s.bps := by
  cases hardware <;> simp [plant]

/-- The flag words `debugSetBP` is called with: no caller sets a breakpoint up
in the disabled state. -/
abbrev SetFlags := { flags : Word // has flags debugBpDisabled = false }

theorem debugSetBP_consistent (h : Consistent program s) (address : Word)
    (flags : SetFlags) (thid : Int) :
    Consistent program (debugSetBP address flags thid s).2 := by
  unfold debugSetBP
  split
  · exact h
  · rename_i hnew
    split
    · exact h
    · rename_i hhw
      split
      · exact h
      · rename_i i hfree
        let b : Breakpoint :=
          { addr := address, inst := lw s.mem address,
            flags := debugBpActive ||| flags, thid := thid, step := none }
        have hhardware : b.hardware = has flags debugBpHardware := by
          change has _ _ = _
          rw [has_or]
          exact Bool.false_or _
        have hdisabled : b.disabled = false := by
          change has _ _ = _
          rw [has_or, flags.2]
          rfl
        refine h.insert (b := b) (findFreebp_some hfree) ?_ rfl ?_ ?_ (by simp [b]) ?_ ?_
        · intro j hj
          exact findBp_none hnew hj
        · change has _ _ = _
          rw [has_or]
          rfl
        · intro hb j hj
          rw [hhardware] at hb
          apply findHwbp_none _ hj
          simpa [hb] using hhw
        · change (plant s (has flags debugBpHardware) address).mem (cell address) = _
          cases hflag : has flags debugBpHardware with
          | true =>
              rw [expectedWord, hhardware, hflag]
              simp [plant, b, lw]
          | false => simp [plant, expectedWord, hhardware, hdisabled, hflag]
        · intro c hc
          exact plant_mem_other hc

theorem debugDeleteBP_consistent (h : Consistent program s) (addr : Word) :
    Consistent program (debugDeleteBP addr s).2 := by
  unfold debugDeleteBP
  split
  · exact h
  · rename_i i hfound
    have hactive := (findBp_some hfound).1
    exact h.remove (b := { s.bps i with flags := 0 }) hactive (has_zero _) (by simp)
      (unplant_mem_self h hactive) fun c hc => unplant_mem_other hc

theorem debugDisableBP_consistent (h : Consistent program s) (addr : Word) :
    Consistent program (debugDisableBP addr s).2 := by
  unfold debugDisableBP
  split
  · exact h
  · rename_i i hfound
    have hactive := (findBp_some hfound).1
    let b : Breakpoint :=
      { s.bps i with flags := (s.bps i).flags ||| debugBpDisabled }
    have hdisabled : b.disabled = true := by
      change has _ _ = _
      rw [has_or]
      exact Bool.or_true _
    refine h.rearm (b := b) hactive rfl rfl ?_ ?_ (by simp [b]) ?_ ?_
    · change has _ _ = _
      rw [has_or]
      exact Bool.or_eq_true_iff.mpr (Or.inl hactive)
    · change has _ _ = has _ _
      rw [has_or]
      exact Bool.or_false _
    · simpa [expectedWord, hdisabled] using unplant_mem_self h hactive
    · intro c hc
      exact unplant_mem_other hc

theorem debugEnableBP_consistent (h : Consistent program s) (addr : Word) :
    Consistent program (debugEnableBP addr s).2 := by
  unfold debugEnableBP
  split
  · exact h
  · rename_i i hfound
    have hactive := (findBp_some hfound).1
    let b : Breakpoint :=
      { s.bps i with
        flags := (s.bps i).flags &&& ~~~(debugBpDisabled ||| debugBpNextReenable) }
    have hhardware : b.hardware = (s.bps i).hardware := by
      change has _ _ = has _ _
      rw [has_and]
      rfl
    have hdisabled : b.disabled = false := by
      change has _ _ = _
      rw [has_and]
      simp [has, debugBpDisabled, debugBpNextReenable]
    refine h.rearm (b := b) hactive rfl rfl ?_ hhardware (by simp [b]) ?_ ?_
    · rw [← hactive]
      change has _ _ = has _ _
      rw [has_and]
      rfl
    · change (plant s (s.bps i).hardware (s.bps i).addr).mem (cell (s.bps i).addr) = _
      cases hhw : (s.bps i).hardware with
      | true => simpa [plant, expectedWord, hhardware, hhw, b] using h.word i hactive
      | false => simp [plant, expectedWord, hhardware, hdisabled, hhw]
    · intro c hc
      exact plant_mem_other hc

theorem debugClearException_consistent (h : Consistent program s)
    (ctx : PsplinkContext) : Consistent program (debugClearException ctx s).2 := by
  unfold debugClearException
  dsimp only
  split
  · exact h
  · split
    · exact h
    · split
      · split
        · exact debugDeleteBP_consistent h _
        · exact debugDeleteBP_consistent (debugDeleteBP_consistent h _) _
      · exact h

inductive DebugOp where
  | setBP (address : Word) (flags : SetFlags) (thid : Int)
  | deleteBP (addr : Word)
  | disableBP (addr : Word)
  | enableBP (addr : Word)
  | clearException (ctx : PsplinkContext)

def applyOp (s : DebugState) : DebugOp → DebugState
  | .setBP address flags thid => (debugSetBP address flags thid s).2
  | .deleteBP addr => (debugDeleteBP addr s).2
  | .disableBP addr => (debugDisableBP addr s).2
  | .enableBP addr => (debugEnableBP addr s).2
  | .clearException ctx => (debugClearException ctx s).2

theorem applyOp_consistent (h : Consistent program s) (op : DebugOp) :
    Consistent program (applyOp s op) := by
  cases op with
  | setBP address flags thid => exact debugSetBP_consistent h address flags thid
  | deleteBP addr => exact debugDeleteBP_consistent h addr
  | disableBP addr => exact debugDisableBP_consistent h addr
  | enableBP addr => exact debugEnableBP_consistent h addr
  | clearException ctx => exact debugClearException_consistent h ctx

theorem run_consistent (h : Consistent program s) (ops : List DebugOp) :
    Consistent program (ops.foldl applyOp s) := by
  induction ops generalizing s with
  | nil => exact h
  | cons op ops ih => exact ih (applyOp_consistent h op)

/-- The writes that put the saved instruction of every active entry back. -/
def restorePatches (s : DebugState) : List (Word × Word) :=
  ((List.finRange debugMaxBps).filter fun i => (s.bps i).active).map
    fun i => (cell (s.bps i).addr, (s.bps i).inst)

theorem Consistent.restored (h : Consistent program s) :
    Patch.applyAll (restorePatches s) s.mem = program := by
  apply Patch.applyAll_eq_base
  · intro p hp
    simp only [restorePatches, List.mem_map, List.mem_filter] at hp
    obtain ⟨i, ⟨-, hactive⟩, rfl⟩ := hp
    exact h.saved i hactive
  · intro c hc
    apply h.untouched
    intro i hactive
    exact hc (cell (s.bps i).addr, (s.bps i).inst) (by
      simp only [restorePatches, List.mem_map, List.mem_filter]
      exact ⟨i, ⟨List.mem_finRange i, hactive⟩, rfl⟩)

/-- After any sequence of breakpoint calls from an empty table, no two active
entries share a word and at most one is a hardware one; memory holds the break
instruction at enabled software entries and the saved instruction at the
others; and undoing the active entries gives the initial program back. -/
theorem breakpoint_patches_consistent (program : Memory) (hw : HwDebugEnv)
    (ops : List DebugOp) :
    let s := ops.foldl applyOp (initial program hw)
    (∀ i j, (s.bps i).active = true → (s.bps j).active = true →
      (s.bps i).addr.toNat % 0x10000000 = (s.bps j).addr.toNat % 0x10000000 → i = j) ∧
    (∀ i j, (s.bps i).active = true → (s.bps j).active = true →
      (s.bps i).hardware = true → (s.bps j).hardware = true → i = j) ∧
    (∀ i, (s.bps i).active = true → (s.bps i).hardware = false →
      (s.bps i).disabled = false → lw s.mem (s.bps i).addr = swBreakInst) ∧
    (∀ i, (s.bps i).active = true →
      ((s.bps i).hardware = true ∨ (s.bps i).disabled = true) →
      lw s.mem (s.bps i).addr = (s.bps i).inst) ∧
    Patch.applyAll (restorePatches s) s.mem = program ∧
    ((∀ i, (s.bps i).active = false) → s.mem = program) := by
  intro s
  have h : Consistent program s := run_consistent (initial_consistent program hw) ops
  refine ⟨?_, h.oneHardware, ?_, ?_, h.restored, ?_⟩
  · intro i j hi hj hmod
    exact h.cells i j hi hj ((cell_eq_iff _ _).mpr hmod)
  · intro i hi hhw hdisabled
    simpa [lw, expectedWord, hhw, hdisabled] using h.word i hi
  · rintro i hi (hhw | hdisabled)
    · simpa [lw, expectedWord, hhw] using h.word i hi
    · simpa [lw, expectedWord, hdisabled] using h.word i hi
  · intro hempty
    funext c
    exact h.untouched c fun i hi => by simp [hempty i] at hi

end PsplinkUsb.Psplink.BreakpointConsistency
