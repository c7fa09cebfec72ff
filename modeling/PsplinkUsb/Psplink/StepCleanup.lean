import PsplinkUsb.Psplink.StepLinks

namespace PsplinkUsb.Psplink.StepCleanup

open PsplinkUsb.Psplink.ProgramMemory
open PsplinkUsb.Psplink.BreakpointTable
open PsplinkUsb.Psplink.BreakpointConsistency
open PsplinkUsb.Psplink.StepArming
open PsplinkUsb.Psplink.StepLinks

variable {s : DebugState} {l : Ledger} {ctx : PsplinkContext} {i j k : Slot}

/-- The entry found at the address of the exception, when it stops the program once. -/
structure Hit (s : DebugState) (ctx : PsplinkContext) (i : Slot) : Prop where
  found : findBp s ctx.address = some i
  enabled : (s.bps i).disabled = false
  oneshot : (s.bps i).oneshot = true

/-- The thread stopped at an address that call `n` of `step_generic` armed. -/
def StopsAt (l : Ledger) (ctx : PsplinkContext) (n : ℕ) : Prop :=
  ∃ a, l.armed n a ∧ cell a = cell ctx.address

/-- A one-shot breakpoint goes with the entries of the call that armed it and with no others,
and the stop that ends a step leaves none of its entries. -/
structure Cleans (l : Ledger) (ctx : PsplinkContext) : Prop where
  hit : ∀ i, Hit l.debug ctx i → ∀ k, (l.call (.clearException ctx)).active k ↔
    l.active k ∧ l.owner k ≠ l.owner i
  ended : ∀ n, StopsAt l ctx n → ∀ k, (l.call (.clearException ctx)).active k →
    isStepBp ((l.call (.clearException ctx)).debug.bps k) = true →
    (l.call (.clearException ctx)).owner k ≠ n

/-- The `step` link of the entry hit is answered by a link back, or no other entry is at the
address left in the slot it names; and where the thread stopped at an address of a step with
entries left, the enabled entry there is one of them. -/
structure LinksKept (l : Ledger) (ctx : PsplinkContext) : Prop where
  answered : ∀ i j, Hit l.debug ctx i → (l.debug.bps i).step = some j →
    l.active j ∧ (l.debug.bps j).step = some i ∨
      ∀ k, l.active k → k ≠ i → cell (l.debug.bps k).addr ≠ cell (l.debug.bps j).addr
  own : ∀ n k, StopsAt l ctx n → l.active k → l.owner k = n →
    ∃ i, findBp l.debug ctx.address = some i ∧ (l.debug.bps i).disabled = false ∧ l.owner i = n

/-- Words with an entry have one. -/
def Cells (s : DebugState) : Prop :=
  ∀ i j, (s.bps i).active = true → (s.bps j).active = true →
    cell (s.bps i).addr = cell (s.bps j).addr → i = j

theorem debugDeleteBP_addr (a : Word) (s : DebugState) (k : Slot) :
    ((debugDeleteBP a s).2.bps k).addr = (s.bps k).addr := by
  rw [debugDeleteBP]
  rcases Option.eq_none_or_eq_some (findBp s a) with hfind | ⟨i, hfind⟩
  · rw [hfind]
  · rw [hfind]
    rcases eq_or_ne k i with rfl | hne
    · simp
    · simp [hne]

theorem debugDeleteBP_active (h : Cells s) (a : Word) (k : Slot) :
    ((debugDeleteBP a s).2.bps k).active = true ↔
      (s.bps k).active = true ∧ cell (s.bps k).addr ≠ cell a := by
  rw [debugDeleteBP]
  rcases Option.eq_none_or_eq_some (findBp s a) with hfind | ⟨i, hfind⟩
  · rw [hfind]
    exact ⟨fun hk => ⟨hk, findBp_none hfind hk⟩, fun hk => hk.1⟩
  · obtain ⟨hactive, hcell⟩ := findBp_some hfind
    rw [hfind]
    rcases eq_or_ne k i with rfl | hne
    ·       simp [Breakpoint.active, hcell]
    · simp only [DebugState.setBp_bps, unplant_bps, Function.update_of_ne hne]
      refine ⟨fun hk => ⟨hk, ?_⟩, fun hk => hk.1⟩
      intro hsame
      exact hne (h k i hk hactive (hsame.trans hcell.symm))

theorem debugDeleteBP_cells (h : Cells s) (a : Word) : Cells (debugDeleteBP a s).2 := by
  intro i j hi hj hcell
  rw [debugDeleteBP_addr, debugDeleteBP_addr] at hcell
  exact h i j ((debugDeleteBP_active h a i).mp hi).1 ((debugDeleteBP_active h a j).mp hj).1 hcell

theorem debugClearException_table (ctx : PsplinkContext) (s : DebugState) :
    (debugClearException ctx s).2 =
      match findBp s ctx.address with
      | none => s
      | some i =>
          if (s.bps i).disabled then s
          else if (s.bps i).oneshot then
            match (s.bps i).step with
            | none => (debugDeleteBP (s.bps i).addr s).2
            | some j => (debugDeleteBP (s.bps j).addr (debugDeleteBP (s.bps i).addr s).2).2
          else s := by
  have hcopied : (if ctx.type = psplinkExtypeDebug then { ctx with drcntl := s.hw.drcntl }
      else ctx).address = ctx.address := by
    split <;> rfl
  rw [debugClearException]
  generalize (if ctx.type = psplinkExtypeDebug then { ctx with drcntl := s.hw.drcntl }
    else ctx) = copied at hcopied
  have hfind : ∀ error, findBp s { copied with error := error }.address = findBp s ctx.address :=
    fun _ => congrArg (findBp s) hcopied
  simp only [hfind, debugDeleteBP_addr]
  cases findBp s ctx.address with
  | none => rfl
  | some i =>
      dsimp only
      split_ifs
      · rfl
      · cases (s.bps i).step <;> rfl
      · rfl

theorem debugClearException_hit (h : Hit s ctx i) :
    (debugClearException ctx s).2 =
      match (s.bps i).step with
      | none => (debugDeleteBP (s.bps i).addr s).2
      | some j => (debugDeleteBP (s.bps j).addr (debugDeleteBP (s.bps i).addr s).2).2 := by
  simp only [debugClearException_table, h.found, h.enabled, h.oneshot, Bool.false_eq_true,
    if_false, if_true]

theorem debugClearException_miss (h : ∀ i, ¬Hit s ctx i) : (debugClearException ctx s).2 = s := by
  rw [debugClearException_table]
  rcases Option.eq_none_or_eq_some (findBp s ctx.address) with hfind | ⟨i, hfind⟩
  · rw [hfind]
  · simp only [hfind]
    split
    · rfl
    · rename_i henabled
      split
      · rename_i honeshot
        exact absurd ⟨hfind, Bool.eq_false_iff.mpr henabled, honeshot⟩ (h i)
      · rfl

theorem clear_unlinked (hs : Cells s) (h : Hit s ctx i) (hstep : (s.bps i).step = none)
    (k : Slot) : ((debugClearException ctx s).2.bps k).active = true ↔
      (s.bps k).active = true ∧ k ≠ i := by
  have hactive := (findBp_some h.found).1
  rw [debugClearException_hit h, hstep]
  rw [debugDeleteBP_active hs]
  refine and_congr_right fun hk => not_congr ?_
  exact ⟨hs k i hk hactive, fun heq => heq ▸ rfl⟩

theorem clear_linked (hs : Cells s) (h : Hit s ctx i) (hstep : (s.bps i).step = some j)
    (k : Slot) : ((debugClearException ctx s).2.bps k).active = true ↔
      ((s.bps k).active = true ∧ k ≠ i) ∧ cell (s.bps k).addr ≠ cell (s.bps j).addr := by
  have hactive := (findBp_some h.found).1
  rw [debugClearException_hit h, hstep]
  rw [debugDeleteBP_active (debugDeleteBP_cells hs _), debugDeleteBP_addr,
    debugDeleteBP_active hs]
  refine and_congr_left fun _ => and_congr_right fun hk => not_congr ?_
  exact ⟨hs k i hk hactive, fun heq => heq ▸ rfl⟩

theorem cleans_hit_iff (h : Linked l) (hhit : Hit l.debug ctx i) :
    (∀ k, (l.call (.clearException ctx)).active k ↔ l.active k ∧ l.owner k ≠ l.owner i) ↔
      ∀ j, (l.debug.bps i).step = some j →
        l.active j ∧ (l.debug.bps j).step = some i ∨
          ∀ k, l.active k → k ≠ i → cell (l.debug.bps k).addr ≠ cell (l.debug.bps j).addr := by
  have hi : l.active i := (findBp_some hhit.found).1
  rcases Option.eq_none_or_eq_some (l.debug.bps i).step with hstep | ⟨j, hstep⟩
  · refine iff_of_true ?_ (by simp [hstep])
    intro k
    rw [show (l.call (.clearException ctx)).active k ↔ _ from
      clear_unlinked h.cells hhit hstep k]
    refine and_congr_right fun hk => not_congr ⟨fun heq => heq ▸ rfl, ?_⟩
    intro howner
    by_contra hne
    have hlink := h.partners i k hi hk howner.symm (Ne.symm hne)
    rw [hstep] at hlink
    cases hlink
  · simp only [hstep, Option.some.injEq, forall_eq']
    have hactive : ∀ k, (l.call (.clearException ctx)).active k ↔
        (l.active k ∧ k ≠ i) ∧ cell (l.debug.bps k).addr ≠ cell (l.debug.bps j).addr :=
      clear_linked h.cells hhit hstep
    constructor
    · intro hclean
      -- whatever else stands at the address of slot `j` is of the same call, so it is `j`
      by_contra! hno
      obtain ⟨hunanswered, k, hk, hne, hcell⟩ := hno
      have hgone : ¬(l.call (.clearException ctx)).active k := by
        rw [hactive k]
        exact fun hkept => hkept.2 hcell
      have howner : l.owner k = l.owner i := by
        by_contra howner
        exact hgone ((hclean k).mpr ⟨hk, howner⟩)
      have hlink := h.partners i k hi hk howner.symm (Ne.symm hne)
      rw [hstep] at hlink
      obtain rfl := Option.some.inj hlink
      exact hunanswered hk (h.partners j i hk hi howner hne)
    · intro hanswered k
      rw [hactive k]
      constructor
      · rintro ⟨⟨hk, hne⟩, hcell⟩
        refine ⟨hk, ?_⟩
        intro howner
        have hlink := h.partners i k hi hk howner.symm (Ne.symm hne)
        rw [hstep] at hlink
        obtain rfl := Option.some.inj hlink
        exact hcell rfl
      · rintro ⟨hk, howner⟩
        have hne : k ≠ i := fun heq => howner (heq ▸ rfl)
        refine ⟨⟨hk, hne⟩, ?_⟩
        rcases hanswered with ⟨hj, hback⟩ | halone
        · intro hcell
          obtain rfl := h.cells k j hk hj hcell
          exact howner (h.owner_eq hi hk hstep hback).symm
        · exact halone k hk hne

/-- An exception at the table of the ledger cleans up exactly when the links are kept. -/
theorem cleans_iff (h : Linked l) : Cleans l ctx ↔ LinksKept l ctx := by
  have hkept : ∀ k, (l.call (.clearException ctx)).active k →
      l.active k ∧ SameEntry (l.debug.bps k) ((l.call (.clearException ctx)).debug.bps k) :=
    debugClearException_shrinks ctx l.debug
  have howner : ∀ k, (l.call (.clearException ctx)).owner k = l.owner k :=
    fun k => owner_old (debugClearException_shrinks ctx l.debug).not_new
  have hflags : ∀ n k, StopsAt l ctx n → l.active k → l.owner k = n →
      StepFlags (l.debug.bps k) := by
    rintro n k ⟨a, harmed, -⟩ hk rfl
    exact h.flags k a hk harmed
  constructor
  · intro hclean
    refine ⟨fun i j hhit => (cleans_hit_iff h hhit).mp (hclean.hit i hhit) j, ?_⟩
    intro n k hstop hk hn
    have hgone : ¬(l.call (.clearException ctx)).active k := by
      intro hleft
      refine hclean.ended n hstop k hleft ?_ ((howner k).trans hn)
      rw [(hkept k hleft).2.isStep]
      exact (hflags n k hstop hk hn).2
    by_cases hhit : ∃ i, Hit l.debug ctx i
    · obtain ⟨i, hhit⟩ := hhit
      have hsame : l.owner k = l.owner i := by
        by_contra hne
        exact hgone ((hclean.hit i hhit k).mpr ⟨hk, hne⟩)
      exact ⟨i, hhit.found, hhit.enabled, hsame.symm.trans hn⟩
    · refine absurd ?_ hgone
      rw [Ledger.active, Ledger.call, applyCall,
        debugClearException_miss (not_exists.mp hhit)]
      exact hk
  · intro hlinks
    have hhits : ∀ i, Hit l.debug ctx i → ∀ k, (l.call (.clearException ctx)).active k ↔
        l.active k ∧ l.owner k ≠ l.owner i :=
      fun i hhit => (cleans_hit_iff h hhit).mpr (hlinks.answered i · hhit)
    refine ⟨hhits, ?_⟩
    intro n hstop k hleft _ hn
    rw [howner] at hn
    have hk := (hkept k hleft).1
    obtain ⟨i, hfound, henabled, hi⟩ := hlinks.own n k hstop hk hn
    have honeshot := (hflags n i hstop (findBp_some hfound).1 hi).1
    exact ((hhits i ⟨hfound, henabled, honeshot⟩ k).mp hleft).2 (hn.trans hi.symm)

/-- In every run from an empty table, the exceptions clean up exactly when the links are kept
up to each of them. -/
theorem step_cleanup_iff (program : Memory) (hw : HwDebugEnv) (calls : List Call) :
    (∀ (past : List Call) ctx rest, calls = past ++ .clearException ctx :: rest →
        Cleans (past.foldl Ledger.call (.empty program hw)) ctx) ↔
      ∀ (past : List Call) ctx rest, calls = past ++ .clearException ctx :: rest →
        LinksKept (past.foldl Ledger.call (.empty program hw)) ctx := by
  have hiff : ∀ (past : List Call) ctx, Cleans (past.foldl Ledger.call (.empty program hw)) ctx ↔
      LinksKept (past.foldl Ledger.call (.empty program hw)) ctx :=
    fun past _ => cleans_iff (run_linked (empty_linked program hw) past)
  simp only [hiff]

/-- A branch is stepped over, the breakpoint at its target is deleted and another one is set by
the user: it gets the slot of the deleted one and goes with the step. -/
theorem stale_link_deletes_user_breakpoint :
    let branch : PsplinkContext := ⟨0x08900000, 0, 0, fun _ => 0, 0, 0, 0⟩
    let calls : List Call :=
      [.step branch false, .deleteBP 0x08900044, .setBP 0x08A00000 0 0]
    let l := calls.foldl Ledger.call (.empty (fun _ => 0x10000010) ⟨0, 0, 0, 0⟩)
    ¬Cleans l { branch with epc := 0x08900008 } := by
  intro branch calls l hclean
  have hhit : Hit l.debug { branch with epc := 0x08900008 } 1 :=
    ⟨by decide, by decide, by decide⟩
  have huser : l.active 0 ∧ l.owner 0 ≠ l.owner 1 := by
    rw [Ledger.active]
    decide
  have hsurvives := (hclean.hit 1 hhit 0).mpr huser
  have hgone : ¬(l.call (.clearException { branch with epc := 0x08900008 })).active 0 := by
    rw [Ledger.active]
    decide
  exact hgone hsurvives

end PsplinkUsb.Psplink.StepCleanup
