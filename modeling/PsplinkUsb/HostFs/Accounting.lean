import PsplinkUsb.UsbHostfsPc.PlainFile

namespace PsplinkUsb.HostFs.Accounting

open PsplinkUsb.HostFs.Wire
open PsplinkUsb.UsbHostfsPc.OsCalls
open PsplinkUsb.UsbHostfsPc.PlainFile

/-- What a transfer comes to: the value it returns, the bytes moved by requests that
succeeded, and all bytes moved. -/
structure Tally where
  ret : ℤ
  stored : ℕ
  moved : ℕ
deriving DecidableEq

/-- The tally of requests of the given sizes where there is room for `room` bytes,
after `done` bytes. -/
def tally : List ℕ → ℕ → List Outcome → ℕ → Tally
  | [], _, _, done => { ret := done, stored := done, moved := done }
  | asked :: later, room, script, done =>
      let r := move asked room script
      match r.error with
      | some e =>
          { ret := if done = 0 then (getError e).toInt else done
            stored := done, moved := done + r.bytes }
      | none =>
          if r.bytes = 0 then { ret := done, stored := done, moved := done }
          else tally later (room - r.bytes) r.script (done + r.bytes)

/-- No error but EINTR strikes a request that has begun to move bytes after an earlier
request has moved some. The arguments are the results to come, the room, the bytes
missing in the current request, whether it has begun, whether there was an earlier one,
and the sizes of the later ones. -/
def undisturbed : List Outcome → ℕ → ℕ → Bool → Bool → List ℕ → Bool
  | [], _, _, _, _, _ => true
  | .fail e :: rest, room, missing, begun, earlier, later =>
      if e = eintr then undisturbed rest room missing begun earlier later
      else !(begun && earlier)
  | .upto k :: rest, room, missing, begun, earlier, later =>
      let n := min k (min missing room)
      -- a transfer of nothing ends a request, and the call if the request moved nothing
      if n = 0 ∧ begun = false then true
      else if n = 0 ∨ n = missing then
        match later with
        | [] => true
        | asked :: later => undisturbed rest (room - n) asked false true later
      else undisturbed rest (room - n) (missing - n) true earlier later

/-- `undisturbed` for requests of which none has begun. -/
def undisturbedFrom (script : List Outcome) (room : ℕ) (earlier : Bool) : List ℕ → Bool
  | [] => true
  | asked :: later => undisturbed script room asked false earlier later

theorem undisturbed_move {missing : ℕ} (hmissing : 0 < missing) (script : List Outcome) (room : ℕ)
    (begun earlier : Bool) (later : List ℕ) :
    undisturbed script room missing begun earlier later =
      match (move missing room script).error with
      | some _ => !((begun || decide (0 < (move missing room script).bytes)) && earlier)
      | none =>
          if (move missing room script).bytes = 0 ∧ begun = false then true
          else
            undisturbedFrom (move missing room script).script
              (room - (move missing room script).bytes) true later := by
  induction script generalizing missing room begun with
  | nil => cases later <;> simp [undisturbed, move, undisturbedFrom]
  | cons outcome rest ih =>
      cases outcome with
      | fail e =>
          rw [undisturbed, move, if_neg hmissing.ne']
          split
          · exact ih hmissing room begun
          · simp
      | upto k =>
          simp only [undisturbed, move, if_neg hmissing.ne']
          generalize hn : min k (min missing room) = n
          have hle : n ≤ missing := by omega
          rcases Nat.eq_zero_or_pos n with rfl | hpos
          · cases begun
            · simp
            · cases later <;> simp [undisturbedFrom]
          · rcases hle.eq_or_lt with rfl | hlt
            · cases later <;> simp [hpos.ne', move_zero, undisturbedFrom]
            · rw [if_neg (by omega), if_neg (by omega), if_neg hpos.ne', ih (by omega)]
              simp only
              split
              · simp [hpos]
              · rw [if_neg (by simp), if_neg (by omega), Nat.sub_sub]

/-- A value that is not negative is the number of bytes moved by requests that
succeeded. -/
theorem ret_eq_stored {requests : List ℕ} {room : ℕ} {script : List Outcome} {done : ℕ}
    (hret : 0 ≤ (tally requests room script done).ret) :
    (tally requests room script done).ret = (tally requests room script done).stored := by
  induction requests generalizing room script done with
  | nil => rfl
  | cons asked later ih =>
      simp only [tally] at hret ⊢
      split
      · rename_i e he
        simp only [he] at hret
        split
        · rename_i hdone
          rw [if_pos hdone] at hret
          exact absurd (getError_toInt_neg e) (by omega)
        · rfl
      · rename_i he
        simp only [he] at hret
        split
        · rfl
        · rename_i hbytes
          rw [if_neg hbytes] at hret
          exact ih hret

/-- Where the value is not negative, no bytes were moved beside those counted, exactly
when no error strikes a request that has begun, after an earlier one. -/
theorem moved_eq_stored_iff {requests : List ℕ} (hrequests : ∀ n ∈ requests, 0 < n) (room : ℕ)
    (script : List Outcome) (done : ℕ) :
    (0 ≤ (tally requests room script done).ret →
        (tally requests room script done).moved = (tally requests room script done).stored) ↔
      undisturbedFrom script room (decide (0 < done)) requests = true := by
  induction requests generalizing room script done with
  | nil => simp [tally, undisturbedFrom]
  | cons asked later ih =>
      have hasked := hrequests asked (List.mem_cons_self ..)
      have hlater : ∀ n ∈ later, 0 < n := fun n hn => hrequests n (List.mem_cons_of_mem _ hn)
      simp only [tally, undisturbedFrom, undisturbed_move hasked]
      generalize move asked room script = r
      rcases r.error with _ | e
      · rcases Nat.eq_zero_or_pos r.bytes with hzero | hpos
        · simp [hzero]
        · have hdone : decide (0 < done + r.bytes) = true := decide_eq_true (by omega)
          simp only [if_neg hpos.ne', if_neg (fun h : _ ∧ _ => hpos.ne' h.1), ih hlater, hdone]
          exact Iff.rfl
      · have hneg := getError_toInt_neg e
        rcases Nat.eq_zero_or_pos done with rfl | hpos
        · simp [hneg]
        · simp [hpos, hpos.ne']

theorem ret_eq_moved_iff {requests : List ℕ} (hrequests : ∀ n ∈ requests, 0 < n) (room : ℕ)
    (script : List Outcome) :
    (0 ≤ (tally requests room script 0).ret →
        (tally requests room script 0).ret = (tally requests room script 0).moved) ↔
      undisturbedFrom script room false requests = true := by
  have hiff := moved_eq_stored_iff hrequests room script 0
  rw [show decide (0 < 0) = false from rfl] at hiff
  rw [← hiff]
  refine forall_congr' fun hnonneg => ?_
  rw [ret_eq_stored hnonneg, Nat.cast_inj]
  exact eq_comm

def Smooth (script : List Outcome) : Prop :=
  ∀ outcome ∈ script, outcome = .fail eintr ∨ ∃ k, 0 < k ∧ outcome = .upto k

theorem move_smooth {script : List Outcome} (hscript : Smooth script) (asked room : ℕ) :
    (move asked room script).bytes = min asked room ∧ (move asked room script).error = none ∧
      Smooth (move asked room script).script := by
  induction script generalizing asked room with
  | nil => exact ⟨rfl, rfl, hscript⟩
  | cons outcome rest ih =>
      have hrest : Smooth rest := fun o ho => hscript o (List.mem_cons_of_mem _ ho)
      rcases Nat.eq_zero_or_pos asked with rfl | hpos
      · rw [move_zero, Nat.zero_min]
        exact ⟨rfl, rfl, hscript⟩
      · rcases hscript outcome (List.mem_cons_self ..) with rfl | ⟨k, hk, rfl⟩
        · rw [move, if_neg hpos.ne', if_pos rfl]
          exact ih hrest asked room
        · simp only [move, if_neg hpos.ne']
          split
          · refine ⟨?_, rfl, hrest⟩
            simp only
            omega
          · obtain ⟨hbytes, herror, hsmooth⟩ :=
              ih hrest (asked - min k (min asked room)) (room - min k (min asked room))
            refine ⟨?_, herror, hsmooth⟩
            simp only [hbytes]
            omega

/-- Without errors a transfer moves all that is asked for and there is. -/
theorem tally_smooth {script : List Outcome} (hscript : Smooth script) {requests : List ℕ}
    (hrequests : ∀ n ∈ requests, 0 < n) (room done : ℕ) :
    tally requests room script done =
      { ret := (done + min requests.sum room : ℕ)
        stored := done + min requests.sum room
        moved := done + min requests.sum room } := by
  induction requests generalizing room script done with
  | nil => simp [tally]
  | cons asked later ih =>
      have hasked := hrequests asked (List.mem_cons_self ..)
      obtain ⟨hbytes, herror, hsmooth⟩ := move_smooth hscript asked room
      simp only [tally, herror, hbytes, List.sum_cons]
      split
      · have hmin : min (asked + later.sum) room = 0 := by omega
        rw [hmin, Nat.add_zero]
      · have hmin : done + min asked room + min later.sum (room - min asked room) =
            done + min (asked + later.sum) room := by omega
        rw [ih hsmooth fun n hn => hrequests n (List.mem_cons_of_mem _ hn), hmin]

/-- The sizes of the requests in which `len` bytes are transferred. -/
def requestSizes (len : ℕ) : List ℕ :=
  List.replicate (len / hostfsMaxBlock) hostfsMaxBlock ++
    if 0 < len % hostfsMaxBlock then [len % hostfsMaxBlock] else []

theorem sum_requestSizes (len : ℕ) : (requestSizes len).sum = len := by
  have hdiv := Nat.div_add_mod len hostfsMaxBlock
  rw [requestSizes, List.sum_append, List.sum_replicate_nat, Nat.mul_comm]
  split
  · simpa using hdiv
  · simp only [List.sum_nil]
    omega

theorem requestSizes_pos {len n : ℕ} (hn : n ∈ requestSizes len) : 0 < n := by
  rcases List.mem_append.mp hn with hn | hn
  · rw [List.eq_of_mem_replicate hn]
    decide
  · split at hn
    · rename_i hpos
      rwa [List.mem_singleton.mp hn]
    · simp at hn

theorem requestSizes_le {len n : ℕ} (hn : n ∈ requestSizes len) : n ≤ hostfsMaxBlock := by
  rcases List.mem_append.mp hn with hn | hn
  · exact (List.eq_of_mem_replicate hn).le
  · split at hn
    · rw [List.mem_singleton.mp hn]
      exact (Nat.mod_lt _ (by decide)).le
    · simp at hn

end PsplinkUsb.HostFs.Accounting
