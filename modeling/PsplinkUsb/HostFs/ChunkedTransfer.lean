import PsplinkUsb.HostFs.Accounting
import PsplinkUsb.HostFs.Framing

namespace PsplinkUsb.HostFs.ChunkedTransfer

open PsplinkUsb.Library.Duplex
open PsplinkUsb.Library.Settling
open PsplinkUsb.HostFs.Wire
open PsplinkUsb.HostFs.Exchange
open PsplinkUsb.HostFs.Answers
open PsplinkUsb.HostFs.Requests
open PsplinkUsb.HostFs.Framing
open PsplinkUsb.HostFs.Accounting
open PsplinkUsb.UsbHostfs.CommandXchg
open PsplinkUsb.UsbHostfs.HostDriver
open PsplinkUsb.UsbHostfsPc.OsCalls
open PsplinkUsb.UsbHostfsPc.HostFiles
open PsplinkUsb.UsbHostfsPc.Handlers
open PsplinkUsb.UsbHostfsPc.PlainFile

theorem bytesAt_append (buf : Buffer) (offset n m : ℕ) :
    bytesAt buf offset n ++ bytesAt buf (offset + n) m = bytesAt buf offset (n + m) := by
  simp only [bytesAt, List.range_add, List.map_append, List.map_map, Function.comp_def,
    Nat.add_assoc]

theorem take_bytesAt (buf : Buffer) (offset : ℕ) {n m : ℕ} (hle : m ≤ n) :
    (bytesAt buf offset n).take m = bytesAt buf offset m := by
  rw [bytesAt, ← List.map_take, List.take_range, Nat.min_eq_left hle]
  rfl

@[simp] theorem storeAt_nil (buf : Buffer) (offset : ℕ) : storeAt buf offset [] = buf := by
  funext i
  simp [storeAt]

theorem storeAt_append (buf : Buffer) (offset : ℕ) (first second : Bytes) :
    storeAt (storeAt buf offset first) (offset + first.length) second =
      storeAt buf offset (first ++ second) := by
  funext i
  simp only [storeAt]
  rcases Nat.lt_or_ge i offset with hbefore | hfirst
  · rw [if_neg (by omega), if_neg (by omega), if_neg (by omega)]
  · rw [if_pos hfirst, if_pos hfirst]
    rcases Nat.lt_or_ge i (offset + first.length) with hlt | hge
    · rw [if_neg (by omega), List.getElem?_append_left (by omega)]
    · rw [if_pos hge, List.getElem?_append_right (by omega), Nat.sub_sub,
        List.getElem?_eq_none (by omega : first.length ≤ i - offset), Option.getD_none]

/-- The transfer loop over a list of request sizes. -/
def transferList (request : ℕ → Progress → (Progress → TransferProg) → TransferProg) :
    List ℕ → Progress → TransferProg
  | [], p => p.stop p.ret
  | n :: later, p => request n p (transferList request later)

theorem transferBlocks_eq (request : ℕ → Progress → (Progress → TransferProg) → TransferProg)
    (residual blocks : ℕ) :
    transferBlocks request residual blocks =
      transferList request
        (List.replicate blocks hostfsMaxBlock ++ if 0 < residual then [residual] else []) := by
  induction blocks with
  | zero =>
      funext p
      rw [transferBlocks, List.replicate_zero, List.nil_append]
      split
      · rfl
      · rfl
  | succ blocks ih =>
      funext p
      rw [transferBlocks, ih, List.replicate_succ, List.cons_append]
      rfl

theorem transferData_eq (request : ℕ → Progress → (Progress → TransferProg) → TransferProg)
    (buf : Buffer) (n : ℕ) :
    transferData request (some buf) n =
      transferList request (requestSizes n) { offset := 0, ret := 0, buf := buf } := by
  unfold transferData
  rw [if_neg (Int.not_lt.mpr (Int.natCast_nonneg n))]
  split
  · rename_i hzero
    obtain rfl := Int.natCast_eq_zero.mp hzero
    rfl
  · simp only [Int.toNat_natCast, transferBlocks_eq, requestSizes]

/-- How a transfer goes on after a request that returned `res`. -/
def afterRes (res : Word) (p : Progress) (next : Progress → TransferProg) : TransferProg :=
  if 0 < res.toInt then
    next { p with offset := p.offset + res.toNat, ret := p.ret + res.toInt }
  else p.stop (if res.toInt < 0 ∧ p.ret = 0 then res.toInt else p.ret)

theorem afterRequest_taken {command : HostFsCommand} {r : Reply} {res : Word}
    (hfields : r.fields = le32 res) (p : Progress) (next : Progress → TransferProg) :
    afterRequest (takenReply command r) p next =
      afterRes res p next := by
  rw [afterRequest, takenReply_res hfields]
  rfl

theorem toInt_ofNat_block {n : ℕ} (hn : n ≤ hostfsMaxBlock) :
    (BitVec.ofNat 32 n).toInt = n ∧ (BitVec.ofNat 32 n).toNat = n := by
  rw [hostfsMaxBlock] at hn
  have hnat : (BitVec.ofNat 32 n).toNat = n := by
    rw [BitVec.toNat_ofNat]
    omega
  refine ⟨?_, hnat⟩
  rw [BitVec.toInt_eq_toNat_of_lt (by omega), hnat]

def after (n : ℕ) (buf : Buffer) : Progress := { offset := n, ret := n, buf := buf }

/-- How a transfer goes on after a request that came to `r`. -/
def afterMoved (r : Moved) (done : ℕ) (buf : Buffer) (next : Progress → TransferProg) :
    TransferProg :=
  match r.error with
  | some e => .ret (if done = 0 then (getError e).toInt else done, some buf)
  | none => if r.bytes = 0 then .ret (done, some buf) else next (after (done + r.bytes) buf)

theorem afterRes_result {r : Moved} (hbytes : r.bytes ≤ hostfsMaxBlock) (done : ℕ) (buf : Buffer)
    (next : Progress → TransferProg) :
    afterRes (r.result 0) (after done buf) next = afterMoved r done buf next := by
  obtain ⟨bytes, error, script⟩ := r
  cases error with
  | some e =>
      have hneg := getError_toInt_neg e
      simp only [Moved.result, afterMoved]
      rw [afterRes, if_neg (by omega)]
      simp [Progress.stop, after, hneg]
  | none =>
      obtain ⟨hint, hnat⟩ := toInt_ofNat_block hbytes
      simp only [Moved.result, afterMoved, Nat.zero_add]
      rw [afterRes, hint, hnat]
      rcases Nat.eq_zero_or_pos bytes with rfl | hpos
      · simp [Progress.stop, after]
      · rw [if_pos (Int.natCast_pos.mpr hpos), if_neg hpos.ne']
        simp [after]

def written (f : FileState) (buf : Buffer) (done : ℕ) (r : Moved) : FileState where
  content := overwrite f.content f.offset (bytesAt buf done r.bytes)
  offset := f.offset + r.bytes
  script := r.script

def consumed (f : FileState) (r : Moved) : FileState :=
  { f with offset := f.offset + r.bytes, script := r.script }

/-- The bytes a request that came to `r` returns: none in case of an error. -/
def returned (f : FileState) (r : Moved) : Bytes :=
  if r.error = none then (f.content.drop f.offset).take r.bytes else []

section

variable {h h' : Host FileState} {fd : Word} {fid : Fin maxFiles} {n done : ℕ} {buf : Buffer}
  {next : Progress → TransferProg} {a : ℤ × Option Buffer}

theorem runs_writeBlock (hfd : toSlot fd = some fid) (hopen : (h.openFiles fid).opened = true)
    (hpos : 0 < n) (hle : n ≤ hostfsMaxBlock) {room : ℕ} (hroom : n ≤ room)
    (hrest : Runs fileOs (afterMoved (move n room h.os.script) done buf next)
      { h with os := written h.os buf done (move n room h.os.script) } a h') :
    Runs fileOs (writeBlock true fd n (after done buf) next) h a h' := by
  let req := writeRequest fd (bytesAt buf done n)
  have hreq : Sendable req := sendable_write (by simpa using hpos) (by simpa using hle)
  have hbytes : (move n room h.os.script).bytes ≤ n :=
    (move_le ..).trans (Nat.min_le_left ..)
  have hwrite : fixedWrite fileOs fid req.outdata 0 h.os =
      ((move n room h.os.script).result 0, written h.os buf done (move n room h.os.script)) := by
    have hwrite := fixedWrite_fileOs fid
      (by rwa [length_bytesAt] : (bytesAt buf done n).length ≤ room) 0 h.os
    rwa [length_bytesAt, take_bytesAt buf done hbytes] at hwrite
  generalize move n room h.os.script = r at hrest hbytes hwrite
  have hfield : field32 req.outcmd 12 = fd :=
    @field32_outcmd .write _ [] _ _ _ 12 fd [] (List.append_nil _).symm rfl
  have hreply : writeFile fileOs req.outcmd req.outdata h =
      (.res (r.result 0), { h with os := written h.os buf done r }) := by
    simp only [writeFile, hfield, hfd, hopen, if_true, hwrite]
  have hanswers : Answers .write (doHostfs fileOs h req.outcmd) req.outdata
      (.res (r.result 0), { h with os := written h.os buf done r }) := by
    rw [← hreply, doHostfs_outcmd]
    exact answers_handleData hreq.outcmd_length (by rw [decode_outcmd]; exact hreq.expected)
      (by rw [decode_outcmd]; exact hreq.outdata_length)
  refine runs_of_answers hreq hanswers (replyOk_res rfl _) ?_
  rw [afterRequest_taken rfl, afterRes_result (hbytes.trans hle)]
  exact hrest

theorem runs_readBlock (hfd : toSlot fd = some fid) (hopen : (h.openFiles fid).opened = true)
    (hpos : 0 < n) (hle : n ≤ hostfsMaxBlock)
    (hrest : Runs fileOs
      (afterMoved (move n h.os.left h.os.script) done
        (storeAt buf done (returned h.os (move n h.os.left h.os.script))) next)
      { h with os := consumed h.os (move n h.os.left h.os.script) } a h') :
    Runs fileOs (readBlock true fd n (after done buf) next) h a h' := by
  let req := readRequest fd n
  have hreq : Sendable req := sendable_read hpos hle
  obtain ⟨hnil, hinlen, hlen⟩ := hreq.expected
  have hbytes : (move n h.os.left h.os.script).bytes ≤ hostfsMaxBlock :=
    (move_le ..).trans ((Nat.min_le_left ..).trans hle)
  have hread := fixedRead_fileOs fid n [] h.os
  generalize move n h.os.left h.os.script = r at hrest hbytes hread
  have hfield : field32 req.outcmd 12 = fd :=
    @field32_outcmd .read _ [] _ _ _ 12 fd (le32 (BitVec.ofNat 32 n)) rfl rfl
  have hsize : (field32 req.outcmd 16).toNat = n := by
    rw [readRequest_len]
    exact (toInt_ofNat_block hle).2
  let reply : Reply :=
    { extralen := if 0 ≤ (r.result 0).toInt then r.result 0 else 0
      fields := le32 (r.result 0)
      data := (h.os.content.drop h.os.offset).take r.bytes }
  have hreply : readFile fileOs req.outcmd h = (reply, { h with os := consumed h.os r }) := by
    simp only [readFile, hfield, hfd, hopen, if_true, hsize, hread]
    rfl
  have hok : ReplyOk req reply := by
    have hok := @readFile_replyOk FileState fileOs req rfl hinlen req.outcmd hlen h
    rwa [hreply] at hok
  have hanswers : Answers .read (doHostfs fileOs h req.outcmd) req.outdata
      (reply, { h with os := consumed h.os r }) := by
    rw [← hreply, doHostfs_outcmd, hnil]
    exact answers_handleRead hreq.outcmd_length hlen h
  have hindata : (takenReply .read reply).indata = returned h.os r := by
    simp only [takenReply, reply, returned]
    rcases hr : r.error with _ | e
    · obtain ⟨hint, hnat⟩ := toInt_ofNat_block hbytes
      simp [Moved.result, hr, hint, hnat, List.take_take]
    · have hneg := Int.not_le.mpr (getError_toInt_neg e)
      simp [Moved.result, hr, if_neg hneg]
  refine runs_of_answers hreq hanswers hok ?_
  rw [hindata, afterRequest_taken rfl]
  change Runs fileOs (afterRes (r.result 0) (after done (storeAt buf done (returned h.os r))) next)
    _ a h'
  rw [afterRes_result hbytes]
  exact hrest

theorem runs_writes (hfd : toSlot fd = some fid) (buf : Buffer) {requests : List ℕ}
    (hrequests : ∀ n ∈ requests, 0 < n ∧ n ≤ hostfsMaxBlock) {room : ℕ}
    (hroom : requests.sum ≤ room) (done : ℕ) {h : Host FileState}
    (hopen : (h.openFiles fid).opened = true) :
    ∃ moved script, (tally requests room h.os.script done).moved = done + moved ∧
      Runs fileOs (transferList (writeBlock true fd) requests (after done buf)) h
        ((tally requests room h.os.script done).ret, some buf)
        { h with os :=
          { content := overwrite h.os.content h.os.offset (bytesAt buf done moved)
            offset := h.os.offset + moved, script := script } } := by
  induction requests generalizing room done h with
  | nil =>
      refine ⟨0, h.os.script, rfl, ?_⟩
      rw [show bytesAt buf done 0 = [] from rfl, overwrite_nil]
      exact runs_ret _ h
  | cons asked later ih =>
      obtain ⟨hpos, hle⟩ := hrequests asked (List.mem_cons_self ..)
      rw [List.sum_cons] at hroom
      have hbytes : (move asked room h.os.script).bytes ≤ asked :=
        (move_le ..).trans (Nat.min_le_left ..)
      have hblock : ∀ a h',
          Runs fileOs
            (afterMoved (move asked room h.os.script) done buf
              (transferList (writeBlock true fd) later))
            { h with os := written h.os buf done (move asked room h.os.script) } a h' →
          Runs fileOs (transferList (writeBlock true fd) (asked :: later) (after done buf))
            h a h' :=
        fun a h' => runs_writeBlock hfd hopen hpos hle (by omega)
      simp only [tally]
      generalize move asked room h.os.script = r at hblock hbytes
      obtain ⟨bytes, error, script⟩ := r
      simp only at hbytes
      cases error with
      | some e => exact ⟨bytes, script, rfl, hblock _ _ (runs_ret _ _)⟩
      | none =>
          rcases Nat.eq_zero_or_pos bytes with rfl | hmoved
          · exact ⟨0, script, rfl, hblock _ _ (runs_ret _ _)⟩
          · obtain ⟨moved, script', htally, hruns⟩ :=
              ih (fun n hn => hrequests n (List.mem_cons_of_mem _ hn))
                (by omega : later.sum ≤ room - bytes) (done + bytes)
                (h := { h with os := written h.os buf done ⟨bytes, none, script⟩ }) hopen
            simp only [if_neg hmoved.ne']
            refine ⟨bytes + moved, script', by rw [← Nat.add_assoc]; exact htally, ?_⟩
            apply hblock
            rw [afterMoved]
            simp only [if_neg hmoved.ne']
            have happend := overwrite_append h.os.content h.os.offset (bytesAt buf done bytes)
              (bytesAt buf (done + bytes) moved)
            rw [length_bytesAt, bytesAt_append] at happend
            rw [← happend, ← Nat.add_assoc]
            exact hruns

theorem runs_reads (hfd : toSlot fd = some fid) (buf : Buffer) {requests : List ℕ}
    (hrequests : ∀ n ∈ requests, 0 < n ∧ n ≤ hostfsMaxBlock) (done : ℕ) {h : Host FileState}
    (hopen : (h.openFiles fid).opened = true) :
    ∃ stored moved script,
      (tally requests h.os.left h.os.script done).stored = done + stored ∧
      (tally requests h.os.left h.os.script done).moved = done + moved ∧
      Runs fileOs (transferList (readBlock true fd) requests (after done buf)) h
        ((tally requests h.os.left h.os.script done).ret,
          some (storeAt buf done ((h.os.content.drop h.os.offset).take stored)))
        { h with os := { h.os with offset := h.os.offset + moved, script := script } } := by
  induction requests generalizing done buf h with
  | nil =>
      refine ⟨0, 0, h.os.script, rfl, rfl, ?_⟩
      rw [List.take_zero, storeAt_nil]
      exact runs_ret _ h
  | cons asked later ih =>
      obtain ⟨hpos, hle⟩ := hrequests asked (List.mem_cons_self ..)
      have hbytes : (move asked h.os.left h.os.script).bytes ≤ h.os.left :=
        (move_le ..).trans (Nat.min_le_right ..)
      have hblock : ∀ a h',
          Runs fileOs
            (afterMoved (move asked h.os.left h.os.script) done
              (storeAt buf done (returned h.os (move asked h.os.left h.os.script)))
              (transferList (readBlock true fd) later))
            { h with os := consumed h.os (move asked h.os.left h.os.script) } a h' →
          Runs fileOs (transferList (readBlock true fd) (asked :: later) (after done buf))
            h a h' :=
        fun a h' => runs_readBlock hfd hopen hpos hle
      simp only [tally]
      generalize move asked h.os.left h.os.script = r at hblock hbytes
      obtain ⟨bytes, error, script⟩ := r
      simp only [FileState.left] at hbytes
      cases error with
      | some e =>
          simp only [returned, reduceCtorEq, if_false, storeAt_nil] at hblock
          refine ⟨0, bytes, script, rfl, rfl, ?_⟩
          rw [List.take_zero, storeAt_nil]
          exact hblock _ _ (runs_ret _ _)
      | none =>
          simp only [returned, if_true] at hblock
          rcases Nat.eq_zero_or_pos bytes with rfl | hmoved
          · exact ⟨0, 0, script, rfl, rfl, hblock _ _ (runs_ret _ _)⟩
          · have hleft : (consumed h.os ⟨bytes, none, script⟩).left = h.os.left - bytes := by
              simp only [FileState.left, consumed]
              omega
            have hlength : ((h.os.content.drop h.os.offset).take bytes).length = bytes := by
              rw [List.length_take, List.length_drop]
              omega
            obtain ⟨stored, moved, script', hstored, htally, hruns⟩ :=
              ih (storeAt buf done ((h.os.content.drop h.os.offset).take bytes))
                (fun n hn => hrequests n (List.mem_cons_of_mem _ hn)) (done + bytes)
                (h := { h with os := consumed h.os ⟨bytes, none, script⟩ }) hopen
            simp only [hleft] at hstored htally hruns
            simp only [if_neg hmoved.ne']
            refine ⟨bytes + stored, bytes + moved, script', by rw [← Nat.add_assoc]; exact hstored,
              by rw [← Nat.add_assoc]; exact htally, ?_⟩
            apply hblock
            rw [afterMoved]
            simp only [if_neg hmoved.ne']
            have happend := storeAt_append buf done ((h.os.content.drop h.os.offset).take bytes)
              ((h.os.content.drop (h.os.offset + bytes)).take stored)
            rw [hlength, ← List.drop_drop, ← List.take_add] at happend
            rw [← happend, ← Nat.add_assoc, List.drop_drop]
            exact hruns

end

end PsplinkUsb.HostFs.ChunkedTransfer
