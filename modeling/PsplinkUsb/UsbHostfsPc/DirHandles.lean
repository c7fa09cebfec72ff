import Mathlib.Data.List.Forall2
import PsplinkUsb.Library.CursorTable
import PsplinkUsb.UsbHostfsPc.Handlers

namespace PsplinkUsb.UsbHostfsPc.DirHandles

open PsplinkUsb.Library.CursorTable
open PsplinkUsb.Library.Duplex
open PsplinkUsb.HostFs.Wire
open PsplinkUsb.UsbHostfsPc.HostPath
open PsplinkUsb.UsbHostfsPc.OsCalls
open PsplinkUsb.UsbHostfsPc.HostFiles
open PsplinkUsb.UsbHostfsPc.Handlers

abbrev Dirs := Fin maxDirs → DirHandle

/-- `open_dirs` as `init_hostfs` leaves it. -/
def initDirs : Dirs := fun _ => DirHandle.closed

/-- A request struct, and for `dopen` the data that follows it. -/
inductive DirCommand where
  | dopen (cmd data : Bytes)
  | dread (cmd : Bytes)
  | dclose (cmd : Bytes)

def DirCommand.reads (did : Fin maxDirs) : DirCommand → Bool
  | .dread cmd => toSlot (field32 cmd 12) = some did
  | _ => false

def DirCommand.closes (did : Fin maxDirs) : DirCommand → Bool
  | .dclose cmd => toSlot (field32 cmd 12) = some did
  | _ => false

variable {σ : Type} (os : HostOs σ)

def DirCommand.answer (h : Host σ) : DirCommand → Reply × Host σ
  | .dopen cmd data =>
      let (res, h) := dirOpen os (field32 cmd 12) (cString data) h
      (.res res, h)
  | .dread cmd => readDir cmd h
  | .dclose cmd =>
      let (res, h) := dirClose (field32 cmd 12) h
      (.res res, h)

/-- The handlers of the three commands give these answers. -/
theorem handleDopen_eq (h : Host σ) {cmd : Bytes} (hsize : cmd.length = HostFsCommand.dopen.cmdSize)
    (hdata : (HostFsCmd.decode cmd).extralen ≠ 0) :
    handleDopen os h cmd = .recv (HostFsCmd.decode cmd).extralen.toNat fun data =>
      respond .dopen ((DirCommand.dopen cmd data).answer os h) := by
  rw [handleDopen, handleData, if_neg (not_not.mpr hsize), if_neg hdata]
  rfl

theorem handleDread_eq (h : Host σ) {cmd : Bytes} (hsize : cmd.length = HostFsCommand.dread.cmdSize) :
    handleDread h cmd = respond .read ((DirCommand.dread cmd).answer os h) := by
  rw [handleDread, handle, if_neg (not_not.mpr hsize)]
  rfl

theorem handleDclose_eq (h : Host σ) {cmd : Bytes}
    (hsize : cmd.length = HostFsCommand.dclose.cmdSize) :
    handleDclose h cmd = respond .dclose ((DirCommand.dclose cmd).answer os h) := by
  rw [handleDclose, handle, if_neg (not_not.mpr hsize)]
  rfl

/-- A command on the directory table. All the rest of the host (its file system, drives
and open files) may have changed since the command before. -/
def stepDirs (dirs : Dirs) (c : Host σ × DirCommand) : Reply × Dirs :=
  let (reply, h) := c.2.answer os { c.1 with openDirs := dirs }
  (reply, h.openDirs)

def runDirs (dirs : Dirs) (commands : List (Host σ × DirCommand)) : Dirs :=
  commands.foldl (fun dirs c => (stepDirs os dirs c).2) dirs

/-- The entries `dir_open` reads in for a path: those of the scan, in its order. -/
def Scanned (h : Host σ) (drive : Word) (dirname : Path) (entries : List SceIoDirent) : Prop :=
  ∃ fulldir names, makePath (h.pathEnv os) drive dirname true = some fulldir ∧
    os.scandir fulldir h.os = .ok names ∧
    List.Forall₂ (fun name e => e.name = name ∧ fillStat os (some fulldir) name h.os = .ok e.stat)
      names entries

/-- The response to request number `k`, counted from zero, on a handle. -/
def nthReply (entries : List SceIoDirent) (k : ℕ) : Reply :=
  match entries[k]? with
  | some e =>
      { extralen := BitVec.ofNat 32 sizeofSceIoDirent
        fields := le32 (BitVec.ofNat 32 (entries.length - k)), data := e.encode }
  | none => .res 0

/-- What the directory handles promise from a state of the table on. -/
structure Protocol (dirs : Dirs) : Prop where
  /-- A `dopen` fails and changes nothing, or takes a slot that was not open; from then on
  the reads of the handle come to its entries one after the other. -/
  opens : ∀ env cmd data,
    (∃ res : Word, res.toInt < 0 ∧ stepDirs os dirs (env, .dopen cmd data) = (.res res, dirs)) ∨
      ∃ did entries, Scanned os env (field32 cmd 12) (cString data) entries ∧
        (dirs did).opened = false ∧
        (stepDirs os dirs (env, .dopen cmd data)).1 = .res (BitVec.ofNat 32 did) ∧
        (∀ did', did' ≠ did → (stepDirs os dirs (env, .dopen cmd data)).2 did' = dirs did') ∧
        ∀ between, (∀ c ∈ between, c.2.closes did = false) →
          ∀ env' cmd', toSlot (field32 cmd' 12) = some did →
            (stepDirs os (runDirs os (stepDirs os dirs (env, .dopen cmd data)).2 between)
                (env', .dread cmd')).1 =
              nthReply entries (between.countP fun c => c.2.reads did)
  /-- A handle that is not open. -/
  refuses : ∀ env cmd, (∀ did, toSlot (field32 cmd 12) = some did → (dirs did).opened = false) →
    stepDirs os dirs (env, .dread cmd) = (.res (-1), dirs) ∧
      stepDirs os dirs (env, .dclose cmd) = (.res (-1), dirs)
  /-- A handle that is open. -/
  closes : ∀ env cmd did, toSlot (field32 cmd 12) = some did → (dirs did).opened = true →
    stepDirs os dirs (env, .dclose cmd) =
      (.res 0, Function.update dirs did DirHandle.closed)
  /-- Reads leave the other handles alone. -/
  others : ∀ env cmd did, toSlot (field32 cmd 12) ≠ some did →
    (stepDirs os dirs (env, .dread cmd)).2 did = dirs did

/-- A slot of the table: it holds what was read in, or nothing at all. -/
structure Valid (d : DirHandle) : Prop where
  count_eq : d.count = d.pDir.length
  pos_le : d.pos ≤ d.count
  closed : d.opened = false → d = DirHandle.closed

/-- The table as a table of cursors. -/
def cursors (dirs : Dirs) : Table (Fin maxDirs) SceIoDirent := fun did =>
  if (dirs did).opened then some ((dirs did).pDir.drop (dirs did).pos) else none

def replyOf : Answer SceIoDirent → Reply
  | .entry e left =>
      { extralen := BitVec.ofNat 32 sizeofSceIoDirent, fields := le32 (BitVec.ofNat 32 left)
        data := e.encode }
  | .atEnd => .res 0
  | .refused => .res (-1)

def openedDir (entries : List SceIoDirent) : DirHandle where
  opened := true
  count := entries.length
  pos := 0
  pDir := entries

section

variable {os} {dirs : Dirs} {env : Host σ}

theorem valid_closed : Valid DirHandle.closed := ⟨rfl, Nat.le_refl 0, fun _ => rfl⟩

theorem valid_init (did : Fin maxDirs) : Valid (initDirs did) := valid_closed

theorem valid_opened (entries : List SceIoDirent) : Valid (openedDir entries) :=
  ⟨rfl, Nat.zero_le _, fun h => by simp [openedDir] at h⟩

theorem valid_update (hvalid : ∀ did, Valid (dirs did)) {did : Fin maxDirs} {d : DirHandle}
    (hd : Valid d) (did' : Fin maxDirs) : Valid (Function.update dirs did d did') := by
  rcases eq_or_ne did' did with rfl | hne
  · simpa using hd
  · simpa [Function.update_of_ne hne] using hvalid did'

theorem cursors_update (did : Fin maxDirs) (d : DirHandle) :
    cursors (Function.update dirs did d) = Function.update (cursors dirs) did
      (if d.opened then some (d.pDir.drop d.pos) else none) := by
  funext did'
  rcases eq_or_ne did' did with rfl | hne
  · simp [cursors]
  · simp [cursors, Function.update_of_ne hne]

theorem nthReply_eq (entries : List SceIoDirent) (k : ℕ) :
    nthReply entries k = replyOf (nth entries k) := by
  rw [nthReply, nth]
  cases entries[k]? with
  | none => rfl
  | some e => rfl

theorem fillDirents_scanned {fulldir : Path} {s : σ} {names : List Path}
    {entries : List SceIoDirent} (h : fillDirents os fulldir s names = some entries) :
    List.Forall₂ (fun name e => e.name = name ∧ fillStat os (some fulldir) name s = .ok e.stat)
      names entries := by
  induction names generalizing entries with
  | nil =>
      obtain rfl : [] = entries := by simpa [fillDirents] using h
      exact .nil
  | cons name names ih =>
      rw [fillDirents] at h
      split at h
      · simp at h
      · rename_i stat hstat
        obtain ⟨rest, hrest, rfl⟩ := Option.map_eq_some_iff.mp h
        exact .cons ⟨rfl, hstat⟩ (ih hrest)

theorem update_closed (hvalid : ∀ did, Valid (dirs did)) {did : Fin maxDirs}
    (hfree : (dirs did).opened = false) : Function.update dirs did DirHandle.closed = dirs := by
  rw [← (hvalid did).closed hfree, Function.update_eq_self]

variable (os) in
theorem dopen_cases (hvalid : ∀ did, Valid (dirs did)) (env : Host σ) (cmd data : Bytes) :
    (∃ res : Word, res.toInt < 0 ∧ stepDirs os dirs (env, .dopen cmd data) = (.res res, dirs)) ∨
      ∃ did entries, Scanned os env (field32 cmd 12) (cString data) entries ∧
        (dirs did).opened = false ∧
        stepDirs os dirs (env, .dopen cmd data) =
          (.res (BitVec.ofNat 32 did), Function.update dirs did (openedDir entries)) := by
  simp only [stepDirs, DirCommand.answer, dirOpen]
  split
  · exact .inl ⟨_, getError_toInt_neg _, rfl⟩
  · rename_i did hdid
    have hfree : (dirs did).opened = false := by
      simpa [findFreeDir] using List.find?_some hdid
    have hclosed := update_closed hvalid hfree
    split
    · exact .inl ⟨_, getError_toInt_neg _, rfl⟩
    · rename_i fulldir hpath
      simp only [setDir, hclosed]
      split
      · exact .inl ⟨_, getError_toInt_neg _, rfl⟩
      · exact .inl ⟨_, getError_toInt_neg _, rfl⟩
      · rename_i names _ hscan
        split
        · exact .inl ⟨-1, by decide, rfl⟩
        · split
          · exact .inl ⟨-1, by decide, rfl⟩
          · rename_i entries hfill
            have hentries := fillDirents_scanned hfill
            refine .inr ⟨did, entries, ⟨fulldir, names, hpath, hscan, hentries⟩, hfree, ?_⟩
            rw [openedDir, ← hentries.length_eq]

theorem count_sub_pos {count pos : ℕ} (hpos : pos < count) :
    BitVec.ofNat 32 count - BitVec.ofNat 32 (pos + 1) + 1 =
      BitVec.ofNat 32 (count - (pos + 1) + 1) := by
  have hsum : BitVec.ofNat 32 count =
      BitVec.ofNat 32 (count - (pos + 1)) + BitVec.ofNat 32 (pos + 1) := by
    rw [← BitVec.ofNat_add, Nat.sub_add_cancel hpos]
  rw [hsum, BitVec.add_sub_cancel, BitVec.ofNat_add]
  rfl

theorem readDir_eq {h : Host σ} {cmd : Bytes} {did : Fin maxDirs}
    (hslot : toSlot (field32 cmd 12) = some did) (hvalid : Valid (h.openDirs did)) :
    (readDir cmd h).1 = replyOf (answer (cursors h.openDirs) did) ∧
      (readDir cmd h).2 =
        if (h.openDirs did).opened ∧ (h.openDirs did).pos < (h.openDirs did).count then
          setDir did { h.openDirs did with pos := (h.openDirs did).pos + 1 } h
        else h := by
  simp only [readDir, hslot, answer, cursors]
  by_cases hopened : (h.openDirs did).opened
  · by_cases hpos : (h.openDirs did).pos < (h.openDirs did).count
    · have hlt : (h.openDirs did).pos < (h.openDirs did).pDir.length := by
        rwa [← hvalid.count_eq]
      rw [if_pos hopened, if_pos hpos, if_pos hopened, List.drop_eq_getElem_cons hlt,
        if_pos ⟨hopened, hpos⟩, count_sub_pos hpos, hvalid.count_eq]
      simp [replyOf, hlt]
    · have hle : (h.openDirs did).pDir.length ≤ (h.openDirs did).pos := by
        rw [← hvalid.count_eq]
        exact Nat.le_of_not_lt hpos
      simp [hopened, hpos, List.drop_of_length_le hle, replyOf]
  · simp [hopened, replyOf]

theorem dread_reply (hvalid : ∀ did, Valid (dirs did)) {cmd : Bytes} {did : Fin maxDirs}
    (hslot : toSlot (field32 cmd 12) = some did) :
    (stepDirs os dirs (env, .dread cmd)).1 = replyOf (answer (cursors dirs) did) :=
  (readDir_eq (h := { env with openDirs := dirs }) hslot (hvalid did)).1

theorem dread_dirs (hvalid : ∀ did, Valid (dirs did)) {cmd : Bytes} {did : Fin maxDirs}
    (hslot : toSlot (field32 cmd 12) = some did) :
    (stepDirs os dirs (env, .dread cmd)).2 =
      if (dirs did).opened ∧ (dirs did).pos < (dirs did).count then
        Function.update dirs did { dirs did with pos := (dirs did).pos + 1 }
      else dirs := by
  have hdirs := (readDir_eq (h := { env with openDirs := dirs }) hslot (hvalid did)).2
  simp only [stepDirs, DirCommand.answer, hdirs]
  split
  · rfl
  · rfl

theorem dread_cursors (hvalid : ∀ did, Valid (dirs did)) {cmd : Bytes} {did : Fin maxDirs}
    (hslot : toSlot (field32 cmd 12) = some did) :
    cursors (stepDirs os dirs (env, .dread cmd)).2 = apply (cursors dirs) (.next did) := by
  rw [dread_dirs hvalid hslot, apply]
  split
  · rename_i hmoves
    rw [cursors_update]
    simp [cursors, hmoves.1, List.tail_drop]
  · rename_i hstays
    symm
    rw [Function.update_eq_self_iff]
    by_cases hopened : (dirs did).opened
    · have hle : (dirs did).pDir.length ≤ (dirs did).pos := by
        rw [← (hvalid did).count_eq]
        exact Nat.le_of_not_lt fun hlt => hstays ⟨hopened, hlt⟩
      simp [cursors, hopened, List.drop_of_length_le hle]
    · simp [cursors, hopened]

theorem dclose_eq {cmd : Bytes} {did : Fin maxDirs} (hslot : toSlot (field32 cmd 12) = some did) :
    stepDirs os dirs (env, .dclose cmd) =
      if (dirs did).opened then (.res 0, Function.update dirs did DirHandle.closed)
      else (.res (-1), dirs) := by
  simp only [stepDirs, DirCommand.answer, dirClose, hslot]
  split
  · rfl
  · rfl

theorem dread_invalid {cmd : Bytes} (hslot : toSlot (field32 cmd 12) = none) :
    stepDirs os dirs (env, .dread cmd) = (.res (-1), dirs) := by
  simp only [stepDirs, DirCommand.answer, readDir, hslot]

theorem dclose_invalid {cmd : Bytes} (hslot : toSlot (field32 cmd 12) = none) :
    stepDirs os dirs (env, .dclose cmd) = (.res (-1), dirs) := by
  simp only [stepDirs, DirCommand.answer, dirClose, hslot]

variable (os) in
theorem step_refines (hvalid : ∀ did, Valid (dirs did)) (c : Host σ × DirCommand) :
    (∀ did, Valid ((stepDirs os dirs c).2 did)) ∧
      ∃ op, cursors (stepDirs os dirs c).2 = apply (cursors dirs) op ∧
        (∀ did, op.asks did = c.2.reads did) ∧ ∀ did, op.ends did = c.2.closes did := by
  obtain ⟨env, c⟩ := c
  cases c with
  | dopen cmd data =>
      rcases dopen_cases os hvalid env cmd data with
        ⟨res, -, hstep⟩ | ⟨did, entries, -, hfree, hstep⟩
      · rw [hstep]
        exact ⟨hvalid, .skip, rfl, fun _ => rfl, fun _ => rfl⟩
      · rw [hstep]
        refine ⟨valid_update hvalid (valid_opened entries), .opens did entries, ?_,
          fun _ => rfl, fun _ => rfl⟩
        simp [cursors_update, apply, cursors, hfree, openedDir]
  | dread cmd =>
      cases hslot : toSlot (field32 cmd 12) with
      | none =>
          rw [dread_invalid hslot]
          refine ⟨hvalid, .skip, rfl, fun did => ?_, fun _ => rfl⟩
          simp [Op.asks, DirCommand.reads, hslot]
      | some did =>
          refine ⟨?_, .next did, dread_cursors hvalid hslot, fun did' => ?_, fun _ => rfl⟩
          · rw [dread_dirs hvalid hslot]
            split
            · rename_i hmoves
              refine valid_update hvalid ⟨(hvalid did).count_eq, hmoves.2, fun hclosed => ?_⟩
              simp [hmoves.1] at hclosed
            · exact hvalid
          · simp [Op.asks, DirCommand.reads, hslot]
  | dclose cmd =>
      cases hslot : toSlot (field32 cmd 12) with
      | none =>
          rw [dclose_invalid hslot]
          refine ⟨hvalid, .skip, rfl, fun _ => rfl, fun did => ?_⟩
          simp [Op.ends, DirCommand.closes, hslot]
      | some did =>
          rw [dclose_eq hslot]
          refine ⟨?_, .closes did, ?_, fun _ => rfl, fun did' => ?_⟩
          · split
            · exact valid_update hvalid valid_closed
            · exact hvalid
          · split
            · simp [cursors_update, apply, DirHandle.closed]
            · rename_i hclosed
              symm
              rw [apply, Function.update_eq_self_iff]
              simp [cursors, hclosed]
          · simp [Op.ends, DirCommand.closes, hslot]

variable (os) in
theorem run_refines (hvalid : ∀ did, Valid (dirs did)) (commands : List (Host σ × DirCommand)) :
    (∀ did, Valid (runDirs os dirs commands did)) ∧
      ∃ ops, cursors (runDirs os dirs commands) = run (cursors dirs) ops ∧
        (∀ did, ops.countP (Op.asks did) = commands.countP fun c => c.2.reads did) ∧
        ∀ did, (∀ c ∈ commands, c.2.closes did = false) → ∀ op ∈ ops, op.ends did = false := by
  induction commands generalizing dirs with
  | nil => exact ⟨hvalid, [], rfl, fun _ => rfl, by simp⟩
  | cons c commands ih =>
      obtain ⟨hvalid', op, hop, hasks, hends⟩ := step_refines os hvalid c
      obtain ⟨hlast, ops, hops, hcount, hkeeps⟩ := ih hvalid'
      refine ⟨hlast, op :: ops, ?_, fun did => ?_, fun did hall => ?_⟩
      · rw [run, List.foldl_cons, ← hop]
        exact hops
      · rw [List.countP_cons, List.countP_cons, hcount, hasks]
      · intro op' hop'
        rcases List.mem_cons.mp hop' with rfl | hop'
        · exact (hends did).trans (hall c List.mem_cons_self)
        · exact hkeeps did (fun c hc => hall c (List.mem_cons_of_mem _ hc)) op' hop'

/-- The protocol of the directory handles, in every state that any commands lead to. -/
theorem dir_handles_protocol (os : HostOs σ) (before : List (Host σ × DirCommand)) :
    Protocol os (runDirs os initDirs before) := by
  have hvalid := (run_refines os valid_init before).1
  constructor
  · intro env cmd data
    rcases dopen_cases os hvalid env cmd data with
      hfails | ⟨did, entries, hscanned, hfree, hstep⟩
    · exact .inl hfails
    · refine .inr ⟨did, entries, hscanned, hfree, by rw [hstep], ?_, ?_⟩
      · intro did' hne
        rw [hstep]
        exact Function.update_of_ne hne ..
      · intro between hkeeps env' cmd' hslot
        rw [hstep]
        obtain ⟨hlast, ops, hops, hcount, hends⟩ :=
          run_refines os (valid_update hvalid (valid_opened entries)) between
        have hopen : cursors (Function.update (runDirs os initDirs before) did
            (openedDir entries)) did = some entries := by
          simp [cursors, openedDir]
        rw [dread_reply hlast hslot, hops, answer_run hopen (hends did hkeeps), hcount,
          nthReply_eq]
  · intro env cmd hclosed
    cases hslot : toSlot (field32 cmd 12) with
    | none => exact ⟨dread_invalid hslot, dclose_invalid hslot⟩
    | some did =>
        have hnot := hclosed did hslot
        refine ⟨Prod.ext ?_ ?_, ?_⟩
        · rw [dread_reply hvalid hslot]
          simp [answer, cursors, hnot, replyOf]
        · rw [dread_dirs hvalid hslot]
          simp [hnot]
        · rw [dclose_eq hslot]
          simp [hnot]
  · intro env cmd did hslot hopened
    rw [dclose_eq hslot, if_pos hopened]
  · intro env cmd did hslot
    cases hother : toSlot (field32 cmd 12) with
    | none => rw [dread_invalid hother]
    | some did' =>
        have hne : did ≠ did' := by
          rintro rfl
          exact hslot hother
        rw [dread_dirs hvalid hother]
        split
        · exact Function.update_of_ne hne ..
        · rfl

end

end PsplinkUsb.UsbHostfsPc.DirHandles
