import Mathlib.Data.List.TakeWhile
import PsplinkUsb.HostFs.Framing
import PsplinkUsb.Library.Numerals
import PsplinkUsb.UsbHostfsPc.DirHandles

/-!
`list_dir` of `psplink/shell.c` on a directory of the PC, over the driver and the link: it shows
every entry once, in the order of the scan, and gives the handle back.
-/

namespace PsplinkUsb.HostFs.DirectoryListing

open PsplinkUsb.Library.Duplex
open PsplinkUsb.Library.Numerals
open PsplinkUsb.Library.Settling
open PsplinkUsb.HostFs.Wire
open PsplinkUsb.HostFs.Exchange
open PsplinkUsb.HostFs.Answers
open PsplinkUsb.HostFs.Requests
open PsplinkUsb.HostFs.Framing
open PsplinkUsb.UsbHostfs.CommandXchg
open PsplinkUsb.UsbHostfs.HostDriver
open PsplinkUsb.UsbHostfsPc.HostPath
open PsplinkUsb.UsbHostfsPc.OsCalls
open PsplinkUsb.UsbHostfsPc.HostFiles
open PsplinkUsb.UsbHostfsPc.Handlers
open PsplinkUsb.UsbHostfsPc.PlainFile
open PsplinkUsb.UsbHostfsPc.DirHandles

def space : UInt8 := 0x20
def dash : UInt8 := 0x2D
def colon : UInt8 := 0x3A

def fioSIfmt : Word := 0xF000
def fioSoIfmt : Word := 0x0038

def isDirectory (mode attr : Word) : Bool :=
  attr &&& fioSoIfmt = fioSoIfdir ∨ mode &&& fioSIfmt = fioSIfdir

/-- `r`, `w` and `x`, or a dash for each bit that is not set. -/
def permissions (bits : Word) : Bytes :=
  [if bits &&& 4 ≠ 0 then 0x72 else dash, if bits &&& 2 ≠ 0 then 0x77 else dash,
    if bits &&& 1 ≠ 0 then 0x78 else dash]

/-- `%8d`. -/
def rightAligned (i : ℤ) : Bytes :=
  List.replicate (8 - (decimalInt i).length) space ++ decimalInt i

/-- `%02d-%02d-%04d %02d:%02d `. -/
def dateText (t : ScePspDateTime) : Bytes :=
  padded 2 10 t.day.toNat ++ dash :: padded 2 10 t.month.toNat ++
    dash :: padded 4 10 t.year.toNat ++ space :: padded 2 10 t.hour.toNat ++
    colon :: padded 2 10 t.minute.toNat ++ [space]

/-- The text that the loop of `list_dir` puts into `buffer` for an entry. -/
def entryText (mode attr size : Word) (mtime : ScePspDateTime) (name : Bytes) : Bytes :=
  (if isDirectory mode attr then 0x64 else dash) ::
    permissions (mode >>> 6 &&& 7) ++ permissions (mode >>> 3 &&& 7) ++ permissions (mode &&& 7) ++
    space :: rightAligned size.toInt ++ space :: dateText mtime ++ name

def decodeDateTime (dir : Bytes) (offset : ℕ) : ScePspDateTime where
  year := field16 dir offset
  month := field16 dir (offset + 2)
  day := field16 dir (offset + 4)
  hour := field16 dir (offset + 6)
  minute := field16 dir (offset + 8)
  second := field16 dir (offset + 10)
  microsecond := field32 dir (offset + 12)

/-- The text for an entry in memory, whose name ends at a zero byte. -/
def listEntry (dir : Bytes) : Bytes :=
  entryText (field32 dir 0) (field32 dir 4) ((field64 dir 8).setWidth 32) (decodeDateTime dir 48)
    (cString (dir.drop 88))

def bufferSize : ℕ := 512

section Programs

universe u v

def bind {A : Type u} {A' : Type v} : IoProg A → (A → IoProg A') → IoProg A'
  | .ret a, f => f a
  | .xchg req next, f => .xchg req fun r => bind (next r) f

end Programs

inductive Listing where
  | shown (lines : List Bytes)
  | notOpened
  /-- The loop has not come to its end. -/
  | unfinished

/-- The loop of `list_dir`, for so many turns at most, and the `sceIoDclose` behind it. -/
def listLoop (connected : Bool) (arg : PspIoDrvFileArg) : ℕ → List Bytes → IoProg Listing
  | 0, _ => .ret .unfinished
  | n + 1, lines =>
      bind (ioDread connected arg (some ())) fun r =>
        if 0 < r.ret.toInt then
          -- `dir` was all zero before the call
          listLoop connected arg n (lines ++ [listEntry (r.indata.takeD sizeofSceIoDirent 0)])
        else bind (ioDclose connected arg) fun _ => .ret (.shown lines)

/-- `list_dir` in the directory of the argument structure. -/
def listDir (connected : Bool) (fuel : ℕ) (arg : PspIoDrvFileArg) (name : Bytes) :
    IoProg Listing :=
  bind (ioDopen connected arg (some name)) fun r =>
    if 0 ≤ r.ret.toInt then listLoop connected r.arg fuel [] else .ret .notOpened

/-! ### Entries -/

section Entries

variable {n offset : ℕ} {a b : Bytes}

theorem field_append (h : a.length ≤ offset) :
    field n (a ++ b) offset = field n b (offset - a.length) := by
  rw [field, field, List.drop_append, List.drop_eq_nil_of_le h, List.nil_append]

theorem field16_append (h : a.length ≤ offset) :
    field16 (a ++ b) offset = field16 b (offset - a.length) := field_append h

theorem field32_append (h : a.length ≤ offset) :
    field32 (a ++ b) offset = field32 b (offset - a.length) := field_append h

theorem field64_append (h : a.length ≤ offset) :
    field64 (a ++ b) offset = field64 b (offset - a.length) := field_append h

theorem field16_head (w : BitVec 16) (b : Bytes) : field16 (le16 w ++ b) 0 = w :=
  @field_toBytes 2 [] 0 rfl w b

theorem field32_head (w : Word) (b : Bytes) : field32 (le32 w ++ b) 0 = w :=
  @field_toBytes 4 [] 0 rfl w b

theorem field64_head (w : BitVec 64) (b : Bytes) : field64 (le64 w ++ b) 0 = w :=
  @field_toBytes 8 [] 0 rfl w b

theorem decodeDateTime_append (h : a.length ≤ offset) :
    decodeDateTime (a ++ b) offset = decodeDateTime b (offset - a.length) := by
  have hle (k : ℕ) : a.length ≤ offset + k := h.trans (Nat.le_add_right offset k)
  simp only [decodeDateTime, field16_append h, field16_append (hle _), field32_append (hle _),
    Nat.sub_add_comm h]

theorem decodeDateTime_head (t : ScePspDateTime) (b : Bytes) :
    decodeDateTime (t.encode ++ b) 0 = t := by
  simp [decodeDateTime, ScePspDateTime.encode, field16_append, field32_append, field16_head,
    field32_head]

theorem cString_zeros (name : Bytes) (k : ℕ) :
    cString (name ++ List.replicate k 0) = cString name := by
  induction name with
  | nil =>
      cases k with
      | zero => rfl
      | succ k => rfl
  | cons c name ih =>
      rw [cString, cString] at ih ⊢
      rw [List.cons_append, List.takeWhile_cons, List.takeWhile_cons, ih]

theorem takeD_eq_append (k : ℕ) (name : Bytes) :
    name.takeD k 0 = name.take k ++ List.replicate (k - name.length) 0 := by
  induction k generalizing name with
  | zero => simp
  | succ k ih =>
      cases name with
      | nil => simp [List.replicate_succ]
      | cons c name => simp [ih]

theorem listEntry_encode (e : SceIoDirent) :
    listEntry (e.encode.takeD UsbHostfsPc.HostFiles.sizeofSceIoDirent 0) =
      entryText e.stat.mode e.stat.attr (e.stat.size.setWidth 32) e.stat.mtime
        (cString (e.name.take 256)) := by
  have hstat : e.stat.encode.length = 88 := SceIoStat.length_encode e.stat
  have hname : cString (e.encode.drop 88) = cString (e.name.take 256) := by
    rw [SceIoDirent.encode, List.append_assoc, List.drop_left' hstat, takeD_eq_append,
      List.append_assoc, List.replicate_append_replicate, cString_zeros]
  have hwhole : e.encode.takeD UsbHostfsPc.HostFiles.sizeofSceIoDirent 0 = e.encode := by
    have htake := @List.takeD_left' _ e.encode [] _ 0 (SceIoDirent.length_encode e)
    rwa [List.append_nil] at htake
  obtain ⟨rest, hrest⟩ : ∃ rest, e.encode =
      le32 e.stat.mode ++ (le32 e.stat.attr ++ (le64 e.stat.size ++ (e.stat.ctime.encode ++
        (e.stat.atime.encode ++ (e.stat.mtime.encode ++ rest))))) :=
    ⟨List.replicate 24 0 ++ (e.name.takeD 256 0 ++ List.replicate 8 0), by
      simp only [SceIoDirent.encode, SceIoStat.encode, List.append_assoc]⟩
  have hmode : field32 e.encode 0 = e.stat.mode := by
    rw [hrest, field32_head]
  have hattr : field32 e.encode 4 = e.stat.attr := by
    rw [hrest, field32_append (by simp)]
    simp only [length_le32, Nat.sub_self, field32_head]
  have hsize : field64 e.encode 8 = e.stat.size := by
    rw [hrest, field64_append (by simp), field64_append (by simp)]
    simp only [length_le32, Nat.reduceSub, field64_head]
  have hmtime : decodeDateTime e.encode 48 = e.stat.mtime := by
    rw [hrest, decodeDateTime_append (by simp), decodeDateTime_append (by simp),
      decodeDateTime_append (by simp), decodeDateTime_append (by simp),
      decodeDateTime_append (by simp)]
    simp only [length_le32, length_le64, ScePspDateTime.length_encode, Nat.reduceSub,
      decodeDateTime_head]
  rw [hwhole, listEntry, hname, hmode, hattr, hsize, hmtime]

end Entries

theorem length_rightAligned (size : Word) : (rightAligned size.toInt).length ≤ 11 := by
  have hnumeral : (numeral 10 size.toInt.natAbs).length ≤ 10 := by
    refine length_numeral_le (by decide) (by decide) ?_
    have hle := @BitVec.le_two_mul_toInt 32 size
    have hlt := @BitVec.two_mul_toInt_lt 32 size
    omega
  have hlength : (decimalInt size.toInt).length ≤ 11 := by
    rw [decimalInt]
    split
    · exact Nat.succ_le_succ hnumeral
    · exact hnumeral.trans (by decide)
  rw [rightAligned, List.length_append, List.length_replicate]
  omega

theorem length_dateText (t : ScePspDateTime) : (dateText t).length ≤ 30 := by
  have hpadded (width : ℕ) (hwidth : width ≤ 5) (w : BitVec 16) :
      (padded width 10 w.toNat).length ≤ 5 := by
    have hlt := w.isLt
    exact (length_padded_le (by decide) (by decide) (by omega : w.toNat < 10 ^ 5)).trans (by omega)
  have hday := hpadded 2 (by decide) t.day
  have hmonth := hpadded 2 (by decide) t.month
  have hyear := hpadded 4 (by decide) t.year
  have hhour := hpadded 2 (by decide) t.hour
  have hminute := hpadded 2 (by decide) t.minute
  simp only [dateText, List.length_append, List.length_cons, List.length_nil]
  omega

/-- Whatever an entry holds, its text with the NUL fits into `buffer`. -/
theorem length_listEntry (dir : Bytes)
    (hdir : dir.length ≤ UsbHostfsPc.HostFiles.sizeofSceIoDirent) :
    (listEntry dir).length < bufferSize := by
  have hsize := length_rightAligned ((field64 dir 8).setWidth 32)
  have hdate := length_dateText (decodeDateTime dir 48)
  have hname : (cString (dir.drop 88)).length ≤ 264 := by
    rw [cString]
    refine (List.takeWhile_sublist _).length_le.trans ?_
    rw [List.length_drop]
    simp only [UsbHostfsPc.HostFiles.sizeofSceIoDirent] at hdir
    omega
  simp only [listEntry, entryText, permissions, List.length_append, List.length_cons,
    List.length_nil, bufferSize]
  omega

/-! ### The calls -/

variable {σ : Type} {os : HostOs σ} {h : Host σ} {arg : PspIoDrvFileArg} {did : Fin maxDirs}
  {entries : List SceIoDirent} {name : Bytes}

theorem runs_bind {A A' : Type} {prog : IoProg A} {f : A → IoProg A'} {a : A} {a' : A'}
    {h' h'' : Host σ} (hprog : Runs os prog h a h') (hf : Runs os (f a) h' a' h'') :
    Runs os (bind prog f) h a' h'' := by
  obtain ⟨log, hran⟩ := hprog
  induction hran with
  | ret a h => exact hf
  | xchg hreq hexact _ ih =>
      obtain ⟨log', hran'⟩ := ih hf
      exact ⟨_, .xchg hreq hexact hran'⟩

/-- The request of `io_dread` or `io_dclose`. -/
def handleRequest (command : HostFsCommand) (handle : Word) (inlen : ℤ) : XchgRequest :=
  plainRequest command (le32 handle) inlen

theorem field32_handleRequest (command : HostFsCommand) (handle : Word) (inlen : ℤ) :
    field32 (handleRequest command handle inlen).outcmd 12 = handle :=
  @field32_outcmd command 0 [] (le32 handle) [] inlen 12 handle [] (by simp) rfl

def dreadRequest (handle : Word) : XchgRequest :=
  handleRequest .dread handle UsbHostfs.HostDriver.sizeofSceIoDirent

theorem runs_ioDread :
    Runs os (ioDread true arg (some ())) h
      (returnRes arg (takenReply .read (readDir (dreadRequest arg.arg).outcmd h).1))
      (readDir (dreadRequest arg.arg).outcmd h).2 := by
  have hsend : Sendable (dreadRequest arg.arg) :=
    sendable_plain trivial (by simp; rfl) fun _ => by decide
  have hinlen : (0 : ℤ) < UsbHostfs.HostDriver.sizeofSceIoDirent := by decide
  refine runs_exchangeOnce arg hsend ?_ (readDir_replyOk rfl hinlen _ _) _
  rw [doHostfs_outcmd]
  exact answers_handle hsend.outcmd_length

theorem runs_ioDclose :
    Runs os (ioDclose true arg) h (returnRes arg (takenReply .dclose (.res (dirClose arg.arg h).1)))
      (dirClose arg.arg h).2 := by
  have hsend : Sendable (handleRequest .dclose arg.arg 0) :=
    sendable_plain trivial (by simp; rfl) fun h => by cases h
  have hanswers : Answers .dclose (doHostfs os h (handleRequest .dclose arg.arg 0).outcmd) []
      (.res (dirClose arg.arg h).1, (dirClose arg.arg h).2) := by
    have hhandle : Answers .dclose (handleDclose h (handleRequest .dclose arg.arg 0).outcmd) []
        (.res (dirClose (field32 (handleRequest .dclose arg.arg 0).outcmd 12) h).1,
          (dirClose (field32 (handleRequest .dclose arg.arg 0).outcmd 12) h).2) :=
      answers_handle hsend.outcmd_length
    rw [field32_handleRequest] at hhandle
    rw [doHostfs_outcmd]
    exact hhandle
  exact runs_exchangeOnce arg hsend hanswers (replyOk_res rfl _) _

theorem toInt_signExtend (w : Word) : (w.signExtend 64).toInt = w.toInt :=
  BitVec.toInt_signExtend_of_le (by decide)

theorem takenReply_le32 (command : HostFsCommand) (extralen res : Word) (data : Bytes) :
    (takenReply command { extralen := extralen, fields := le32 res, data := data }).res = res :=
  takenReply_res rfl

/-- The slot of the handle after so many entries. -/
def dirAt (entries : List SceIoDirent) (pos : ℕ) : DirHandle :=
  { openedDir entries with pos := pos }

@[simp] theorem openDirs_setDir (d : DirHandle) : (setDir did d h).openDirs did = d :=
  Function.update_self ..

theorem setDir_setDir (d d' : DirHandle) : setDir did d' (setDir did d h) = setDir did d' h := by
  simp only [setDir, Function.update_idem]

theorem readDir_dirAt {cmd : Bytes} {pos : ℕ} (hslot : toSlot (field32 cmd 12) = some did) :
    readDir cmd (setDir did (dirAt entries pos) h) =
      match entries[pos]? with
      | some e =>
          ({ extralen := BitVec.ofNat 32 UsbHostfsPc.HostFiles.sizeofSceIoDirent
             fields := le32 (BitVec.ofNat 32 (entries.length - pos)), data := e.encode },
            setDir did (dirAt entries (pos + 1)) h)
      | none => (.res 0, setDir did (dirAt entries pos) h) := by
  have hopened : (dirAt entries pos).opened = true := rfl
  rw [readDir, hslot]
  dsimp only
  rw [openDirs_setDir, if_pos hopened]
  by_cases hpos : pos < entries.length
  · have hlt : (dirAt entries pos).pos < (dirAt entries pos).count := hpos
    have hres : BitVec.ofNat 32 (dirAt entries pos).count -
        BitVec.ofNat 32 ((dirAt entries pos).pos + 1) + 1 =
          BitVec.ofNat 32 (entries.length - pos) := by
      have hleft : entries.length - (pos + 1) + 1 = entries.length - pos := by omega
      exact (count_sub_pos hpos).trans (by rw [hleft])
    have hdata : ((dirAt entries pos).pDir.map SceIoDirent.encode)[(dirAt entries pos).pos]? =
        some entries[pos].encode := by
      rw [List.getElem?_map]
      exact congrArg _ (List.getElem?_eq_getElem hpos)
    rw [if_pos hlt, hres, hdata, List.getElem?_eq_getElem hpos, setDir_setDir]
    rfl
  · have hge : ¬(dirAt entries pos).pos < (dirAt entries pos).count := hpos
    rw [if_neg hge, List.getElem?_eq_none (Nat.le_of_not_lt hpos)]

/-- The line for an entry of the PC's directory. -/
def shownEntry (e : SceIoDirent) : Bytes :=
  entryText e.stat.mode e.stat.attr (e.stat.size.setWidth 32) e.stat.mtime
    (cString (e.name.take 256))

theorem runs_listLoop (hslot : toSlot arg.arg = some did) (hcount : entries.length < 2 ^ 31)
    {fuel pos : ℕ} (hfuel : entries.length - pos < fuel) (lines : List Bytes) :
    Runs os (listLoop true arg fuel lines) (setDir did (dirAt entries pos) h)
      (.shown (lines ++ (entries.drop pos).map shownEntry)) (setDir did DirHandle.closed h) := by
  induction fuel generalizing pos lines with
  | zero => omega
  | succ fuel ih =>
      have hread := @runs_ioDread σ os (setDir did (dirAt entries pos) h) arg
      have hcmd : toSlot (field32 (dreadRequest arg.arg).outcmd 12) = some did := by
        rw [dreadRequest, field32_handleRequest]
        exact hslot
      rw [readDir_dirAt hcmd] at hread
      rw [listLoop]
      refine runs_bind hread ?_
      cases hentry : entries[pos]? with
      | some e =>
          obtain ⟨hpos, rfl⟩ := List.getElem?_eq_some_iff.mp hentry
          have hret : 0 < (returnRes arg (takenReply .read
              { extralen := BitVec.ofNat 32 UsbHostfsPc.HostFiles.sizeofSceIoDirent
                fields := le32 (BitVec.ofNat 32 (entries.length - pos))
                data := entries[pos].encode })).ret.toInt := by
            rw [returnRes, takenReply_le32, toInt_signExtend,
              BitVec.toInt_eq_toNat_of_lt (by rw [BitVec.toNat_ofNat]; omega), BitVec.toNat_ofNat]
            omega
          have hdata : entries[pos].encode.take
              (BitVec.ofNat 32 UsbHostfsPc.HostFiles.sizeofSceIoDirent).toNat =
                entries[pos].encode :=
            List.take_of_length_le (SceIoDirent.length_encode _).le
          have hrest := @ih (pos + 1) (by omega) (lines ++ [shownEntry entries[pos]])
          rw [List.append_assoc, List.singleton_append, ← List.map_cons,
            ← List.drop_eq_getElem_cons hpos] at hrest
          dsimp only
          rw [if_pos hret, returnRes, takenReply]
          dsimp only
          rw [hdata, listEntry_encode]
          exact hrest
      | none =>
          have hle := List.getElem?_eq_none_iff.mp hentry
          have hret : ¬0 < (returnRes arg (takenReply .read (Reply.res 0))).ret.toInt := by
            rw [returnRes, Reply.res, takenReply_le32, toInt_signExtend]
            decide
          have hclose := @runs_ioDclose σ os (setDir did (dirAt entries pos) h) arg
          have hclosed : (dirClose arg.arg (setDir did (dirAt entries pos) h)).2 =
              setDir did DirHandle.closed h := by
            have hopened : (dirAt entries pos).opened = true := rfl
            rw [dirClose, hslot]
            dsimp only
            rw [openDirs_setDir, if_pos hopened, setDir_setDir]
          rw [hclosed] at hclose
          dsimp only
          rw [if_neg hret, List.drop_of_length_le hle, List.map_nil, List.append_nil]
          exact runs_bind hclose (runs_ret _ _)

theorem le32_injective {a b : Word} (h : le32 a = le32 b) : a = b := by
  have hfield := congrArg (fun bytes => field32 (bytes ++ []) 0) h
  simp only [field32_head] at hfield
  exact hfield

theorem cString_terminated (hname : 0 ∉ name) : cString (terminated name) = name := by
  have hzeros := cString_zeros name 1
  rw [terminated, ← List.replicate_one, hzeros, cString, List.takeWhile_eq_self_iff]
  intro c hc
  exact decide_eq_true fun hzero => hname (hzero ▸ hc)

/-- `dir_open` fails and changes nothing, or takes a free slot for the entries of the scan. -/
theorem dirOpen_cases (hvalid : ∀ did, Valid (h.openDirs did)) (drive : Word) (hname : 0 ∉ name) :
    (∃ res : Word, res.toInt < 0 ∧ dirOpen os drive name h = (res, h)) ∨
      ∃ did entries, Scanned os h drive name entries ∧
        setDir did DirHandle.closed h = h ∧
        dirOpen os drive name h = (BitVec.ofNat 32 did, setDir did (dirAt entries 0) h) := by
  have hdirs : (dirOpen os drive name h).2 =
      { h with openDirs := (dirOpen os drive name h).2.openDirs } := by
    rw [dirOpen]
    split
    · rfl
    · split
      · rfl
      · dsimp only
        split
        · rfl
        · rfl
        · split
          · rfl
          · split
            · rfl
            · rfl
  have hcmd : field32 (pathRequest .dopen (le32 drive) name 0).outcmd 12 = drive :=
    @field32_outcmd .dopen _ [] (le32 drive) _ 0 12 drive [] (by simp) rfl
  have hstep : stepDirs os h.openDirs (h, .dopen (pathRequest .dopen (le32 drive) name 0).outcmd
      (terminated name)) =
        (.res (dirOpen os drive name h).1, (dirOpen os drive name h).2.openDirs) := by
    rw [stepDirs, DirCommand.answer, hcmd, cString_terminated hname]
  have hcases := dopen_cases os hvalid h (pathRequest .dopen (le32 drive) name 0).outcmd
    (terminated name)
  rw [hstep, hcmd, cString_terminated hname] at hcases
  rcases hcases with ⟨res, hres, heq⟩ | ⟨did, entries, hscanned, hfree, heq⟩
  · obtain ⟨hreply, hopen⟩ := Prod.mk.inj heq
    rw [hopen] at hdirs
    exact .inl ⟨res, hres, Prod.ext (le32_injective (congrArg Reply.fields hreply)) hdirs⟩
  · obtain ⟨hreply, hopen⟩ := Prod.mk.inj heq
    rw [hopen] at hdirs
    refine .inr ⟨did, entries, hscanned, ?_,
      Prod.ext (le32_injective (congrArg Reply.fields hreply)) hdirs⟩
    rw [setDir, update_closed hvalid hfree]

theorem runs_ioDopen (hlength : name.length + 1 ≤ hostfsPathmax) (hname : 0 ∉ name) :
    Runs os (ioDopen true arg (some name)) h
      (keepHandle arg (takenReply .dopen (.res (dirOpen os arg.fsNum name h).1)))
      (dirOpen os arg.fsNum name h).2 := by
  have hsend : Sendable (pathRequest .dopen (le32 arg.fsNum) name 0) :=
    sendable_path trivial (by simp; rfl) hlength fun h => by cases h
  have hcmd : field32 (pathRequest .dopen (le32 arg.fsNum) name 0).outcmd 12 = arg.fsNum :=
    @field32_outcmd .dopen _ [] (le32 arg.fsNum) _ 0 12 arg.fsNum [] (by simp) rfl
  have hanswers : Answers .dopen
      (doHostfs os h (pathRequest .dopen (le32 arg.fsNum) name 0).outcmd) (terminated name)
      (.res (dirOpen os arg.fsNum name h).1, (dirOpen os arg.fsNum name h).2) := by
    have hhandle : Answers .dopen
        (handleDopen os h (pathRequest .dopen (le32 arg.fsNum) name 0).outcmd) (terminated name)
        (.res (dirOpen os (field32 (pathRequest .dopen (le32 arg.fsNum) name 0).outcmd 12)
            (cString (terminated name)) h).1,
          (dirOpen os (field32 (pathRequest .dopen (le32 arg.fsNum) name 0).outcmd 12)
            (cString (terminated name)) h).2) :=
      answers_handleData hsend.outcmd_length
        (by rw [decode_outcmd]; exact hsend.expected)
        (by rw [decode_outcmd]; exact hsend.outdata_length)
    rw [hcmd, cString_terminated hname] at hhandle
    rw [doHostfs_outcmd]
    exact hhandle
  exact runs_exchangeOnce arg hsend hanswers (replyOk_res rfl _) _

/-- Called while the link is empty, the program comes to an end with the PC as it was, whatever
the sizes of the USB transfers and the order of the parties' steps. -/
def Gives (os : HostOs σ) (prog : IoProg Listing) (h : Host σ) (listing : Listing) : Prop :=
  ∀ sizes before, ∃ log,
    Settles (Step (startHostfs os) requestBuffer) (atRest (prog.toProc sizes 0) h before)
      (atRest (.done listing) h log)

theorem gives_of_runs {prog : IoProg Listing} {listing : Listing}
    (hruns : Runs os prog h listing h) : Gives os prog h listing := by
  intro sizes before
  obtain ⟨log, hran⟩ := hruns
  exact ⟨before ++ log, (hran.concludes sizes 0 before).settles⟩

/-- `list_dir` shows the entries that `scandir` gave, each with what `stat` said of it, once and
in their order, and leaves no handle open; or the directory could not be opened. -/
theorem list_dir_lists (os : HostOs σ) (h : Host σ) (arg : PspIoDrvFileArg) (name : Bytes)
    (fuel : ℕ) (hvalid : ∀ did, Valid (h.openDirs did))
    (hlength : name.length + 1 ≤ hostfsPathmax) (hname : 0 ∉ name)
    -- what `scandir` returns is an `int`
    (hscan : ∀ path names, os.scandir path h.os = .ok names → names.length < 2 ^ 31)
    (hfuel : 2 ^ 31 ≤ fuel) :
    (∃ entries, Scanned os h arg.fsNum name entries ∧
      Gives os (listDir true fuel arg name) h (.shown (entries.map shownEntry))) ∨
      (dirOpen os arg.fsNum name h).1.toInt < 0 ∧
        Gives os (listDir true fuel arg name) h .notOpened := by
  have hopen := @runs_ioDopen σ os h arg name hlength hname
  rcases @dirOpen_cases σ os h name hvalid arg.fsNum hname with
    ⟨res, hres, heq⟩ | ⟨did, entries, hscanned, hclosed, heq⟩
  · rw [heq] at hopen ⊢
    refine .inr ⟨hres, gives_of_runs (runs_bind hopen ?_)⟩
    have htaken : (takenReply .dopen (Reply.res res)).res = res := takenReply_le32 _ _ _ _
    rw [keepHandle, htaken, if_neg (not_le.mpr hres), returnRes, htaken]
    dsimp only
    rw [toInt_signExtend, if_neg (not_le.mpr hres)]
    exact runs_ret _ _
  · have hcount : entries.length < 2 ^ 31 := by
      obtain ⟨path, names, -, hnames, hentries⟩ := hscanned
      rw [← hentries.length_eq]
      exact hscan path names hnames
    rw [heq] at hopen
    refine .inl ⟨entries, hscanned, gives_of_runs (runs_bind hopen ?_)⟩
    have hdid : did.val < 256 := did.isLt
    have hpos : 0 ≤ (BitVec.ofNat 32 did.val).toInt := by
      rw [BitVec.toInt_eq_toNat_of_lt (by rw [BitVec.toNat_ofNat]; omega)]
      exact Int.natCast_nonneg _
    have htaken : (takenReply .dopen (Reply.res (BitVec.ofNat 32 did.val))).res =
        BitVec.ofNat 32 did.val := takenReply_le32 _ _ _ _
    rw [keepHandle, htaken, if_pos hpos]
    dsimp only
    rw [if_pos (by decide)]
    have hslot : toSlot (BitVec.ofNat 32 did.val) = some did := by
      have hnat : (BitVec.ofNat 32 did.val).toNat = did.val := by
        rw [BitVec.toNat_ofNat]
        omega
      rw [toSlot, dif_pos (by rw [hnat]; exact hdid)]
      simp only [hnat]
    have hloop := @runs_listLoop σ os h ⟨arg.fsNum, BitVec.ofNat 32 did.val⟩ did entries hslot
      hcount fuel 0 (by omega) []
    rw [hclosed] at hloop
    exact hloop

/-- Every directory has two files, of 3 bytes each. -/
def twoFiles : HostOs FileState :=
  { fileOs with
    scandir := fun _ _ => .ok [[97], [98]]
    stat := fun _ _ => .ok { size := 3, mode := 0o100644, ctime := 0, atime := 0, mtime := 0 } }

theorem list_dir_lists_two : ∃ entries, Scanned twoFiles (oneFile [] []) 0 [47] entries ∧
    Gives twoFiles (listDir true (2 ^ 31) ⟨0, 0⟩ [47]) (oneFile [] [])
      (.shown (entries.map shownEntry)) :=
  (list_dir_lists twoFiles (oneFile [] []) ⟨0, 0⟩ [47] (2 ^ 31) (fun _ => valid_closed) (by decide)
    (by decide) (fun path names hnames => by
      obtain rfl := Except.ok.inj hnames
      decide)
    le_rfl).resolve_right fun hfailed => absurd hfailed.1 (by decide)

end PsplinkUsb.HostFs.DirectoryListing
