import PsplinkUsb.Library.CString
import PsplinkUsb.HostFs.Framing

namespace PsplinkUsb.HostFs.RenameNames

open PsplinkUsb.Library.CString
open PsplinkUsb.HostFs.Wire
open PsplinkUsb.HostFs.Exchange
open PsplinkUsb.HostFs.Answers
open PsplinkUsb.HostFs.Requests
open PsplinkUsb.HostFs.Framing
open PsplinkUsb.UsbHostfs.CommandXchg
open PsplinkUsb.UsbHostfs.HostDriver
open PsplinkUsb.UsbHostfsPc.HostPath
open PsplinkUsb.UsbHostfsPc.OsCalls
open PsplinkUsb.UsbHostfsPc.HostFiles
open PsplinkUsb.UsbHostfsPc.Handlers
open PsplinkUsb.UsbHostfsPc.PlainFile

variable {σ : Type} {os : HostOs σ} {arg : PspIoDrvFileArg} {oldname newname : Bytes}

/-- The name a file is given: a relative new name next to an absolute old one is put into the
directory of the old one. -/
def IsDestination (oldname newname dest : Bytes) : Prop :=
  if oldname.head? = some slash ∧ newname.head? ≠ some slash then
    ∃ dir name, oldname = dir ++ slash :: name ∧ slash ∉ name ∧ dest = dir ++ slash :: newname
  else dest = newname

/-- What the PC makes of a rename with these two names. -/
def renamed (os : HostOs σ) (fsnum : Word) (oldname dest : Path) (h : Host σ) : Reply × Host σ :=
  match makePath (h.pathEnv os) fsnum oldname false,
    makePath (h.pathEnv os) fsnum dest false with
  | some oldpath, some newpath => callOs (os.rename oldpath newpath) h
  | _, _ => (.res (-1), h)

theorem renameNames_renameBuffer (hold : 0 ∉ oldname) (hnew : 0 ∉ newname) :
    renameNames (renameBuffer oldname newname) = (oldname, newname) := by
  have hbuffer : renameBuffer oldname newname = oldname ++ 0 :: (newname ++ [0]) := by
    simp [renameBuffer, terminated]
  have hfirst : cString (renameBuffer oldname newname) = oldname := by
    rw [hbuffer]
    exact cstr_append_zero hold _
  have hsecond : cString ((renameBuffer oldname newname).drop (oldname.length + 1)) =
      newname := by
    rw [hbuffer, ← List.singleton_append, ← List.append_assoc,
      List.drop_left' (by simp)]
    exact cstr_append_zero hnew []
  rw [renameNames, hfirst, hsecond]

theorem isDestination_renameDest (oldname newname : Bytes) :
    IsDestination oldname newname (renameDest oldname newname) := by
  rw [IsDestination, renameDest]
  split
  · rename_i hmixed
    have hmem : slash ∈ oldname := List.mem_of_head? hmixed.1
    obtain ⟨name, dir, hreverse, hname⟩ :=
      List.eq_append_cons_of_mem (List.mem_reverse.mpr hmem)
    have hskipped : (name ++ slash :: dir).dropWhile (fun c => c ≠ slash) = slash :: dir := by
      rw [List.dropWhile_append_of_pos]
      · rw [List.dropWhile_cons_of_neg (by simp)]
      · intro c hc
        rw [decide_eq_true_eq]
        rintro rfl
        exact hname hc
    refine ⟨dir.reverse, name.reverse, ?_, mt List.mem_reverse.mp hname, ?_⟩
    · rw [← List.reverse_reverse oldname, hreverse]
      simp
    · rw [hreverse, hskipped]
      simp
  · rfl

/-- The request of `io_rename`. -/
def renameRequest (arg : PspIoDrvFileArg) (oldname newname : Bytes) : XchgRequest where
  command := .rename
  extralen := BitVec.ofNat 32 (oldname.length + newname.length + 2)
  fields := le32 arg.fsNum
  outdata := renameBuffer oldname newname
  inlen := 0

theorem ioRename_eq (connected : Bool)
    (hsize : oldname.length + newname.length + 2 ≤ hostfsRenameBufsize) :
    ioRename connected arg (some oldname) (some newname) =
      exchangeOnce connected arg (renameRequest arg oldname newname) (returnRes arg) := by
  simp only [ioRename]
  rw [if_neg (Nat.not_lt.mpr hsize)]
  rfl

theorem answers_rename (hold : 0 ∉ oldname) (hnew : 0 ∉ newname)
    (hreq : Sendable (renameRequest arg oldname newname)) (h : Host σ) :
    Answers .rename (doHostfs os h (renameRequest arg oldname newname).outcmd)
      (renameBuffer oldname newname)
      (renamed os arg.fsNum oldname (renameDest oldname newname) h) := by
  have hserve : doHostfs os h (renameRequest arg oldname newname).outcmd =
      handleRename os h (renameRequest arg oldname newname).outcmd := doHostfs_outcmd h
  have hfsnum : field32 (renameRequest arg oldname newname).outcmd 12 = arg.fsNum :=
    @field32_outcmd .rename _ [] (le32 arg.fsNum) _ 0 12 arg.fsNum [] (by simp) rfl
  have hanswers : Answers .rename (handleRename os h (renameRequest arg oldname newname).outcmd)
      (renameBuffer oldname newname) _ :=
    answers_handleData hreq.outcmd_length (by rw [decode_outcmd]; exact hreq.expected)
      (by rw [decode_outcmd]; exact hreq.outdata_length)
  rw [renameNames_renameBuffer hold hnew, hfsnum] at hanswers
  rw [hserve]
  exact hanswers

theorem renamed_reply (os : HostOs σ) (fsnum : Word) (oldname dest : Path) (h : Host σ) :
    ∃ res, (renamed os fsnum oldname dest h).1 = .res res := by
  rw [renamed]
  split
  · exact ⟨_, rfl⟩
  · exact ⟨_, rfl⟩

/-- `handle_rename` recovers the two names that `io_rename` was given, whatever they are, and
the destination that goes with them. Names that do not fit the buffer are not sent. -/
theorem rename_recovered (os : HostOs σ) (arg : PspIoDrvFileArg) (oldname newname : Bytes)
    (hold : 0 ∉ oldname) (hnew : 0 ∉ newname) :
    (oldname.length + newname.length + 2 ≤ hostfsRenameBufsize →
      ioRename true arg (some oldname) (some newname) =
          exchangeOnce true arg (renameRequest arg oldname newname) (returnRes arg) ∧
        renameNames (renameRequest arg oldname newname).outdata = (oldname, newname) ∧
        ∃ dest, IsDestination oldname newname dest ∧ renameDest oldname newname = dest ∧
          ∀ h, ∃ res, (renamed os arg.fsNum oldname dest h).1 = .res res ∧
            Runs os (ioRename true arg (some oldname) (some newname)) h
              { ret := res.signExtend 64, arg := arg, indata := [] }
              (renamed os arg.fsNum oldname dest h).2) ∧
      (hostfsRenameBufsize < oldname.length + newname.length + 2 → ∀ connected,
        ioRename connected arg (some oldname) (some newname) =
          .ret { ret := -1, arg := arg, indata := [] }) := by
  constructor
  · intro hsize
    have hreq : Sendable (renameRequest arg oldname newname) :=
      sendable_rename (Nat.not_lt.mpr hsize)
    refine ⟨ioRename_eq true hsize, renameNames_renameBuffer hold hnew, _,
      isDestination_renameDest oldname newname, rfl, fun h => ?_⟩
    obtain ⟨res, hres⟩ := renamed_reply os arg.fsNum oldname (renameDest oldname newname) h
    refine ⟨res, hres, ?_⟩
    have hruns := runs_exchangeOnce arg hreq (answers_rename hold hnew hreq h)
      (by rw [hres]; exact replyOk_res rfl res) (returnRes arg)
    rw [← ioRename_eq true hsize, hres, returnRes, takenReply_res rfl] at hruns
    exact hruns
  · intro hlong connected
    simp only [ioRename]
    rw [if_pos hlong]
    rfl

/-- `/d/a` renamed to `b` becomes `/d/b`. -/
theorem rename_recovered_rebased :
    0 ∉ ([47, 100, 47, 97] : Bytes) ∧ 0 ∉ ([98] : Bytes) ∧
      renameNames (renameRequest ⟨0, 0⟩ [47, 100, 47, 97] [98]).outdata =
        ([47, 100, 47, 97], [98]) :=
  ⟨by decide, by decide,
    ((rename_recovered fileOs ⟨0, 0⟩ [47, 100, 47, 97] [98] (by decide) (by decide)).1
      (by decide)).2.1⟩

end PsplinkUsb.HostFs.RenameNames
