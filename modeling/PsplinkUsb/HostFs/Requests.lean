import PsplinkUsb.HostFs.Answers
import PsplinkUsb.UsbHostfs.HostDriver

namespace PsplinkUsb.HostFs.Requests

open PsplinkUsb.HostFs.Wire
open PsplinkUsb.HostFs.Answers
open PsplinkUsb.UsbHostfs.CommandXchg
open PsplinkUsb.UsbHostfs.HostDriver
open PsplinkUsb.UsbHostfsPc.Handlers

variable {req : XchgRequest}

/-- All requests of the program are of a kind. -/
def Sends {A : Type} (P : XchgRequest → Prop) : IoProg A → Prop
  | .ret _ => True
  | .xchg req next => P req ∧ ∀ r, Sends P (next r)

theorem sends_map {A A' : Type} {P : XchgRequest → Prop} {prog : IoProg A} (f : A → A')
    (h : Sends P prog) : Sends P (prog.map f) := by
  induction prog with
  | ret a => trivial
  | xchg req next ih => exact ⟨h.1, fun r => ih r (h.2 r)⟩

section

variable {connected : Bool} {arg : PspIoDrvFileArg}

theorem sends_exchangeOnce {P : XchgRequest → Prop} (h : P req)
    (onResponse : XchgResult → IoResult) :
    Sends P (exchangeOnce connected arg req onResponse) := by
  rw [exchangeOnce]
  split
  · exact ⟨h, fun _ => trivial⟩
  · trivial

/-- The commands whose request names a path, apart from rename. -/
def NamesPath : HostFsCommand → Prop
  | .open | .dopen | .remove | .rmdir | .mkdir | .getstat | .chstat | .chdir => True
  | _ => False

theorem sendable_path {command : HostFsCommand} {fields name : Bytes} {inlen : ℤ}
    (hcommand : NamesPath command) (hfields : sizeofHostFsCmd + fields.length = command.cmdSize)
    (hname : name.length + 1 ≤ hostfsPathmax) (hinlen : command = .getstat → 0 < inlen) :
    Sendable (pathRequest command fields name inlen) := by
  rw [hostfsPathmax] at hname
  have hextralen : (BitVec.ofNat 32 (name.length + 1)).toInt = name.length + 1 := by
    rw [BitVec.toInt_eq_toNat_of_lt (by rw [BitVec.toNat_ofNat]; omega), BitVec.toNat_ofNat]
    omega
  refine ⟨by simp [XchgRequest.outcmd, pathRequest, hfields], ?_, ?_, ?_⟩
  · simp only [pathRequest, terminated, hextralen, List.length_append, List.length_singleton]
    omega
  · have hbuffer : dataBuffer command = hostfsPathmax := by
      cases command <;> first | rfl | exact hcommand.elim
    simpa [pathRequest, terminated, hbuffer, hostfsPathmax] using hname
  · have hpos : 0 < (BitVec.ofNat 32 (name.length + 1)).toInt := by omega
    cases command with
    | getstat => exact ⟨hpos, hinlen rfl⟩
    | _ => first | exact hpos | exact hcommand.elim

theorem sendable_rename {fsnum : Word} {oldname newname : Bytes}
    (hsize : ¬ hostfsRenameBufsize < oldname.length + newname.length + 2) :
    Sendable
      { command := .rename, extralen := BitVec.ofNat 32 (oldname.length + newname.length + 2)
        fields := le32 fsnum, outdata := renameBuffer oldname newname, inlen := 0 } := by
  rw [hostfsRenameBufsize] at hsize
  have hlength : (renameBuffer oldname newname).length = oldname.length + newname.length + 2 := by
    simp [renameBuffer, terminated]
    omega
  have hextralen : (BitVec.ofNat 32 (oldname.length + newname.length + 2)).toInt =
      oldname.length + newname.length + 2 := by
    rw [BitVec.toInt_eq_toNat_of_lt (by rw [BitVec.toNat_ofNat]; omega), BitVec.toNat_ofNat]
    omega
  refine ⟨by simp [XchgRequest.outcmd]; rfl, ?_, ?_, ?_⟩
  · simp only [hlength, hextralen]
    omega
  · simp only [hlength, dataBuffer, hostfsPathmax]
    omega
  · simp only [Expected, hextralen]
    omega

def IsPlain : HostFsCommand → Prop
  | .close | .lseek | .dclose | .dread => True
  | _ => False

theorem sendable_plain {command : HostFsCommand} {fields : Bytes} {inlen : ℤ}
    (hcommand : IsPlain command) (hfields : sizeofHostFsCmd + fields.length = command.cmdSize)
    (hinlen : command = .dread → 0 < inlen) :
    Sendable (plainRequest command fields inlen) := by
  refine ⟨by simp [XchgRequest.outcmd, plainRequest, hfields], rfl, Nat.zero_le _, ?_⟩
  cases command with
  | dread => exact ⟨rfl, hinlen rfl⟩
  | _ => first | rfl | exact hcommand.elim

theorem field32_outcmd {command : HostFsCommand} {extralen : Word} {front fields outdata : Bytes}
    {inlen : ℤ} {offset : ℕ} (w : Word) (back : Bytes)
    (hfields : fields = front ++ (le32 w ++ back))
    (hoffset : sizeofHostFsCmd + front.length = offset) :
    field32 (XchgRequest.outcmd ⟨command, extralen, fields, outdata, inlen⟩) offset = w := by
  rw [XchgRequest.outcmd, hfields, ← List.append_assoc]
  apply field32_le32
  simpa using hoffset

theorem readRequest_len (fd : Word) (n : ℕ) :
    field32 (readRequest fd n).outcmd 16 = BitVec.ofNat 32 n :=
  @field32_outcmd .read 0 (le32 fd) _ [] n 16 (BitVec.ofNat 32 n) [] (by simp) (by simp; rfl)

theorem sendable_read {fd : Word} {n : ℕ} (hpos : 0 < n) (hle : n ≤ hostfsMaxBlock) :
    Sendable (readRequest fd n) := by
  rw [hostfsMaxBlock] at hle
  refine ⟨?_, rfl, Nat.zero_le _, rfl, by simpa [readRequest, plainRequest] using hpos, ?_⟩
  · simp [XchgRequest.outcmd, readRequest, plainRequest]
    rfl
  · rw [readRequest_len, BitVec.toInt_eq_toNat_of_lt (by rw [BitVec.toNat_ofNat]; omega),
      BitVec.toNat_ofNat]
    omega

theorem sendable_write {fd : Word} {data : Bytes} (hpos : 0 < data.length)
    (hle : data.length ≤ hostfsMaxBlock) : Sendable (writeRequest fd data) := by
  have hmax : hostfsMaxBlock = 65536 := rfl
  have hextralen : (BitVec.ofNat 32 data.length).toInt = data.length := by
    rw [BitVec.toInt_eq_toNat_of_lt (by rw [BitVec.toNat_ofNat]; omega), BitVec.toNat_ofNat]
    omega
  refine ⟨?_, ?_, hle, ?_⟩
  · simp [XchgRequest.outcmd, writeRequest]
    rfl
  · simp [writeRequest, hextralen]
  · simpa only [Expected, writeRequest, hextralen] using Int.natCast_pos.mpr hpos

theorem length_inputBytes (indata : Option Buffer) (inlen : Word) :
    (inputBytes indata inlen).length = (lengthOf indata inlen).toInt.toNat := by
  cases indata with
  | none => rfl
  | some buf => simp [inputBytes, lengthOf]

theorem sendable_control {command : HostFsCommand} {first second inlen outlen : Word}
    {indata : Option Buffer} {outdata : Option Unit}
    (hcommand : command = .ioctl ∨
      command = .devctl ∧ (first = devctlGetInfo → 0 < (lengthOf outdata outlen).toInt))
    (hinlen : inlen.toInt ≤ 64 * 1024) :
    Sendable (controlRequest command first second indata inlen outdata outlen) := by
  have hfirst : field32
      (controlRequest command first second indata inlen outdata outlen).outcmd 12 = first :=
    @field32_outcmd command _ [] _ _ _ 12 first (le32 second ++ le32 (lengthOf outdata outlen))
      (by simp) rfl
  have hfits : (inputBytes indata inlen).length ≤ 64 * 1024 := by
    cases indata with
    | none => exact Nat.zero_le _
    | some buf =>
        simp only [inputBytes, length_bytesAt]
        omega
  refine ⟨?_, length_inputBytes indata inlen, ?_, ?_⟩
  · rcases hcommand with rfl | ⟨rfl, -⟩
    · simp [XchgRequest.outcmd, controlRequest]
      rfl
    · simp [XchgRequest.outcmd, controlRequest]
      rfl
  · rcases hcommand with rfl | ⟨rfl, -⟩
    · exact hfits
    · exact hfits
  · rcases hcommand with rfl | ⟨rfl, hinfo⟩
    · trivial
    · intro hget
      exact hinfo (hfirst.symm.trans hget)

theorem sends_afterRequest {P : XchgRequest → Prop} {r : XchgResult} {p : Progress}
    {next : Progress → TransferProg} (h : ∀ p, Sends P (next p)) :
    Sends P (afterRequest r p next) := by
  rw [afterRequest]
  split
  · split
    · exact h _
    · trivial
  · trivial

theorem sends_transferData {P : XchgRequest → Prop}
    {request : ℕ → Progress → (Progress → TransferProg) → TransferProg}
    (hrequest : ∀ n p next, 0 < n → n ≤ hostfsMaxBlock → (∀ p, Sends P (next p)) →
      Sends P (request n p next))
    (data : Option Buffer) (len : ℤ) : Sends P (transferData request data len) := by
  have hblocks : ∀ residual ≤ hostfsMaxBlock, ∀ blocks p,
      Sends P (transferBlocks request residual blocks p) := by
    intro residual hresidual blocks
    induction blocks with
    | zero =>
        intro p
        rw [transferBlocks]
        split
        · rename_i hpos
          exact hrequest residual p _ hpos hresidual fun _ => trivial
        · trivial
    | succ blocks ih => exact fun p => hrequest _ p _ (by decide) le_rfl ih
  have hmod : len.toNat % hostfsMaxBlock ≤ hostfsMaxBlock :=
    (Nat.mod_lt _ (by decide)).le
  unfold transferData
  split
  · trivial
  · split
    · trivial
    · cases data with
      | none => trivial
      | some buf => exact hblocks _ hmod _ _

theorem sends_ioRead (data : Option Buffer) (len : ℤ) :
    Sends Sendable (ioRead connected arg data len) := by
  apply sends_transferData
  intro n p next hpos hle hnext
  rw [readBlock]
  split
  · exact ⟨sendable_read hpos hle, fun r => sends_afterRequest hnext⟩
  · trivial

theorem sends_ioWrite (data : Option Buffer) (len : ℤ) :
    Sends Sendable (ioWrite connected arg data len) := by
  apply sends_transferData
  intro n p next hpos hle hnext
  rw [writeBlock]
  split
  · exact ⟨sendable_write (by simpa using hpos) (by simpa using hle),
      fun r => sends_afterRequest hnext⟩
  · trivial

end

/-- A path as the callers pass it: with its NUL it fits `HOSTFS_PATHMAX`. -/
def PathOk (path : Option Bytes) : Prop := ∀ name ∈ path, name.length + 1 ≤ hostfsPathmax

/-- The calls considered: paths as above, inputs of `ioctl` and `devctl` of at most
64 KiB. -/
def Valid : IoCall → Prop
  | .open file _ _ => PathOk file
  | .remove name | .mkdir name _ | .rmdir name | .dopen name | .chdir name => PathOk name
  | .getstat file _ | .chstat file _ _ => PathOk file
  | .rename oldname newname => PathOk oldname ∧ PathOk newname
  | .ioctl _ _ inlen _ _ | .devctl _ _ _ inlen _ _ _ => inlen.toInt ≤ 64 * 1024
  | .close | .read _ _ | .write _ _ | .lseek _ _ | .dclose | .dread _ => True

section

variable {connected : Bool} {arg : PspIoDrvFileArg} {onResponse : XchgResult → IoResult}

theorem sends_path {path : Option Bytes} (hpath : PathOk path) {command : HostFsCommand}
    {fields : Bytes} {inlen : ℤ} (hcommand : NamesPath command)
    (hfields : sizeofHostFsCmd + fields.length = command.cmdSize)
    (hinlen : command = .getstat → 0 < inlen) :
    Sends Sendable (match path with
      | none => invalid arg
      | some name => exchangeOnce connected arg (pathRequest command fields name inlen) onResponse) := by
  cases path with
  | none => trivial
  | some name => exact sends_exchangeOnce (sendable_path hcommand hfields (hpath name rfl) hinlen) _

theorem sends_plain {command : HostFsCommand} {fields : Bytes} {inlen : ℤ}
    (hcommand : IsPlain command) (hfields : sizeofHostFsCmd + fields.length = command.cmdSize)
    (hinlen : command = .dread → 0 < inlen) :
    Sends Sendable (exchangeOnce connected arg (plainRequest command fields inlen) onResponse) :=
  sends_exchangeOnce (sendable_plain hcommand hfields hinlen) _

theorem sends_ioGetstat {file : Option Bytes} (hfile : PathOk file) (stat : Option Unit) :
    Sends Sendable (ioGetstat connected arg file stat) := by
  rcases file with _ | file
  · trivial
  · rcases stat with _ | _
    · trivial
    · exact sends_path hfile trivial (by simp; rfl) fun _ => by decide

theorem sends_ioChstat {file : Option Bytes} (hfile : PathOk file) (stat : Option StatArgs)
    (bits : Word) : Sends Sendable (ioChstat connected arg file stat bits) := by
  rcases file with _ | file
  · trivial
  · rcases stat with _ | stat
    · trivial
    · exact sends_path hfile trivial (by simp [chstatTimes, DateTime.encode]; rfl) nofun

theorem sends_ioRename (oldname newname : Option Bytes) :
    Sends Sendable (ioRename connected arg oldname newname) := by
  rcases oldname with _ | oldname
  · trivial
  · rcases newname with _ | newname
    · trivial
    · change Sends Sendable (ite _ _ _)
      split
      · trivial
      · rename_i hsize
        exact sends_exchangeOnce (sendable_rename hsize) _

theorem sends_ioDevctl (name : Option Bytes) (cmdno : Word) (indata : Option Buffer) {inlen : Word}
    (hinlen : inlen.toInt ≤ 64 * 1024) (outdata : Option Unit) (outlen : Word) (info : Bool) :
    Sends Sendable (ioDevctl connected arg name cmdno indata inlen outdata outlen info) := by
  rcases name with _ | name
  · trivial
  · change Sends Sendable (ite _ _ _)
    split
    · cases info with
      | false => trivial
      | true =>
          exact sends_exchangeOnce (sendable_control (.inr ⟨rfl, fun _ => by decide⟩) (by decide)) _
    · rename_i hinfo
      exact sends_exchangeOnce (sendable_control (.inr ⟨rfl, fun h => absurd h hinfo⟩) hinlen) _

end

/-- Every request of every call is as the PC expects it. -/
theorem sends_call (connected : Bool) (arg : PspIoDrvFileArg) {call : IoCall}
    (hcall : Valid call) : Sends Sendable (call.prog connected arg) := by
  cases call with
  | «open» file mode mask => exact sends_map _ (sends_path hcall trivial (by simp; rfl) nofun)
  | close => exact sends_map _ (sends_plain trivial (by simp; rfl) nofun)
  | read data len => exact sends_map _ (sends_ioRead data len)
  | write data len => exact sends_map _ (sends_ioWrite data len)
  | lseek ofs whence => exact sends_map _ (sends_plain trivial (by simp; rfl) nofun)
  | ioctl cmdno indata inlen outdata outlen =>
      exact sends_map _ (sends_exchangeOnce (sendable_control (.inl rfl) hcall) _)
  | remove name => exact sends_map _ (sends_path hcall trivial (by simp; rfl) nofun)
  | mkdir name mode => exact sends_map _ (sends_path hcall trivial (by simp; rfl) nofun)
  | rmdir name => exact sends_map _ (sends_path hcall trivial (by simp; rfl) nofun)
  | dopen dir => exact sends_map _ (sends_path hcall trivial (by simp; rfl) nofun)
  | dclose => exact sends_map _ (sends_plain trivial (by simp; rfl) nofun)
  | dread dir =>
      apply sends_map
      cases dir with
      | none => trivial
      | some _ => exact sends_plain trivial (by simp; rfl) fun _ => by decide
  | getstat file stat => exact sends_map _ (sends_ioGetstat hcall stat)
  | chstat file stat bits => exact sends_map _ (sends_ioChstat hcall stat bits)
  | rename oldname newname => exact sends_map _ (sends_ioRename oldname newname)
  | chdir dir => exact sends_map _ (sends_path hcall trivial (by simp; rfl) nofun)
  | devctl name cmdno indata inlen outdata outlen info =>
      exact sends_map _ (sends_ioDevctl name cmdno indata hcall outdata outlen info)

end PsplinkUsb.HostFs.Requests
