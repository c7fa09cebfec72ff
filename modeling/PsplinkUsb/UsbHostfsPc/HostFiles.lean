import Mathlib.Data.List.TakeDrop
import PsplinkUsb.UsbHostfsPc.OsCalls

/-!
The state of `usbhostfs_pc` and the functions on it that the handlers call: the
tables of open files and directories, the drives, and the transfer loops.
-/

namespace PsplinkUsb.UsbHostfsPc.HostFiles

open PsplinkUsb.Library.Tokens
open PsplinkUsb.HostFs.Wire
open PsplinkUsb.UsbHostfsPc.HostPath
open PsplinkUsb.UsbHostfsPc.OsCalls

abbrev maxFiles : ℕ := 256
abbrev maxDirs : ℕ := 256

def pspOWronly : Word := 0x0002
def pspORdonly : Word := 0x0001
def pspORdwr : Word := 0x0003
def pspOAppend : Word := 0x0100
def pspOCreat : Word := 0x0200
def pspOTrunc : Word := 0x0400
def pspOExcl : Word := 0x0800

def fioSIflnk : Word := 0x4000
def fioSIfdir : Word := 0x1000
def fioSIfreg : Word := 0x2000
def fioSoIflnk : Word := 0x0008
def fioSoIfdir : Word := 0x0010
def fioSoIfreg : Word := 0x0020

def pspChstatMode : Word := 0x01
def pspChstatAtime : Word := 0x10
def pspChstatMtime : Word := 0x20

structure ScePspDateTime where
  year : BitVec 16
  month : BitVec 16
  day : BitVec 16
  hour : BitVec 16
  minute : BitVec 16
  second : BitVec 16
  microsecond : Word

def ScePspDateTime.encode (t : ScePspDateTime) : Bytes :=
  le16 t.year ++ le16 t.month ++ le16 t.day ++ le16 t.hour ++ le16 t.minute ++ le16 t.second ++
    le32 t.microsecond

structure SceIoStat where
  mode : Word
  attr : Word
  size : BitVec 64
  ctime : ScePspDateTime
  atime : ScePspDateTime
  mtime : ScePspDateTime

/-- The struct with `st_private` zero, as `memset` left it. -/
def SceIoStat.encode (s : SceIoStat) : Bytes :=
  le32 s.mode ++ le32 s.attr ++ le64 s.size ++ s.ctime.encode ++ s.atime.encode ++
    s.mtime.encode ++ List.replicate 24 0

def sizeofSceIoStat : ℕ := 88

structure SceIoDirent where
  stat : SceIoStat
  name : Path

def SceIoDirent.encode (d : SceIoDirent) : Bytes :=
  d.stat.encode ++ d.name.takeD 256 0 ++ List.replicate 8 0

def sizeofSceIoDirent : ℕ := 352

@[simp] theorem ScePspDateTime.length_encode (t : ScePspDateTime) : t.encode.length = 16 := by
  simp [encode]

@[simp] theorem SceIoStat.length_encode (s : SceIoStat) : s.encode.length = sizeofSceIoStat := by
  simp [encode, sizeofSceIoStat]

@[simp] theorem SceIoDirent.length_encode (d : SceIoDirent) :
    d.encode.length = sizeofSceIoDirent := by
  rw [encode, List.length_append, List.length_append, SceIoStat.length_encode, List.takeD_length,
    List.length_replicate]
  rfl

structure FileHandle where
  opened : Bool
  mode : Word
  name : Option Path

structure DirHandle where
  opened : Bool
  count : ℕ
  pos : ℕ
  pDir : List SceIoDirent

def FileHandle.closed : FileHandle := { opened := false, mode := 0, name := none }

def DirHandle.closed : DirHandle := { opened := false, count := 0, pos := 0, pDir := [] }

/-- The globals of `usbhostfs_pc` and the operating system under it. -/
structure Host (σ : Type) where
  openFiles : Fin maxFiles → FileHandle
  openDirs : Fin maxDirs → DirHandle
  drives : Fin maxHostdrives → HostDrive
  msslash : Bool
  nocase : Bool
  os : σ

variable {σ : Type} (os : HostOs σ)

def Host.pathEnv (h : Host σ) : PathEnv where
  drives := h.drives
  msslash := h.msslash
  nocase := h.nocase
  readNames := fun path => os.readNames path h.os
  drivesLocked := os.drivesLocked h.os

/-- The slot a number from the wire names: the checks `fid >= 0` and
`fid < MAX_FILES` on it as a signed number. -/
def toSlot (fid : Word) : Option (Fin maxFiles) :=
  if h : fid.toNat < maxFiles then some ⟨fid.toNat, h⟩ else none

def isDir (path : Path) (s : σ) : Bool :=
  match os.stat path s with
  | .ok st => st.isDir
  | .error _ => false

def accessMode (mode : Word) : Option Access :=
  if mode &&& pspORdwr = pspORdwr then some .rdwr
  else if mode &&& pspORdonly ≠ 0 then some .rdonly
  else if mode &&& pspOWronly ≠ 0 then some .wronly
  else none

def openFile (drive : Word) (path : Path) (mode mask : Word) (h : Host σ) : Word × Host σ :=
  match makePath (h.pathEnv os) drive path false with
  | none => (getError enoent, h)
  | some fullpath =>
      match accessMode mode with
      | none => (getError einval, h)
      | some access =>
          let flags : OpenFlags :=
            { access := access, append := mode &&& pspOAppend ≠ 0
              creat := mode &&& pspOCreat ≠ 0, trunc := mode &&& pspOTrunc ≠ 0
              excl := mode &&& pspOExcl ≠ 0 }
          if isDir os fullpath h.os then (getError enoent, h)
          else
            match os.openFile fullpath flags (mask &&& ~~~0o111) h.os with
            | (.error e, s) => (getError e, { h with os := s })
            | (.ok fd, s) =>
                if hfd : fd < maxFiles then
                  let file : FileHandle := { opened := true, mode := mode, name := some fullpath }
                  (BitVec.ofNat 32 fd,
                    { h with os := s, openFiles := Function.update h.openFiles ⟨fd, hfd⟩ file })
                else (getError emfile, { h with os := (os.close fd s).2 })

def fillTime (t : ℤ) : ScePspDateTime :=
  let filetime := os.localtime t
  { year := BitVec.ofInt 16 (filetime.year + 1900)
    month := BitVec.ofInt 16 (filetime.mon + 1)
    day := BitVec.ofInt 16 filetime.mday
    hour := BitVec.ofInt 16 filetime.hour
    minute := BitVec.ofInt 16 filetime.min
    second := BitVec.ofInt 16 filetime.sec
    microsecond := 0 }

/-- The path `fill_stat` looks at; `none` when it is too long. -/
def statPath (dirname : Option Path) (name : Path) : Option Path :=
  match dirname with
  | none => some name
  | some dirname =>
      let path :=
        if dirname.getLast? = some slash then dirname ++ name else dirname ++ slash :: name
      if pathMax < path.length then none else some (path.take (pathMax - 1))

/-- `fill_stat`: the struct filled in, or the negative result. -/
def fillStat (dirname : Option Path) (name : Path) (s : σ) : Except Word SceIoStat :=
  match statPath dirname name with
  | none => .error (getError enametoolong)
  | some path =>
      match os.stat path s with
      | .error e => .error (getError e)
      | .ok st =>
          let (attr, mode) :=
            if st.isLnk then (fioSoIflnk, fioSIflnk)
            else if st.isDir then (fioSoIfdir, fioSIfdir)
            else (fioSoIfreg, fioSIfreg)
          .ok
            { mode := mode ||| st.mode &&& 0o777
              attr := attr
              size := st.size
              ctime := fillTime os st.ctime
              atime := fillTime os st.atime
              mtime := fillTime os st.mtime }

/-- The directory structures of `names`, `none` when one of them has no stat. -/
def fillDirents (fulldir : Path) (s : σ) : List Path → Option (List SceIoDirent)
  | [] => some []
  | name :: names =>
      match fillStat os (some fulldir) name s with
      | .error _ => none
      | .ok stat => (fillDirents fulldir s names).map ({ stat := stat, name := name } :: ·)

def findFreeDir (h : Host σ) : Option (Fin maxDirs) :=
  (List.finRange maxDirs).find? fun did => !(h.openDirs did).opened

def setDir (did : Fin maxDirs) (d : DirHandle) (h : Host σ) : Host σ :=
  { h with openDirs := Function.update h.openDirs did d }

def dirOpen (drive : Word) (dirname : Path) (h : Host σ) : Word × Host σ :=
  match findFreeDir h with
  | none => (getError emfile, h)
  | some did =>
      match makePath (h.pathEnv os) drive dirname true with
      | none => (getError enoent, h)
      | some fulldir =>
          let h := setDir did DirHandle.closed h
          match os.scandir fulldir h.os with
          | .error e => (getError e, h)
          | .ok [] => (getError (os.errno h.os), h)
          | .ok names =>
              if !os.mallocSucceeds (sizeofSceIoDirent * names.length) h.os then (-1, h)
              else
                match fillDirents os fulldir h.os names with
                | none => (-1, h)
                | some pDir =>
                    let d : DirHandle :=
                      { opened := true, count := names.length, pos := 0, pDir := pDir }
                    (BitVec.ofNat 32 did, setDir did d h)

def dirClose (did : Word) (h : Host σ) : Word × Host σ :=
  match toSlot did with
  | none => (-1, h)
  | some did =>
      if (h.openDirs did).opened then (0, setDir did DirHandle.closed h) else (-1, h)

/-- `fixed_write` of what is left of the data, after `byteswrite` bytes. -/
def fixedWrite (fd : ℕ) (data : Bytes) (byteswrite : ℕ) (s : σ) : Word × σ :=
  if data = [] then (BitVec.ofNat 32 byteswrite, s)
  else
    match hwrite : os.write fd data s with
    | (.error e, s') =>
        if e = eintr then fixedWrite fd data byteswrite s' else (getError e, s')
    | (.ok 0, s') => (BitVec.ofNat 32 byteswrite, s')
    | (.ok (n + 1), s') => fixedWrite fd (data.drop (n + 1)) (byteswrite + (n + 1)) s'
termination_by (data.length, os.patience s)
decreasing_by
  · rename_i heintr
    have hlt := os.write_eintr fd data s
    simp only [hwrite, heintr, forall_const] at hlt
    exact Prod.Lex.right _ hlt
  · rename_i hdata
    have hpos := List.length_pos_iff.mpr hdata
    exact Prod.Lex.left _ _ (by simp only [List.length_drop]; omega)

/-- `fixed_read` of the `left` bytes that are missing, after those in `data`: the
result and what the block holds at its end. -/
def fixedRead (fd : ℕ) (left : ℕ) (data : Bytes) (s : σ) : Word × Bytes × σ :=
  if left = 0 then (BitVec.ofNat 32 data.length, data, s)
  else
    match _hread : os.read fd left s with
    | (.error e, s') =>
        if e = eintr then fixedRead fd left data s' else (getError e, data, s')
    | (.ok [], s') => (BitVec.ofNat 32 data.length, data, s')
    | (.ok (b :: bytes), s') =>
        fixedRead fd (left - (b :: bytes).length) (data ++ b :: bytes) s'
termination_by (left, os.patience s)
decreasing_by
  · rename_i heintr
    have hlt := os.read_eintr fd left s
    simp only [_hread, heintr, forall_const] at hlt
    exact Prod.Lex.right _ hlt
  · exact Prod.Lex.left _ _ (by simp only [List.length_cons]; omega)

section

variable {os : HostOs σ} {fd left byteswrite n : ℕ} {data bytes : Bytes} {s s' : σ} {e : Errno}

theorem fixedRead_zero : fixedRead os fd 0 data s = (BitVec.ofNat 32 data.length, data, s) := by
  rw [fixedRead, if_pos rfl]

theorem fixedRead_error (hleft : left ≠ 0) (hread : os.read fd left s = (.error e, s')) :
    fixedRead os fd left data s =
      if e = eintr then fixedRead os fd left data s' else (getError e, data, s') := by
  rw [fixedRead, if_neg hleft]
  split <;> simp_all

theorem fixedRead_nil (hleft : left ≠ 0) (hread : os.read fd left s = (.ok [], s')) :
    fixedRead os fd left data s = (BitVec.ofNat 32 data.length, data, s') := by
  rw [fixedRead, if_neg hleft]
  split <;> simp_all

theorem fixedRead_cons (hleft : left ≠ 0) (hread : os.read fd left s = (.ok bytes, s'))
    (hbytes : bytes ≠ []) :
    fixedRead os fd left data s =
      fixedRead os fd (left - bytes.length) (data ++ bytes) s' := by
  rw [fixedRead, if_neg hleft]
  split <;> simp_all

theorem fixedWrite_nil : fixedWrite os fd [] byteswrite s = (BitVec.ofNat 32 byteswrite, s) := by
  rw [fixedWrite, if_pos rfl]

theorem fixedWrite_error (hdata : data ≠ []) (hwrite : os.write fd data s = (.error e, s')) :
    fixedWrite os fd data byteswrite s =
      if e = eintr then fixedWrite os fd data byteswrite s' else (getError e, s') := by
  rw [fixedWrite, if_neg hdata]
  split <;> simp_all

theorem fixedWrite_zero (hdata : data ≠ []) (hwrite : os.write fd data s = (.ok 0, s')) :
    fixedWrite os fd data byteswrite s = (BitVec.ofNat 32 byteswrite, s') := by
  rw [fixedWrite, if_neg hdata]
  split <;> simp_all

theorem fixedWrite_pos (hdata : data ≠ []) (hwrite : os.write fd data s = (.ok n, s'))
    (hn : n ≠ 0) :
    fixedWrite os fd data byteswrite s =
      fixedWrite os fd (data.drop n) (byteswrite + n) s' := by
  rw [fixedWrite, if_neg hdata]
  split <;> simp_all

theorem fixedRead_result (fd left : ℕ) (data : Bytes) (s : σ) :
    (fixedRead os fd left data s).1.toInt < 0 ∨
      (fixedRead os fd left data s).1 =
          BitVec.ofNat 32 (fixedRead os fd left data s).2.1.length ∧
        (fixedRead os fd left data s).2.1.length ≤ data.length + left := by
  induction left, data, s using fixedRead.induct os fd with
  | case1 data s =>
      rw [fixedRead, if_pos rfl]
      exact .inr ⟨rfl, Nat.le_refl _⟩
  | case2 left data s hleft s' hread ih =>
      rw [fixedRead_error hleft hread, if_pos rfl]
      exact ih
  | case3 left data s hleft e s' hread he =>
      rw [fixedRead_error hleft hread, if_neg he]
      exact .inl (getError_toInt_neg e)
  | case4 left data s hleft s' hread =>
      rw [fixedRead_nil hleft hread]
      exact .inr ⟨rfl, Nat.le_add_right ..⟩
  | case5 left data s hleft b bytes s' hread ih =>
      have hle : (b :: bytes).length ≤ left := os.read_le fd left s _ (by rw [hread])
      rw [fixedRead_cons hleft hread (List.cons_ne_nil b bytes)]
      simp only [List.length_append] at ih
      exact ih.imp_right fun ⟨hres, hlength⟩ => ⟨hres, by omega⟩

end

/-- `struct HostFsTimeStamp` at an offset of a packed struct, as `psp_settime` hands
it to `mktime`. -/
def timeStamp (cmd : Bytes) (offset : ℕ) : Tm where
  year := (field16 cmd offset).toNat - 1900
  mon := (field16 cmd (offset + 2)).toNat - 1
  mday := (field16 cmd (offset + 4)).toNat
  hour := (field16 cmd (offset + 6)).toNat
  min := (field16 cmd (offset + 8)).toNat
  sec := (field16 cmd (offset + 10)).toNat

inductive TimeAttr where
  | atime | mtime

/-- `psp_settime`; the result tells whether it is not negative. -/
def pspSettime (path : Path) (stime : Tm) (set : TimeAttr) (s : σ) : Bool × σ :=
  match os.stat path s with
  | .error _ => (false, s)
  | .ok st =>
      match os.mktime stime with
      | none => (false, s)
      | some convtime =>
          let (result, s) :=
            match set with
            | .atime => os.utime path convtime st.mtime s
            | .mtime => os.utime path st.atime convtime s
          (result.isOk, s)

/-- The last two parts of `psp_chstat`: set a time if its bit is set. -/
def chstatTime (path : Path) (bits mask : Word) (stime : Tm) (set : TimeAttr) (s : σ) : Bool × σ :=
  if bits &&& mask ≠ 0 then pspSettime os path stime set s else (true, s)

def pspChstat (path : Path) (cmd : Bytes) (s : σ) : Word × σ :=
  let bits := field32 cmd 12
  let (result, s) :=
    if bits &&& pspChstatMode ≠ 0 then os.chmod path (field32 cmd 16 &&& 0o777) s
    else (.ok (), s)
  match result with
  | .error e => (getError e, s)
  | .ok _ =>
      let (set, s) := chstatTime os path bits pspChstatAtime (timeStamp cmd 28) .atime s
      if !set then (-1, s)
      else
        let (set, s) := chstatTime os path bits pspChstatMtime (timeStamp cmd 40) .mtime s
        (if set then 0 else -1, s)

/-- `struct DevctlGetInfo` as `get_drive_info` fills it in; `none` is the result -1. -/
def getDriveInfo (drive : Word) (h : Host σ) : Option Bytes :=
  match toDrive drive with
  | none => none
  | some drive =>
      if !os.drivesLocked h.os then none
      else
        match os.statvfs (h.drives drive).rootdir h.os with
        | .error _ => none
        | .ok st =>
            some (le32 st.blocks ++ le32 st.bfree ++ le32 st.blocks ++ le32 512 ++
              le32 (st.frsize / 512))

def sizeofDevctlGetInfo : ℕ := 20

theorem length_getDriveInfo {drive : Word} {h : Host σ} {info : Bytes}
    (hinfo : getDriveInfo os drive h = some info) : info.length = sizeofDevctlGetInfo := by
  rw [getDriveInfo] at hinfo
  repeat' split at hinfo
  · simp at hinfo
  · simp at hinfo
  · simp at hinfo
  · obtain rfl := Option.some.inj hinfo
    simp [sizeofDevctlGetInfo]

end PsplinkUsb.UsbHostfsPc.HostFiles
