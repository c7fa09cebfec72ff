import PsplinkUsb.HostFs.Wire
import PsplinkUsb.UsbHostfsPc.HostPath

/-!
The operating system under `usbhostfs_pc`, a parameter of the model: the calls
`main.c` makes, on a state of any type, with the documented behaviour it relies on.
-/

namespace PsplinkUsb.UsbHostfsPc.OsCalls

open PsplinkUsb.HostFs.Wire
open PsplinkUsb.UsbHostfsPc.HostPath

abbrev Errno := Word

def enoent : Errno := 2
def eintr : Errno := 4
def einval : Errno := 22
def emfile : Errno := 24
def enametoolong : Errno := 36

def getError (e : Errno) : Word := 0x80010000 ||| e

theorem getError_toInt_neg (e : Errno) : (getError e).toInt < 0 := by
  have hmsb : (getError e).msb = true := by
    rw [getError, BitVec.msb_or]
    rfl
  rw [BitVec.toInt_eq_msb_cond, if_pos hmsb]
  have := (getError e).isLt
  omega

inductive Access where
  | rdonly | wronly | rdwr
deriving DecidableEq, Repr

structure OpenFlags where
  access : Access
  append : Bool
  creat : Bool
  trunc : Bool
  excl : Bool

/-- The fields of `struct stat` that `main.c` reads, and what the two times have beyond the whole
seconds, which it does not read. -/
structure Stat where
  size : BitVec 64
  mode : Word
  ctime : ℤ
  atime : ℤ
  mtime : ℤ
  atimeNsec : ℕ := 0
  mtimeNsec : ℕ := 0

def Stat.isDir (s : Stat) : Bool := s.mode &&& 0o170000 = 0o040000
def Stat.isLnk (s : Stat) : Bool := s.mode &&& 0o170000 = 0o120000

/-- The fields of `struct tm` that `main.c` uses. -/
structure Tm where
  year : ℤ
  mon : ℤ
  mday : ℤ
  hour : ℤ
  min : ℤ
  sec : ℤ

/-- The fields of `struct statvfs` that `get_drive_info` reads. -/
structure Statvfs where
  blocks : Word
  bfree : Word
  frsize : Word

/-- The calls; a result is a value or the `errno` left by -1. -/
structure HostOs (σ : Type) where
  openFile : Path → OpenFlags → Word → σ → Except Errno ℕ × σ
  close : ℕ → σ → Except Errno Unit × σ
  read : ℕ → ℕ → σ → Except Errno Bytes × σ
  write : ℕ → Bytes → σ → Except Errno ℕ × σ
  lseek : ℕ → BitVec 64 → Word → σ → Except Errno (BitVec 64) × σ
  unlink : Path → σ → Except Errno Unit × σ
  rmdir : Path → σ → Except Errno Unit × σ
  mkdir : Path → Word → σ → Except Errno Unit × σ
  rename : Path → Path → σ → Except Errno Unit × σ
  chmod : Path → Word → σ → Except Errno Unit × σ
  utime : Path → ℤ → ℤ → σ → Except Errno Unit × σ
  stat : Path → σ → Except Errno Stat
  statvfs : Path → σ → Except Errno Statvfs
  /-- `scandir` sorted by `alphasort`. -/
  scandir : Path → σ → Except Errno (List Path)
  /-- `opendir` and `readdir` to the end. -/
  readNames : Path → σ → Option (List Path)
  localtime : ℤ → Tm
  mktime : Tm → Option ℤ
  mallocSucceeds : ℕ → σ → Bool
  drivesLocked : σ → Bool
  errno : σ → Errno
  /-- The calls that a signal can still interrupt. -/
  patience : σ → ℕ
  read_le : ∀ fd n s bytes, (read fd n s).1 = .ok bytes → bytes.length ≤ n
  write_le : ∀ fd bytes s n, (write fd bytes s).1 = .ok n → n ≤ bytes.length
  read_eintr : ∀ fd n s, (read fd n s).1 = .error eintr → patience (read fd n s).2 < patience s
  write_eintr : ∀ fd bytes s, (write fd bytes s).1 = .error eintr →
    patience (write fd bytes s).2 < patience s

end PsplinkUsb.UsbHostfsPc.OsCalls
