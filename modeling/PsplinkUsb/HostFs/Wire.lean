import PsplinkUsb.Library.LittleEndian

/-!
The packets of `usbhostfs.h`, which the driver and the PC share: packed structs of
little-endian fields, each starting with a `HostFsCmd`.
-/

namespace PsplinkUsb.HostFs.Wire

open PsplinkUsb.Library.LittleEndian

abbrev Bytes := List UInt8
abbrev Word := BitVec 32

def le16 (w : BitVec 16) : Bytes := toBytes 2 w.toNat
def le32 (w : Word) : Bytes := toBytes 4 w.toNat
def le64 (w : BitVec 64) : Bytes := toBytes 8 w.toNat

@[simp] theorem length_le16 (w : BitVec 16) : (le16 w).length = 2 := length_toBytes ..
@[simp] theorem length_le32 (w : Word) : (le32 w).length = 4 := length_toBytes ..
@[simp] theorem length_le64 (w : BitVec 64) : (le64 w).length = 8 := length_toBytes ..

/-- The field of `8 * n` bits at an offset of a packed struct. -/
def field (n : ℕ) (bytes : Bytes) (offset : ℕ) : BitVec (8 * n) :=
  BitVec.ofNat _ (ofBytes ((bytes.drop offset).take n))

def field16 (bytes : Bytes) (offset : ℕ) : BitVec 16 := field 2 bytes offset
def field32 (bytes : Bytes) (offset : ℕ) : Word := field 4 bytes offset
def field64 (bytes : Bytes) (offset : ℕ) : BitVec 64 := field 8 bytes offset

theorem field_toBytes {n : ℕ} {front : Bytes} {offset : ℕ} (hfront : front.length = offset)
    (w : BitVec (8 * n)) (back : Bytes) :
    field n (front ++ (toBytes n w.toNat ++ back)) offset = w := by
  have htake : (toBytes n w.toNat ++ back).take n = toBytes n w.toNat := by
    rw [List.take_left' (length_toBytes ..)]
  have hpow : 256 ^ n = 2 ^ (8 * n) := by rw [Nat.pow_mul]
  apply BitVec.eq_of_toNat_eq
  rw [field, List.drop_left' hfront, htake, ofBytes_toBytes, hpow, BitVec.toNat_ofNat,
    Nat.mod_mod, Nat.mod_eq_of_lt w.isLt]

theorem field32_le32 {front : Bytes} {offset : ℕ} (hfront : front.length = offset) (w : Word)
    (back : Bytes) : field32 (front ++ (le32 w ++ back)) offset = w :=
  @field_toBytes 4 front offset hfront w back

def hostfsMagic : Word := 0x782F0812
def bulkMagic : Word := 0x782F0814

def hostfsPathmax : ℕ := 4096
def hostfsMaxBlock : ℕ := 64 * 1024
def hostfsRenameBufsize : ℕ := 1024
def hostfsBulkMaxwrite : ℕ := 1024 * 1024
def devctlGetInfo : Word := 0x02425818

inductive HostFsCommand where
  | hello | bye | open | close | read | write | lseek | remove | mkdir | rmdir | dopen
  | dread | dclose | getstat | chstat | rename | chdir | ioctl | devctl
deriving DecidableEq, Repr

def HostFsCommand.code : HostFsCommand → Word
  | .hello => 0x8FFC0000
  | .bye => 0x8FFC0001
  | .open => 0x8FFC0002
  | .close => 0x8FFC0003
  | .read => 0x8FFC0004
  | .write => 0x8FFC0005
  | .lseek => 0x8FFC0006
  | .remove => 0x8FFC0007
  | .mkdir => 0x8FFC0008
  | .rmdir => 0x8FFC0009
  | .dopen => 0x8FFC000A
  | .dread => 0x8FFC000B
  | .dclose => 0x8FFC000C
  | .getstat => 0x8FFC000D
  | .chstat => 0x8FFC000E
  | .rename => 0x8FFC000F
  | .chdir => 0x8FFC0010
  | .ioctl => 0x8FFC0011
  | .devctl => 0x8FFC0012

def HostFsCommand.all : List HostFsCommand :=
  [.hello, .bye, .open, .close, .read, .write, .lseek, .remove, .mkdir, .rmdir, .dopen,
    .dread, .dclose, .getstat, .chstat, .rename, .chdir, .ioctl, .devctl]

def HostFsCommand.ofCode (code : Word) : Option HostFsCommand :=
  all.find? fun c => c.code = code

theorem HostFsCommand.ofCode_code (c : HostFsCommand) : ofCode c.code = some c := by
  cases c <;> decide

theorem HostFsCommand.code_of_ofCode {code : Word} {c : HostFsCommand}
    (h : ofCode code = some c) : c.code = code := by
  simpa using List.find?_some h

/-- `struct HostFsCmd`, with which every request and response starts. -/
structure HostFsCmd where
  magic : Word
  command : Word
  extralen : Word
deriving DecidableEq

def sizeofHostFsCmd : ℕ := 12

def HostFsCmd.encode (c : HostFsCmd) : Bytes := le32 c.magic ++ le32 c.command ++ le32 c.extralen

def HostFsCmd.decode (bytes : Bytes) : HostFsCmd where
  magic := field32 bytes 0
  command := field32 bytes 4
  extralen := field32 bytes 8

@[simp] theorem HostFsCmd.length_encode (c : HostFsCmd) : c.encode.length = sizeofHostFsCmd := by
  simp [encode, sizeofHostFsCmd]

theorem HostFsCmd.decode_encode (c : HostFsCmd) (body : Bytes) :
    decode (c.encode ++ body) = c := by
  have hmagic : field32 ([] ++ (le32 c.magic ++ (le32 c.command ++ (le32 c.extralen ++ body)))) 0 =
      c.magic := field32_le32 rfl ..
  have hcommand : field32 (le32 c.magic ++ (le32 c.command ++ (le32 c.extralen ++ body))) 4 =
      c.command := field32_le32 (by simp) ..
  have hextralen : field32 ((le32 c.magic ++ le32 c.command) ++ (le32 c.extralen ++ body)) 8 =
      c.extralen := field32_le32 (by simp) ..
  simp only [List.nil_append, List.append_assoc] at hmagic hcommand hextralen
  simp only [decode, encode, List.append_assoc, hmagic, hcommand, hextralen]

/-- `sizeof` the request struct of a command. -/
def HostFsCommand.cmdSize : HostFsCommand → ℕ
  | .hello | .bye => 12
  | .close | .write | .remove | .rmdir | .dopen | .dread | .dclose | .getstat | .rename
  | .chdir => 16
  | .read | .mkdir => 20
  | .open | .ioctl | .devctl => 24
  | .lseek => 28
  | .chstat => 56

def HostFsCommand.respSize : HostFsCommand → ℕ
  | .hello | .bye => 12
  | .lseek => 24
  | _ => 16

end PsplinkUsb.HostFs.Wire
