import PsplinkUsb.HostFs.Wire
import PsplinkUsb.Library.Filling

namespace PsplinkUsb.Psplink.Screenshot

open PsplinkUsb.HostFs.Wire
open PsplinkUsb.Library.Filling
open PsplinkUsb.Library.LittleEndian

structure BitmapHeader where
  id : Bytes
  filesize : Word := 0
  reserved : Word := 0
  offset : Word := 0
  headsize : Word := 0
  width : Word := 0
  height : Word := 0
  planes : BitVec 16 := 0
  bpp : BitVec 16 := 0
  comp : Word := 0
  bitmapsize : Word := 0
  hres : Word := 0
  vres : Word := 0
  colors : Word := 0
  impcolors : Word := 0

def sizeofBitmapHeader : ℕ := 54

/-- The struct is packed. -/
def BitmapHeader.encode (bmp : BitmapHeader) : Bytes :=
  bmp.id ++ le32 bmp.filesize ++ le32 bmp.reserved ++ le32 bmp.offset ++ le32 bmp.headsize ++
    le32 bmp.width ++ le32 bmp.height ++ le16 bmp.planes ++ le16 bmp.bpp ++ le32 bmp.comp ++
    le32 bmp.bitmapsize ++ le32 bmp.hres ++ le32 bmp.vres ++ le32 bmp.colors ++ le32 bmp.impcolors

/-- What a call of `sceIoWrite` returns, by the number of calls before and the bytes it is given. -/
abbrev SceIoWrite := ℕ → ℕ → ℤ

/-- What reaches the file, and what `fixed_write` returns. -/
def fixedWrite (sceIoWrite : SceIoWrite) (data : Bytes) (calls writelen : ℕ) : Bytes × ℤ :=
  if writelen < data.length then
    let ret := sceIoWrite calls (data.length - writelen)
    if ret ≤ 0 then ([], -1)
    else
      let behind := fixedWrite sceIoWrite data (calls + 1) (writelen + ret.toNat)
      ((data.drop writelen).take ret.toNat ++ behind.1, behind.2)
  else ([], writelen)
termination_by data.length - writelen

/-- What is stored at `line[i*3]` and the two bytes behind it. -/
structure Triple where
  blue : UInt8
  green : UInt8
  red : UInt8

def Triple.bytes (t : Triple) : Bytes := [t.blue, t.green, t.red]

def Triple.write (t : Triple) (buf : ℕ → UInt8) (at' : ℕ) : ℕ → UInt8 :=
  let buf := Function.update buf (at' + 2) t.red
  let buf := Function.update buf (at' + 1) t.green
  Function.update buf at' t.blue

def writeLine (triple : ℕ → Triple) (buf : ℕ → UInt8) (line : ℕ) : ℕ → UInt8 :=
  (List.range 480).foldl (fun buf i => (triple i).write buf (line + 3 * i)) buf

/-- The rows below `h`, the last one first. -/
def writeLines (triple : ℕ → ℕ → Triple) : ℕ → (ℕ → UInt8) → ℕ → ℕ → UInt8
  | 0, buf, _ => buf
  | h + 1, buf, line => writeLines triple h (writeLine (triple h) buf line) (line + 480 * 3)

/-- The loops of the four conversions, which differ in what they make of the pixel at `p[i]` of
the row `h`. -/
def writeData (triple : ℕ → ℕ → Triple) (buf : ℕ → UInt8) (pixelData : ℕ) : ℕ → UInt8 :=
  writeLines triple 272 buf pixelData

def half (frame : ℕ → UInt8) (n : ℕ) : UInt16 :=
  (frame (2 * n)).toUInt16 ||| (frame (2 * n + 1)).toUInt16 <<< 8

def write8888Data (frame : ℕ → UInt8) : (ℕ → UInt8) → ℕ → ℕ → UInt8 :=
  writeData fun h i =>
    let p := h * 512 * 4
    { red := frame (p + i * 4), green := frame (p + i * 4 + 1), blue := frame (p + i * 4 + 2) }

def write5551Data (frame : ℕ → UInt8) : (ℕ → UInt8) → ℕ → ℕ → UInt8 :=
  writeData fun h i =>
    let p := half frame (h * 512 + i)
    { red := ((p &&& 0x1F) <<< 3).toUInt8
      green := ((p >>> 5 &&& 0x1F) <<< 3).toUInt8
      blue := ((p >>> 10 &&& 0x1F) <<< 3).toUInt8 }

def write565Data (frame : ℕ → UInt8) : (ℕ → UInt8) → ℕ → ℕ → UInt8 :=
  writeData fun h i =>
    let p := half frame (h * 512 + i)
    { red := ((p &&& 0x1F) <<< 3).toUInt8
      green := ((p >>> 5 &&& 0x3F) <<< 2).toUInt8
      blue := ((p >>> 11 &&& 0x1F) <<< 3).toUInt8 }

def write4444Data (frame : ℕ → UInt8) : (ℕ → UInt8) → ℕ → ℕ → UInt8 :=
  writeData fun h i =>
    let p := half frame (h * 512 + i)
    { red := ((p &&& 0xF) <<< 4).toUInt8
      green := ((p >>> 4 &&& 0xF) <<< 4).toUInt8
      blue := ((p >>> 8 &&& 0xF) <<< 4).toUInt8 }

inductive PixelFormat where
  | f565 | f5551 | f4444 | f8888
deriving DecidableEq, Repr

def PixelFormat.code : PixelFormat → ℤ
  | f565 => 0
  | f5551 => 1
  | f4444 => 2
  | f8888 => 3

/-- The switch of `bitmapWrite`. -/
def convert (format : ℤ) (frame : ℕ → UInt8) : (ℕ → UInt8) → ℕ → ℕ → UInt8 :=
  if format = PixelFormat.f565.code then write565Data frame
  else if format = PixelFormat.f5551.code then write5551Data frame
  else if format = PixelFormat.f4444.code then write4444Data frame
  else if format = PixelFormat.f8888.code then write8888Data frame
  else fun buf _ => buf

def bmp : BitmapHeader where
  id := [0x42, 0x4D]
  filesize := BitVec.ofNat 32 (480 * 272 * 3 + sizeofBitmapHeader)
  offset := BitVec.ofNat 32 sizeofBitmapHeader
  headsize := 0x28
  width := 480
  height := 272
  planes := 1
  bpp := 24
  bitmapsize := BitVec.ofNat 32 (480 * 272 * 3)
  hres := 2834
  vres := 2834

/-- `fd` is what `sceIoOpen` returns. There is a file if it is opened; it is empty then, and gets
what is written. -/
def bitmapWrite (frameAddr tmpBuf : ℕ → UInt8) (format fd : ℤ) (sceIoWrite : SceIoWrite) :
    ℤ × Option Bytes :=
  let buf := store tmpBuf 0 bmp.encode
  if fd < 0 then (-1, none)
  else
    let buf := convert format frameAddr buf sizeofBitmapHeader
    let filesize := (field32 (cells buf 0 sizeofBitmapHeader) 2).toInt
    (0, some (fixedWrite sceIoWrite (cells buf 0 filesize.toNat) 0 0).1)

/-- A channel of a pixel: where its bits start, and how many there are. -/
structure Channel where
  start : ℕ
  width : ℕ

/-- The bits of the channel, at the top of a byte. -/
def Channel.top (c : Channel) (pixel : ℕ) : UInt8 :=
  UInt8.ofNat (pixel / 2 ^ c.start % 2 ^ c.width * 2 ^ (8 - c.width))

namespace PixelFormat

def size : PixelFormat → ℕ
  | f565 | f5551 | f4444 => 2
  | f8888 => 4

def red : PixelFormat → Channel
  | f565 | f5551 => ⟨0, 5⟩
  | f4444 => ⟨0, 4⟩
  | f8888 => ⟨0, 8⟩

def green : PixelFormat → Channel
  | f565 => ⟨5, 6⟩
  | f5551 => ⟨5, 5⟩
  | f4444 => ⟨4, 4⟩
  | f8888 => ⟨8, 8⟩

def blue : PixelFormat → Channel
  | f565 => ⟨11, 5⟩
  | f5551 => ⟨10, 5⟩
  | f4444 => ⟨8, 4⟩
  | f8888 => ⟨16, 8⟩

/-- The `n`th pixel of the frame. -/
def pixel (f : PixelFormat) (frame : ℕ → UInt8) (n : ℕ) : ℕ :=
  ofBytes (cells frame (n * f.size) f.size)

/-- The pixel of the screen at `(x, y)`, of whose lines each takes 512 pixels. -/
def triple (f : PixelFormat) (frame : ℕ → UInt8) (y x : ℕ) : Triple :=
  let pixel := f.pixel frame (y * 512 + x)
  { blue := f.blue.top pixel, green := f.green.top pixel, red := f.red.top pixel }

/-- The rows of the screen, from the lowest up. -/
def picture (f : PixelFormat) (frame : ℕ → UInt8) : Bytes :=
  (List.range 272).reverse.flatMap fun y =>
    (List.range 480).flatMap fun x => (f.triple frame y x).bytes

def write (f : PixelFormat) : (frame : ℕ → UInt8) → (ℕ → UInt8) → ℕ → ℕ → UInt8 :=
  match f with
  | f565 => write565Data
  | f5551 => write5551Data
  | f4444 => write4444Data
  | f8888 => write8888Data

end PixelFormat

theorem toNat_half (frame : ℕ → UInt8) (n : ℕ) :
    (half frame n).toNat = (frame (2 * n)).toNat + 256 * (frame (2 * n + 1)).toNat := by
  have hlow := (frame (2 * n)).toNat_lt
  have hhigh := (frame (2 * n + 1)).toNat_lt
  rw [half, UInt16.toNat_or, UInt16.toNat_shiftLeft, UInt8.toNat_toUInt16, UInt8.toNat_toUInt16]
  have hshift : (frame (2 * n + 1)).toNat <<< ((8 : UInt16).toNat % 16) % 2 ^ 16 =
      2 ^ 8 * (frame (2 * n + 1)).toNat := by
    have height : (8 : UInt16).toNat % 16 = 8 := rfl
    rw [height, Nat.shiftLeft_eq]
    omega
  rw [hshift, Nat.or_comm, ← Nat.two_pow_add_eq_or_of_lt hlow]
  omega

theorem channel_top (p : UInt16) {shift mask back : UInt16} {c : Channel}
    (hshift : shift.toNat = c.start) (hmask : mask.toNat = 2 ^ c.width - 1)
    (hback : back.toNat = 8 - c.width) (hstart : c.start < 16) :
    ((p >>> shift &&& mask) <<< back).toUInt8 = c.top p.toNat := by
  have hsmall : 8 - c.width < 16 := by omega
  apply UInt8.toNat_inj.mp
  rw [UInt16.toNat_toUInt8, UInt16.toNat_shiftLeft, UInt16.toNat_and, UInt16.toNat_shiftRight,
    hshift, hback, hmask, Nat.mod_eq_of_lt hstart, Nat.mod_eq_of_lt hsmall,
    Nat.and_two_pow_sub_one_eq_mod, Nat.shiftRight_eq_div_pow, Nat.shiftLeft_eq,
    Nat.mod_mod_of_dvd _ (by decide)]
  rfl

theorem channel_low (p : UInt16) {mask back : UInt16} {c : Channel} (hstart : c.start = 0)
    (hmask : mask.toNat = 2 ^ c.width - 1) (hback : back.toNat = 8 - c.width) :
    ((p &&& mask) <<< back).toUInt8 = c.top p.toNat := by
  have hshift : (0 : UInt16).toNat = c.start := hstart.symm
  have htop := channel_top p hshift hmask hback (by omega)
  rwa [UInt16.shiftRight_zero] at htop

variable {frame : ℕ → UInt8} {f : PixelFormat} {t : Triple} {x y : ℕ}

theorem pixel_half (hsize : f.size = 2) (frame : ℕ → UInt8) (n : ℕ) :
    f.pixel frame n = (half frame n).toNat := by
  rw [PixelFormat.pixel, toNat_half, hsize, Nat.mul_comm n 2]
  rfl

theorem eq_triple (hblue : t.blue = f.blue.top (f.pixel frame (y * 512 + x)))
    (hgreen : t.green = f.green.top (f.pixel frame (y * 512 + x)))
    (hred : t.red = f.red.top (f.pixel frame (y * 512 + x))) : t = f.triple frame y x := by
  rw [PixelFormat.triple, ← hblue, ← hgreen, ← hred]

theorem top_byte (b c d e : UInt8) : (⟨0, 8⟩ : Channel).top (ofBytes [b, c, d, e]) = b ∧
    (⟨8, 8⟩ : Channel).top (ofBytes [b, c, d, e]) = c ∧
    (⟨16, 8⟩ : Channel).top (ofBytes [b, c, d, e]) = d := by
  have hb := b.toNat_lt
  have hc := c.toNat_lt
  have hd := d.toNat_lt
  have htop {start : ℕ} {byte : UInt8}
      (h : ofBytes [b, c, d, e] / 2 ^ start % 2 ^ 8 = byte.toNat) :
      (⟨start, 8⟩ : Channel).top (ofBytes [b, c, d, e]) = byte := by
    rw [Channel.top, h, Nat.sub_self, Nat.pow_zero, Nat.mul_one, UInt8.ofNat_toNat]
  refine ⟨htop ?_, htop ?_, htop ?_⟩ <;> simp only [ofBytes] <;> omega

theorem write_eq (f : PixelFormat) (frame : ℕ → UInt8) :
    f.write frame = writeData (f.triple frame) := by
  cases f with
  | f565 =>
      rw [PixelFormat.write, write565Data]
      congr 1
      funext y x
      apply eq_triple
      all_goals rw [pixel_half rfl]
      · exact channel_top _ rfl rfl rfl (by decide)
      · exact channel_top _ rfl rfl rfl (by decide)
      · exact channel_low _ rfl rfl rfl
  | f5551 =>
      rw [PixelFormat.write, write5551Data]
      congr 1
      funext y x
      apply eq_triple
      all_goals rw [pixel_half rfl]
      · exact channel_top _ rfl rfl rfl (by decide)
      · exact channel_top _ rfl rfl rfl (by decide)
      · exact channel_low _ rfl rfl rfl
  | f4444 =>
      rw [PixelFormat.write, write4444Data]
      congr 1
      funext y x
      apply eq_triple
      all_goals rw [pixel_half rfl]
      · exact channel_top _ rfl rfl rfl (by decide)
      · exact channel_top _ rfl rfl rfl (by decide)
      · exact channel_low _ rfl rfl rfl
  | f8888 =>
      rw [PixelFormat.write, write8888Data]
      congr 1
      funext y x
      have hplace : (y * 512 + x) * 4 = y * 512 * 4 + x * 4 := by omega
      have hpixel : PixelFormat.f8888.pixel frame (y * 512 + x) =
          ofBytes [frame (y * 512 * 4 + x * 4), frame (y * 512 * 4 + x * 4 + 1),
            frame (y * 512 * 4 + x * 4 + 2), frame (y * 512 * 4 + x * 4 + 3)] := by
        rw [PixelFormat.pixel, PixelFormat.size, hplace]
        rfl
      obtain ⟨hred, hgreen, hblue⟩ := top_byte (frame (y * 512 * 4 + x * 4))
        (frame (y * 512 * 4 + x * 4 + 1)) (frame (y * 512 * 4 + x * 4 + 2))
        (frame (y * 512 * 4 + x * 4 + 3))
      apply eq_triple
      all_goals rw [hpixel]
      · exact hblue.symm
      · exact hgreen.symm
      · exact hred.symm

variable {buf : ℕ → UInt8} {sceIoWrite : SceIoWrite} {data : Bytes}

theorem filled_write (t : Triple) (buf : ℕ → UInt8) (a : ℕ) : Filled buf (t.write buf a) a t.bytes := by
  constructor
  · simp [cells, Triple.bytes, Triple.write, List.range_succ]
  · intro i hi
    have hsize : t.bytes.length = 3 := rfl
    rw [hsize] at hi
    rw [Triple.write, Function.update_of_ne (by omega), Function.update_of_ne (by omega),
      Function.update_of_ne (by omega)]

theorem filled_writeLine (triple : ℕ → Triple) (buf : ℕ → UInt8) (line : ℕ) :
    Filled buf (writeLine triple buf line) line
      ((List.range 480).flatMap fun i => (triple i).bytes) :=
  filled_foldl_range (fun buf i => filled_write (triple i) buf _) (fun _ => rfl) 480

theorem length_row (triple : ℕ → Triple) :
    ((List.range 480).flatMap fun i => (triple i).bytes).length = 480 * 3 := by
  have hsize : ∀ i, (triple i).bytes.length = 3 := fun _ => rfl
  rw [length_flatMap_of_forall hsize, List.length_range, Nat.mul_comm]

theorem filled_writeLines (triple : ℕ → ℕ → Triple) (h : ℕ) (buf : ℕ → UInt8) (line : ℕ) :
    Filled buf (writeLines triple h buf line) line ((List.range h).reverse.flatMap fun y =>
      (List.range 480).flatMap fun x => (triple y x).bytes) := by
  induction h generalizing buf line with
  | zero => exact .nil buf line
  | succ h ih =>
      rw [List.range_succ (n := h), List.reverse_append, List.reverse_singleton,
        List.singleton_append, List.flatMap_cons]
      apply (filled_writeLine (triple h) buf line).append
      rw [length_row]
      exact ih _ _

/-- Every call writes something, if not all that it is given. -/
def ShortWrites (sceIoWrite : SceIoWrite) : Prop :=
  ∀ calls len, 0 < len → 0 < sceIoWrite calls len ∧ sceIoWrite calls len ≤ len

theorem fixedWrite_eq (hwrite : ShortWrites sceIoWrite) (data : Bytes) (calls writelen : ℕ)
    (hlen : writelen ≤ data.length) :
    fixedWrite sceIoWrite data calls writelen = (data.drop writelen, (data.length : ℤ)) := by
  fun_induction fixedWrite sceIoWrite data calls writelen with
  | case1 calls writelen hmore ret hfail =>
      have hret := hwrite calls (data.length - writelen) (by omega)
      exact absurd hret.1 (Int.not_lt.mpr hfail)
  | case2 calls writelen hmore ret hret behind ih =>
      have hfits : ret ≤ (data.length - writelen : ℕ) :=
        (hwrite calls (data.length - writelen) (by omega)).2
      have hbehind : behind = (data.drop (writelen + ret.toNat), (data.length : ℤ)) :=
        ih (by omega)
      rw [hbehind, ← List.drop_drop, List.take_append_drop]
  | case3 calls writelen hmore =>
      have hall : writelen = data.length := by omega
      rw [hall, List.drop_length]

theorem length_picture (f : PixelFormat) (frame : ℕ → UInt8) :
    (f.picture frame).length = 480 * 272 * 3 := by
  rw [PixelFormat.picture, length_flatMap_of_forall (fun y => length_row (f.triple frame y)),
    List.length_reverse, List.length_range, Nat.mul_right_comm]

/-- The header and the picture are in the buffer, one behind the other. -/
theorem filled_bitmap (f : PixelFormat) (frame tmpBuf : ℕ → UInt8) :
    Filled tmpBuf (f.write frame (store tmpBuf 0 bmp.encode) sizeofBitmapHeader) 0
      (bmp.encode ++ f.picture frame) := by
  have hheader : bmp.encode.length = sizeofBitmapHeader := rfl
  apply (filled_store tmpBuf 0 bmp.encode).append
  rw [write_eq, hheader, Nat.zero_add]
  exact filled_writeLines (f.triple frame) 272 _ _

theorem convert_code (f : PixelFormat) (frame : ℕ → UInt8) : convert f.code frame = f.write frame := by
  cases f with
  | f565 => rw [convert, if_pos rfl, PixelFormat.write]
  | f5551 => rw [convert, if_neg (by decide), if_pos rfl, PixelFormat.write]
  | f4444 => rw [convert, if_neg (by decide), if_neg (by decide), if_pos rfl, PixelFormat.write]
  | f8888 =>
      rw [convert, if_neg (by decide), if_neg (by decide), if_neg (by decide), if_pos rfl,
        PixelFormat.write]

/-- The file is the header and the picture, however much of it each call writes. -/
theorem bitmapWrite_file (frameAddr tmpBuf : ℕ → UInt8) (f : PixelFormat) {fd : ℤ} (hfd : 0 ≤ fd)
    (hwrite : ShortWrites sceIoWrite) :
    bmp.encode.length = 54 ∧ bmp.filesize.toNat = 54 + 480 * 272 * 3 ∧
      bitmapWrite frameAddr tmpBuf f.code fd sceIoWrite =
        (0, some (bmp.encode ++ f.picture frameAddr)) := by
  refine ⟨rfl, rfl, ?_⟩
  have hbuf := filled_bitmap f frameAddr tmpBuf
  have hlength : (bmp.encode ++ f.picture frameAddr).length = 480 * 272 * 3 + 54 := by
    rw [List.length_append, length_picture, Nat.add_comm]
    rfl
  have hheader : cells (f.write frameAddr (store tmpBuf 0 bmp.encode) sizeofBitmapHeader) 0
      sizeofBitmapHeader = bmp.encode := by
    have hhere := hbuf.here
    rw [hlength, Nat.add_comm, cells_add] at hhere
    exact (List.append_inj hhere (by rw [length_cells]; rfl)).1
  have hfilesize : (field32 bmp.encode 2).toInt.toNat = (bmp.encode ++ f.picture frameAddr).length := by
    rw [hlength]
    decide
  rw [bitmapWrite, if_neg (Int.not_lt.mpr hfd)]
  dsimp only
  rw [convert_code, hheader, hfilesize, hbuf.here, fixedWrite_eq hwrite _ _ _ (Nat.zero_le _),
    List.drop_zero]

/-- No two neighbouring bytes of the frame are the same. -/
def striped (i : ℕ) : UInt8 := UInt8.ofNat (7 * i)

/-- A picture written byte by byte. -/
theorem bitmapWrite_bytewise :
    bitmapWrite striped (fun _ => 0xAA) 3 3 (fun _ _ => 1) =
      (0, some (bmp.encode ++ PixelFormat.f8888.picture striped)) := by
  have hwrite : ShortWrites fun _ _ => 1 := fun _ _ hlen => ⟨Int.one_pos, Int.ofNat_le.mpr hlen⟩
  exact (bitmapWrite_file striped (fun _ => 0xAA) .f8888 (by decide) hwrite).2.2

end PsplinkUsb.Psplink.Screenshot
