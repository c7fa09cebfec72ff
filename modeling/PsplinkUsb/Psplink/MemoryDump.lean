import PsplinkUsb.Psplink.DereferencedWords

namespace PsplinkUsb.Psplink.MemoryDump

open PsplinkUsb.Library.Ascii
open PsplinkUsb.Library.Numerals
open PsplinkUsb.Psplink.ProgramMemory (Word)
open PsplinkUsb.Psplink.DecodeAddr
open PsplinkUsb.Psplink.MemoryRegions
open PsplinkUsb.Psplink.DereferencedWords

/-- `MAX_MEMDUMP_SIZE`. -/
def maxMemdumpSize : ℕ := 256

inductive DumpType where
  | byte | half | word
  deriving DecidableEq

def lowerHex (addr : Word) : Bytes := (padded 8 16 addr.toNat).map toLower

/-- `%02X`. -/
def hexByte (w : Word) : Bytes := padded 2 16 w.toNat

def rowGroups (row : ℕ → Word) (rowSize : ℕ) : DumpType → Bytes
  | .word => [0, 4, 8, 12].flatMap fun i =>
      if i < rowSize then
        hexByte (row (i + 3)) ++ hexByte (row (i + 2)) ++ hexByte (row (i + 1)) ++
          hexByte (row i) ++ text " "
      else text "-------- "
  | .half => [0, 2, 4, 6, 8, 10, 12, 14].flatMap fun i =>
      if i < rowSize then hexByte (row (i + 1)) ++ hexByte (row i) ++ text " " else text "---- "
  | .byte => (List.range 16).flatMap fun i =>
      if i < rowSize then hexByte (row i) ++ text " " else text "-- "

def dotChar : UInt8 := 0x2E

def rowChar (row : ℕ → Word) (rowSize i : ℕ) : UInt8 :=
  if i < rowSize then
    if 32 ≤ (row i).toNat ∧ (row i).toNat < 127 then UInt8.ofNat (row i).toNat else dotChar
  else dotChar

def printRow (row : ℕ → Word) (rowSize : ℕ) (addr : Word) (type : DumpType) : Bytes :=
  lowerHex addr ++ text " - " ++ rowGroups row rowSize type ++ text "- " ++
    (List.range 16).map (rowChar row rowSize) ++ text "\n"

/-- The lines that are printed, and the bytes that are read for them. -/
structure Dump where
  lines : List Bytes
  reads : List Access

def header : DumpType → List Bytes
  | .word =>
      [text "         - 00       04       08       0c       - 0123456789abcdef\n",
       text "-----------------------------------------------------------------\n"]
  | .half =>
      [text "         - 00   02   04   06   08   0a   0c   0e   - 0123456789abcdef\n",
       text "---------------------------------------------------------------------\n"]
  | .byte =>
      [text "         - 00 01 02 03 04 05 06 07 08 09 0a 0b 0c 0d 0e 0f - 0123456789abcdef\n",
       text "-----------------------------------------------------------------------------\n"]

/-- The loop of `print_memdump`, with `sizeLeft` bytes to come. -/
def dumpLoop (m : Machine) (type : DumpType) : ℕ → Word → ℕ → (ℕ → Word) → Dump
  | 0, _, _, _ => ⟨[], []⟩
  | sizeLeft + 1, pAddr, rowSize, row =>
      let at' := pAddr + BitVec.ofNat 32 rowSize
      let row := Function.update row rowSize (BitVec.ofNat 32 (byteAt m at').toNat)
      if rowSize + 1 = 16 then
        let rest := dumpLoop m type sizeLeft (pAddr + 16) 0 row
        ⟨printRow row (rowSize + 1) pAddr type :: rest.lines, ⟨at', 1, 1⟩ :: rest.reads⟩
      else
        let rest := dumpLoop m type sizeLeft pAddr (rowSize + 1) row
        ⟨rest.lines, ⟨at', 1, 1⟩ :: rest.reads⟩

/-- How many bytes are dumped. -/
def dumpSize (size : ℤ) : ℕ := (if maxMemdumpSize < size then (maxMemdumpSize : ℤ) else size).toNat

/-- `print_memdump`, with what is in `row` before. -/
def printMemdump (m : Machine) (row : ℕ → Word) (addr : Word) (size : ℤ) (type : DumpType) : Dump :=
  let dump := dumpLoop m type (dumpSize size) addr 0 row
  ⟨header type ++ dump.lines, dump.reads⟩

/-- The variables that `memdump_cmd` keeps from one call to the next. -/
structure MemdumpState where
  addr : Word
  type : DumpType

inductive MemdumpResult where
  | error
  | dumped (dump : Dump)
  | invalid

def nextType (arg : Bytes) (type : DumpType) : DumpType :=
  if arg.head? = some 0x77 then .word
  else if arg.head? = some 0x68 then .half
  else if arg.head? = some 0x62 then .byte
  else type

/-- The address and the type from here on, and whether there is anything to dump. -/
def memdumpState (m : Machine) (argv : List Bytes) (st : MemdumpState) : MemdumpState × Bool :=
  match argv with
  | [] =>
      if st.addr = 0 then (st, false)
      else ({ st with addr := st.addr + BitVec.ofNat 32 maxMemdumpSize }, true)
  | arg :: args =>
      let type := (args.head?.map fun arg => nextType arg st.type).getD st.type
      if arg.head? = some minus then
        (⟨st.addr - BitVec.ofNat 32 maxMemdumpSize, type⟩, true)
      else
        match memDecode m arg with
        | none => ({ st with addr := (decodeTrace m arg).val }, false)
        | some addr => (⟨addr, type⟩, true)

def memdumpCmd (m : Machine) (row : ℕ → Word) (argv : List Bytes) (st : MemdumpState) :
    MemdumpState × MemdumpResult :=
  let (st, ok) := memdumpState m argv st
  if ok = false then (st, .error)
  else
    let sizeLeft := m.memValidate st.addr (memAttribRead ||| memAttribByte)
    if 0 < sizeLeft then (st, .dumped (printMemdump m row st.addr sizeLeft st.type))
    else (st, .invalid)

/-- How many bytes make a group. -/
def DumpType.width : DumpType → ℕ
  | .byte => 1
  | .half => 2
  | .word => 4

/-- What stands at the place of a byte of a row of `count`. -/
def cell (bytes : ℕ → UInt8) (count i : ℕ) : Bytes :=
  if i < count then padded 2 16 (bytes i).toNat else text "--"

/-- A row that shows each byte at its own place: in a group the low byte stands last. -/
def shownRow (type : DumpType) (addr : Word) (bytes : ℕ → UInt8) (count : ℕ) : Bytes :=
  lowerHex addr ++ text " - " ++
    ((List.range (16 / type.width)).flatMap fun group =>
      ((List.range type.width).reverse.flatMap fun i => cell bytes count (type.width * group + i)) ++
        text " ") ++
    text "- " ++
    ((List.range 16).map fun i =>
      if i < count ∧ 32 ≤ bytes i ∧ bytes i < 127 then bytes i else dotChar) ++
    text "\n"

/-- The bytes from a row's place on. -/
def rowBytes (m : Machine) (addr : Word) (i : ℕ) : UInt8 := byteAt m (addr + BitVec.ofNat 32 i)

/-- Rows of 16 bytes, the last one perhaps of fewer. -/
def shownRows (m : Machine) (type : DumpType) (addr : Word) (n : ℕ) : List Bytes :=
  (List.range ((n + 15) / 16)).map fun k =>
    shownRow type (addr + BitVec.ofNat 32 (16 * k)) (rowBytes m (addr + BitVec.ofNat 32 (16 * k)))
      (min 16 (n - 16 * k))

/-- Each byte is shown. -/
def Shows (m : Machine) (type : DumpType) (addr : Word) (n : ℕ) (dump : Dump) : Prop :=
  dump.lines = header type ++ shownRows m type addr n

section

variable {m : Machine} {type : DumpType} {addr pAddr : Word} {row : ℕ → Word} {bytes : ℕ → UInt8}
  {n rowSize : ℕ} {size : ℤ}

theorem hexByte_ofNat (b : UInt8) : hexByte (BitVec.ofNat 32 b.toNat) = padded 2 16 b.toNat := by
  have hlt := b.toNat_lt
  rw [hexByte, BitVec.toNat_ofNat, Nat.mod_eq_of_lt (by omega)]

theorem rowChar_full (hrow : ∀ i < 16, row i = BitVec.ofNat 32 (bytes i).toNat) {i : ℕ}
    (hi : i < 16) : rowChar row 16 i =
      if i < 16 ∧ 32 ≤ bytes i ∧ bytes i < 127 then bytes i else dotChar := by
  have hlt := (bytes i).toNat_lt
  have hnat : (row i).toNat = (bytes i).toNat := by
    rw [hrow i hi, BitVec.toNat_ofNat, Nat.mod_eq_of_lt (by omega)]
  have hshown : (32 ≤ (bytes i).toNat ∧ (bytes i).toNat < 127) ↔
      i < 16 ∧ 32 ≤ bytes i ∧ bytes i < 127 := by
    rw [UInt8.le_iff_toNat_le, UInt8.lt_iff_toNat_lt, and_iff_right hi]
    exact Iff.rfl
  rw [rowChar, if_pos hi, hnat, UInt8.ofNat_toNat]
  exact if_congr hshown rfl rfl

theorem rowGroups_full (hrow : ∀ i < 16, row i = BitVec.ofNat 32 (bytes i).toNat) :
    rowGroups row 16 type = (List.range (16 / type.width)).flatMap fun group =>
      ((List.range type.width).reverse.flatMap fun i => cell bytes 16 (type.width * group + i)) ++
        text " " := by
  have hhex : ∀ i < 16, hexByte (row i) = padded 2 16 (bytes i).toNat := fun i hi => by
    rw [hrow i hi, hexByte_ofNat]
  cases type with
  | byte => simp [rowGroups, DumpType.width, cell, hhex, List.range_succ]
  | half => simp [rowGroups, DumpType.width, cell, hhex, List.range_succ]
  | word => simp [rowGroups, DumpType.width, cell, hhex, List.range_succ]

theorem printRow_full (hrow : ∀ i < 16, row i = BitVec.ofNat 32 (bytes i).toNat) :
    printRow row 16 addr type = shownRow type addr bytes 16 := by
  have hchars : (List.range 16).map (rowChar row 16) = (List.range 16).map fun i =>
      if i < 16 ∧ 32 ≤ bytes i ∧ bytes i < 127 then bytes i else dotChar :=
    List.map_congr_left fun i hi => rowChar_full hrow (List.mem_range.mp hi)
  rw [printRow, rowGroups_full hrow, hchars, shownRow]

theorem add_sixteen (pAddr : Word) (k : ℕ) :
    pAddr + 16 + BitVec.ofNat 32 k = pAddr + BitVec.ofNat 32 (16 + k) := by
  rw [BitVec.ofNat_add, BitVec.add_assoc]
  rfl

theorem row_update (hrow : ∀ i < rowSize, row i = BitVec.ofNat 32 (bytes i).toNat) :
    ∀ i < rowSize + 1, Function.update row rowSize (BitVec.ofNat 32 (bytes rowSize).toNat) i =
      BitVec.ofNat 32 (bytes i).toNat := by
  intro i hi
  rcases Nat.lt_succ_iff_lt_or_eq.mp hi with hlt | rfl
  · rw [Function.update_of_ne hlt.ne]
    exact hrow i hlt
  · rw [Function.update_self]

theorem lines_dumpLoop (hsize : rowSize < 16)
    (hrow : ∀ i < rowSize, row i = BitVec.ofNat 32 (rowBytes m pAddr i).toNat) :
    (dumpLoop m type n pAddr rowSize row).lines = (List.range ((rowSize + n) / 16)).map fun k =>
      shownRow type (pAddr + BitVec.ofNat 32 (16 * k))
        (rowBytes m (pAddr + BitVec.ofNat 32 (16 * k))) 16 := by
  induction n generalizing pAddr rowSize row with
  | zero =>
      have hdiv : (rowSize + 0) / 16 = 0 := Nat.div_eq_of_lt hsize
      rw [hdiv]
      rfl
  | succ n ih =>
      have hrow' := row_update hrow
      rw [dumpLoop]
      dsimp only
      split
      · rename_i hfull
        have hdiv : (rowSize + (n + 1)) / 16 = (0 + n) / 16 + 1 := by omega
        have hzero : pAddr + BitVec.ofNat 32 (16 * 0) = pAddr := BitVec.add_zero pAddr
        rw [hfull] at hrow' ⊢
        rw [hdiv, List.range_succ_eq_map, List.map_cons, List.map_map, hzero]
        refine List.cons_eq_cons.mpr ⟨printRow_full hrow', ?_⟩
        · rw [ih (by decide) (fun i hi => absurd hi (Nat.not_lt_zero i))]
          refine List.map_congr_left fun k _ => ?_
          have hnext : 16 + 16 * k = 16 * k.succ := by omega
          rw [add_sixteen, hnext]
          rfl
      · have hlines := ih (by omega) hrow'
        rw [Nat.add_right_comm, Nat.add_assoc] at hlines
        exact hlines

theorem reads_dumpLoop : (dumpLoop m type n pAddr rowSize row).reads =
    (List.range n).map fun i => ⟨pAddr + BitVec.ofNat 32 (rowSize + i), 1, 1⟩ := by
  induction n generalizing pAddr rowSize row with
  | zero => rfl
  | succ n ih =>
      rw [dumpLoop, List.range_succ_eq_map, List.map_cons, List.map_map]
      dsimp only
      split
      · rename_i hfull
        rw [ih]
        refine List.cons_eq_cons.mpr ⟨rfl, List.map_congr_left fun i _ => ?_⟩
        have hnext : 16 + (0 + i) = rowSize + i.succ := by omega
        rw [add_sixteen, hnext]
        rfl
      · rw [ih]
        refine List.cons_eq_cons.mpr ⟨rfl, List.map_congr_left fun i _ => ?_⟩
        have hnext : rowSize + 1 + i = rowSize + i.succ := by omega
        rw [hnext]
        rfl

theorem dumpSize_eq (size : ℤ) : dumpSize size = (min size 256).toNat := by
  rw [dumpSize, maxMemdumpSize]
  split
  · rw [min_eq_right (by omega)]
    rfl
  · rw [min_eq_left (by omega)]

theorem reads_printMemdump : (printMemdump m row addr size type).reads =
    (List.range (dumpSize size)).map fun i => ⟨addr + BitVec.ofNat 32 i, 1, 1⟩ := by
  rw [printMemdump, reads_dumpLoop]
  simp only [Nat.zero_add]

theorem lines_printMemdump : (printMemdump m row addr size type).lines =
    header type ++ (List.range (dumpSize size / 16)).map fun k =>
      shownRow type (addr + BitVec.ofNat 32 (16 * k))
        (rowBytes m (addr + BitVec.ofNat 32 (16 * k))) 16 := by
  rw [printMemdump, lines_dumpLoop (by decide) (fun i hi => absurd hi (Nat.not_lt_zero i)),
    Nat.zero_add]

end

/-- Each byte is shown exactly if no row is left unfinished. -/
theorem shows_iff (m : Machine) (row : ℕ → Word) (addr : Word) (size : ℤ) (type : DumpType)
    (h : 0 < size) :
    Shows m type addr (min size 256).toNat (printMemdump m row addr size type) ↔
      256 ≤ size ∨ 16 ∣ size := by
  rw [Shows, lines_printMemdump, dumpSize_eq, List.append_cancel_left_eq, shownRows]
  constructor
  · intro heq
    have hlength := congrArg List.length heq
    rw [List.length_map, List.length_map, List.length_range, List.length_range] at hlength
    omega
  · intro hsize
    have hdiv : ((min size 256).toNat + 15) / 16 = (min size 256).toNat / 16 := by omega
    rw [hdiv]
    refine List.map_congr_left fun k hk => ?_
    have hlt := List.mem_range.mp hk
    have hmin : min 16 ((min size 256).toNat - 16 * k) = 16 := by omega
    rw [hmin]

theorem two_rows_shown : (0 : ℤ) < 32 ∧
    (Shows blank .word 0x08800000 (min (32 : ℤ) 256).toNat
      (printMemdump blank (fun _ => 0) 0x08800000 32 .word) ↔ (256 : ℤ) ≤ 32 ∨ (16 : ℤ) ∣ 32) :=
  ⟨by decide, shows_iff blank (fun _ => 0) 0x08800000 32 .word (by decide)⟩

/-- At the last byte of the scratchpad there is one byte to dump, and it is not shown. -/
theorem last_byte_not_shown :
    blank.memValidate 0x00013FFF (memAttribRead ||| memAttribByte) = 1 ∧
      ¬Shows blank .byte 0x00013FFF 1 (printMemdump blank (fun _ => 0) 0x00013FFF 1 .byte) := by
  refine ⟨by decide, fun hshows => ?_⟩
  rw [Shows, lines_printMemdump] at hshows
  exact absurd (congrArg List.length (List.append_cancel_left hshows)) (by decide)

end PsplinkUsb.Psplink.MemoryDump
