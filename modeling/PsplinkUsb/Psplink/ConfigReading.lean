import Mathlib.Data.List.GetD
import PsplinkUsb.Library.CString
import PsplinkUsb.Library.Lines

/-!
Reading `psplink.ini`: the buffered file of `psplink/util.c` and
`psplinkConfigReadNext` of `psplink/psplinkcnf.c`.
-/

namespace PsplinkUsb.Psplink.ConfigReading

open PsplinkUsb.Library.CString
open PsplinkUsb.Library.Lines

abbrev Bytes := List UInt8

/-- The name and the value of a line. -/
abbrev Entry := Bytes × Bytes

def maxBuffer : ℕ := 4096

def newline : UInt8 := 0x0A
def quote : UInt8 := 0x22
def comment : UInt8 := 0x23
def equals : UInt8 := 0x3D

/-- A `char` that comes out as -1. -/
def eof : UInt8 := 0xFF

def isAspace (ch : UInt8) : Bool := ch = 0x20 ∨ ch = 0x09 ∨ ch = 0x0A ∨ ch = 0x0D

/-- A file open for reading: what the descriptor still has, and the buffer. -/
structure PspFile where
  unread : Bytes
  readBuf : Bytes
  readSize : ℕ
  readPos : ℕ
  size_eq : readSize = readBuf.length

def openfile (content : Bytes) : PspFile :=
  { unread := content, readBuf := [], readSize := 0, readPos := 0, size_eq := rfl }

/-- `sceIoRead` into the buffer, when nothing was read before. -/
def refill (pFile : PspFile) : PspFile :=
  if pFile.readSize = 0 then
    { unread := pFile.unread.drop maxBuffer, readBuf := pFile.unread.take maxBuffer
      readSize := (pFile.unread.take maxBuffer).length, readPos := 0, size_eq := rfl }
  else pFile

/-- A `char` as an `int`: `char` is signed. -/
def charToInt (c : UInt8) : ℤ := c.toBitVec.toInt

def intToChar (ch : ℤ) : UInt8 := ⟨BitVec.ofInt 8 ch⟩

def fdgetc (pFile : PspFile) : ℤ × PspFile :=
  let pFile := refill pFile
  if pFile.readPos < pFile.readSize then
    (charToInt (pFile.readBuf.getD pFile.readPos 0), { pFile with readPos := pFile.readPos + 1 })
  else (-1, pFile)

/-- The bytes `fdgets` puts into its buffer, before the zero byte. -/
def fdgetsLoop : ℕ → PspFile → Bytes × PspFile
  | 0, pFile => ([], pFile)
  | room + 1, pFile =>
      let (ch, pFile) := fdgetc pFile
      if ch = -1 then ([], pFile)
      else if ch = charToInt newline then ([intToChar ch], pFile)
      else
        let (buf, pFile) := fdgetsLoop room pFile
        (intToChar ch :: buf, pFile)

def fdgets (pFile : PspFile) (max : ℕ) : Bytes × PspFile := fdgetsLoop (max - 1) pFile

def stripWhitesp (s : Bytes) : Bytes := (s.rdropWhile isAspace).dropWhile isAspace

/-- The body of the loop of `psplinkConfigReadNext`, for a stripped line. -/
def parseEntry (strBuf : Bytes) : Option Entry :=
  if strBuf.head? = some comment ∨ strBuf = [] then none
  else
    match cut equals strBuf with
    | none => none
    | some (name, value) =>
        if value.head? = some quote then (cut quote value.tail).map fun p => (name, p.1)
        else some (name, value)

/-- What reading on gives, which is no more than one buffer. -/
def remaining (pFile : PspFile) : Bytes :=
  if pFile.readSize = 0 then pFile.unread.take maxBuffer else pFile.readBuf.drop pFile.readPos

section

variable {pFile : PspFile} {c : UInt8} {cs : Bytes}

theorem charToInt_eq_neg_one : charToInt c = -1 ↔ c = eof := by
  have heof : charToInt eof = -1 := rfl
  rw [← heof, charToInt, charToInt, BitVec.toInt_inj, UInt8.toBitVec_inj]

theorem charToInt_inj {d : UInt8} : charToInt c = charToInt d ↔ c = d := by
  rw [charToInt, charToInt, BitVec.toInt_inj, UInt8.toBitVec_inj]

theorem intToChar_charToInt : intToChar (charToInt c) = c := by
  rw [intToChar, charToInt, BitVec.ofInt_toInt]

theorem remaining_refill :
    (refill pFile).readBuf.drop (refill pFile).readPos = remaining pFile := by
  rw [refill, remaining]
  split
  · rfl
  · rfl

theorem unread_refill (h : (refill pFile).readSize = 0) : (refill pFile).unread = [] := by
  revert h
  rw [refill]
  split
  · intro h
    have hnil := List.eq_nil_of_length_eq_zero h
    rcases List.take_eq_nil_iff.mp hnil with hzero | hunread
    · exact absurd hzero (by decide)
    · exact List.drop_eq_nil_of_le (hunread ▸ Nat.zero_le _)
  · rename_i hsize
    exact fun h => absurd h hsize

theorem fdgetc_nil (h : remaining pFile = []) :
    (fdgetc pFile).1 = -1 ∧ remaining (fdgetc pFile).2 = [] := by
  rw [← remaining_refill] at h
  have hpos : ¬(refill pFile).readPos < (refill pFile).readSize := by
    rw [(refill pFile).size_eq]
    exact Nat.not_lt.mpr (List.drop_eq_nil_iff.mp h)
  rw [fdgetc, if_neg hpos]
  refine ⟨rfl, ?_⟩
  rw [remaining]
  split
  · rename_i hsize
    rw [unread_refill hsize, List.take_nil]
  · exact h

theorem fdgetc_cons (h : remaining pFile = c :: cs) :
    (fdgetc pFile).1 = charToInt c ∧ remaining (fdgetc pFile).2 = cs := by
  rw [← remaining_refill] at h
  have hpos : (refill pFile).readPos < (refill pFile).readBuf.length := by
    by_contra hle
    rw [List.drop_eq_nil_of_le (Nat.not_lt.mp hle)] at h
    cases h
  have hsize : (refill pFile).readSize ≠ 0 := by
    rw [(refill pFile).size_eq]
    exact Nat.ne_of_gt (Nat.lt_of_le_of_lt (Nat.zero_le _) hpos)
  rw [List.drop_eq_getElem_cons hpos] at h
  obtain ⟨hc, hcs⟩ := List.cons.inj h
  rw [fdgetc, if_pos ((refill pFile).size_eq ▸ hpos)]
  refine ⟨?_, ?_⟩
  · rw [List.getD_eq_getElem _ _ hpos, hc]
  · rw [remaining, if_neg hsize]
    exact hcs

theorem fdgetsLoop_spec (room : ℕ) (pFile : PspFile) :
    (fdgetsLoop room pFile).1 = (piece eof newline room (remaining pFile)).1 ∧
      remaining (fdgetsLoop room pFile).2 = (piece eof newline room (remaining pFile)).2 := by
  induction room generalizing pFile with
  | zero => simp [fdgetsLoop]
  | succ room ih =>
      rcases hrem : remaining pFile with _ | ⟨c, cs⟩
      · obtain ⟨hch, hrest⟩ := fdgetc_nil hrem
        simp only [fdgetsLoop, hch, if_true, piece]
        exact ⟨trivial, hrest⟩
      · obtain ⟨hch, hrest⟩ := fdgetc_cons hrem
        have htail := ih (fdgetc pFile).2
        rw [hrest] at htail
        simp only [fdgetsLoop, hch, charToInt_eq_neg_one, charToInt_inj, intToChar_charToInt]
        rw [piece]
        split_ifs
        · exact ⟨rfl, hrest⟩
        · exact ⟨rfl, hrest⟩
        · exact ⟨congrArg (c :: ·) htail.1, htail.2⟩

theorem left_fdgets {max : ℕ} (h : (fdgets pFile max).1 ≠ []) :
    (remaining (fdgets pFile max).2).length < (remaining pFile).length := by
  obtain ⟨hline, hrest⟩ := fdgetsLoop_spec (max - 1) pFile
  have hpos := List.length_pos_of_ne_nil h
  have hlength := length_piece eof newline (max - 1) (remaining pFile)
  rw [fdgets, hline] at hpos
  rw [fdgets, hrest]
  omega

end

/-- The string `psplinkConfigReadNext` looks at for a line: up to a zero byte, and stripped. -/
def parseLine (line : Bytes) : Option Entry := parseEntry (stripWhitesp (cstr line))

/-- `struct ConfigFile`. -/
structure ConfigFile where
  file : PspFile
  strBuf : Bytes
  line : ℕ

def psplinkConfigOpen (content : Bytes) : ConfigFile :=
  { file := openfile content, strBuf := [], line := 0 }

def psplinkConfigReadNext (cnf : ConfigFile) : Option Entry × ConfigFile :=
  if _ : (fdgets cnf.file maxBuffer).1 = [] then
    (none, { cnf with file := (fdgets cnf.file maxBuffer).2, strBuf := [] })
  else
    let strBuf := stripWhitesp (cstr (fdgets cnf.file maxBuffer).1)
    let cnf' : ConfigFile :=
      { file := (fdgets cnf.file maxBuffer).2, strBuf := strBuf, line := cnf.line + 1 }
    match parseEntry strBuf with
    | some e => (some e, cnf')
    | none => psplinkConfigReadNext cnf'
termination_by (remaining cnf.file).length
decreasing_by exact left_fdgets ‹_›

theorem left_readNext {cnf cnf' : ConfigFile} {e : Entry}
    (h : psplinkConfigReadNext cnf = (some e, cnf')) :
    (remaining cnf'.file).length < (remaining cnf.file).length := by
  induction cnf using psplinkConfigReadNext.induct with
  | case1 cnf hnil =>
      rw [psplinkConfigReadNext, dif_pos hnil] at h
      cases h
  | case2 cnf hline strBuf e' hparse =>
      rw [psplinkConfigReadNext, dif_neg hline] at h
      simp only [strBuf] at hparse
      simp only [hparse, Prod.mk.injEq] at h
      rw [← h.2]
      exact left_fdgets hline
  | case3 cnf hline strBuf next hparse ih =>
      rw [psplinkConfigReadNext, dif_neg hline] at h
      simp only [strBuf] at hparse
      simp only [hparse] at h
      exact (ih h).trans (left_fdgets hline)

/-- The loop `while ((val = psplinkConfigReadNext(&cnf, &name)))` around a body. -/
def eachEntry {σ : Type} (body : σ → Entry → σ) (cnf : ConfigFile) (state : σ) : σ :=
  match _ : psplinkConfigReadNext cnf with
  | (none, _) => state
  | (some e, cnf') => eachEntry body cnf' (body state e)
termination_by (remaining cnf.file).length
decreasing_by exact left_readNext ‹_›

/-- The entries of the pieces of a text. -/
def scan (text : Bytes) : List Entry :=
  if _ : (piece eof newline (maxBuffer - 1) text).1 = [] then []
  else
    (parseLine (piece eof newline (maxBuffer - 1) text).1).toList ++
      scan (piece eof newline (maxBuffer - 1) text).2
termination_by text.length
decreasing_by
  have hlength := length_piece eof newline (maxBuffer - 1) text
  have hpos := List.length_pos_of_ne_nil ‹_›
  omega

theorem scan_nil (text : Bytes) (h : (piece eof newline (maxBuffer - 1) text).1 = []) :
    scan text = [] := by
  rw [scan, dif_pos h]

theorem scan_piece (text : Bytes) (h : (piece eof newline (maxBuffer - 1) text).1 ≠ []) :
    scan text = (parseLine (piece eof newline (maxBuffer - 1) text).1).toList ++
      scan (piece eof newline (maxBuffer - 1) text).2 := by
  rw [scan, dif_neg h]

theorem scan_readNext (cnf : ConfigFile) :
    scan (remaining cnf.file) =
      match psplinkConfigReadNext cnf with
      | (none, _) => []
      | (some e, cnf') => e :: scan (remaining cnf'.file) := by
  induction cnf using psplinkConfigReadNext.induct with
  | case1 cnf hnil =>
      have hpiece := (fdgetsLoop_spec (maxBuffer - 1) cnf.file).1
      rw [psplinkConfigReadNext, dif_pos hnil]
      exact scan_nil _ (hpiece ▸ hnil)
  | case2 cnf hline strBuf e hparse =>
      obtain ⟨hpiece, hrest⟩ := fdgetsLoop_spec (maxBuffer - 1) cnf.file
      have hparseLine : parseLine (piece eof newline (maxBuffer - 1) (remaining cnf.file)).1 =
          some e := by
        rw [← hpiece]
        exact hparse
      rw [psplinkConfigReadNext, dif_neg hline, scan_piece _ (hpiece ▸ hline), hparseLine]
      simp only [strBuf] at hparse
      simp only [hparse, ← hrest]
      rfl
  | case3 cnf hline strBuf next hparse ih =>
      obtain ⟨hpiece, hrest⟩ := fdgetsLoop_spec (maxBuffer - 1) cnf.file
      have hparseLine : parseLine (piece eof newline (maxBuffer - 1) (remaining cnf.file)).1 =
          none := by
        rw [← hpiece]
        exact hparse
      rw [psplinkConfigReadNext, dif_neg hline, scan_piece _ (hpiece ▸ hline), hparseLine]
      simp only [strBuf] at hparse
      simp only [hparse, ← hrest]
      exact ih

theorem eachEntry_eq {σ : Type} (body : σ → Entry → σ) (cnf : ConfigFile) (state : σ) :
    eachEntry body cnf state = (scan (remaining cnf.file)).foldl body state := by
  induction cnf, state using eachEntry.induct body with
  | case1 cnf state cnf' hread =>
      rw [eachEntry, scan_readNext, hread]
      rfl
  | case2 cnf state e cnf' hread ih =>
      rw [eachEntry, scan_readNext, hread]
      exact ih

/-- The names and the values `psplinkConfigReadNext` gives for a file. -/
def configEntries (content : Bytes) : List Entry :=
  eachEntry (fun entries e => entries ++ [e]) (psplinkConfigOpen content) []

theorem configEntries_eq (content : Bytes) :
    configEntries content = scan (content.take maxBuffer) := by
  have hsnoc : ∀ es init : List Entry, es.foldl (fun entries e => entries ++ [e]) init = init ++ es := by
    intro es
    induction es with
    | nil => simp
    | cons e es ih => simp [ih]
  rw [configEntries, eachEntry_eq, hsnoc, List.nil_append]
  rfl

end PsplinkUsb.Psplink.ConfigReading
