import PsplinkUsb.Library.LinePieces
import PsplinkUsb.Psplink.ConfigReading

namespace PsplinkUsb.Psplink.ReadPieces

open PsplinkUsb.Library.LinePieces
open PsplinkUsb.Library.Lines
open PsplinkUsb.Psplink.ConfigReading (Bytes PspFile charToInt charToInt_eq_neg_one charToInt_inj eof
  fdgetc_cons fdgetc_nil intToChar intToChar_charToInt maxBuffer newline refill remaining remaining_refill)

/-- No piece is empty, or more than there is room for. -/
def ReadInPieces (reads : List Bytes) : Prop := ∀ p ∈ reads, p ≠ [] ∧ p.length ≤ maxBuffer

instance (reads : List Bytes) : Decidable (ReadInPieces reads) :=
  inferInstanceAs (Decidable (∀ p ∈ reads, _ ∧ _))

/-- A file and the pieces that are not read yet. -/
structure PieceFile where
  reads : List Bytes
  file : PspFile
  inPieces : ReadInPieces reads

def openPieces (reads : List Bytes) (h : ReadInPieces reads) : PieceFile where
  reads := reads
  file := ConfigReading.openfile []
  inPieces := h

/-- What the descriptor has when it is read is the next piece. -/
def offer (pFile : PieceFile) : PieceFile :=
  if pFile.file.readSize = 0 then
    { reads := pFile.reads.tail
      file := { pFile.file with unread := pFile.reads.headD [] }
      inPieces := fun p hp => pFile.inPieces p (List.mem_of_mem_tail hp) }
  else pFile

def fdgetc (pFile : PieceFile) : ℤ × PieceFile :=
  let pFile := offer pFile
  ((ConfigReading.fdgetc pFile.file).1,
    { pFile with file := (ConfigReading.fdgetc pFile.file).2 })

def fdgetsLoop : ℕ → PieceFile → Bytes × PieceFile
  | 0, pFile => ([], pFile)
  | room + 1, pFile =>
      let (ch, pFile) := fdgetc pFile
      if ch = -1 then ([], pFile)
      else if ch = charToInt newline then ([intToChar ch], pFile)
      else
        let (buf, pFile) := fdgetsLoop room pFile
        (intToChar ch :: buf, pFile)

def fdgets (pFile : PieceFile) (max : ℕ) : Bytes × PieceFile := fdgetsLoop (max - 1) pFile

/-- What reading on gives. -/
def ahead (pFile : PieceFile) : Bytes := remaining (offer pFile).file

variable {pFile : PieceFile} {reads : List Bytes} {c : UInt8} {cs : Bytes} {max : ℕ}

theorem readSize_fdgetc (pFile : PspFile) :
    (ConfigReading.fdgetc pFile).2.readSize = (refill pFile).readSize := by
  rw [ConfigReading.fdgetc]
  split
  · rfl
  · rfl

theorem readSize_of_remaining {pFile : PspFile} (h : remaining pFile = c :: cs) :
    (ConfigReading.fdgetc pFile).2.readSize ≠ 0 := by
  rw [readSize_fdgetc, (refill pFile).size_eq]
  intro hsize
  rw [← remaining_refill, List.eq_nil_of_length_eq_zero hsize, List.drop_nil] at h
  cases h

theorem readSize_of_fdgetc {pFile : PspFile} (h : (ConfigReading.fdgetc pFile).2.readSize = 0) :
    pFile.readSize = 0 := by
  rw [readSize_fdgetc, refill] at h
  split at h
  · rename_i hsize
    exact hsize
  · exact h

theorem ahead_of_readSize (h : pFile.file.readSize ≠ 0) : ahead pFile = remaining pFile.file := by
  rw [ahead, offer, if_neg h]

theorem ahead_of_readSize_zero (h : pFile.file.readSize = 0) :
    ahead pFile = (pFile.reads.headD []).take maxBuffer := by
  rw [ahead, offer, if_pos h, remaining, if_pos h]

theorem reads_of_ahead_nil (h : ahead pFile = []) (hsize : pFile.file.readSize = 0) :
    pFile.reads = [] := by
  rw [ahead_of_readSize_zero hsize] at h
  have hpieces := pFile.inPieces
  rcases hfirst : pFile.reads with _ | ⟨p, ps⟩
  · rfl
  · rw [hfirst] at h hpieces
    rcases List.take_eq_nil_iff.mp h with hzero | hnil
    · exact absurd hzero (by decide)
    · exact absurd hnil (hpieces p List.mem_cons_self).1

theorem fdgetc_ahead_nil (h : ahead pFile = []) :
    (fdgetc pFile).1 = -1 ∧ ahead (fdgetc pFile).2 = [] := by
  obtain ⟨hch, hrest⟩ := fdgetc_nil h
  refine ⟨hch, ?_⟩
  by_cases hsize : (fdgetc pFile).2.file.readSize = 0
  · have hoffered : (offer pFile).file.readSize = 0 := readSize_of_fdgetc hsize
    have hempty : pFile.file.readSize = 0 := by
      by_contra hfull
      rw [offer, if_neg hfull] at hoffered
      exact hfull hoffered
    have hnone : (fdgetc pFile).2.reads = [] := by
      have htail : (offer pFile).reads = pFile.reads.tail := by rw [offer, if_pos hempty]
      exact htail.trans (congrArg List.tail (reads_of_ahead_nil h hempty))
    rw [ahead_of_readSize_zero hsize, hnone, List.headD_nil, List.take_nil]
  · rw [ahead_of_readSize hsize]
    exact hrest

theorem fdgetc_ahead_cons (h : ahead pFile = c :: cs) :
    (fdgetc pFile).1 = charToInt c ∧ ahead (fdgetc pFile).2 = cs := by
  obtain ⟨hch, hrest⟩ := fdgetc_cons h
  refine ⟨hch, ?_⟩
  rw [ahead_of_readSize (readSize_of_remaining h)]
  exact hrest

theorem fdgetsLoop_ahead (room : ℕ) (pFile : PieceFile) :
    (fdgetsLoop room pFile).1 = (piece eof newline room (ahead pFile)).1 ∧
      ahead (fdgetsLoop room pFile).2 = (piece eof newline room (ahead pFile)).2 := by
  induction room generalizing pFile with
  | zero =>
      rw [piece_zero]
      exact ⟨rfl, rfl⟩
  | succ room ih =>
      rcases hahead : ahead pFile with _ | ⟨c, cs⟩
      · obtain ⟨hch, hrest⟩ := fdgetc_ahead_nil hahead
        simp only [fdgetsLoop, hch, if_true, piece]
        exact ⟨trivial, hrest⟩
      · obtain ⟨hch, hrest⟩ := fdgetc_ahead_cons hahead
        have htail := ih (fdgetc pFile).2
        rw [hrest] at htail
        simp only [fdgetsLoop, hch, charToInt_eq_neg_one, charToInt_inj, intToChar_charToInt]
        rw [piece]
        split_ifs
        · exact ⟨rfl, hrest⟩
        · exact ⟨rfl, hrest⟩
        · exact ⟨congrArg (c :: ·) htail.1, htail.2⟩

theorem ahead_fdgets (h : (fdgets pFile max).1 ≠ []) :
    (ahead (fdgets pFile max).2).length < (ahead pFile).length := by
  obtain ⟨hline, hrest⟩ := fdgetsLoop_ahead (max - 1) pFile
  rw [fdgets, hline] at h
  rw [fdgets, hrest]
  exact length_piece_lt h

/-- The strings of one call of `fdgets` after the other, until one returns 0. -/
def strings (max : ℕ) (pFile : PieceFile) : List Bytes :=
  if _ : (fdgets pFile max).1 = [] then []
  else (fdgets pFile max).1 :: strings max (fdgets pFile max).2
termination_by (ahead pFile).length
decreasing_by exact ahead_fdgets ‹_›

theorem strings_eq (max : ℕ) (pFile : PieceFile) :
    strings max pFile = pieces eof newline (max - 1) (ahead pFile) := by
  induction pFile using strings.induct max with
  | case1 pFile hnil =>
      obtain ⟨hline, -⟩ := fdgetsLoop_ahead (max - 1) pFile
      rw [strings, dif_pos hnil]
      exact (pieces_of_nil (hline ▸ hnil)).symm
  | case2 pFile hne ih =>
      obtain ⟨hline, hrest⟩ := fdgetsLoop_ahead (max - 1) pFile
      have hahead : (piece eof newline (max - 1) (ahead pFile)).1 ≠ [] := hline ▸ hne
      rw [strings, dif_neg hne, ih, pieces_of_ne_nil hahead, ← hline, ← hrest]
      rfl

/-- Only the first piece is ever handed out. -/
theorem strings_openPieces (max : ℕ) (h : ReadInPieces reads) :
    strings max (openPieces reads h) = pieces eof newline (max - 1) (reads.headD []) := by
  have hfits : (reads.headD []).length ≤ maxBuffer := by
    cases reads with
    | nil => exact Nat.zero_le _
    | cons p ps => exact (h p List.mem_cons_self).2
  have hahead : ahead (openPieces reads h) = (reads.headD []).take maxBuffer :=
    ahead_of_readSize_zero rfl
  rw [strings_eq, hahead, List.take_of_length_le hfits]

/-- The strings are the file, and the lines of it as far as there is room for each. -/
structure Delivers (max : ℕ) (reads : List Bytes) (h : ReadInPieces reads) : Prop where
  whole : (strings max (openPieces reads h)).flatten = reads.flatten
  ends : ∀ l ∈ (strings max (openPieces reads h)).dropLast,
    l.getLast? = some newline ∨ l.length = max - 1
  inner : ∀ l ∈ strings max (openPieces reads h), newline ∉ l.dropLast

theorem length_le_one_of_whole (h : ReadInPieces reads)
    (hwhole : (strings max (openPieces reads h)).flatten = reads.flatten) : reads.length ≤ 1 := by
  rw [strings_openPieces] at hwhole
  rcases reads with _ | ⟨p, _ | ⟨q, ps⟩⟩
  · exact Nat.zero_le 1
  · exact Nat.le_refl 1
  · have hshort := length_flatten_pieces eof newline (max - 1) p
    have hmore := List.length_pos_of_ne_nil (h q (List.mem_cons_of_mem p List.mem_cons_self)).1
    rw [List.headD_cons] at hwhole
    rw [hwhole, List.flatten_cons, List.flatten_cons, List.length_append, List.length_append] at hshort
    omega

theorem headD_eq_flatten (hone : reads.length ≤ 1) : reads.headD [] = reads.flatten := by
  rcases reads with _ | ⟨p, _ | ⟨q, ps⟩⟩
  · rfl
  · exact (List.append_nil p).symm
  · exact absurd hone (by simp)

/-- The file is delivered exactly if it is read in one piece, and no byte of it is taken for its
end. -/
theorem delivers_iff (h : ReadInPieces reads) (hmax : 2 ≤ max) :
    Delivers max reads h ↔ reads.length ≤ 1 ∧ eof ∉ reads.flatten := by
  obtain ⟨room, rfl⟩ := Nat.exists_eq_add_of_le' hmax
  constructor
  · intro hdelivers
    have hone := length_le_one_of_whole h hdelivers.whole
    have hwhole := hdelivers.whole
    rw [strings_openPieces, headD_eq_flatten hone] at hwhole
    exact ⟨hone, (flatten_pieces_iff (by decide)).mp hwhole⟩
  · rintro ⟨hone, heof⟩
    have hstrings := strings_openPieces (room + 2) h
    rw [headD_eq_flatten hone] at hstrings
    constructor
    · rw [hstrings]
      exact flatten_pieces heof room
    · rw [hstrings]
      exact ends_of_mem_dropLast heof
    · rw [hstrings]
      exact stop_notMem_dropLast eof newline _ _

/-- A line and a half, read at once. -/
theorem two_lines_delivered :
    Delivers 80 [[0x61, 0x0A, 0x62]] (by decide) :=
  (delivers_iff (by decide) (by decide)).mpr ⟨by decide, by decide⟩

/-- Of two pieces, the second is never handed out. -/
theorem second_piece_lost : ReadInPieces [[0x61], [0x62]] ∧ 0 ∉ [[(0x61 : UInt8)], [0x62]].flatten ∧
    ¬Delivers 80 [[0x61], [0x62]] (by decide) := by
  refine ⟨by decide, by decide, fun hdelivers => ?_⟩
  have hone := length_le_one_of_whole _ hdelivers.whole
  exact absurd hone (by decide)

end PsplinkUsb.Psplink.ReadPieces
