import PsplinkUsb.Psplink.CopyTree

namespace PsplinkUsb.Psplink.CopyBlocks

open PsplinkUsb.Library.FileTree
open PsplinkUsb.Psplink.CopyTree

variable {f : FileResults} {k : ℕ} {rest : Option Bytes} {content old : Bytes} {fs : Fs}
  {src dst q : Path}

/-- As much of a block as is written. -/
def blockWritten (f : FileResults) (k : ℕ) (rest : Option Bytes) : Bytes :=
  ((rest.getD []).take (readResult f k rest).toNat).take ((f.write k).getD 0)

/-- What the loop writes from a block on. -/
def copiedFrom (f : FileResults) (k : ℕ) (rest : Option Bytes) : Bytes :=
  if readResult f k rest < cpbufSize then blockWritten f k rest
  else
    blockWritten f k rest ++
      copiedFrom f (k + 1) (rest.map (·.drop (readResult f k rest).toNat))
termination_by (rest.getD []).length
decreasing_by
  rename_i hread
  exact drop_read_lt hread

/-- One block is read and written in full. -/
def BlockWhole (f : FileResults) (k size : ℕ) : Prop :=
  (∃ most ∈ f.read k, size ≤ most) ∧ ∃ most ∈ f.write k, size ≤ most

/-- The destination is opened, and so is the source unless it is empty; no read comes short
before the end of the file, and no write at all. -/
def Whole (f : FileResults) (content : Bytes) : Prop :=
  f.openDst = true ∧ ∀ k, cpbufSize * k < content.length →
    f.openSrc = true ∧ BlockWhole f k (min cpbufSize (content.length - cpbufSize * k))

theorem contentOf_eq_some {p : Path} : contentOf fs p = some content ↔
    fs.lookup p = some (.file content) := by
  rw [contentOf]
  split
  · rename_i h
    simp [h]
  · rename_i h
    constructor
    · intro hnone
      cases hnone
    · intro hfile
      exact absurd hfile (h content)

theorem writeBlock_agree (data : Bytes) :
    AgreeOff (· = dst) fs (writeBlock f k dst data fs) := by
  rw [writeBlock]
  split
  · apply agreeOff_insert
    rfl
  · exact .refl fs

theorem writeBlock_lookup (hopen : f.openDst = true) (hold : fs.lookup dst = some (.file old))
    (data : Bytes) : (writeBlock f k dst data fs).lookup dst =
      some (.file (old ++ data.take ((f.write k).getD 0))) := by
  rw [writeBlock, hopen, contentOf_eq_some.mpr hold]
  cases f.write k with
  | none => simp [hold]
  | some most => exact AList.lookup_insert fs

theorem copyBlock_agree (f : FileResults) (dst : Path) (k : ℕ) (rest : Option Bytes) (fs : Fs) :
    AgreeOff (· = dst) fs (copyBlock f k dst rest fs) := by
  rw [copyBlock]
  split
  · exact writeBlock_agree _
  · exact .refl fs

theorem copyBlock_lookup (hopen : f.openDst = true) (hold : fs.lookup dst = some (.file old)) :
    (copyBlock f k dst rest fs).lookup dst = some (.file (old ++ blockWritten f k rest)) := by
  rw [copyBlock, blockWritten]
  split
  · exact writeBlock_lookup hopen hold _
  · rename_i hread
    have hzero : (readResult f k rest).toNat = 0 := by omega
    rw [hzero, hold]
    simp

theorem copyBlock_closed (hclosed : f.openDst = false) : copyBlock f k dst rest fs = fs := by
  rw [copyBlock, writeBlock, hclosed]
  exact ite_self fs

theorem copyLoop_agree (f : FileResults) (dst : Path) (k : ℕ) (rest : Option Bytes) (fs : Fs) :
    AgreeOff (· = dst) fs (copyLoop f dst k rest fs) := by
  induction k, rest, fs using copyLoop.induct f dst with
  | case1 k rest fs hread =>
      rw [copyLoop, if_pos hread]
      exact copyBlock_agree f dst k rest fs
  | case2 k rest fs hread ih =>
      rw [copyLoop, if_neg hread]
      exact (copyBlock_agree f dst k rest fs).trans ih

theorem copyLoop_lookup (hopen : f.openDst = true) (hold : fs.lookup dst = some (.file old)) :
    (copyLoop f dst k rest fs).lookup dst = some (.file (old ++ copiedFrom f k rest)) := by
  induction k, rest, fs using copyLoop.induct f dst generalizing old with
  | case1 k rest fs hread =>
      rw [copyLoop, copiedFrom, if_pos hread, if_pos hread]
      exact copyBlock_lookup hopen hold
  | case2 k rest fs hread ih =>
      rw [copyLoop, copiedFrom, if_neg hread, if_neg hread, ← List.append_assoc]
      exact ih (copyBlock_lookup hopen hold)

theorem copyLoop_closed (hclosed : f.openDst = false) : copyLoop f dst k rest fs = fs := by
  induction k, rest, fs using copyLoop.induct f dst with
  | case1 k rest fs hread => rw [copyLoop, if_pos hread, copyBlock_closed hclosed]
  | case2 k rest fs hread ih =>
      rw [copyBlock_closed hclosed] at ih
      rw [copyLoop, if_neg hread, copyBlock_closed hclosed, ih]

theorem length_copiedFrom_le (f : FileResults) (k : ℕ) (rest : Option Bytes) :
    (copiedFrom f k rest).length ≤ (rest.getD []).length := by
  induction k, rest using copiedFrom.induct f with
  | case1 k rest hread =>
      rw [copiedFrom, if_pos hread, blockWritten, List.length_take, List.length_take]
      omega
  | case2 k rest hread ih =>
      rw [copiedFrom, if_neg hread, List.length_append, blockWritten, List.length_take,
        List.length_take]
      have hle := readResult_le f k rest
      cases rest with
      | none =>
          simp only [Option.getD_none, List.length_nil, cpbufSize] at hle hread
          omega
      | some rest =>
          simp only [Option.getD_some, Option.map_some, List.length_drop] at hle ih ⊢
          omega

theorem readResult_of_blockWhole {data : Bytes}
    (h : BlockWhole f k (min cpbufSize data.length)) :
    readResult f k (some data) = (min cpbufSize data.length : ℕ) := by
  obtain ⟨most, hread, hle⟩ := h.1
  rw [Option.mem_def] at hread
  rw [readResult, hread]
  dsimp only
  rw [min_eq_right hle]

theorem blockWritten_of_blockWhole {data : Bytes}
    (h : BlockWhole f k (min cpbufSize data.length)) :
    blockWritten f k (some data) = data.take cpbufSize := by
  obtain ⟨most, hwrite, hle⟩ := h.2
  rw [Option.mem_def] at hwrite
  rw [blockWritten, readResult_of_blockWhole h, hwrite, Option.getD_some, Option.getD_some,
    Int.toNat_natCast, List.take_take, min_eq_right hle]
  exact List.take_eq_take_min.symm

theorem length_blockWritten (data : Bytes) : (blockWritten f k (some data)).length =
    min ((f.write k).getD 0) (min (readResult f k (some data)).toNat data.length) := by
  rw [blockWritten, List.length_take, List.length_take, Option.getD_some]

theorem blockWhole_of_length {data : Bytes} (hdata : data ≠ [])
    (h : min cpbufSize data.length ≤ (blockWritten f k (some data)).length) :
    BlockWhole f k (min cpbufSize data.length) := by
  have hpos := List.length_pos_iff.mpr hdata
  have hsize : cpbufSize = 4096 := rfl
  rw [length_blockWritten] at h
  constructor
  · cases hread : f.read k with
    | none =>
        rw [readResult, hread] at h
        simp only [Int.reduceNeg, Int.reduceToNat] at h
        omega
    | some most =>
        rw [readResult, hread] at h
        simp only [Int.toNat_natCast] at h
        exact ⟨most, rfl, by omega⟩
  · cases hwrite : f.write k with
    | none =>
        rw [hwrite, Option.getD_none] at h
        omega
    | some most =>
        rw [hwrite, Option.getD_some] at h
        exact ⟨most, rfl, by omega⟩

theorem copiedFrom_eq_iff (data : Bytes) : copiedFrom f k (some data) = data ↔
    ∀ i, cpbufSize * i < data.length →
      BlockWhole f (k + i) (min cpbufSize (data.length - cpbufSize * i)) := by
  have hsize : cpbufSize = 4096 := rfl
  induction hlen : data.length using Nat.strongRecOn generalizing k data with
  | _ len ih =>
      subst hlen
      rcases eq_or_ne data [] with rfl | hdata
      · have hle := length_copiedFrom_le f k (some [])
        refine iff_of_true (List.length_eq_zero_iff.mp (Nat.le_zero.mp hle)) ?_
        rintro i ⟨⟩
      have hpos := List.length_pos_iff.mpr hdata
      have hle := readResult_le f k (some data)
      have hblock := @length_blockWritten f k data
      rw [copiedFrom]
      by_cases hread : readResult f k (some data) < cpbufSize
      · rw [if_pos hread]
        constructor
        · intro h
          rw [h] at hblock
          have hwhole : BlockWhole f k (min cpbufSize data.length) :=
            blockWhole_of_length hdata (by rw [h]; exact min_le_right _ _)
          intro i hi
          rw [hsize] at hi
          obtain rfl : i = 0 := by omega
          simpa using hwhole
        · intro h
          have hwhole : BlockWhole f k (min cpbufSize data.length) := by simpa using h 0 (by omega)
          rw [readResult_of_blockWhole hwhole] at hread
          rw [blockWritten_of_blockWhole hwhole, List.take_of_length_le (by omega)]
      · have hfull : (readResult f k (some data)).toNat = cpbufSize ∧ cpbufSize ≤ data.length := by
          have hmost : readResult f k (some data) ≤ (min cpbufSize data.length : ℕ) := by
            rw [readResult]
            split <;> omega
          omega
        have hrest := @ih (data.length - cpbufSize) (by omega) (k + 1) (data.drop cpbufSize)
          (by rw [List.length_drop])
        rw [if_neg hread, Option.map_some, hfull.1]
        constructor
        · intro h
          have hless := length_copiedFrom_le f (k + 1) (some (data.drop cpbufSize))
          have hlength := congrArg List.length h
          rw [List.length_append] at hlength
          rw [Option.getD_some, List.length_drop] at hless
          have hwhole : BlockWhole f k (min cpbufSize data.length) :=
            blockWhole_of_length hdata (by omega)
          have hparts : blockWritten f k (some data) = data.take cpbufSize ∧
              copiedFrom f (k + 1) (some (data.drop cpbufSize)) = data.drop cpbufSize := by
            apply List.append_inj
            · rw [h, List.take_append_drop]
            · rw [blockWritten_of_blockWhole hwhole]
          intro i hi
          cases i with
          | zero => simpa using hwhole
          | succ i =>
              have hnext := hrest.mp hparts.2 i (by rw [hsize] at hi ⊢; omega)
              rw [Nat.add_right_comm, Nat.add_assoc] at hnext
              have hmul : data.length - cpbufSize - cpbufSize * i =
                  data.length - cpbufSize * (i + 1) := by
                rw [hsize]
                omega
              rwa [hmul] at hnext
        · intro h
          have hwhole : BlockWhole f k (min cpbufSize data.length) := by simpa using h 0 (by omega)
          rw [blockWritten_of_blockWhole hwhole, hrest.mpr, List.take_append_drop]
          intro i hi
          have hnext := h (i + 1) (by rw [hsize] at hi ⊢; omega)
          have hmul : data.length - cpbufSize * (i + 1) = data.length - cpbufSize - cpbufSize * i := by
            rw [hsize]
            omega
          rwa [hmul, ← Nat.add_assoc, Nat.add_right_comm] at hnext

/-- What the file at the destination is after `CopyFile`. -/
def copied (f : FileResults) (content : Bytes) : Bytes :=
  copiedFrom f 0 (if f.openSrc then some content else none)

theorem copied_eq_iff : f.openDst = true ∧ copied f content = content ↔ Whole f content := by
  rw [copied, Whole]
  refine and_congr_right fun _ => ?_
  cases hsrc : f.openSrc with
  | true =>
      rw [if_pos rfl, copiedFrom_eq_iff]
      simp only [Nat.zero_add, true_and]
  | false =>
      have hnil : copiedFrom f 0 none = [] :=
        List.length_eq_zero_iff.mp (Nat.le_zero.mp (length_copiedFrom_le f 0 none))
      rw [if_neg Bool.false_ne_true, hnil]
      constructor
      · rintro rfl k ⟨⟩
      · intro h
        by_contra hne
        have hpos := List.length_pos_iff.mpr (Ne.symm hne)
        exact Bool.false_ne_true (h 0 (by omega)).1

section CopyFile

variable {results : Results} {move : Bool}

theorem copyFile_agree (results : Results) (move : Bool) (src dst : Path) (fs : Fs) :
    AgreeOff (fun q => q = src ∨ q = dst) fs (copyFile results move src dst fs) := by
  have hopened : AgreeOff (fun q => q = src ∨ q = dst) fs
      (if (results.file src).openDst then fs.insert dst (.file []) else fs) := by
    split
    · apply agreeOff_insert
      exact .inr rfl
    · exact .refl fs
  have hlooped := hopened.trans ((copyLoop_agree (results.file src) dst 0
    (if (results.file src).openSrc then
      contentOf (if (results.file src).openDst then fs.insert dst (.file []) else fs) src
    else none) _).mono fun q hq => .inr hq)
  rw [copyFile]
  split
  · refine hlooped.trans ?_
    apply agreeOff_erase
    exact .inl rfl
  · exact hlooped

variable (hne : dst ≠ src) (hsrc : fs.lookup src = some (.file content))

include hne

theorem copyFile_lookup : (copyFile results move src dst fs).lookup dst =
    (copyLoop (results.file src) dst 0
      (if (results.file src).openSrc then
        contentOf (if (results.file src).openDst then fs.insert dst (.file []) else fs) src
      else none)
      (if (results.file src).openDst then fs.insert dst (.file []) else fs)).lookup dst := by
  rw [copyFile]
  split
  · exact AList.lookup_erase_ne hne
  · rfl

include hsrc

theorem copyFile_src : (copyFile results move src dst fs).lookup src =
    if move ∧ (results.file src).remove then none else some (.file content) := by
  rw [copyFile]
  split
  · exact AList.lookup_erase _ _
  · rw [(copyLoop_agree _ _ _ _ _).lookup src hne.symm, ← hsrc]
    split
    · exact AList.lookup_insert_ne hne.symm
    · rfl

theorem copyFile_open (hopen : (results.file src).openDst = true) :
    (copyFile results move src dst fs).lookup dst =
      some (.file (copied (results.file src) content)) := by
  have hcontent : contentOf (fs.insert dst (.file [])) src = some content :=
    contentOf_eq_some.mpr ((AList.lookup_insert_ne hne.symm).trans hsrc)
  rw [copyFile_lookup hne, if_pos hopen, hcontent, copied]
  exact copyLoop_lookup hopen (AList.lookup_insert fs)

theorem copyFile_dst (hdst : fs.lookup dst = none) :
    (copyFile results move src dst fs).lookup dst =
      if (results.file src).openDst then some (.file (copied (results.file src) content))
      else none := by
  split
  · rename_i hopen
    exact copyFile_open hne hsrc hopen
  · rename_i hopen
    rw [copyFile_lookup hne, if_neg hopen, copyLoop_closed (by simpa using hopen), hdst]

end CopyFile

end PsplinkUsb.Psplink.CopyBlocks
