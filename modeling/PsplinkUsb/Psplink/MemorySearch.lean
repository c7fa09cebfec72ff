import PsplinkUsb.Library.LittleEndian
import PsplinkUsb.Library.Occurrences
import PsplinkUsb.Psplink.MemoryRegions

namespace PsplinkUsb.Psplink.MemorySearch

open PsplinkUsb.Library.Ascii
open PsplinkUsb.Library.LittleEndian
open PsplinkUsb.Library.Numerals
open PsplinkUsb.Library.Occurrences
open PsplinkUsb.Psplink.ProgramMemory (Word)
open PsplinkUsb.Psplink.DecodeAddr
open PsplinkUsb.Psplink.AddressExpressions (memDecode_numeral)
open PsplinkUsb.Psplink.MemoryRegions

/-- Bytes to look for, and which of their bits count. -/
structure Pattern where
  search : Bytes
  mask : Option Bytes

/-- `memcmp` of memory and a pattern. -/
def memcmp (m : Machine) : Word → Bytes → ℤ
  | _, [] => 0
  | data, b :: search =>
      if byteAt m data = b then memcmp m (data + 1) search
      else (byteAt m data).toNat - b.toNat

/-- The loop of `memcmp_mask`. -/
def maskLoop (m : Machine) : Word → Bytes → Bytes → ℤ
  | _, [], _ => 0
  | data, b :: search, mask =>
      let masked := byteAt m data &&& mask.headD 0
      if masked ≠ b then masked.toNat - b.toNat else maskLoop m (data + 1) search mask.tail

def memcmpMask (m : Machine) (data : Word) (pattern : Pattern) : ℤ :=
  match pattern.mask with
  | none => memcmp m data pattern.search
  | some mask => maskLoop m data pattern.search mask

/-- The loop of `memmem_mask`, with what is compared. -/
def memmemLoop (m : Machine) (pattern : Pattern) : ℕ → Word → Option Word × List Access
  | 0, _ => (none, [])
  | count + 1, data =>
      let compared : Access := ⟨data, pattern.search.length, 1⟩
      if memcmpMask m data pattern = 0 then (some data, [compared])
      else
        let (found, reads) := memmemLoop m pattern count (data + 1)
        (found, compared :: reads)

def memmemMask (m : Machine) (pattern : Pattern) (data : Word) (len : ℤ) :
    Option Word × List Access :=
  if data = 0 ∨ len < 0 then (none, [])
  else memmemLoop m pattern (len - pattern.search.length + 1).toNat data

/-- The matches that are printed, the bytes that are compared, and whether the loop has ended. -/
structure Search where
  found : List Word
  reads : List Access
  ended : Bool

/-- The loop of the commands, for so many rounds. -/
def findLoop (m : Machine) (pattern : Pattern) : ℕ → Word → Word → Search
  | 0, _, _ => ⟨[], [], false⟩
  | rounds + 1, curr, size =>
      match memmemMask m pattern curr size.toInt with
      | (none, reads) => ⟨[], reads, true⟩
      | (some found, reads) =>
          let next := found + 1
          let size := size - (next - curr)
          if 0 < size then
            let rest := findLoop m pattern rounds next size
            ⟨found :: rest.found, reads ++ rest.reads, rest.ended⟩
          else ⟨[found], reads, true⟩

/-- A number that is all of a text. -/
def strtoint (str : Bytes) : Option Word :=
  match strtoul32 0 str with
  | some (n, behind) => if behind = [] then some (BitVec.ofNat 32 n) else none
  | none => if str = [] then some 0 else none

/-- The low bytes of numbers, one number behind the other. -/
def valueBytes (width : ℕ) : List Bytes → Option Bytes
  | [] => some []
  | arg :: args =>
      match strtoint arg with
      | none => none
      | some val => (valueBytes width args).map (toBytes width val.toNat ++ ·)

def hexToInt (ch : UInt8) : ℕ := (digitValue ch).getD 0

/-- The loop of `decode_hexstr`. -/
def hexPairs : Bytes → Option Bytes
  | hi :: lo :: str =>
      if isXDigit hi ∧ isXDigit lo then
        (hexPairs str).map (UInt8.ofNat (16 * hexToInt hi + hexToInt lo) :: ·)
      else none
  | _ => some []

/-- The bytes, none of them where there is an error. -/
def decodeHexstr (str : Bytes) (max : ℕ) : Bytes :=
  if str.length % 2 = 1 ∨ max < str.length / 2 then [] else (hexPairs str).getD []

def strPattern (argv : List Bytes) : Option Pattern := some ⟨argv.getD 2 [], none⟩

def valuePattern (width : ℕ) (argv : List Bytes) : Option Pattern :=
  (valueBytes width (argv.drop 2)).map fun search => ⟨search, none⟩

def hexPattern (argv : List Bytes) : Option Pattern :=
  let hex := decodeHexstr (argv.getD 2 []) 128
  if hex.length = 0 then none
  else if 3 < argv.length then
    let mask := decodeHexstr (argv.getD 3 []) 128
    if mask.length = 0 ∨ mask.length ≠ hex.length then none else some ⟨hex, some mask⟩
  else some ⟨hex, none⟩

/-- A search for the pattern that the arguments make, for so many rounds; nothing where there is
no search. -/
def findCmd (pattern : List Bytes → Option Pattern) (m : Machine) (rounds : ℕ)
    (argv : List Bytes) : Option Search :=
  match memDecode m (argv.getD 0 []), memDecode m (argv.getD 1 []), pattern argv with
  | some addr, some size, some pattern =>
      let sizeLeft := BitVec.ofNat 32 (m.memValidate addr (memAttribRead ||| memAttribByte))
      some (findLoop m pattern rounds addr (if size < sizeLeft then size else sizeLeft))
  | _, _, _ => none

def findstrCmd : Machine → ℕ → List Bytes → Option Search := findCmd strPattern
def findwCmd : Machine → ℕ → List Bytes → Option Search := findCmd (valuePattern 4)
def findhCmd : Machine → ℕ → List Bytes → Option Search := findCmd (valuePattern 2)
def findhexCmd : Machine → ℕ → List Bytes → Option Search := findCmd hexPattern

inductive FindCommand where
  | findstr | findw | findh | findhex

def FindCommand.run : FindCommand → Machine → ℕ → List Bytes → Option Search
  | .findstr => findstrCmd
  | .findw => findwCmd
  | .findh => findhCmd
  | .findhex => findhexCmd

/-- The pattern that the arguments make. -/
def FindCommand.pattern : FindCommand → List Bytes → Option Pattern
  | .findstr => strPattern
  | .findw => valuePattern 4
  | .findh => valuePattern 2
  | .findhex => hexPattern

/-- Bytes that do not go on behind the last address. -/
structure Span (start : Word) (n : ℕ) : Prop where
  ne : start ≠ 0
  lt : n < 2 ^ 31
  le : start.toNat + n ≤ 2 ^ 32

/-- The pattern is at so many bytes behind the start. -/
def Matches (m : Machine) (pattern : Pattern) (start : Word) (i : ℕ) : Prop :=
  memcmpMask m (start + BitVec.ofNat 32 i) pattern = 0

instance (m : Machine) (pattern : Pattern) (start : Word) :
    DecidablePred (Matches m pattern start) := fun _ => inferInstanceAs (Decidable (_ = _))

section

variable {m : Machine} {pattern : Pattern} {start : Word} {i j n count rounds : ℕ} {a : Access}

theorem add_ofNat_succ (start : Word) (i : ℕ) :
    start + BitVec.ofNat 32 i + 1 = start + BitVec.ofNat 32 (i + 1) := by
  rw [BitVec.ofNat_add, BitVec.add_assoc]
  rfl

theorem found_memmemLoop :
    (memmemLoop m pattern count (start + BitVec.ofNat 32 i)).1 =
      (first (Matches m pattern start) i count).map fun j => start + BitVec.ofNat 32 j := by
  induction count generalizing i with
  | zero => rfl
  | succ count ih =>
      rw [memmemLoop, first]
      dsimp only
      split
      · rename_i hmatches
        rw [if_pos (show Matches m pattern start i from hmatches)]
        rfl
      · rename_i hmatches
        rw [if_neg (show ¬Matches m pattern start i from hmatches), add_ofNat_succ]
        exact ih

theorem reads_memmemLoop (ha : a ∈ (memmemLoop m pattern count (start + BitVec.ofNat 32 i)).2) :
    ∃ j, (i ≤ j ∧ j < i + count) ∧
      a = ⟨start + BitVec.ofNat 32 j, pattern.search.length, 1⟩ := by
  induction count generalizing i with
  | zero => exact absurd ha List.not_mem_nil
  | succ count ih =>
      rw [memmemLoop] at ha
      dsimp only at ha
      split at ha
      · exact ⟨i, by omega, List.mem_singleton.mp ha⟩
      · rcases List.mem_cons.mp ha with rfl | ha
        · exact ⟨i, by omega, rfl⟩
        · rw [add_ofNat_succ] at ha
          obtain ⟨j, hj, rfl⟩ := ih ha
          exact ⟨j, by omega, rfl⟩

theorem Span.eq_of_zero (h : Span start n) (hi : i ≤ n) (hzero : start + BitVec.ofNat 32 i = 0) :
    i = n := by
  have hne : start.toNat ≠ 0 := fun heq => h.ne (BitVec.eq_of_toNat_eq heq)
  have hlt := h.lt
  have hle := h.le
  have hnat := congrArg BitVec.toNat hzero
  rw [BitVec.toNat_add, BitVec.toNat_ofNat, Nat.mod_eq_of_lt (by omega : i < 2 ^ 32)] at hnat
  have hmod : (start.toNat + i) % 2 ^ 32 = 0 := hnat
  omega

theorem memmemMask_eq (m : Machine) (h : Span start n) (hi : i ≤ n) (hne : pattern.search ≠ []) :
    memmemMask m pattern (start + BitVec.ofNat 32 i) ((n - i : ℕ) : ℤ) =
      memmemLoop m pattern (n + 1 - pattern.search.length - i) (start + BitVec.ofNat 32 i) := by
  have hlength := List.length_pos_of_ne_nil hne
  have hcount : (((n - i : ℕ) : ℤ) - pattern.search.length + 1).toNat =
      n + 1 - pattern.search.length - i := by omega
  rw [memmemMask]
  split
  · rename_i hzero
    have hin := h.eq_of_zero hi (hzero.resolve_right (by omega))
    have hnone : n + 1 - pattern.search.length - i = 0 := by omega
    rw [hnone]
    rfl
  · rw [hcount]

theorem toInt_ofNat (h : n < 2 ^ 31) : (BitVec.ofNat 32 n).toInt = n := by
  have hnat : (BitVec.ofNat 32 n).toNat = n := Nat.mod_eq_of_lt (by omega)
  rw [BitVec.toInt_eq_toNat_of_lt (by omega), hnat]

theorem size_behind (h : Span start n) (hij : i ≤ j) (hj : j < n) :
    BitVec.ofNat 32 (n - i) - (start + BitVec.ofNat 32 j + 1 - (start + BitVec.ofNat 32 i)) =
      BitVec.ofNat 32 (n - (j + 1)) := by
  have hlt := h.lt
  have hnext : start + BitVec.ofNat 32 (j + 1) - (start + BitVec.ofNat 32 i) =
      BitVec.ofNat 32 (j + 1 - i) := by
    apply BitVec.eq_of_toNat_eq
    have hs := start.isLt
    rw [BitVec.toNat_sub, BitVec.toNat_add, BitVec.toNat_add, BitVec.toNat_ofNat,
      BitVec.toNat_ofNat, BitVec.toNat_ofNat]
    omega
  rw [add_ofNat_succ, hnext]
  apply BitVec.eq_of_toNat_eq
  rw [BitVec.toNat_sub, BitVec.toNat_ofNat, BitVec.toNat_ofNat, BitVec.toNat_ofNat]
  omega

theorem findLoop_succ (m : Machine) (rounds : ℕ) (h : Span start n) (hi : i ≤ n) (hne : pattern.search ≠ []) :
    ∃ reads : List Access,
      (∀ a ∈ reads, ∃ j, j + pattern.search.length ≤ n ∧
        a = ⟨start + BitVec.ofNat 32 j, pattern.search.length, 1⟩) ∧
      ((first (Matches m pattern start) i (n + 1 - pattern.search.length - i) = none ∧
          findLoop m pattern (rounds + 1) (start + BitVec.ofNat 32 i) (BitVec.ofNat 32 (n - i)) =
            ⟨[], reads, true⟩) ∨
        ∃ j, first (Matches m pattern start) i (n + 1 - pattern.search.length - i) = some j ∧
          findLoop m pattern (rounds + 1) (start + BitVec.ofNat 32 i) (BitVec.ofNat 32 (n - i)) =
            if j + 1 < n then
              let rest := findLoop m pattern rounds (start + BitVec.ofNat 32 (j + 1))
                (BitVec.ofNat 32 (n - (j + 1)))
              ⟨(start + BitVec.ofNat 32 j) :: rest.found, reads ++ rest.reads, rest.ended⟩
            else ⟨[start + BitVec.ofNat 32 j], reads, true⟩) := by
  have hlt := h.lt
  have hlength := List.length_pos_of_ne_nil hne
  have hmem := memmemMask_eq m h hi hne
  have hfound := @found_memmemLoop m pattern start i (n + 1 - pattern.search.length - i)
  refine ⟨(memmemLoop m pattern (n + 1 - pattern.search.length - i)
    (start + BitVec.ofNat 32 i)).2, fun a ha => ?_, ?_⟩
  · obtain ⟨j, hj, rfl⟩ := reads_memmemLoop ha
    exact ⟨j, by omega, rfl⟩
  · rw [findLoop, toInt_ofNat (by omega), hmem]
    cases hloop : memmemLoop m pattern (n + 1 - pattern.search.length - i)
        (start + BitVec.ofNat 32 i) with
    | mk found reads =>
        rw [hloop] at hfound
        dsimp only at hfound
        cases hfirst : first (Matches m pattern start) i (n + 1 - pattern.search.length - i) with
        | none =>
            rw [hfirst] at hfound
            subst hfound
            exact .inl ⟨rfl, rfl⟩
        | some j =>
            rw [hfirst] at hfound
            subst hfound
            have hj := first_lt hfirst
            refine .inr ⟨j, rfl, ?_⟩
            dsimp only [Option.map_some]
            rw [size_behind h hj.1 (by omega), add_ofNat_succ]
            have hnat : (BitVec.ofNat 32 (n - (j + 1))).toNat = n - (j + 1) :=
              Nat.mod_eq_of_lt (by omega)
            refine if_congr ?_ rfl rfl
            rw [BitVec.lt_def, hnat]
            exact Nat.sub_pos_iff_lt

/-- The rounds find the matches from where they start. -/
theorem found_findLoop (m : Machine) (h : Span start n) (hi : i ≤ n) (hne : pattern.search ≠ [])
    (hrounds : n - i < rounds) :
    (findLoop m pattern rounds (start + BitVec.ofNat 32 i) (BitVec.ofNat 32 (n - i))).ended = true ∧
      (findLoop m pattern rounds (start + BitVec.ofNat 32 i) (BitVec.ofNat 32 (n - i))).found =
        (occurrences (Matches m pattern start) i (n + 1 - pattern.search.length - i)).map
          fun j => start + BitVec.ofNat 32 j := by
  have hlength := List.length_pos_of_ne_nil hne
  induction rounds generalizing i with
  | zero => omega
  | succ rounds ih =>
      obtain ⟨reads, -, ⟨hfirst, hloop⟩ | ⟨j, hfirst, hloop⟩⟩ :=
        findLoop_succ m rounds h hi hne
      · rw [hloop, occurrences_of_first_none hfirst]
        exact ⟨rfl, rfl⟩
      · have hj := first_lt hfirst
        have hrest : i + (n + 1 - pattern.search.length - i) - (j + 1) =
            n + 1 - pattern.search.length - (j + 1) := by omega
        rw [hloop, occurrences_of_first hfirst, hrest]
        split
        · rename_i hmore
          have hih := ih (i := j + 1) hmore.le (by omega)
          exact ⟨hih.1, List.cons_eq_cons.mpr ⟨rfl, hih.2⟩⟩
        · have hzero : n + 1 - pattern.search.length - (j + 1) = 0 := by omega
          rw [hzero]
          exact ⟨rfl, rfl⟩

theorem reads_findLoop (h : Span start n) (hi : i ≤ n) (hne : pattern.search ≠ [])
    (ha : a ∈ (findLoop m pattern rounds (start + BitVec.ofNat 32 i) (BitVec.ofNat 32 (n - i))).reads) :
    ∃ j, j + pattern.search.length ≤ n ∧
      a = ⟨start + BitVec.ofNat 32 j, pattern.search.length, 1⟩ := by
  induction rounds generalizing i with
  | zero => exact absurd ha List.not_mem_nil
  | succ rounds ih =>
      obtain ⟨reads, hreads, ⟨-, hloop⟩ | ⟨j, -, hloop⟩⟩ :=
        findLoop_succ m rounds h hi hne
      · rw [hloop] at ha
        exact hreads a ha
      · rw [hloop] at ha
        split at ha
        · rename_i hmore
          rcases List.mem_append.mp ha with ha | ha
          · exact hreads a ha
          · exact ih hmore.le ha
        · exact hreads a ha

theorem run_eq (command : FindCommand) : command.run = findCmd command.pattern := by
  cases command with
  | findstr => rfl
  | findw => rfl
  | findh => rfl
  | findhex => rfl

/-- What is left of a region is a span. -/
theorem span_memValidate {entry : MemEntry} {attrib : Word} (h : entry ∈ memAreas)
    (hstart : Contains entry start) (hn : n ≤ m.memValidate start attrib) : Span start n where
  ne := by
    have hareas : ∀ entry ∈ memAreas, 0 < entry.addr.toNat := by decide
    rintro rfl
    exact absurd hstart.1 (not_le.mpr (hareas entry h))
  lt := by
    have hareas : ∀ entry ∈ memAreas, entry.size.toNat < 2 ^ 31 := by decide
    have hle := hn.trans (memValidate_le h hstart)
    have hsize := hareas entry h
    have haddr := hstart.1
    rw [End] at hle
    omega
  le := by
    have hareas : ∀ entry ∈ memAreas, End entry + 256 ≤ 2 ^ 32 := by decide
    have hle := hn.trans (memValidate_le h hstart)
    have hend := hareas entry h
    have haddr := hstart.2
    omega

theorem Span.toNat_add (h : Span start n) (hj : j < n) :
    (start + BitVec.ofNat 32 j).toNat = start.toNat + j := by
  have hlt := h.lt
  have hle := h.le
  have hnat : (BitVec.ofNat 32 j).toNat = j := Nat.mod_eq_of_lt (by omega)
  rw [BitVec.toNat_add_of_lt (by rw [hnat]; omega), hnat]

/-- The addresses of the matches. -/
theorem mem_map_occurrences {p : Word} (h : Span start n) (hi : 0 < i) :
    p ∈ (occurrences (Matches m pattern start) 0 (n + 1 - i)).map
        (fun j => start + BitVec.ofNat 32 j) ↔
      start.toNat ≤ p.toNat ∧ p.toNat + i ≤ start.toNat + n ∧ memcmpMask m p pattern = 0 := by
  rw [List.mem_map]
  constructor
  · rintro ⟨j, hj, rfl⟩
    obtain ⟨hin, hmatches⟩ := mem_occurrences.mp hj
    rw [h.toNat_add (by omega)]
    exact ⟨by omega, by omega, hmatches⟩
  · rintro ⟨hstart, hend, hmatches⟩
    have hp : start + BitVec.ofNat 32 (p.toNat - start.toNat) = p := by
      apply BitVec.eq_of_toNat_eq
      rw [h.toNat_add (by omega)]
      omega
    refine ⟨p.toNat - start.toNat, mem_occurrences.mpr ⟨by omega, ?_⟩, hp⟩
    rw [Matches, hp]
    exact hmatches

theorem pairwise_map_occurrences (h : Span start n) (hi : 0 < i) :
    ((occurrences (Matches m pattern start) 0 (n + 1 - i)).map
      (fun j => start + BitVec.ofNat 32 j)).Pairwise (· < ·) := by
  refine List.pairwise_map.mpr (pairwise_occurrences.imp_of_mem fun {j k} hj hk hjk => ?_)
  have hlt := (mem_occurrences.mp hk).1.2
  rw [BitVec.lt_def, h.toNat_add (by omega), h.toNat_add (by omega)]
  exact Nat.add_lt_add_left hjk _

/-- How many bytes a command searches. -/
theorem searched_eq {size : Word} {left : ℕ} (hleft : left < 2 ^ 32) :
    (if size < BitVec.ofNat 32 left then size else BitVec.ofNat 32 left) =
      BitVec.ofNat 32 (min size.toNat left - 0) := by
  have hnat : (BitVec.ofNat 32 left).toNat = left := Nat.mod_eq_of_lt hleft
  rw [Nat.sub_zero]
  split
  · rename_i hlt
    rw [BitVec.lt_def, hnat] at hlt
    rw [min_eq_left hlt.le, BitVec.ofNat_toNat, BitVec.setWidth_eq]
  · rename_i hlt
    rw [BitVec.lt_def, hnat] at hlt
    rw [min_eq_right (not_lt.mp hlt)]

end

/-- A search from a place in a region prints the matches, from the first one to the last. -/
theorem found_iff {command : FindCommand} {m : Machine} {argv : List Bytes} {rounds : ℕ}
    {start size : Word} {pattern : Pattern} {entry : MemEntry}
    (hstart : memDecode m (argv.getD 0 []) = some start)
    (hsize : memDecode m (argv.getD 1 []) = some size) (hpattern : command.pattern argv = some pattern)
    (hne : pattern.search ≠ []) (hentry : entry ∈ memAreas) (hcontains : Contains entry start)
    (hrounds : size.toNat < rounds) :
    ∃ search, command.run m rounds argv = some search ∧ search.ended = true ∧
      search.found.Pairwise (· < ·) ∧ ∀ p : Word, p ∈ search.found ↔
        start.toNat ≤ p.toNat ∧
          p.toNat + pattern.search.length ≤ start.toNat +
            min size.toNat (m.memValidate start (memAttribRead ||| memAttribByte)) ∧
          memcmpMask m p pattern = 0 := by
  have hlength := List.length_pos_of_ne_nil hne
  have hspan := span_memValidate hentry hcontains (le_refl (m.memValidate start
    (memAttribRead ||| memAttribByte)))
  have hspan' := span_memValidate hentry hcontains (min_le_right size.toNat (m.memValidate start
    (memAttribRead ||| memAttribByte)))
  have henough : min size.toNat (m.memValidate start (memAttribRead ||| memAttribByte)) - 0 <
      rounds := by omega
  have hfound := found_findLoop m hspan' (Nat.zero_le _) hne henough
  have hzero : start + BitVec.ofNat 32 0 = start := BitVec.add_zero start
  rw [hzero, Nat.sub_zero (_ + 1 - _)] at hfound
  rw [run_eq, findCmd, hstart, hsize, hpattern]
  dsimp only
  rw [searched_eq (hspan.lt.trans (by decide))]
  refine ⟨_, rfl, hfound.1, ?_, fun p => ?_⟩
  · rw [hfound.2]
    exact pairwise_map_occurrences hspan' hlength
  · rw [hfound.2]
    exact mem_map_occurrences hspan' hlength

/-- Two matches of `AA` in three bytes of them, the second one at the last bytes. -/
theorem found_overlapping :
    let m : Machine := { blank with lw := fun _ => 0x41414141 }
    ∃ search, FindCommand.findstr.run m 4 [text "0x08800000", text "3", text "AA"] = some search ∧
      search.ended = true ∧ search.found.Pairwise (· < ·) ∧ ∀ p : Word, p ∈ search.found ↔
        (0x08800000 : Word).toNat ≤ p.toNat ∧
          p.toNat + 2 ≤ (0x08800000 : Word).toNat +
            min (3 : Word).toNat (m.memValidate 0x08800000 (memAttribRead ||| memAttribByte)) ∧
          memcmpMask m p ⟨text "AA", none⟩ = 0 := by
  intro m
  have haddr : memDecode m (text "0x08800000") = some 0x08800000 :=
    memDecode_numeral ⟨by decide, by decide⟩ (by decide) m
  have hsize : memDecode m (text "3") = some 3 :=
    memDecode_numeral ⟨by decide, by decide⟩ (by decide) m
  have hentry : (⟨0x08800000, 24 * 1024 * 1024, memAttribAll, false⟩ : MemEntry) ∈ memAreas :=
    List.mem_of_getElem? (i := 4) rfl
  exact @found_iff .findstr m _ 4 _ _ ⟨text "AA", none⟩ _ haddr hsize rfl (by decide)
    hentry (by decide) (by decide)

end PsplinkUsb.Psplink.MemorySearch
