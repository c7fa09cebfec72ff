import PsplinkUsb.Pspsh.LinePieces
import PsplinkUsb.Pspsh.ScriptRunning

namespace PsplinkUsb.Pspsh.ParseBounds

open PsplinkUsb.Library.Ascii
open PsplinkUsb.Library.CString
open PsplinkUsb.Pspsh.ExecuteLine (maxArgs)
open PsplinkUsb.Pspsh.LineParts
open PsplinkUsb.Pspsh.LinePieces
open PsplinkUsb.Pspsh.ParseArgs
open PsplinkUsb.Pspsh.ScriptRunning (pathMax)

/-- A pointer read from `sargv`, or something stored at an index of a buffer. -/
inductive Access where
  | sargv (index : ℤ)
  | args (index : ℕ)
  | redir (index : ℕ)
  | argv (index : ℕ)
  | name (index : ℕ)
deriving DecidableEq

/-- The size of `args` in `execute_line`. -/
def argsSize : ℕ := 4096

def Access.InBounds (sargc : ℤ) : Access → Prop
  | sargv index => 0 ≤ index ∧ index < sargc
  | args index => index < argsSize
  | redir index => index < pathMax
  | argv index => index < maxArgs
  | name index => index < pathMax

/-- `count` bytes stored from an index on. -/
def stores (buffer : ℕ → Access) (start count : ℕ) : List Access :=
  (List.range' start count).map buffer

/-- `insert_arg` behind the dollar sign, but for its output. -/
def insertArgAccesses (env : Env) : Bytes → List Access
  | [] => [.name 0]
  | ch :: input =>
      if isDigit ch then
        let val := strtoulInt ((ch :: input).takeWhile isDigit)
        if val < env.sargc ∧ env.sargv.isSome then [.sargv val] else []
      else if ch = openParen then
        -- the name and its zero byte, also when there is no `)`
        stores .name 0 ((input.takeWhile fun c => c ≠ closeParen).length + 1)
      else if isPunct ch then stores .name 0 2
      else [.name 0]

def turnAccesses (env : Env) (inQuote ch : UInt8) (input : Bytes) : List Access :=
  if ch = dollar ∧ inQuote ≠ singleQuote then insertArgAccesses env input else []

/-- The loop of `read_string`, but for its output. -/
def readCharsAccesses (env : Env) (inQuote : UInt8) : Bytes → List Access
  | [] => []
  | ch :: input =>
      match _hturn : turn env inQuote ch input with
      | .more _ q rest => turnAccesses env inQuote ch input ++ readCharsAccesses env q rest
      | .done _ => []
      | .error _ => []
termination_by input => input.length
decreasing_by exact (length_rest_le _hturn).trans_lt (Nat.lt_succ_self _)

/-- `read_string`, which puts its output into a buffer. -/
def readStringAccesses (env : Env) (buffer : ℕ → Access) (start : ℕ) (line : Bytes) :
    List Access :=
  readCharsAccesses env 0 (line.dropWhile isSpace) ++
    stores buffer start (readString env line).out.length

/-- The loop of `parse_cli` and what comes behind it, with so many arguments and so much output
so far. -/
def parseWordsAccesses (env : Env) (max argc out : ℕ) : Bytes → List Access
  | [] => [.argv argc, .args out]
  | ch :: input =>
      if argc + 1 < max then
        if _hch : ch = greater then
          let r := readString env (redirType input).2
          readStringAccesses env .redir 0 (redirType input).2 ++
            if r.len = 0 then [] else parseWordsAccesses env max argc out r.rest
        else
          let r := readString env (ch :: input)
          readStringAccesses env .args out (ch :: input) ++
            if r.len = 0 then [.argv argc, .args (out + r.out.length)]
            else .argv argc :: parseWordsAccesses env max (argc + 1) (out + r.out.length) r.rest
      else [.argv argc, .args out]
termination_by input => input.length
decreasing_by
  · exact Nat.lt_succ_of_le ((length_readString_le env _).trans (length_redirType_le input))
  · exact length_readString_lt _hch

/-- `parse_cli`, as `execute_line` calls it. -/
def parseCliAccesses (env : Env) (line : CStr) : List Access :=
  match line.val.dropWhile isSpace with
  | [] => []
  | ch :: input => parseWordsAccesses env maxArgs 0 0 (ch :: input)

def Access.argsIndex : Access → Option ℕ
  | args index => some index
  | _ => none

section

variable {env : Env} {input : Bytes} {max argc out : ℕ}

theorem accesses_of_more {inQuote ch q : UInt8} {rest bytes : Bytes}
    (h : turn env inQuote ch input = .more bytes q rest) :
    readCharsAccesses env inQuote (ch :: input) =
      turnAccesses env inQuote ch input ++ readCharsAccesses env q rest := by
  rw [readCharsAccesses]
  split <;> simp_all

theorem accesses_of_done {inQuote ch : UInt8} {rest : Bytes}
    (h : turn env inQuote ch input = .done rest) :
    readCharsAccesses env inQuote (ch :: input) = [] := by
  rw [readCharsAccesses]
  split <;> simp_all

theorem accesses_of_error {inQuote ch : UInt8} {rest : Bytes}
    (h : turn env inQuote ch input = .error rest) :
    readCharsAccesses env inQuote (ch :: input) = [] := by
  rw [readCharsAccesses]
  split <;> simp_all

theorem accesses_redir (hroom : argc + 1 < max) :
    parseWordsAccesses env max argc out (greater :: input) =
      readStringAccesses env .redir 0 (redirType input).2 ++
        if (readString env (redirType input).2).len = 0 then []
        else parseWordsAccesses env max argc out (readString env (redirType input).2).rest := by
  rw [parseWordsAccesses, if_pos hroom, dif_pos rfl]

theorem accesses_word {ch : UInt8} (hroom : argc + 1 < max) (hch : ch ≠ greater) :
    parseWordsAccesses env max argc out (ch :: input) =
      readStringAccesses env .args out (ch :: input) ++
        if (readString env (ch :: input)).len = 0 then
          [.argv argc, .args (out + (readString env (ch :: input)).out.length)]
        else
          .argv argc ::
            parseWordsAccesses env max (argc + 1) (out + (readString env (ch :: input)).out.length)
              (readString env (ch :: input)).rest := by
  rw [parseWordsAccesses, if_pos hroom, dif_neg hch]

theorem accesses_full (hfull : ¬argc + 1 < max) :
    parseWordsAccesses env max argc out input = [.argv argc, .args out] := by
  rw [parseWordsAccesses.eq_def]
  cases input with
  | nil => rfl
  | cons ch input => exact if_neg hfull

theorem argsIndex_stores_args (start count : ℕ) :
    (stores .args start count).filterMap Access.argsIndex = List.range' start count := by
  rw [stores, List.filterMap_map]
  exact List.filterMap_some

theorem argsIndex_stores {buffer : ℕ → Access} (hbuffer : ∀ i, (buffer i).argsIndex = none)
    (start count : ℕ) : (stores buffer start count).filterMap Access.argsIndex = [] := by
  simp [stores, hbuffer]

theorem argsIndex_turn (env : Env) (inQuote ch : UInt8) (input : Bytes) :
    (turnAccesses env inQuote ch input).filterMap Access.argsIndex = [] := by
  have hname : ∀ i, (Access.name i).argsIndex = none := fun _ => rfl
  rw [turnAccesses]
  split
  · cases input with
    | nil => rfl
    | cons ch input =>
        rw [insertArgAccesses]
        split_ifs
        · dsimp only
          split
          · rfl
          · rfl
        · exact argsIndex_stores hname _ _
        · exact argsIndex_stores hname _ _
        · rfl
  · rfl

theorem argsIndex_readChars (env : Env) (inQuote : UInt8) (input : Bytes) :
    (readCharsAccesses env inQuote input).filterMap Access.argsIndex = [] := by
  induction inQuote, input using readCharsAccesses.induct env with
  | case1 inQuote =>
      rw [readCharsAccesses]
      rfl
  | case2 inQuote ch input bytes q rest hturn ih =>
      rw [accesses_of_more hturn, List.filterMap_append, argsIndex_turn, ih]
      rfl
  | case3 inQuote ch input rest hturn =>
      rw [accesses_of_done hturn]
      rfl
  | case4 inQuote ch input rest hturn =>
      rw [accesses_of_error hturn]
      rfl

theorem argsIndex_readString_args (start : ℕ) (line : Bytes) :
    (readStringAccesses env .args start line).filterMap Access.argsIndex =
      List.range' start (readString env line).out.length := by
  rw [readStringAccesses, List.filterMap_append, argsIndex_readChars, argsIndex_stores_args,
    List.nil_append]

theorem argsIndex_readString_redir (start : ℕ) (line : Bytes) :
    (readStringAccesses env .redir start line).filterMap Access.argsIndex = [] := by
  rw [readStringAccesses, List.filterMap_append, argsIndex_readChars,
    argsIndex_stores fun _ => rfl, List.append_nil]

theorem argsIndex_parseWords (env : Env) (max : ℕ) (cli : Cli) (input : Bytes) :
    ∃ count, (parseWordsAccesses env max cli.argv.length cli.out.length input).filterMap
          Access.argsIndex = List.range' cli.out.length count ∧
      cli.out.length + count = (parseWords env max cli input).2.out.length +
        if (parseWords env max cli input).1 then 1 else 0 := by
  induction cli, input using parseWords.induct env max with
  | case1 cli hroom input r =>
      rename_i hlen
      rw [accesses_redir hroom, if_pos hlen, parseWords_redir hroom, if_pos hlen, List.append_nil,
        argsIndex_readString_redir]
      exact ⟨0, rfl, rfl⟩
  | case2 cli hroom input r cli' hlen =>
      rename_i ih
      rw [accesses_redir hroom, if_neg hlen, parseWords_redir hroom, if_neg hlen,
        List.filterMap_append, argsIndex_readString_redir]
      exact ih
  | case3 cli hroom ch input hch r =>
      rename_i hlen
      rw [accesses_word hroom hch, if_pos hlen, parseWords_fail hroom hch hlen,
        List.filterMap_append, argsIndex_readString_args]
      refine ⟨(readString env (ch :: input)).out.length + 1, List.range'_1_concat.symm, ?_⟩
      simp only [List.length_append, if_true, Nat.add_assoc]
  | case4 cli hroom ch input hch r argv hlen =>
      rename_i ih
      obtain ⟨count, hindex, hcount⟩ := ih
      simp only [argv, List.length_append, List.length_singleton] at hindex hcount
      rw [accesses_word hroom hch, if_neg hlen, parseWords_word hroom hch hlen,
        List.filterMap_append, argsIndex_readString_args]
      refine ⟨(readString env (ch :: input)).out.length + count, ?_, ?_⟩
      · rw [← List.range'_append_1]
        exact congrArg _ hindex
      · exact (Nat.add_assoc _ _ _).symm.trans hcount
  | case5 cli hroom =>
      rw [parseWordsAccesses, parseWords_nil]
      exact ⟨1, rfl, rfl⟩
  | case6 cli input hfull =>
      rw [accesses_full hfull, parseWords_full hfull]
      exact ⟨1, rfl, rfl⟩

/-- What is stored in `args` is what `parse_cli` puts out. -/
theorem argsIndex_parseCli (env : Env) (line : CStr) :
    (parseCliAccesses env line).filterMap Access.argsIndex =
      List.range (parseCli env maxArgs line).2.out.length := by
  rw [parseCliAccesses, parseCli, if_neg (by decide)]
  cases line.val.dropWhile isSpace with
  | nil => rfl
  | cons ch input =>
      obtain ⟨count, hindex, hcount⟩ := argsIndex_parseWords env maxArgs .empty (ch :: input)
      refine hindex.trans ?_
      rw [List.range_eq_range']
      have hzero : Cli.empty.out.length + count = count := Nat.zero_add count
      rw [hzero] at hcount
      rw [hcount]
      dsimp only
      split
      · rw [List.length_append, List.length_singleton]
        rfl
      · rfl

end

/-- A number is no index before `sargv`, and a name fits its buffer. -/
def PieceFits (env : Env) : Piece → Prop
  | .text _ => True
  | .number digits => env.sargv = none ∨ env.sargc ≤ strtoulInt digits ∨ 0 ≤ strtoulInt digits
  | .var name => name.length < pathMax
  | .unclosed name => name.length < pathMax

/-- All the pieces fit, and for the name of a file all their values together. -/
def PartFits (env : Env) : LinePart → Prop
  | .arg line => ∀ p ∈ pieces 0 (line.dropWhile isSpace), PieceFits env p
  | .file line =>
      (∀ p ∈ pieces 0 (line.dropWhile isSpace), PieceFits env p) ∧ width env line ≤ pathMax

/-- How much the arguments put out. -/
def argsWidth (env : Env) : List LinePart → ℕ
  | [] => 0
  | .arg line :: ps => width env line + argsWidth env ps
  | .file _ :: ps => argsWidth env ps

def Refused (ps : List LinePart) : Prop :=
  ∃ file, .file file ∈ ps ∧ (readString emptyEnv file).len = 0

/-- Behind so much output the arguments fit, with a byte 1 unless `parse_cli` fails. -/
def Fits (env : Env) (out : ℕ) (ps : List LinePart) : Prop :=
  (∀ p ∈ ps, PartFits env p) ∧ out + argsWidth env ps ≤ argsSize ∧
    (Refused ps ∨ out + argsWidth env ps < argsSize)

variable {env : Env} {inQuote ch : UInt8} {input line : Bytes} {ps : List LinePart} {out : ℕ}

theorem inBounds_stores {buffer : ℕ → Access} {size start count : ℕ} {sargc : ℤ}
    (hbuffer : ∀ i, (buffer i).InBounds sargc ↔ i < size) (hstart : start ≤ size) :
    (∀ a ∈ stores buffer start count, a.InBounds sargc) ↔ start + count ≤ size := by
  simp only [stores, List.forall_mem_map, hbuffer, List.mem_range'_1, and_imp]
  constructor
  · intro hall
    rcases Nat.eq_zero_or_pos count with rfl | hpos
    · exact hstart
    · have hlast := hall (start + count - 1) (by omega) (by omega)
      omega
  · intro hle i _ hi
    exact hi.trans_le hle

theorem inBounds_number (env : Env) (digits : Bytes) :
    (∀ a ∈ if strtoulInt digits < env.sargc ∧ env.sargv.isSome then
        [Access.sargv (strtoulInt digits)] else [], a.InBounds env.sargc) ↔
      PieceFits env (.number digits) := by
  rw [PieceFits]
  split
  · rename_i hread
    obtain ⟨hless, hsome⟩ := hread
    rw [List.forall_mem_singleton, or_iff_right (Option.isSome_iff_ne_none.mp hsome),
      or_iff_right (Int.not_le.mpr hless)]
    exact and_iff_left hless
  · rename_i hskip
    refine iff_of_true (List.forall_mem_nil _) ?_
    rw [not_and_or, not_lt, Option.not_isSome_iff_eq_none] at hskip
    rcases hskip with hle | hnone
    · exact .inr (.inl hle)
    · exact .inl hnone

theorem inBounds_insertArg (env : Env) (input : Bytes) :
    (∀ a ∈ insertArgAccesses env input, a.InBounds env.sargc) ↔
      PieceFits env (dollarPiece input) := by
  have hname : ∀ i, (Access.name i).InBounds env.sargc ↔ i < pathMax := fun i => Iff.rfl
  have hzero : ∀ a ∈ [Access.name 0], a.InBounds env.sargc := by
    intro a ha
    rw [List.mem_singleton.mp ha]
    exact Nat.zero_lt_succ _
  cases input with
  | nil => exact iff_of_true hzero trivial
  | cons ch input =>
      rw [insertArgAccesses, dollarPiece]
      split_ifs
      · exact inBounds_number env _
      · rw [inBounds_stores hname (Nat.zero_le _), Nat.zero_add]
        exact Iff.rfl
      · rw [inBounds_stores hname (Nat.zero_le _), Nat.zero_add]
        exact Iff.rfl
      · rw [inBounds_stores hname (Nat.zero_le _)]
        have hshort : PieceFits env (.var [ch]) := by
          show 1 < pathMax
          decide
        exact iff_of_true (by decide) hshort
      · exact iff_of_true hzero trivial

theorem inBounds_turn (env : Env) (inQuote ch : UInt8) (input : Bytes) :
    (∀ a ∈ turnAccesses env inQuote ch input, a.InBounds env.sargc) ↔
      PieceFits env (piece inQuote ch input) := by
  rw [turnAccesses, piece]
  split
  · exact inBounds_insertArg env input
  · exact iff_of_true (List.forall_mem_nil _) trivial

theorem inBounds_readChars (env : Env) (inQuote : UInt8) (input : Bytes) :
    (∀ a ∈ readCharsAccesses env inQuote input, a.InBounds env.sargc) ↔
      ∀ p ∈ pieces inQuote input, PieceFits env p := by
  have hnone : (∀ a ∈ ([] : List Access), a.InBounds env.sargc) ↔
      ∀ p ∈ ([] : List Piece), PieceFits env p :=
    iff_of_true (List.forall_mem_nil _) (List.forall_mem_nil _)
  induction inQuote, input using pieces.induct with
  | case1 inQuote =>
      rw [readCharsAccesses, pieces]
      exact hnone
  | case2 inQuote ch input bytes q rest hturn ih =>
      rw [accesses_of_more (turn_of_more hturn), pieces_of_more hturn, List.forall_mem_append,
        List.forall_mem_cons]
      exact and_congr (inBounds_turn env inQuote ch input) ih
  | case3 inQuote ch input rest hturn =>
      rw [accesses_of_done (turn_of_done hturn), pieces_of_done hturn]
      exact hnone
  | case4 inQuote ch input rest hturn =>
      rw [accesses_of_error (turn_of_error hturn), pieces_of_error hturn]
      exact hnone

theorem inBounds_readString {buffer : ℕ → Access} {size start : ℕ}
    (hbuffer : ∀ i, (buffer i).InBounds env.sargc ↔ i < size) (hstart : start ≤ size)
    (line : Bytes) :
    (∀ a ∈ readStringAccesses env buffer start line, a.InBounds env.sargc) ↔
      (∀ p ∈ pieces 0 (line.dropWhile isSpace), PieceFits env p) ∧
        start + width env line ≤ size := by
  rw [readStringAccesses, List.forall_mem_append, inBounds_readChars,
    inBounds_stores hbuffer hstart, (readString_eq env line).2.2]

theorem fits_nil : Fits env out [] ↔ out < argsSize := by
  have hnone : ¬Refused [] := fun ⟨file, hfile, _⟩ => List.not_mem_nil hfile
  rw [Fits, argsWidth, Nat.add_zero, or_iff_right hnone]
  exact ⟨fun h => h.2.2, fun h => ⟨List.forall_mem_nil _, h.le, h⟩⟩

theorem refused_cons (p : LinePart) :
    Refused (p :: ps) ↔
      (∃ file, p = .file file ∧ (readString emptyEnv file).len = 0) ∨ Refused ps := by
  constructor
  · rintro ⟨file, hfile, hlen⟩
    rcases List.mem_cons.mp hfile with rfl | hfile
    · exact .inl ⟨file, rfl, hlen⟩
    · exact .inr ⟨file, hfile, hlen⟩
  · rintro (⟨file, rfl, hlen⟩ | ⟨file, hfile, hlen⟩)
    · exact ⟨file, List.mem_cons_self, hlen⟩
    · exact ⟨file, List.mem_cons_of_mem _ hfile, hlen⟩

theorem fits_arg :
    Fits env out (.arg line :: ps) ↔
      PartFits env (.arg line) ∧ Fits env (out + width env line) ps := by
  have hnone : ¬∃ file, LinePart.arg line = .file file ∧ (readString emptyEnv file).len = 0 :=
    fun ⟨file, heq, _⟩ => LinePart.noConfusion heq
  rw [Fits, Fits, List.forall_mem_cons, argsWidth, refused_cons, or_iff_right hnone,
    ← Nat.add_assoc, and_assoc]

theorem fits_file (hlen : (readString emptyEnv line).len ≠ 0) :
    Fits env out (.file line :: ps) ↔ PartFits env (.file line) ∧ Fits env out ps := by
  have hnone : ¬∃ file, LinePart.file line = .file file ∧ (readString emptyEnv file).len = 0 := by
    rintro ⟨file, heq, hfail⟩
    cases heq
    exact hlen hfail
  rw [Fits, Fits, List.forall_mem_cons, argsWidth, refused_cons, or_iff_right hnone, and_assoc]

theorem fits_refused (hlen : (readString emptyEnv line).len = 0) (hout : out ≤ argsSize) :
    Fits env out [.file line] ↔ PartFits env (.file line) := by
  have hrefused : Refused [.file line] := ⟨line, List.mem_cons_self, hlen⟩
  rw [Fits, List.forall_mem_singleton, argsWidth, argsWidth, Nat.add_zero]
  exact ⟨fun h => h.1, fun h => ⟨h, hout, .inl hrefused⟩⟩

theorem inBounds_end {argc : ℕ} (hargc : argc < maxArgs) :
    (∀ a ∈ [Access.argv argc, .args out], a.InBounds env.sargc) ↔ out < argsSize := by
  rw [List.forall_mem_cons, List.forall_mem_singleton]
  exact and_iff_right hargc

theorem taken_nil (room : ℕ) : taken room [] = [] := by
  cases room with
  | zero => rfl
  | succ room => rfl

/-- The loop of `parse_cli` stays in bounds if what it gets to fits behind the output so far. -/
theorem inBounds_parseWords {argc room : ℕ} (hargc : argc + room = maxArgs - 1)
    (hout : out ≤ argsSize) (input : Bytes) :
    (∀ a ∈ parseWordsAccesses env maxArgs argc out input, a.InBounds env.sargc) ↔
      Fits env out (taken room (parts emptyEnv input)) := by
  have hless : argc < maxArgs := by
    have hmax : maxArgs = 16 := rfl
    omega
  have hargs : ∀ i, (Access.args i).InBounds env.sargc ↔ i < argsSize := fun i => Iff.rfl
  have hredir : ∀ i, (Access.redir i).InBounds env.sargc ↔ i < pathMax := fun i => Iff.rfl
  induction argc, out, input using parseWordsAccesses.induct env maxArgs generalizing room with
  | case1 argc out =>
      rw [parseWordsAccesses, parts, taken_nil, fits_nil, inBounds_end hless]
  | case2 argc out input hroom r =>
      rename_i ih
      obtain ⟨room, rfl⟩ : ∃ more, room = more + 1 := ⟨room - 1, by omega⟩
      obtain ⟨hlen, hrest, -⟩ := readString_eq env (redirType input).2
      rw [accesses_redir hroom, parts_redir, taken, List.forall_mem_append,
        inBounds_readString hredir (Nat.zero_le _), Nat.zero_add]
      simp only [hlen]
      split
      · rename_i hfail
        rw [taken_nil, fits_refused hfail hout]
        exact and_iff_left (List.forall_mem_nil _)
      · rename_i hread
        rw [fits_file hread]
        refine and_congr Iff.rfl ?_
        rw [← hrest]
        exact ih hargc hout hless
  | case3 argc out ch input hroom hch r =>
      rename_i ih
      obtain ⟨room, rfl⟩ : ∃ more, room = more + 1 := ⟨room - 1, by omega⟩
      obtain ⟨hlen, hrest, hwidth⟩ := readString_eq env (ch :: input)
      rw [accesses_word hroom hch, parts_word hch, taken, fits_arg, List.forall_mem_append,
        inBounds_readString hargs hout, and_assoc, hwidth]
      refine and_congr Iff.rfl ?_
      -- what comes behind an argument fits only where the argument does
      have hfits : ∀ ps, Fits env (out + width env (ch :: input)) ps →
          out + width env (ch :: input) ≤ argsSize :=
        fun ps h => (Nat.le_add_right _ _).trans h.2.1
      simp only [hlen]
      split
      · rw [taken_nil, inBounds_end hless, fits_nil]
        exact and_iff_right_of_imp le_of_lt
      · rw [show r.out.length = width env (ch :: input) from hwidth] at ih
        rw [List.forall_mem_cons, ← hrest]
        constructor
        · rintro ⟨hle, -, hall⟩
          exact (@ih room (by omega) hle hroom).mp hall
        · intro h
          exact ⟨hfits _ h, hless, (ih (by omega) (hfits _ h) hroom).mpr h⟩
  | case4 argc out ch input hfull =>
      obtain rfl : room = 0 := by omega
      rw [accesses_full hfull, taken, fits_nil, inBounds_end hless]

/-- `parse_cli` stays in bounds exactly when the line is blank or what it gets to fits. -/
theorem parse_cli_in_bounds_iff (env : Env) (line : CStr) :
    (∀ a ∈ parseCliAccesses env line, a.InBounds env.sargc) ↔
      line.val.dropWhile isSpace = [] ∨
        Fits env 0 (taken (maxArgs - 1) (parts emptyEnv (line.val.dropWhile isSpace))) := by
  rw [parseCliAccesses]
  cases line.val.dropWhile isSpace with
  | nil => exact iff_of_true (List.forall_mem_nil _) (.inl rfl)
  | cons ch input =>
      dsimp only
      rw [inBounds_parseWords (Nat.zero_add _) (Nat.zero_le _), or_iff_right (List.cons_ne_nil _ _)]

/-- The line `$4294967295` in a script with one argument: `sargv[-1]` is read. -/
theorem negative_argument :
    let env : Env :=
      { getenv := fun _ => none, sargc := 1
        sargv := some fun i => if i = 0 then some ⟨[0x61], by decide⟩ else none }
    let line : CStr :=
      ⟨[0x24, 0x34, 0x32, 0x39, 0x34, 0x39, 0x36, 0x37, 0x32, 0x39, 0x35], by decide⟩
    .sargv (-1) ∈ parseCliAccesses env line ∧
      ¬∀ a ∈ parseCliAccesses env line, a.InBounds env.sargc := by
  intro env line
  have hread : .sargv (-1) ∈ parseCliAccesses env line := by
    decide +kernel
  refine ⟨hread, fun hall => ?_⟩
  exact absurd (hall _ hread).1 (by decide)

end PsplinkUsb.Pspsh.ParseBounds
