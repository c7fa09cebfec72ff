import PsplinkUsb.Library.Ascii
import PsplinkUsb.Library.CString

/-!
`pspsh/parse_args.C`: a command line becomes arguments, each with a zero byte behind it,
and a byte 1 behind the last. `[]` is the end of the line.
-/

namespace PsplinkUsb.Pspsh.ParseArgs

open PsplinkUsb.Library.Ascii
open PsplinkUsb.Library.CString

abbrev Bytes := List UInt8

def backslash : UInt8 := 0x5C
def singleQuote : UInt8 := 0x27
def doubleQuote : UInt8 := 0x22
def greater : UInt8 := 0x3E
def dollar : UInt8 := 0x24
def openParen : UInt8 := 0x28
def closeParen : UInt8 := 0x29

def hexToInt (ch : UInt8) : UInt8 :=
  let ch := toUpper ch
  if 0x30 ≤ ch ∧ ch ≤ 0x39 then ch - 0x30
  else if 0x41 ≤ ch ∧ ch ≤ 0x46 then ch - 0x41
  else 0

def octToInt (ch : UInt8) : UInt8 := if 0x30 ≤ ch ∧ ch < 0x38 then ch - 0x30 else 0

def isODigit (ch : UInt8) : Bool := 0x30 ≤ ch ∧ ch < 0x38

/-- The loop of `decode_hex` and `decode_oct`: how many digits there are, of at most the
number given, and the byte they make. -/
def digits (isDigit : UInt8 → Bool) (shift : UInt8) (value : UInt8 → UInt8) :
    ℕ → UInt8 → Bytes → ℕ × UInt8
  | n + 1, ch, c :: str =>
      if isDigit c then
        let (i, ch) := digits isDigit shift value n (ch <<< shift ||| value c) str
        (i + 1, ch)
      else (0, ch)
  | _, ch, _ => (0, ch)

/-- A missing digit and a zero byte are refused. -/
def notNul : ℕ × UInt8 → ℕ × UInt8
  | (i, ch) => if i = 0 ∨ ch = 0 then (0, ch) else (i, ch)

def decodeHex (str : Bytes) : ℕ × UInt8 := notNul (digits isXDigit 4 hexToInt 2 0 str)

def decodeOct (str : Bytes) : ℕ × UInt8 := notNul (digits isODigit 3 octToInt 4 0 str)

/-- What `$` looks at: the environment, and the arguments of a script as `sargv` has them
in memory. -/
structure Env where
  getenv : Bytes → Option CStr
  sargc : ℤ
  sargv : Option (ℤ → Option CStr)

def ulongMax : ℕ := 2 ^ 64 - 1

/-- `int val = strtoul(in, &endp, 10)`. -/
def strtoulInt (digits : Bytes) : ℤ := ((min (decimal digits) ulongMax : ℕ) : ℤ).bmod (2 ^ 32)

def scriptArg (env : Env) (val : ℤ) : Bytes :=
  match env.sargv with
  | some sargv => if val < env.sargc then ((sargv val).map Subtype.val).getD [] else []
  | none => []

/-- The value of the variable `name`; the empty name has none. -/
def envValue (env : Env) (name : Bytes) : Bytes :=
  if name = [] then [] else ((env.getenv name).map Subtype.val).getD []

/-- `insert_arg` behind a dollar sign: what goes to the output, and the rest of the line. -/
def insertArg (env : Env) : Bytes → Bytes × Bytes
  | [] => ([dollar], [])
  | ch :: input =>
      if isDigit ch then
        let number := (ch :: input).takeWhile isDigit
        (scriptArg env (strtoulInt number), (ch :: input).dropWhile isDigit)
      else if ch = openParen then
        let name := input.takeWhile fun c => c ≠ closeParen
        match input.dropWhile fun c => c ≠ closeParen with
        | [] => ([], [])
        | _ :: rest => (envValue env name, rest)
      else if isPunct ch then (envValue env [ch], input)
      else ([dollar], ch :: input)

/-- What one turn of the loop of `read_string` does. -/
inductive Turn where
  | more (bytes : Bytes) (inQuote : UInt8) (rest : Bytes)
  | done (rest : Bytes)
  | error (rest : Bytes)

def Turn.rest : Turn → Bytes
  | .more _ _ rest => rest
  | .done rest => rest
  | .error rest => rest

/-- A byte given by digits; a single digit is an error. -/
def Turn.ofDigits (inQuote : UInt8) (input : Bytes) : ℕ × UInt8 → Turn
  | (i, ch) => if i = 0 ∨ i = 1 then .error input else .more [ch] inQuote (input.drop i)

/-- Behind a backslash that is not inside single quotes. -/
def escape (inQuote : UInt8) : Bytes → Turn
  | [] => .more [] inQuote []
  | ch :: input =>
      if ch = 0x6E then .more [10] inQuote input
      else if ch = 0x72 then .more [13] inQuote input
      else if ch = 0x30 then .ofDigits inQuote input (decodeOct input)
      else if ch = 0x78 then .ofDigits inQuote input (decodeHex input)
      else .more [ch] inQuote input

def turn (env : Env) (inQuote ch : UInt8) (input : Bytes) : Turn :=
  if ch = backslash then
    if inQuote = singleQuote then .more (ch :: input.take 1) inQuote (input.drop 1)
    else escape inQuote input
  else if isSpace ch ∧ inQuote = 0 then .done (input.dropWhile isSpace)
  else if ch = greater ∧ inQuote = 0 then .done (ch :: input)
  else if ch = doubleQuote ∨ ch = singleQuote then
    if inQuote ≠ 0 then
      if ch = inQuote then .more [] 0 input else .more [ch] inQuote input
    else .more [] ch input
  else if ch = dollar ∧ inQuote ≠ singleQuote then
    let (bytes, rest) := insertArg env input
    .more bytes inQuote rest
  else .more [ch] inQuote input

theorem length_insertArg_le (env : Env) (input : Bytes) :
    (insertArg env input).2.length ≤ input.length := by
  cases input with
  | nil => exact le_rfl
  | cons ch input =>
      rw [insertArg]
      split
      · exact (List.dropWhile_suffix _).length_le
      · split
        · split
          · exact Nat.zero_le _
          · rename_i rest hrest
            have hle := List.length_dropWhile_le (fun c => decide (c ≠ closeParen)) input
            rw [hrest, List.length_cons] at hle
            simp only [List.length_cons]
            omega
        · split
          · exact Nat.le_succ _
          · exact le_rfl

theorem length_ofDigits_le (inQuote : UInt8) (input : Bytes) (i : ℕ × UInt8) :
    (Turn.ofDigits inQuote input i).rest.length ≤ input.length := by
  rw [Turn.ofDigits]
  split
  · exact le_rfl
  · exact (List.drop_suffix _ _).length_le

theorem length_escape_le (inQuote : UInt8) (input : Bytes) :
    (escape inQuote input).rest.length ≤ input.length := by
  cases input with
  | nil => exact le_rfl
  | cons ch input =>
      rw [escape]
      split_ifs
      · exact Nat.le_succ _
      · exact Nat.le_succ _
      · exact (length_ofDigits_le _ _ _).trans (Nat.le_succ _)
      · exact (length_ofDigits_le _ _ _).trans (Nat.le_succ _)
      · exact Nat.le_succ _

theorem length_turn_le (env : Env) (inQuote ch : UInt8) (input : Bytes) :
    (turn env inQuote ch input).rest.length ≤ input.length ∨
      turn env inQuote ch input = .done (ch :: input) := by
  rw [turn]
  split_ifs
  · exact .inl (List.drop_suffix _ _).length_le
  · exact .inl (length_escape_le inQuote input)
  · exact .inl (List.length_dropWhile_le _ _)
  · exact .inr rfl
  · exact .inl le_rfl
  · exact .inl le_rfl
  · exact .inl le_rfl
  · exact .inl (length_insertArg_le env input)
  · exact .inl le_rfl

theorem length_rest_le {env : Env} {inQuote ch q : UInt8} {input bytes rest : Bytes}
    (h : turn env inQuote ch input = .more bytes q rest) : rest.length ≤ input.length := by
  rcases length_turn_le env inQuote ch input with hle | hdone
  · rw [h] at hle
    exact hle
  · simp [hdone] at h

theorem length_rest_le_succ (env : Env) (inQuote ch : UInt8) (input : Bytes) :
    (turn env inQuote ch input).rest.length ≤ (ch :: input).length := by
  rcases length_turn_le env inQuote ch input with hle | hdone
  · exact hle.trans (Nat.le_succ _)
  · rw [hdone]
    exact le_rfl

/-- How the loop of `read_string` ends. -/
structure Chars where
  out : Bytes
  inQuote : UInt8
  error : Bool
  rest : Bytes

def readChars (env : Env) (inQuote : UInt8) : Bytes → Chars
  | [] => { out := [], inQuote := inQuote, error := false, rest := [] }
  | ch :: input =>
      match _hturn : turn env inQuote ch input with
      | .more bytes q rest =>
          let r := readChars env q rest
          { r with out := bytes ++ r.out }
      | .done rest => { out := [], inQuote := inQuote, error := false, rest := rest }
      | .error rest => { out := [], inQuote := inQuote, error := true, rest := rest }
termination_by input => input.length
decreasing_by exact (length_rest_le _hturn).trans_lt (Nat.lt_succ_self _)

section

variable {env : Env} {inQuote ch q : UInt8} {input bytes rest : Bytes}

theorem readChars_of_more (h : turn env inQuote ch input = .more bytes q rest) :
    readChars env inQuote (ch :: input) =
      { readChars env q rest with out := bytes ++ (readChars env q rest).out } := by
  rw [readChars]
  split <;> simp_all

theorem readChars_of_done (h : turn env inQuote ch input = .done rest) :
    readChars env inQuote (ch :: input) =
      { out := [], inQuote := inQuote, error := false, rest := rest } := by
  rw [readChars]
  split <;> simp_all

theorem readChars_of_error (h : turn env inQuote ch input = .error rest) :
    readChars env inQuote (ch :: input) =
      { out := [], inQuote := inQuote, error := true, rest := rest } := by
  rw [readChars]
  split <;> simp_all

end

structure ReadString where
  len : ℕ
  out : Bytes
  rest : Bytes

/-- `read_string`. What it stores in spite of an error stays in the output. -/
def readString (env : Env) (input : Bytes) : ReadString :=
  match input.dropWhile isSpace with
  | [] => { len := 0, out := [], rest := [] }
  | ch :: input =>
      let r := readChars env 0 (ch :: input)
      if r.inQuote ≠ 0 ∨ r.error then { len := 0, out := r.out, rest := r.rest }
      else { len := r.out.length + 1, out := r.out ++ [0], rest := r.rest }

theorem length_readChars_le (env : Env) (inQuote : UInt8) (input : Bytes) :
    (readChars env inQuote input).rest.length ≤ input.length := by
  induction inQuote, input using readChars.induct env with
  | case1 inQuote => rw [readChars]
  | case2 inQuote ch input bytes q rest hturn ih =>
      rw [readChars_of_more hturn]
      exact (ih.trans (length_rest_le hturn)).trans (Nat.le_succ _)
  | case3 inQuote ch input rest hturn =>
      have hle := length_rest_le_succ env inQuote ch input
      rw [hturn] at hle
      rw [readChars_of_done hturn]
      exact hle
  | case4 inQuote ch input rest hturn =>
      have hle := length_rest_le_succ env inQuote ch input
      rw [hturn] at hle
      rw [readChars_of_error hturn]
      exact hle

theorem length_readString_le (env : Env) (input : Bytes) :
    (readString env input).rest.length ≤ input.length := by
  have hle := List.length_dropWhile_le isSpace input
  rw [readString]
  cases hrest : input.dropWhile isSpace with
  | nil => exact Nat.zero_le _
  | cons ch rest =>
      rw [hrest] at hle
      dsimp only
      split
      · exact (length_readChars_le env 0 _).trans hle
      · exact (length_readChars_le env 0 _).trans hle

inductive RedirType where
  | none
  | new
  | cat
  deriving DecidableEq

/-- The output, where in it the arguments start, and the redirection. -/
structure Cli where
  out : Bytes
  argv : List ℕ
  type : RedirType
  redir : Bytes
  deriving DecidableEq

def Cli.empty : Cli := { out := [], argv := [], type := .none, redir := [] }

/-- The type of a redirection whose first `>` is gone. -/
def redirType : Bytes → RedirType × Bytes
  | ch :: input => if ch = greater then (.cat, input) else (.new, ch :: input)
  | [] => (.new, [])

theorem length_redirType_le (input : Bytes) : (redirType input).2.length ≤ input.length := by
  cases input with
  | nil => exact le_rfl
  | cons ch input =>
      rw [redirType]
      split
      · exact Nat.le_succ _
      · exact le_rfl

/-- The loop of `parse_cli`; `false` when a redirection has no file name. -/
def parseWords (env : Env) (maxArgs : ℕ) (cli : Cli) (input : Bytes) : Bool × Cli :=
  if cli.argv.length + 1 < maxArgs then
    match input with
    | ch :: input =>
        if ch = greater then
          let r := readString env (redirType input).2
          let cli := { cli with type := (redirType input).1, redir := r.out }
          if r.len = 0 then (false, cli) else parseWords env maxArgs cli r.rest
        else
          let r := readString env (ch :: input)
          let argv := cli.argv ++ [cli.out.length]
          if r.len = 0 then (true, { cli with out := cli.out ++ r.out })
          else parseWords env maxArgs { cli with out := cli.out ++ r.out, argv := argv } r.rest
    | [] => (true, cli)
  else (true, cli)
termination_by maxArgs - cli.argv.length + input.length
decreasing_by
  · have hle := (length_readString_le env (redirType input).2).trans (length_redirType_le input)
    exact Nat.add_lt_add_left (Nat.lt_succ_of_le hle) _
  · have hle := length_readString_le env (ch :: input)
    have hargs : (cli.argv ++ [cli.out.length]).length = cli.argv.length + 1 :=
      List.length_append
    rw [hargs]
    omega

section

variable {env : Env} {maxArgs : ℕ} {cli : Cli} {ch : UInt8} {input : Bytes}

theorem parseWords_redir (hroom : cli.argv.length + 1 < maxArgs) :
    parseWords env maxArgs cli (greater :: input) =
      let r := readString env (redirType input).2
      let cli := { cli with type := (redirType input).1, redir := r.out }
      if r.len = 0 then (false, cli) else parseWords env maxArgs cli r.rest := by
  rw [parseWords, if_pos hroom, if_pos rfl]

theorem parseWords_fail (hroom : cli.argv.length + 1 < maxArgs) (hch : ch ≠ greater)
    (hlen : (readString env (ch :: input)).len = 0) :
    parseWords env maxArgs cli (ch :: input) =
      (true, { cli with out := cli.out ++ (readString env (ch :: input)).out }) := by
  rw [parseWords, if_pos hroom, if_neg hch]
  exact if_pos hlen

theorem parseWords_word (hroom : cli.argv.length + 1 < maxArgs) (hch : ch ≠ greater)
    (hlen : (readString env (ch :: input)).len ≠ 0) :
    parseWords env maxArgs cli (ch :: input) =
      parseWords env maxArgs
        { cli with out := cli.out ++ (readString env (ch :: input)).out
                   argv := cli.argv ++ [cli.out.length] }
        (readString env (ch :: input)).rest := by
  rw [parseWords, if_pos hroom, if_neg hch]
  exact if_neg hlen

theorem parseWords_nil : parseWords env maxArgs cli [] = (true, cli) := by
  rw [parseWords.eq_def]
  exact ite_self _

theorem parseWords_full (hfull : ¬cli.argv.length + 1 < maxArgs) :
    parseWords env maxArgs cli input = (true, cli) := by
  rw [parseWords.eq_def, if_neg hfull]

end

/-- `parse_cli`: the number of bytes of output, none when it fails. -/
def parseCli (env : Env) (maxArgs : ℕ) (line : CStr) : ℕ × Cli :=
  if maxArgs = 0 then (0, .empty)
  else
    match line.val.dropWhile isSpace with
    | [] => (0, .empty)
    | ch :: input =>
        let (ok, cli) := parseWords env maxArgs .empty (ch :: input)
        if ok then (cli.out.length + 1, { cli with out := cli.out ++ [1] }) else (0, cli)

end PsplinkUsb.Pspsh.ParseArgs
