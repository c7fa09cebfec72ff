import PsplinkUsb.Pspsh.LineParts

namespace PsplinkUsb.Pspsh.LinePieces

open PsplinkUsb.Library.Ascii
open PsplinkUsb.Library.CString
open PsplinkUsb.Pspsh.LineParts
open PsplinkUsb.Pspsh.ParseArgs
open PsplinkUsb.Pspsh.ParseArgsLaws

/-- Text as it stands, the number of an argument of the script, the name of a variable, or a
name without its `)`. -/
inductive Piece where
  | text (bytes : Bytes)
  | number (digits : Bytes)
  | var (name : Bytes)
  | unclosed (name : Bytes)

def Piece.value (env : Env) : Piece → Bytes
  | text bytes => bytes
  | number digits => scriptArg env (strtoulInt digits)
  | var name => envValue env name
  | unclosed _ => []

/-- No variable is set and there is no script. -/
def emptyEnv : Env where
  getenv _ := none
  sargc := 0
  sargv := none

/-- Behind a dollar sign. -/
def dollarPiece : Bytes → Piece
  | [] => .text [dollar]
  | ch :: input =>
      if isDigit ch then .number ((ch :: input).takeWhile isDigit)
      else if ch = openParen then
        let name := input.takeWhile fun c => c ≠ closeParen
        if closeParen ∈ input then .var name else .unclosed name
      else if isPunct ch then .var [ch]
      else .text [dollar]

def piece (inQuote ch : UInt8) (input : Bytes) : Piece :=
  if ch = dollar ∧ inQuote ≠ singleQuote then dollarPiece input
  else .text (stored (turn emptyEnv inQuote ch input))

/-- The pieces of a token. -/
def pieces (inQuote : UInt8) : Bytes → List Piece
  | [] => []
  | ch :: input =>
      match _hturn : turn emptyEnv inQuote ch input with
      | .more _ q rest => piece inQuote ch input :: pieces q rest
      | .done _ => []
      | .error _ => []
termination_by input => input.length
decreasing_by exact (length_rest_le _hturn).trans_lt (Nat.lt_succ_self _)

variable {env : Env} {inQuote ch q : UInt8} {input rest bytes : Bytes}

theorem dropWhile_eq_nil_iff_not_mem :
    input.dropWhile (fun c => decide (c ≠ closeParen)) = [] ↔ closeParen ∉ input := by
  rw [List.dropWhile_eq_nil_iff]
  simp only [decide_eq_true_eq]
  constructor
  · intro hall hmem
    exact hall _ hmem rfl
  · rintro hmem c hc rfl
    exact hmem hc

theorem insertArg_bytes (env : Env) (input : Bytes) :
    (insertArg env input).1 = (dollarPiece input).value env := by
  cases input with
  | nil => rfl
  | cons ch input =>
      rw [insertArg, dollarPiece]
      split_ifs with hdigit hparen hclosed hpunct
      · rfl
      · split
        · rename_i hnone
          exact absurd hclosed (dropWhile_eq_nil_iff_not_mem.mp hnone)
        · rfl
      · rw [dropWhile_eq_nil_iff_not_mem.mpr hclosed]
        rfl
      · rfl
      · rfl

theorem insertArg_rest (env env' : Env) (input : Bytes) :
    (insertArg env input).2 = (insertArg env' input).2 := by
  cases input with
  | nil => rfl
  | cons ch input =>
      rw [insertArg, insertArg]
      split_ifs
      · rfl
      · split
        · rfl
        · rfl
      · rfl
      · rfl

/-- A turn with other output. -/
def withBytes (bytes : Bytes) : Turn → Turn
  | .more _ inQuote rest => .more bytes inQuote rest
  | .done rest => .done rest
  | .error rest => .error rest

theorem turn_dollar (hquote : inQuote ≠ singleQuote) (input : Bytes) :
    turn env inQuote dollar input =
      .more (insertArg env input).1 inQuote (insertArg env input).2 := by
  have hback : dollar ≠ backslash := by decide
  have hspace : ¬(isSpace dollar = true ∧ inQuote = 0) := fun h => absurd h.1 (by decide)
  have hgreater : ¬(dollar = greater ∧ inQuote = 0) := fun h => absurd h.1 (by decide)
  have hquotes : ¬(dollar = doubleQuote ∨ dollar = singleQuote) := by decide
  rw [turn, if_neg hback, if_neg hspace, if_neg hgreater, if_neg hquotes, if_pos ⟨rfl, hquote⟩]

theorem turn_eq (env : Env) (inQuote ch : UInt8) (input : Bytes) :
    turn env inQuote ch input =
      withBytes ((piece inQuote ch input).value env) (turn emptyEnv inQuote ch input) := by
  rw [piece]
  split
  · rename_i hdollar
    obtain ⟨rfl, hquote⟩ := hdollar
    rw [turn_dollar hquote, turn_dollar hquote, withBytes, insertArg_bytes,
      insertArg_rest env emptyEnv]
  · rename_i hdollar
    have hturn : turn env inQuote ch input = turn emptyEnv inQuote ch input := by
      simp only [turn, if_neg hdollar]
    rw [hturn]
    cases turn emptyEnv inQuote ch input with
    | more bytes q rest => rfl
    | done rest => rfl
    | error rest => rfl

theorem turn_of_more (h : turn emptyEnv inQuote ch input = .more bytes q rest) :
    turn env inQuote ch input = .more ((piece inQuote ch input).value env) q rest := by
  rw [turn_eq, h, withBytes]

theorem turn_of_done (h : turn emptyEnv inQuote ch input = .done rest) :
    turn env inQuote ch input = .done rest := by
  rw [turn_eq, h, withBytes]

theorem turn_of_error (h : turn emptyEnv inQuote ch input = .error rest) :
    turn env inQuote ch input = .error rest := by
  rw [turn_eq, h, withBytes]

theorem pieces_of_more (h : turn emptyEnv inQuote ch input = .more bytes q rest) :
    pieces inQuote (ch :: input) = piece inQuote ch input :: pieces q rest := by
  rw [pieces]
  split <;> simp_all

theorem pieces_of_done (h : turn emptyEnv inQuote ch input = .done rest) :
    pieces inQuote (ch :: input) = [] := by
  rw [pieces]
  split <;> simp_all

theorem pieces_of_error (h : turn emptyEnv inQuote ch input = .error rest) :
    pieces inQuote (ch :: input) = [] := by
  rw [pieces]
  split <;> simp_all

theorem readChars_eq (env : Env) (inQuote : UInt8) (input : Bytes) :
    readChars env inQuote input =
      { readChars emptyEnv inQuote input with
        out := (pieces inQuote input).flatMap (Piece.value env) } := by
  induction inQuote, input using readChars.induct emptyEnv with
  | case1 inQuote =>
      rw [readChars, readChars, pieces]
      rfl
  | case2 inQuote ch input bytes q rest hturn ih =>
      rw [readChars_of_more (turn_of_more hturn), readChars_of_more hturn, pieces_of_more hturn, ih]
      rfl
  | case3 inQuote ch input rest hturn =>
      rw [readChars_of_done (turn_of_done hturn), readChars_of_done hturn, pieces_of_done hturn]
      rfl
  | case4 inQuote ch input rest hturn =>
      rw [readChars_of_error (turn_of_error hturn), readChars_of_error hturn,
        pieces_of_error hturn]
      rfl

/-- What `read_string` puts out for the line: its values, and a zero byte unless it fails. -/
def width (env : Env) (line : Bytes) : ℕ :=
  ((pieces 0 (line.dropWhile isSpace)).flatMap (Piece.value env)).length +
    if (readString emptyEnv line).len = 0 then 0 else 1

theorem readString_eq (env : Env) (line : Bytes) :
    ((readString env line).len = 0 ↔ (readString emptyEnv line).len = 0) ∧
      (readString env line).rest = (readString emptyEnv line).rest ∧
      (readString env line).out.length = width env line := by
  rw [width, readString, readString]
  cases line.dropWhile isSpace with
  | nil =>
      rw [pieces]
      exact ⟨Iff.rfl, rfl, rfl⟩
  | cons ch line =>
      dsimp only
      rw [readChars_eq env]
      split
      · exact ⟨Iff.rfl, rfl, rfl⟩
      · refine ⟨iff_of_false (Nat.succ_ne_zero _) (Nat.succ_ne_zero _), rfl, ?_⟩
        rw [List.length_append, if_neg (Nat.succ_ne_zero _), List.length_singleton]

end PsplinkUsb.Pspsh.LinePieces
