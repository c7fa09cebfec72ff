import PsplinkUsb.Pspsh.PlainWords

namespace PsplinkUsb.Pspsh.Quoting

open PsplinkUsb.Library.Ascii
open PsplinkUsb.Library.CString
open PsplinkUsb.Pspsh.ExecuteLine
open PsplinkUsb.Pspsh.ParseArgs
open PsplinkUsb.Pspsh.PlainWords
open PsplinkUsb.Pspsh.Tokens

/-- A backslash before white space, the quotes, `\`, `$` and `>`. -/
def quoteByte (ch : UInt8) : Bytes := if Plain ch then [ch] else [backslash, ch]

def quoteArg (arg : Bytes) : Bytes :=
  if arg = [] then [singleQuote, singleQuote] else arg.flatMap quoteByte

variable {env : Env} {ch : UInt8} {arg rest : Bytes}

theorem zero_not_mem_quoteArg (h : 0 ∉ arg) : 0 ∉ quoteArg arg := by
  rw [quoteArg]
  split
  · decide
  · intro hmem
    obtain ⟨ch, hch, hmem⟩ := List.mem_flatMap.mp hmem
    have hne : ch ≠ 0 := by
      rintro rfl
      exact h hch
    rw [quoteByte] at hmem
    split at hmem
    · exact hne (List.mem_singleton.mp hmem).symm
    · rcases List.mem_cons.mp hmem with heq | hmem
      · cases heq
      · exact hne (List.mem_singleton.mp hmem).symm

theorem not_mem_spaced {b : UInt8} {words : List Bytes} (hb : b ≠ 0x20)
    (h : ∀ word ∈ words, b ∉ word) : b ∉ spaced words := by
  induction words with
  | nil => exact List.not_mem_nil
  | cons word words ih =>
      have hword := h word List.mem_cons_self
      cases words with
      | nil => exact hword
      | cons next words =>
          have hrest := ih fun w hw => h w (List.mem_cons_of_mem word hw)
          rw [spaced_cons_cons]
          simp only [List.mem_append, List.mem_cons, not_or]
          exact ⟨hword, hb, hrest⟩

/-- The line for some arguments. -/
def quoted (args : List CStr) : CStr :=
  ⟨spaced (args.map fun arg => quoteArg arg.val), by
    apply not_mem_spaced (by decide)
    intro word hword
    obtain ⟨arg, -, rfl⟩ := List.mem_map.mp hword
    exact zero_not_mem_quoteArg arg.property⟩

theorem turn_escaped (h : ¬Plain ch) (rest : Bytes) :
    turn env 0 backslash (ch :: rest) = .more [ch] 0 rest := by
  have hn : ch ≠ 0x6E := fun heq => h (by rw [heq]; decide)
  have hr : ch ≠ 0x72 := fun heq => h (by rw [heq]; decide)
  have hzero : ch ≠ 0x30 := fun heq => h (by rw [heq]; decide)
  have hx : ch ≠ 0x78 := fun heq => h (by rw [heq]; decide)
  rw [turn, if_pos rfl, if_neg (by decide), escape, if_neg hn, if_neg hr, if_neg hzero, if_neg hx]

theorem readChars_quoteByte (ch : UInt8) (rest : Bytes) :
    readChars env 0 (quoteByte ch ++ rest) =
      { readChars env 0 rest with out := ch :: (readChars env 0 rest).out } := by
  rw [quoteByte]
  split
  · rename_i hplain
    exact readChars_of_more (turn_plain hplain rest)
  · rename_i hspecial
    exact readChars_of_more (turn_escaped hspecial rest)

theorem readChars_quoteBytes (arg rest : Bytes) :
    readChars env 0 (arg.flatMap quoteByte ++ rest) =
      { readChars env 0 rest with out := arg ++ (readChars env 0 rest).out } := by
  induction arg with
  | nil => rfl
  | cons ch arg ih =>
      rw [List.flatMap_cons, List.append_assoc, readChars_quoteByte, ih]
      rfl

theorem readChars_quotes (rest : Bytes) :
    readChars env 0 (singleQuote :: singleQuote :: rest) = readChars env 0 rest := by
  have hopen : turn env 0 singleQuote (singleQuote :: rest) =
      .more [] singleQuote (singleQuote :: rest) := rfl
  have hclose : turn env singleQuote singleQuote rest = .more [] 0 rest := rfl
  rw [readChars_of_more hopen, readChars_of_more hclose]
  rfl

theorem quoteByte_start (ch : UInt8) :
    ∃ first more, quoteByte ch = first :: more ∧ isSpace first = false ∧ first ≠ greater := by
  rw [quoteByte]
  split
  · rename_i hplain
    exact ⟨ch, [], rfl, hplain.2.1, hplain.2.2.1⟩
  · exact ⟨backslash, [ch], rfl, by decide, by decide⟩

theorem token_quoteArg (env : Env) (arg : Bytes) : Token env (quoteArg arg) arg where
  start := by
    cases arg with
    | nil => exact ⟨singleQuote, [singleQuote], rfl, by decide, by decide⟩
    | cons ch arg =>
        obtain ⟨first, more, hquote, hfirst⟩ := quoteByte_start ch
        refine ⟨first, more ++ arg.flatMap quoteByte, ?_, hfirst⟩
        rw [quoteArg, if_neg (List.cons_ne_nil ch arg), List.flatMap_cons, hquote,
          List.cons_append]
  chars := by
    intro rest _
    rw [quoteArg]
    split
    · rename_i hempty
      rw [hempty]
      exact readChars_quotes rest
    · exact readChars_quoteBytes arg rest

/-- `parse_cli` gives back the arguments of a quoted line, in any environment. -/
theorem parse_cli_quoted (env : Env) (args : List CStr) (hsome : 1 ≤ args.length)
    (hcount : args.length ≤ 15) :
    parseCli env maxArgs (quoted args) =
        ((strings (args.map Subtype.val)).length + 1,
          { out := strings (args.map Subtype.val) ++ [1], argv := starts 0 (args.map Subtype.val),
            type := .none, redir := [] }) ∧
      argvStrings (parseCli env maxArgs (quoted args)).2 = args.map Subtype.val := by
  have htokens : List.Forall₂ (Token env) (args.map fun arg => quoteArg arg.val)
      (args.map Subtype.val) := by
    rw [List.forall₂_map_left_iff, List.forall₂_map_right_iff, List.forall₂_same]
    intro arg _
    exact token_quoteArg env arg.val
  have hwords : args.map Subtype.val ≠ [] := by
    rw [ne_eq, List.map_eq_nil_iff]
    exact List.ne_nil_of_length_pos hsome
  have hroom : (args.map Subtype.val).length < maxArgs := by
    rw [List.length_map]
    exact Nat.lt_succ_of_le hcount
  have hnul : ∀ word ∈ args.map Subtype.val, 0 ∉ word := by
    intro word hword
    obtain ⟨arg, -, rfl⟩ := List.mem_map.mp hword
    exact arg.property
  have hparse := @parseCli_spaced env _ _ (quoted args) _ htokens rfl hwords hroom
  rw [hparse]
  exact ⟨rfl, argvStrings_eq hnul [1]⟩

/-- The arguments `a b`, the empty one and `$>`. -/
theorem parse_cli_quoted_three :
    argvStrings (parseCli { getenv := fun _ => none, sargc := 0, sargv := none } maxArgs
        (quoted [⟨[0x61, 0x20, 0x62], by decide⟩, ⟨[], by decide⟩, ⟨[dollar, greater], by decide⟩])).2 =
      [[0x61, 0x20, 0x62], [], [dollar, greater]] :=
  (parse_cli_quoted _ _ (by decide) (by decide)).2

end PsplinkUsb.Pspsh.Quoting
