import PsplinkUsb.Pspsh.ParseArgs

namespace PsplinkUsb.Pspsh.Tokens

open PsplinkUsb.Library.Ascii
open PsplinkUsb.Library.CString
open PsplinkUsb.Pspsh.ParseArgs

/-- What may follow a token. -/
def Ends (rest : Bytes) : Prop := ∀ ch ∈ rest.head?, isSpace ch = true ∨ ch = greater

/-- `read_string` reads the token as the word. -/
structure Token (env : Env) (token word : Bytes) : Prop where
  start : ∃ ch more, token = ch :: more ∧ isSpace ch = false ∧ ch ≠ greater
  chars : ∀ rest, Ends rest → readChars env 0 (token ++ rest) =
    { readChars env 0 rest with out := word ++ (readChars env 0 rest).out }

/-- The words that `read_string` makes of a line, up to its end. -/
inductive ReadsAs (env : Env) : Bytes → List Bytes → Prop
  | nil : ReadsAs env [] []
  | cons {ch : UInt8} {line rest word : Bytes} {words : List Bytes} (hch : ch ≠ greater)
      (hread : readString env (ch :: line) =
        { len := word.length + 1, out := word ++ [0], rest := rest })
      (hrest : ReadsAs env rest words) : ReadsAs env (ch :: line) (word :: words)

variable {env : Env} {token word rest line : Bytes} {words : List Bytes} {maxArgs : ℕ}

theorem ends_nil : Ends [] := by
  intro ch hch
  cases hch

theorem ends_space (rest : Bytes) : Ends (0x20 :: rest) := by
  intro ch hch
  cases Option.mem_some.mp hch
  exact .inl rfl

theorem readChars_ends (h : Ends rest) :
    readChars env 0 rest =
      { out := [], inQuote := 0, error := false, rest := rest.dropWhile isSpace } := by
  cases rest with
  | nil => rw [readChars, List.dropWhile_nil]
  | cons ch rest =>
      rcases h ch rfl with hspace | rfl
      · have hback : ch ≠ backslash := by
          rintro rfl
          cases hspace
        have hturn : turn env 0 ch rest = .done (rest.dropWhile isSpace) := by
          rw [turn, if_neg hback, if_pos ⟨hspace, rfl⟩]
        rw [readChars_of_done hturn, List.dropWhile_cons_of_pos hspace]
      · have hturn : turn env 0 greater rest = .done (greater :: rest) := rfl
        rw [readChars_of_done hturn]
        rfl

theorem readString_start {ch : UInt8} (hspace : isSpace ch = false) (line : Bytes) :
    readString env (ch :: line) =
      let r := readChars env 0 (ch :: line)
      if r.inQuote ≠ 0 ∨ r.error then { len := 0, out := r.out, rest := r.rest }
      else { len := r.out.length + 1, out := r.out ++ [0], rest := r.rest } := by
  rw [ParseArgs.readString, List.dropWhile_cons_of_neg (by simp [hspace])]

theorem Token.dropWhile (h : Token env token word) (rest : Bytes) :
    (token ++ rest).dropWhile isSpace = token ++ rest := by
  obtain ⟨ch, more, rfl, hspace, -⟩ := h.start
  rw [List.cons_append, List.dropWhile_cons_of_neg (by simp [hspace])]

theorem Token.readString (h : Token env token word) (hrest : Ends rest) :
    readString env (token ++ rest) =
      { len := word.length + 1, out := word ++ [0], rest := rest.dropWhile isSpace } := by
  have hchars := h.chars rest hrest
  rw [readChars_ends hrest, List.append_nil] at hchars
  obtain ⟨ch, more, rfl, hspace, -⟩ := h.start
  rw [List.cons_append] at hchars ⊢
  rw [readString_start hspace]
  simp [hchars]

theorem Token.readsAs (h : Token env token word) (hrest : Ends rest)
    (hwords : ReadsAs env (rest.dropWhile isSpace) words) :
    ReadsAs env (token ++ rest) (word :: words) := by
  have hread := h.readString hrest
  obtain ⟨ch, more, rfl, -, hch⟩ := h.start
  exact .cons hch hread hwords

theorem parseWords_readsAs {cli : Cli} (h : ReadsAs env line words)
    (hroom : cli.argv.length + words.length < maxArgs) :
    parseWords env maxArgs cli line =
      (true, { cli with out := cli.out ++ strings words
                        argv := cli.argv ++ starts cli.out.length words }) := by
  induction h generalizing cli with
  | nil => rw [parseWords_nil, strings, starts, List.append_nil, List.append_nil]
  | cons hch hread hrest ih =>
      rw [List.length_cons] at hroom
      rw [parseWords_word (by omega) hch (by rw [hread]; exact Nat.succ_ne_zero _), hread]
      rw [ih (by simp only [List.length_append, List.length_singleton]; omega)]
      simp only [strings, starts, List.length_append, List.length_singleton, List.append_assoc,
        List.singleton_append, Nat.add_assoc]

theorem parseCli_readsAs {line : CStr} (h : ReadsAs env line.val words)
    (hskip : line.val.dropWhile isSpace = line.val) (hsome : words ≠ [])
    (hroom : words.length < maxArgs) :
    parseCli env maxArgs line =
      ((strings words).length + 1,
        { out := strings words ++ [1], argv := starts 0 words, type := .none, redir := [] }) := by
  have hwords := @parseWords_readsAs env _ _ maxArgs .empty h (by simpa [Cli.empty] using hroom)
  rw [parseCli, if_neg (Nat.ne_of_gt (Nat.zero_lt_of_lt hroom)), hskip]
  generalize line.val = input at h hwords
  cases h with
  | nil => exact absurd rfl hsome
  | cons hch hread hrest =>
      simp only [hwords, if_true]
      rfl

end PsplinkUsb.Pspsh.Tokens
