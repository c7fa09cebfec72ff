import PsplinkUsb.Pspsh.ExecuteLine
import PsplinkUsb.Pspsh.ParseArgsLaws

namespace PsplinkUsb.Pspsh.PlainWords

open PsplinkUsb.Library.Ascii
open PsplinkUsb.Library.CString
open PsplinkUsb.Pspsh.Operands (text)
open PsplinkUsb.Pspsh.ParseArgs
open PsplinkUsb.Pspsh.ParseArgsLaws
open PsplinkUsb.Pspsh.Tokens
open PsplinkUsb.Pspsh.ExecuteLine

/-- The words of a line that `parse_cli` takes as they stand. -/
def Plain (ch : UInt8) : Prop :=
  ch ≠ backslash ∧ isSpace ch = false ∧ ch ≠ greater ∧ ch ≠ doubleQuote ∧ ch ≠ singleQuote ∧
    ch ≠ dollar

instance (ch : UInt8) : Decidable (Plain ch) := inferInstanceAs (Decidable (_ ∧ _))

structure PlainWord (word : Bytes) : Prop where
  nonempty : word ≠ []
  plain : ∀ ch ∈ word, Plain ch

/-- Words with a space between them. -/
def spaced : List Bytes → Bytes
  | [] => []
  | [word] => word
  | word :: words => word ++ 0x20 :: spaced words

variable {env : Env} {ch : UInt8} {word input rest out : Bytes} {args words : List Bytes}
  {line : CStr} {cli : Cli}

theorem spaced_cons_cons {next : Bytes} :
    spaced (word :: next :: words) = word ++ 0x20 :: spaced (next :: words) := rfl

theorem turn_plain (h : Plain ch) (input : Bytes) : turn env 0 ch input = .more [ch] 0 input := by
  obtain ⟨hback, hspace, hgreater, hdouble, hsingle, hdollar⟩ := h
  simp [turn, hback, hspace, hgreater, hdouble, hsingle, hdollar]

theorem readChars_plain (h : ∀ ch ∈ word, Plain ch) (rest : Bytes) :
    readChars env 0 (word ++ rest) =
      { readChars env 0 rest with out := word ++ (readChars env 0 rest).out } := by
  induction word with
  | nil => rfl
  | cons ch word ih =>
      rw [List.cons_append, readChars_of_more (turn_plain (h ch List.mem_cons_self) _),
        ih fun c hc => h c (List.mem_cons_of_mem _ hc)]
      rfl

theorem plainWord_of_all (hne : word ≠ []) (hall : (word.all fun ch => decide (Plain ch)) = true) :
    PlainWord word where
  nonempty := hne
  plain := fun ch hch => of_decide_eq_true (List.all_eq_true.mp hall ch hch)

theorem PlainWord.dropWhile (h : PlainWord word) (rest : Bytes) :
    (word ++ rest).dropWhile isSpace = word ++ rest := by
  obtain ⟨ch, word, rfl⟩ := List.exists_cons_of_ne_nil h.nonempty
  have hspace := (h.plain ch List.mem_cons_self).2.1
  rw [List.cons_append, List.dropWhile_cons_of_neg (by simp [hspace])]

theorem PlainWord.token (env : Env) (h : PlainWord word) : Token env word word where
  start := by
    obtain ⟨ch, more, rfl⟩ := List.exists_cons_of_ne_nil h.nonempty
    have hch := h.plain ch List.mem_cons_self
    exact ⟨ch, more, rfl, hch.2.1, hch.2.2.1⟩
  chars := fun rest _ => readChars_plain h.plain rest

theorem PlainWord.tokens (h : ∀ word ∈ words, PlainWord word) :
    List.Forall₂ (Token env) words words :=
  List.forall₂_same.mpr fun word hword => (h word hword).token env

theorem dropWhile_spaced (h : List.Forall₂ (Token env) args words) :
    (spaced args).dropWhile isSpace = spaced args := by
  cases h with
  | nil => rfl
  | cons htoken hrest =>
      cases hrest with
      | nil =>
          have hdrop := htoken.dropWhile []
          rwa [List.append_nil] at hdrop
      | cons hnext hrest => exact htoken.dropWhile _

theorem readsAs_spaced (h : List.Forall₂ (Token env) args words) :
    ReadsAs env (spaced args) words := by
  induction h with
  | nil => exact .nil
  | @cons token word args words htoken hrest ih =>
      cases hrest with
      | nil =>
          have hlast := htoken.readsAs ends_nil .nil
          rwa [List.append_nil] at hlast
      | cons hnext hrest =>
          refine htoken.readsAs (ends_space _) ?_
          rw [List.dropWhile_cons_of_pos rfl, dropWhile_spaced (.cons hnext hrest)]
          exact ih

theorem parseCli_spaced {maxArgs : ℕ} (h : List.Forall₂ (Token env) args words)
    (hline : line.val = spaced args) (hsome : words ≠ []) (hroom : words.length < maxArgs) :
    parseCli env maxArgs line =
      ((strings words).length + 1,
        { out := strings words ++ [1], argv := starts 0 words, type := .none, redir := [] }) := by
  have hdrop := dropWhile_spaced h
  have hreads := readsAs_spaced h
  rw [← hline] at hdrop hreads
  exact parseCli_readsAs hreads hdrop hsome hroom

theorem argvStrings_starts (before : Bytes) (args : List Bytes) (left : Bytes)
    (hargs : ∀ arg ∈ args, 0 ∉ arg) :
    (starts before.length args).map (fun i => cstr ((before ++ strings args ++ left).drop i)) =
      args := by
  induction args generalizing before with
  | nil => rfl
  | cons arg args ih =>
      have harg := hargs arg List.mem_cons_self
      have hrest := ih (before ++ arg ++ [0]) fun a ha => hargs a (List.mem_cons_of_mem _ ha)
      have hlength : (before ++ arg ++ [0]).length = before.length + arg.length + 1 := by
        simp only [List.length_append, List.length_singleton]
      have hline : before ++ arg ++ [0] ++ strings args ++ left =
          before ++ strings (arg :: args) ++ left := by
        simp [strings]
      rw [hlength, hline] at hrest
      rw [starts, List.map_cons, hrest, List.append_assoc, List.drop_left, strings,
        List.append_assoc, cstr, List.takeWhile_append_of_pos]
      · simp
      · intro b hb
        rw [decide_eq_true_eq]
        rintro rfl
        exact harg hb

theorem length_argv_lt {maxArgs : ℕ} (hroom : cli.argv.length < maxArgs) (input : Bytes) :
    (parseWords env maxArgs cli input).2.argv.length < maxArgs := by
  induction cli, input using parseWords.induct env maxArgs with
  | case1 cli hless input r =>
      rename_i hlen
      rw [parseWords_redir hless, if_pos hlen]
      exact hroom
  | case2 cli hless input r cli' hlen =>
      rename_i ih
      rw [parseWords_redir hless, if_neg hlen]
      exact ih hroom
  | case3 cli hless ch input hch r =>
      rename_i hlen
      rw [parseWords_fail hless hch hlen]
      exact hroom
  | case4 cli hless ch input hch r argv hlen =>
      rename_i ih
      rw [parseWords_word hless hch hlen]
      refine ih ?_
      rw [List.length_append, List.length_singleton]
      exact hless
  | case5 cli hless =>
      rw [parseWords_nil]
      exact hroom
  | case6 cli input hfull =>
      rw [parseWords_full hfull]
      exact hroom

theorem parseWords_extends {maxArgs : ℕ} (cli : Cli) (input : Bytes) :
    cli.out <+: (parseWords env maxArgs cli input).2.out ∧
      cli.argv <+: (parseWords env maxArgs cli input).2.argv := by
  induction cli, input using parseWords.induct env maxArgs with
  | case1 cli hless input r =>
      rename_i hlen
      rw [parseWords_redir hless, if_pos hlen]
      exact ⟨List.prefix_rfl, List.prefix_rfl⟩
  | case2 cli hless input r cli' hlen =>
      rename_i ih
      rw [parseWords_redir hless, if_neg hlen]
      exact ih
  | case3 cli hless ch input hch r =>
      rename_i hlen
      rw [parseWords_fail hless hch hlen]
      exact ⟨List.prefix_append _ _, List.prefix_rfl⟩
  | case4 cli hless ch input hch r argv hlen =>
      rename_i ih
      rw [parseWords_word hless hch hlen]
      exact ⟨(List.prefix_append _ _).trans ih.1, (List.prefix_append _ _).trans ih.2⟩
  | case5 cli hless =>
      rw [parseWords_nil]
      exact ⟨List.prefix_rfl, List.prefix_rfl⟩
  | case6 cli input hfull =>
      rw [parseWords_full hfull]
      exact ⟨List.prefix_rfl, List.prefix_rfl⟩

theorem parseCli_of_cons (hline : line.val.dropWhile isSpace = ch :: input) :
    parseCli env maxArgs line =
      if (parseWords env maxArgs .empty (ch :: input)).1 then
        ((parseWords env maxArgs .empty (ch :: input)).2.out.length + 1,
          { (parseWords env maxArgs .empty (ch :: input)).2 with
            out := (parseWords env maxArgs .empty (ch :: input)).2.out ++ [1] })
      else (0, (parseWords env maxArgs .empty (ch :: input)).2) := by
  rw [parseCli, if_neg (by decide), hline]

theorem parsed_spec (h : parsed env line = some (out, args)) :
    (∃ left, out = strings args ++ left ++ [1] ∧ 0 ∉ left) ∧ (∀ arg ∈ args, 0 ∉ arg) ∧
      args.length < maxArgs := by
  rw [parsed] at h
  split at h
  · rename_i hsome
    obtain ⟨rfl, rfl⟩ := Prod.mk.inj (Option.some.inj h)
    obtain ⟨-, words, left, ⟨hout, hargv, hwords⟩, hleft⟩ :=
      @parseCli_out env maxArgs line (Nat.ne_of_gt hsome.1)
    rw [← List.append_assoc] at hout
    have hargs : argvStrings (parseCli env maxArgs line).2 = words := by
      have hstarts := argvStrings_starts [] words (left ++ [1]) hwords
      rw [List.nil_append, ← List.append_assoc] at hstarts
      rw [argvStrings, hargv, hout]
      exact hstarts
    refine ⟨⟨left, ?_, hleft⟩, ?_, ?_⟩
    · rw [hargs]
      exact hout
    · rw [hargs]
      exact hwords
    · rw [argvStrings, List.length_map]
      cases hdrop : line.val.dropWhile isSpace with
      | nil => simp [parseCli, hdrop, maxArgs, Cli.empty]
      | cons ch input =>
          have hless : Cli.empty.argv.length < maxArgs := by decide
          rw [parseCli_of_cons hdrop]
          split
          · exact length_argv_lt hless _
          · exact length_argv_lt hless _
  · cases h

theorem PlainWord.ne_numberSign_iff (h : PlainWord word) (rest : Bytes) :
    (word ++ rest).head? ≠ some numberSign ↔ word.head? ≠ some numberSign := by
  obtain ⟨ch, word, rfl⟩ := List.exists_cons_of_ne_nil h.nonempty
  rfl

theorem mem_spaced {b : UInt8} (hword : word ∈ words) (hb : b ∈ word) : b ∈ spaced words := by
  induction words with
  | nil => exact absurd hword List.not_mem_nil
  | cons first words ih =>
      cases words with
      | nil => exact List.mem_singleton.mp hword ▸ hb
      | cons next words =>
          rw [spaced_cons_cons]
          rcases List.mem_cons.mp hword with rfl | hword
          · exact List.mem_append_left _ hb
          · exact List.mem_append_right _ (List.mem_cons_of_mem _ (ih hword))

theorem argvStrings_eq (hwords : ∀ word ∈ words, 0 ∉ word) (left : Bytes) {type : RedirType}
    {redir : Bytes} :
    argvStrings { out := strings words ++ left, argv := starts 0 words, type := type,
                  redir := redir } = words :=
  argvStrings_starts [] words left hwords

theorem parsed_spaced (h : ∀ word ∈ words, PlainWord word) (hsome : words ≠ [])
    (hroom : words.length < maxArgs) (hhash : (words.headD []).head? ≠ some numberSign)
    (hline : line.val = spaced words) :
    parsed env line = some (strings words ++ [1], words) := by
  have hparse := @parseCli_spaced env _ _ line _ (PlainWord.tokens h) hline hsome hroom
  have hnul : ∀ word ∈ words, 0 ∉ word := by
    intro word hword hzero
    exact line.2 (by rw [hline]; exact mem_spaced hword hzero)
  have hhead : (strings words ++ [1]).head? ≠ some numberSign := by
    obtain ⟨word, words, rfl⟩ := List.exists_cons_of_ne_nil hsome
    rw [strings, List.append_assoc, (h word List.mem_cons_self).ne_numberSign_iff]
    exact hhash
  rw [parsed, hparse]
  simp only
  rw [if_pos ⟨Nat.succ_pos _, hhead⟩, argvStrings_eq hnul]

theorem parsed_first (hword : PlainWord word) (hline : line.val = word ++ 0x20 :: rest)
    (h : parsed env line = some (out, args)) : ∃ more, args = word :: more := by
  have hnul : 0 ∉ word := by
    intro hzero
    exact line.2 (by rw [hline]; exact List.mem_append_left _ hzero)
  have hdrop := hword.dropWhile (0x20 :: rest)
  obtain ⟨ch, tail, hcons⟩ := List.exists_cons_of_ne_nil hword.nonempty
  have hgreater := (hword.plain ch (by rw [hcons]; exact List.mem_cons_self)).2.2.1
  have hread := (hword.token env).readString (ends_space rest)
  rw [List.dropWhile_cons_of_pos rfl] at hread
  have hstart : parseWords env maxArgs .empty (word ++ 0x20 :: rest) =
      parseWords env maxArgs { Cli.empty with out := word ++ [0], argv := [0] }
        (rest.dropWhile isSpace) := by
    rw [hcons, List.cons_append] at hread ⊢
    rw [parseWords_word (by decide) hgreater (by rw [hread]; exact Nat.succ_ne_zero _), hread]
    rfl
  obtain ⟨⟨more, hout⟩, ⟨others, hargv⟩⟩ :=
    @parseWords_extends env maxArgs { Cli.empty with out := word ++ [0], argv := [0] }
      (rest.dropWhile isSpace)
  rw [← hline] at hdrop
  have hfront : line.val = ch :: (tail ++ 0x20 :: rest) := by rw [hline, hcons, List.cons_append]
  rw [← hline, hfront] at hstart
  rw [parsed, parseCli_of_cons (hdrop.trans hfront), hstart] at h
  generalize parseWords env maxArgs { Cli.empty with out := word ++ [0], argv := [0] }
    (rest.dropWhile isSpace) = parse at h hout hargv
  obtain ⟨ok, cli⟩ := parse
  have hfirst : ∀ last, (argvStrings { cli with out := cli.out ++ last }) =
      word :: others.map fun i => cstr ((cli.out ++ last).drop i) := by
    intro last
    rw [argvStrings, ← hargv, List.singleton_append, List.map_cons, List.drop_zero, ← hout]
    congr 1
    simp only [List.append_assoc, List.singleton_append]
    exact cstr_append_zero hnul _
  cases ok with
  | true =>
      rw [if_pos rfl] at h
      split at h
      · obtain ⟨-, rfl⟩ := Prod.mk.inj (Option.some.inj h)
        exact ⟨_, hfirst [1]⟩
      · cases h
  | false =>
      rw [if_neg Bool.false_ne_true] at h
      split at h
      · rename_i hsome
        exact absurd hsome.1 (Nat.lt_irrefl 0)
      · cases h

end PsplinkUsb.Pspsh.PlainWords
