import PsplinkUsb.Pspsh.Tokens

namespace PsplinkUsb.Pspsh.ParseArgsLaws

open PsplinkUsb.Library.Ascii
open PsplinkUsb.Library.CString
open PsplinkUsb.Pspsh.ParseArgs
open PsplinkUsb.Pspsh.Tokens

variable (env : Env) (inQuote : UInt8) {ch : UInt8} {input : Bytes}

/-- What a turn puts out. -/
def stored : Turn → Bytes
  | .more bytes _ _ => bytes
  | .done _ => []
  | .error _ => []

theorem zero_not_mem_scriptArg (val : ℤ) : 0 ∉ scriptArg env val := by
  rw [scriptArg]
  split
  · split
    · rename_i sargv _ _
      cases sargv val with
      | none => exact List.not_mem_nil
      | some s => exact s.2
    · exact List.not_mem_nil
  · exact List.not_mem_nil

theorem zero_not_mem_envValue (name : Bytes) : 0 ∉ envValue env name := by
  rw [envValue]
  split
  · exact List.not_mem_nil
  · cases env.getenv name with
    | none => exact List.not_mem_nil
    | some s => exact s.2

theorem zero_not_mem_insertArg (h : 0 ∉ input) :
    0 ∉ (insertArg env input).1 ∧ 0 ∉ (insertArg env input).2 := by
  have hdollar : (0 : UInt8) ∉ [dollar] := by decide
  cases input with
  | nil => exact ⟨hdollar, List.not_mem_nil⟩
  | cons ch input =>
      have hinput := List.not_mem_of_not_mem_cons h
      rw [insertArg]
      split_ifs
      · refine ⟨zero_not_mem_scriptArg _ _, fun hmem => h ?_⟩
        exact (List.dropWhile_suffix _).mem hmem
      · split
        · exact ⟨List.not_mem_nil, List.not_mem_nil⟩
        · rename_i c rest hrest
          refine ⟨zero_not_mem_envValue _ _, fun hmem => hinput ?_⟩
          refine (List.dropWhile_suffix fun c => decide (c ≠ closeParen)).mem ?_
          rw [hrest]
          exact List.mem_cons_of_mem c hmem
      · exact ⟨zero_not_mem_envValue env [ch], hinput⟩
      · exact ⟨hdollar, h⟩

theorem zero_not_mem_ofDigits (h : 0 ∉ input) (i : ℕ × UInt8) (hi : i.1 ≠ 0 → i.2 ≠ 0) :
    0 ∉ stored (.ofDigits inQuote input i) ∧ 0 ∉ (Turn.ofDigits inQuote input i).rest := by
  rw [Turn.ofDigits]
  split
  · exact ⟨List.not_mem_nil, h⟩
  · rename_i hmany
    refine ⟨fun hmem => hi (fun hzero => hmany (.inl hzero)) ?_, fun hmem => h ?_⟩
    · exact (List.mem_singleton.mp hmem).symm
    · exact List.mem_of_mem_drop hmem

theorem notNul_ne_zero (i : ℕ × UInt8) : (notNul i).1 ≠ 0 → (notNul i).2 ≠ 0 := by
  intro hsome
  rw [notNul] at hsome ⊢
  split at hsome
  · exact absurd rfl hsome
  · rename_i hboth
    rw [if_neg hboth]
    exact fun hzero => hboth (.inr hzero)

theorem zero_not_mem_escape (h : 0 ∉ input) :
    0 ∉ stored (escape inQuote input) ∧ 0 ∉ (escape inQuote input).rest := by
  cases input with
  | nil => exact ⟨List.not_mem_nil, List.not_mem_nil⟩
  | cons ch input =>
      have hinput := List.not_mem_of_not_mem_cons h
      rw [escape]
      split_ifs
      · exact ⟨by simp [stored], hinput⟩
      · exact ⟨by simp [stored], hinput⟩
      · exact zero_not_mem_ofDigits inQuote hinput _ (notNul_ne_zero _)
      · exact zero_not_mem_ofDigits inQuote hinput _ (notNul_ne_zero _)
      · exact ⟨by simpa [stored] using List.ne_of_not_mem_cons h, hinput⟩

theorem zero_not_mem_turn (h : 0 ∉ ch :: input) :
    0 ∉ stored (turn env inQuote ch input) ∧ 0 ∉ (turn env inQuote ch input).rest := by
  have hinput := List.not_mem_of_not_mem_cons h
  have hch : (0 : UInt8) ∉ [ch] := by simpa using List.ne_of_not_mem_cons h
  rw [turn]
  split_ifs
  · refine ⟨fun hmem => h ?_, fun hmem => hinput (List.mem_of_mem_drop hmem)⟩
    rcases List.mem_cons.mp hmem with heq | hmem
    · exact heq ▸ List.mem_cons_self
    · exact List.mem_cons_of_mem _ (List.mem_of_mem_take hmem)
  · exact zero_not_mem_escape inQuote hinput
  · exact ⟨List.not_mem_nil, fun hmem => hinput ((List.dropWhile_suffix _).mem hmem)⟩
  · exact ⟨List.not_mem_nil, h⟩
  · exact ⟨List.not_mem_nil, hinput⟩
  · exact ⟨hch, hinput⟩
  · exact ⟨List.not_mem_nil, hinput⟩
  · exact zero_not_mem_insertArg env hinput
  · exact ⟨hch, hinput⟩

theorem zero_not_mem_readChars (h : 0 ∉ input) :
    0 ∉ (readChars env inQuote input).out ∧ 0 ∉ (readChars env inQuote input).rest := by
  induction inQuote, input using readChars.induct env with
  | case1 inQuote =>
      rw [readChars]
      exact ⟨List.not_mem_nil, List.not_mem_nil⟩
  | case2 inQuote ch input bytes q rest hturn ih =>
      have hclean := zero_not_mem_turn env inQuote h
      rw [hturn] at hclean
      obtain ⟨hout, hrest⟩ := ih hclean.2
      rw [readChars_of_more hturn]
      exact ⟨by simpa using ⟨hclean.1, hout⟩, hrest⟩
  | case3 inQuote ch input rest hturn =>
      have hclean := zero_not_mem_turn env inQuote h
      rw [hturn] at hclean
      rw [readChars_of_done hturn]
      exact ⟨List.not_mem_nil, hclean.2⟩
  | case4 inQuote ch input rest hturn =>
      have hclean := zero_not_mem_turn env inQuote h
      rw [hturn] at hclean
      rw [readChars_of_error hturn]
      exact ⟨List.not_mem_nil, hclean.2⟩

theorem readString_out (h : 0 ∉ input) :
    0 ∉ (readString env input).rest ∧
      if (readString env input).len = 0 then 0 ∉ (readString env input).out
      else ∃ word, 0 ∉ word ∧ (readString env input).out = word ++ [0] := by
  have hskip : 0 ∉ input.dropWhile isSpace := fun hmem => h ((List.dropWhile_suffix _).mem hmem)
  rw [readString]
  cases hrest : input.dropWhile isSpace with
  | nil => exact ⟨List.not_mem_nil, List.not_mem_nil⟩
  | cons ch rest =>
      rw [hrest] at hskip
      obtain ⟨hout, hleft⟩ := zero_not_mem_readChars env 0 hskip
      dsimp only
      split
      · exact ⟨hleft, hout⟩
      · exact ⟨hleft, _, hout, rfl⟩

/-- The output is strings, the arguments are all of them, and it may go on. -/
def Emits (cli : Cli) (args : List Bytes) (left : Bytes) : Prop :=
  cli.out = strings args ++ left ∧ cli.argv = starts 0 args ∧ ∀ arg ∈ args, 0 ∉ arg

theorem emits_empty : Emits .empty [] [] := ⟨rfl, rfl, fun _ harg => absurd harg List.not_mem_nil⟩

theorem Emits.word {cli : Cli} {args : List Bytes} {word : Bytes} (h : Emits cli args [])
    (hword : 0 ∉ word) :
    Emits { cli with out := cli.out ++ (word ++ [0]), argv := cli.argv ++ [cli.out.length] }
      (args ++ [word]) [] := by
  obtain ⟨hout, hargv, hargs⟩ := h
  rw [List.append_nil] at hout
  refine ⟨?_, ?_, ?_⟩
  · rw [hout, strings_append, List.append_nil]
    rfl
  · rw [hargv, hout, starts_append, Nat.zero_add]
    rfl
  · intro arg harg
    rcases List.mem_append.mp harg with harg | harg
    · exact hargs arg harg
    · exact List.mem_singleton.mp harg ▸ hword

theorem redirType_suffix (input : Bytes) : (redirType input).2 <:+ input := by
  cases input with
  | nil => exact List.suffix_rfl
  | cons ch input =>
      rw [redirType]
      split
      · exact List.suffix_cons _ _
      · exact List.suffix_rfl

theorem parseWords_out (maxArgs : ℕ) {cli : Cli} {args : List Bytes} (h : 0 ∉ input)
    (hemits : Emits cli args []) :
    ∃ args' left, Emits (parseWords env maxArgs cli input).2 args' left ∧ 0 ∉ left := by
  induction cli, input using parseWords.induct env maxArgs generalizing args with
  | case1 cli hroom input r =>
      rename_i hlen
      rw [parseWords_redir hroom, if_pos hlen]
      exact ⟨args, [], hemits, List.not_mem_nil⟩
  | case2 cli hroom input r cli' hlen =>
      rename_i ih
      have htarget : 0 ∉ (redirType input).2 := fun hmem =>
        h (List.mem_cons_of_mem _ ((redirType_suffix input).mem hmem))
      rw [parseWords_redir hroom, if_neg hlen]
      exact ih (readString_out env htarget).1 hemits
  | case3 cli hroom ch input hch r =>
      rename_i hlen
      have hout := (readString_out env h).2
      rw [if_pos hlen] at hout
      rw [parseWords_fail hroom hch hlen]
      obtain ⟨hcli, hargv, hargs⟩ := hemits
      rw [List.append_nil] at hcli
      exact ⟨args, _, ⟨congrArg (· ++ _) hcli, hargv, hargs⟩, hout⟩
  | case4 cli hroom ch input hch r argv hlen =>
      rename_i ih
      obtain ⟨hrest, hout⟩ := readString_out env h
      rw [if_neg hlen] at hout
      obtain ⟨word, hword, hout⟩ := hout
      have hnext := hemits.word hword
      rw [← hout] at hnext
      rw [parseWords_word hroom hch hlen]
      exact ih hrest hnext
  | case5 cli hroom =>
      rw [parseWords_nil]
      exact ⟨args, [], hemits, List.not_mem_nil⟩
  | case6 cli input hfull =>
      rw [parseWords_full hfull]
      exact ⟨args, [], hemits, List.not_mem_nil⟩

theorem parseCli_out {maxArgs : ℕ} {line : CStr} (h : (parseCli env maxArgs line).1 ≠ 0) :
    (parseCli env maxArgs line).1 = (parseCli env maxArgs line).2.out.length ∧
      ∃ args left, Emits (parseCli env maxArgs line).2 args (left ++ [1]) ∧ 0 ∉ left := by
  have hskip : 0 ∉ line.val.dropWhile isSpace :=
    fun hmem => line.2 ((List.dropWhile_suffix _).mem hmem)
  rw [parseCli] at h ⊢
  split_ifs at h ⊢ with hargs
  · exact absurd rfl h
  · cases hrest : line.val.dropWhile isSpace with
    | nil => simp [hrest] at h
    | cons ch rest =>
        simp only [hrest] at h hskip ⊢
        split_ifs at h ⊢ with hok
        · obtain ⟨args, left, ⟨hout, hargv, hclean⟩, hleft⟩ :=
            parseWords_out env maxArgs hskip emits_empty
          refine ⟨by simp, args, left, ⟨?_, hargv, hclean⟩, hleft⟩
          rw [← List.append_assoc]
          exact congrArg (· ++ [1]) hout
        · exact absurd rfl h

/-- A byte in four octal digits. -/
def octal (b : UInt8) : Bytes :=
  let digit (d : UInt8) : UInt8 := 0x30 + d
  [0x30, digit (b >>> 6), digit (b >>> 3 &&& 7), digit (b &&& 7)]

/-- An argument between double quotes, each of its bytes in octal, and a space. -/
def typedArg (arg : Bytes) : Bytes :=
  doubleQuote :: (arg.flatMap (fun b => backslash :: 0x30 :: octal b) ++ [doubleQuote, 0x20])

def typed (args : List Bytes) : Bytes := args.flatMap typedArg

theorem decodeOct_octal {b : UInt8} (hb : b ≠ 0) (more : Bytes) :
    decodeOct (octal b ++ more) = (4, b) := by
  have hall : ∀ n : Fin 256, (octal (UInt8.ofFin n)).all isODigit ∧
      (octal (UInt8.ofFin n)).foldl (fun ch c : UInt8 => ch <<< 3 ||| octToInt c) 0 =
        UInt8.ofFin n := by
    decide +kernel
  obtain ⟨hdigits, hvalue⟩ := hall b.toFin
  have hb' : UInt8.ofFin b.toFin = b := rfl
  simp only [hb', octal, List.all_cons, List.all_nil, Bool.and_true, Bool.and_eq_true] at hdigits
  simp only [hb', octal, List.foldl_cons, List.foldl_nil] at hvalue
  obtain ⟨h₁, h₂, h₃, h₄⟩ := hdigits
  simp only [decodeOct, octal, List.cons_append, List.nil_append, digits, h₁, h₂, h₃, h₄, if_true,
    hvalue, notNul]
  rw [if_neg (by simp [hb])]

theorem zero_not_mem_typed (args : List Bytes) : 0 ∉ typed args := by
  have hoctal : ∀ n : Fin 256, 0 ∉ octal (UInt8.ofFin n) := by decide +kernel
  intro hmem
  obtain ⟨arg, -, hmem⟩ := List.mem_flatMap.mp hmem
  simp only [typedArg, List.mem_cons, List.mem_append, List.mem_flatMap] at hmem
  rcases hmem with heq | ⟨b, -, heq | heq | hmem⟩ | heq
  · exact absurd heq (by decide)
  · exact absurd heq (by decide)
  · exact absurd heq (by decide)
  · exact hoctal b.toFin hmem
  · simp [doubleQuote] at heq

theorem readChars_typed {arg : Bytes} (harg : 0 ∉ arg) (more : Bytes) :
    readChars env doubleQuote
        (arg.flatMap (fun b => backslash :: 0x30 :: octal b) ++ doubleQuote :: 0x20 :: more) =
      { out := arg, inQuote := 0, error := false, rest := (0x20 :: more).dropWhile isSpace } := by
  induction arg with
  | nil =>
      have hquote : turn env doubleQuote doubleQuote (0x20 :: more) = .more [] 0 (0x20 :: more) :=
        rfl
      have hspace : turn env 0 0x20 more = .done (more.dropWhile isSpace) := rfl
      rw [List.flatMap_nil, List.nil_append, readChars_of_more hquote, readChars_of_done hspace]
      rfl
  | cons b arg ih =>
      have hb : b ≠ 0 := (List.ne_of_not_mem_cons harg).symm
      rw [List.flatMap_cons, List.cons_append, List.cons_append, List.append_assoc,
        List.cons_append]
      generalize hrest : arg.flatMap (fun b => backslash :: 0x30 :: octal b) ++
        doubleQuote :: 0x20 :: more = rest at ih
      have hescape : turn env doubleQuote backslash (0x30 :: (octal b ++ rest)) =
          .more [b] doubleQuote rest := by
        have hturn : turn env doubleQuote backslash (0x30 :: (octal b ++ rest)) =
          .ofDigits doubleQuote (octal b ++ rest) (decodeOct (octal b ++ rest)) := rfl
        rw [hturn, decodeOct_octal hb]
        rfl
      rw [readChars_of_more hescape, ih (List.not_mem_of_not_mem_cons harg)]
      rfl

theorem dropWhile_typed (args : List Bytes) : (typed args).dropWhile isSpace = typed args := by
  cases args with
  | nil => rfl
  | cons arg args => rfl

theorem readString_typed {arg : Bytes} (harg : 0 ∉ arg) (args : List Bytes) :
    readString env (typed (arg :: args)) =
      { len := arg.length + 1, out := arg ++ [0], rest := typed args } := by
  have hline : typed (arg :: args) =
      doubleQuote :: (arg.flatMap (fun b => backslash :: 0x30 :: octal b) ++
        doubleQuote :: 0x20 :: typed args) := by
    simp [typed, typedArg]
  have hopen : turn env 0 doubleQuote (arg.flatMap (fun b => backslash :: 0x30 :: octal b) ++
        doubleQuote :: 0x20 :: typed args) =
      .more [] doubleQuote (arg.flatMap (fun b => backslash :: 0x30 :: octal b) ++
        doubleQuote :: 0x20 :: typed args) := rfl
  have hskip : (0x20 :: typed args).dropWhile isSpace = typed args := dropWhile_typed args
  rw [readString, dropWhile_typed, hline]
  simp only [readChars_of_more hopen, readChars_typed env harg, hskip]
  rfl

theorem readsAs_typed {args : List Bytes} (hargs : ∀ arg ∈ args, 0 ∉ arg) :
    ReadsAs env (typed args) args := by
  induction args with
  | nil => exact .nil
  | cons arg args ih =>
      have hline : typed (arg :: args) = doubleQuote :: (typed (arg :: args)).tail := rfl
      have hread := readString_typed env (hargs arg List.mem_cons_self) args
      rw [hline] at hread ⊢
      exact .cons (by decide) hread (ih fun word hword => hargs word (List.mem_cons_of_mem _ hword))

theorem parseCli_typed {maxArgs : ℕ} {args : List Bytes} (hargs : ∀ arg ∈ args, 0 ∉ arg)
    (hsome : args ≠ []) (hroom : args.length < maxArgs) :
    parseCli env maxArgs ⟨typed args, zero_not_mem_typed args⟩ =
      ((strings args).length + 1,
        { out := strings args ++ [1], argv := starts 0 args, type := .none, redir := [] }) :=
  parseCli_readsAs (readsAs_typed env hargs) (dropWhile_typed args) hsome hroom

end PsplinkUsb.Pspsh.ParseArgsLaws
