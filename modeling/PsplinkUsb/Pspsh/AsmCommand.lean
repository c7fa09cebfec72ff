import PsplinkUsb.Psplink.PokeWords
import PsplinkUsb.Pspsh.LineSending
import PsplinkUsb.Pspsh.PlacedLines
import PsplinkUsb.Pspsh.Quoting

namespace PsplinkUsb.Pspsh.AsmCommand

open PsplinkUsb.Library.Ascii
open PsplinkUsb.Library.CString
open PsplinkUsb.Library.Numerals
open PsplinkUsb.Psplink.AddressExpressions
open PsplinkUsb.Psplink.DecodeAddr (Machine memDecode memAttribWord)
open PsplinkUsb.Psplink.PokeWords
open PsplinkUsb.Pspsh.Asm (AsmError asmAssemble)
open PsplinkUsb.Pspsh.AsmFaults (letters splitLine)
open PsplinkUsb.Pspsh.BranchAssembly (Within addressKind)
open PsplinkUsb.Pspsh.ExecuteLine
open PsplinkUsb.Pspsh.LineSending
open PsplinkUsb.Pspsh.Operands (text)
open PsplinkUsb.Pspsh.ParseArgs
open PsplinkUsb.Pspsh.PlacedLines
open PsplinkUsb.Pspsh.PlainWords
open PsplinkUsb.Pspsh.Quoting (quoteArg token_quoteArg zero_not_mem_quoteArg)
open PsplinkUsb.Pspsh.Tokens

/-- `0x%08X`. -/
def wordArg (w : Word) : Bytes := text "0x" ++ padded 8 16 w.toNat

/-- Tokens with a space behind each. -/
def trailed (tokens : List Bytes) : Bytes := tokens.flatMap fun token => token ++ [0x20]

/-- What `asm_cmd` leaves in `cmd`. -/
def command (addr words : Bytes) : Bytes := (text "pokew '" ++ addr ++ text "' ").take 1023 ++ words

/-- The place of a line, behind those before it. -/
def place (a : Word) (i : ℕ) : Word := a + BitVec.ofNat 32 (4 * i)

/-- The lines fit the 1024 bytes of `cmd`, and the `pokew` that is sent for them stores each line
as its instruction at its place. `sw` is what a store makes of the machine. -/
structure Issued (s : GlobalContext) (script : Bool) (line : CStr)
    (sw : Word → Word → Machine → Machine) (m : Machine) (addr : Bytes) (a : Word)
    (lines : List Bytes) : Prop where
  room : ∀ words, assembleWords lines = .ok words → (command addr words).length < 1024
  poked : ∃ argv, (executeLine script line s).2.log = s.log ++ [.sent script (text "pokew" :: argv)] ∧
    ∀ i, ∀ h : i < lines.length, ∃ w, (place a i, w) ∈ (pokewCmd sw argv m).2 ∧
      InstructionAt lines[i] (place a i) w

/-- The command and the memory have room for the words, and each line fits its place. -/
structure Issuable (m : Machine) (addr : Bytes) (a : Word) (lines : List Bytes) : Prop where
  room : addr.length + 11 * lines.length + 9 < 1024
  valid : 4 * lines.length ≤ m.memValidate a (memAttribWrite ||| memAttribWord)
  fits : ∀ i, ∀ h : i < lines.length, Fits lines[i] (place a i)

section

variable {env : Env} {s : GlobalContext} {script : Bool} {line : CStr} {tokens words args : List Bytes}
  {addr rest : Bytes} {lines : List Bytes} {ws : List Word} {w a : Word} {n : ℕ}

theorem dropWhile_trailed (h : List.Forall₂ (Token env) tokens words) :
    (trailed tokens).dropWhile isSpace = trailed tokens := by
  cases h with
  | nil => rfl
  | cons htoken hrest =>
      rw [trailed, List.flatMap_cons, List.append_assoc]
      exact htoken.dropWhile _

theorem readsAs_trailed (h : List.Forall₂ (Token env) tokens words) :
    ReadsAs env (trailed tokens) words := by
  induction h with
  | nil => exact .nil
  | @cons token word tokens words htoken hrest ih =>
      have hline : trailed (token :: tokens) = token ++ 0x20 :: trailed tokens := by
        rw [trailed, List.flatMap_cons, List.append_assoc]
        rfl
      rw [hline]
      refine htoken.readsAs (ends_space _) ?_
      rw [List.dropWhile_cons_of_pos rfl, dropWhile_trailed hrest]
      exact ih

theorem token_quoted (env : Env) (haddr : ∀ c ∈ addr, isAlnum c = true) :
    Token env (text "'" ++ addr ++ text "'") addr where
  start := ⟨singleQuote, addr ++ text "'", rfl, by decide, by decide⟩
  chars := by
    intro rest _
    have hinside : ∀ more, readChars env singleQuote (addr ++ singleQuote :: more) =
        { readChars env 0 more with out := addr ++ (readChars env 0 more).out } := by
      intro more
      induction addr with
      | nil =>
          have hclose : turn env singleQuote singleQuote more = .more [] 0 more := rfl
          exact readChars_of_more hclose
      | cons c addr ih =>
          have hplain : c ≠ backslash ∧ c ≠ greater ∧ c ≠ doubleQuote ∧ c ≠ singleQuote := by
            have hall : ∀ c : Fin 256, isAlnum (UInt8.ofFin c) = true →
                UInt8.ofFin c ≠ backslash ∧ UInt8.ofFin c ≠ greater ∧
                  UInt8.ofFin c ≠ doubleQuote ∧ UInt8.ofFin c ≠ singleQuote := by
              decide +kernel
            exact hall c.toFin (haddr c List.mem_cons_self)
          obtain ⟨hback, hgreater, hdouble, hsingle⟩ := hplain
          have hturn : turn env singleQuote c (addr ++ singleQuote :: more) =
              .more [c] singleQuote (addr ++ singleQuote :: more) := by
            have hquote : singleQuote ≠ 0 := by decide
            simp [turn, hback, hgreater, hdouble, hsingle, hquote]
          rw [List.cons_append, readChars_of_more hturn,
            ih fun c hc => haddr c (List.mem_cons_of_mem _ hc)]
          rfl
    have hopen : turn env 0 singleQuote (addr ++ singleQuote :: rest) =
        .more [] singleQuote (addr ++ singleQuote :: rest) := rfl
    have hline : text "'" ++ addr ++ text "'" ++ rest =
        singleQuote :: (addr ++ singleQuote :: rest) := by
      have hquote : text "'" = [singleQuote] := by decide
      rw [hquote, List.append_assoc, List.append_assoc]
      rfl
    rw [hline, readChars_of_more hopen, hinside]
    rfl

theorem isAlnum_of_mem_wordArg {c : UInt8} (hc : c ∈ wordArg w) : isAlnum c = true := by
  rcases List.mem_append.mp hc with hc | hc
  · have hall : ∀ c ∈ text "0x", isAlnum c = true := by decide
    exact hall c hc
  · exact isAlnum_of_mem_padded (by decide) (by decide) 8 hc

theorem plainWord_wordArg (w : Word) : PlainWord (wordArg w) where
  nonempty := List.append_ne_nil_of_left_ne_nil (by decide) _
  plain := by
    intro c hc
    have hplain : ∀ c : Fin 256, isAlnum (UInt8.ofFin c) = true → Plain (UInt8.ofFin c) := by
      decide +kernel
    exact hplain c.toFin (isAlnum_of_mem_wordArg hc)

theorem zero_not_mem_of_isAlnum {word : Bytes} (h : ∀ c ∈ word, isAlnum c = true) : 0 ∉ word :=
  fun hmem => absurd (h 0 hmem) (by decide)

theorem length_wordArg (w : Word) : (wordArg w).length = 10 := by
  have hword : (padded 8 16 w.toNat).length = 8 := length_padded (by decide) (by decide) w.isLt
  rw [wordArg, List.length_append, hword]
  rfl

theorem decodes_wordArg (w : Word) : Decodes (wordArg w) w := by
  intro m
  have hnumeral : Numeral w.toNat (wordArg w) := by
    refine ⟨by rfl, ?_⟩
    have hread : readInt 0 (wordArg w) = some ((w.toNat : ℤ), []) := readInt_hex 8 w.toNat
    have hlt := w.isLt
    rw [strtoul32, hread, Option.map_some, if_pos (by omega)]
    congr 2
    omega
  rw [memDecode_numeral hnumeral (by rw [length_wordArg]; decide), BitVec.ofNat_toNat,
    BitVec.setWidth_eq]

/-- The words of lines that all assemble. -/
theorem assembleWords_eq (h : List.Forall₂ (fun line w => asmAssemble line 0 = .ok w) lines ws) :
    assembleWords lines = .ok (trailed (ws.map wordArg)) := by
  induction h with
  | nil => rfl
  | @cons line w lines ws hline hlines ih =>
      rw [assembleWords, hline, ih]
      simp [trailed, wordArg, bind, Except.bind, pure, Except.pure]

theorem executeLine_sent {command : Bytes}
    (hparsed : parsed s.env line = some (strings (command :: args) ++ [1], command :: args))
    (hpath : ¬(dot ∈ command ∨ slash ∈ command)) (hcommand : findCommand command = none) :
    (executeLine script line s).2 =
      s.send script (strings (command :: args) ++ [1]) (command :: args) := by
  rw [executeLine, executeLineWith, hparsed]
  dsimp only
  rw [if_neg hpath, hcommand]

theorem executeLineWith_func (runAsm : List Bytes → GlobalContext → GlobalContext) (script : Bool)
    {f : Func} (h : called s.env line = some (f, args)) :
    ∃ out argv, executeLineWith runAsm script line s =
      if (runFunc runAsm args s f).1 then (true, (runFunc runAsm args s f).2.send script out argv)
      else (false, (runFunc runAsm args s f).2) := by
  rw [called] at h
  rw [executeLineWith]
  cases hparsed : parsed s.env line with
  | none =>
      rw [hparsed] at h
      cases h
  | some p =>
      obtain ⟨out, argv⟩ := p
      rw [hparsed] at h
      cases argv with
      | nil => cases h
      | cons name args' =>
          dsimp only at h ⊢
          split at h
          · cases h
          · rename_i hpath
            obtain ⟨cmd, hcmd, h⟩ := Option.bind_eq_some_iff.mp h
            split at h
            · cases h
            · rename_i hmin
              obtain ⟨rfl, rfl⟩ := Prod.mk.inj (Option.some.inj h)
              rw [if_neg hpath, hcmd]
              dsimp only
              rw [if_neg hmin]
              exact ⟨out, name :: args', rfl⟩

theorem executeLineWith_called {runAsm : List Bytes → GlobalContext → GlobalContext}
    (h : called s.env line = some (.asm, args)) :
    executeLineWith runAsm script line s = (false, runAsm args s) := by
  obtain ⟨out, argv, heq⟩ := executeLineWith_func runAsm script h
  exact heq

theorem parsed_trailed (h : List.Forall₂ (Token env) tokens words) (hline : line.val = trailed tokens)
    (hsome : words ≠ []) (hroom : words.length < maxArgs) (hnul : ∀ word ∈ words, 0 ∉ word)
    (hhash : (strings words ++ [1]).head? ≠ some numberSign) :
    parsed env line = some (strings words ++ [1], words) := by
  have hreads := readsAs_trailed h
  have hskip := dropWhile_trailed h
  rw [← hline] at hreads hskip
  rw [parsed, parseCli_readsAs hreads hskip hsome hroom]
  simp only
  rw [if_pos ⟨Nat.succ_pos _, hhash⟩, argvStrings_eq hnul]

theorem length_called {f : Func} (h : called env line = some (f, args)) : args.length + 1 < maxArgs := by
  rw [called] at h
  cases hparsed : parsed env line with
  | none =>
      rw [hparsed] at h
      cases h
  | some p =>
      obtain ⟨out, argv⟩ := p
      have hcount := (parsed_spec hparsed).2.2
      rw [hparsed] at h
      cases argv with
      | nil => cases h
      | cons name args' =>
          dsimp only at h
          split at h
          · cases h
          · obtain ⟨cmd, -, h⟩ := Option.bind_eq_some_iff.mp h
            split at h
            · cases h
            · obtain ⟨-, rfl⟩ := Prod.mk.inj (Option.some.inj h)
              exact hcount

/-- The `pokew` that goes to the PSP for lines that assemble. -/
theorem log_asm {inst : Bytes} {insts : List Bytes}
    (hcalled : called s.env line = some (.asm, addr :: inst :: insts))
    (haddr : ∀ c ∈ addr, isAlnum c = true)
    (hwords : List.Forall₂ (fun line w => asmAssemble line 0 = .ok w) (inst :: insts) ws)
    (hroom : addr.length + 9 ≤ 1023) (hcount : ws.length + 2 < maxArgs) :
    (executeLine script line s).2.log =
      s.log ++ [.sent script (text "pokew" :: addr :: ws.map wordArg)] := by
  have hpokew : PlainWord (text "pokew") := plainWord_of_all (by decide) (by decide)
  have htokens : List.Forall₂ (Token s.env)
      (text "pokew" :: (text "'" ++ addr ++ text "'") :: ws.map wordArg)
      (text "pokew" :: addr :: ws.map wordArg) := by
    refine .cons (hpokew.token s.env) (.cons (token_quoted s.env haddr) ?_)
    refine PlainWord.tokens fun word hword => ?_
    obtain ⟨w, -, rfl⟩ := List.mem_map.mp hword
    exact plainWord_wordArg w
  have hnul : ∀ word ∈ text "pokew" :: addr :: ws.map wordArg, 0 ∉ word := by
    intro word hword
    rcases List.mem_cons.mp hword with rfl | hword
    · decide
    rcases List.mem_cons.mp hword with rfl | hword
    · exact zero_not_mem_of_isAlnum haddr
    · obtain ⟨w, -, rfl⟩ := List.mem_map.mp hword
      exact zero_not_mem_of_isAlnum fun c hc => isAlnum_of_mem_wordArg hc
  have hline : (text "pokew '" ++ addr ++ text "' ").take 1023 ++ trailed (ws.map wordArg) =
      trailed (text "pokew" :: (text "'" ++ addr ++ text "'") :: ws.map wordArg) := by
    have hshort : (text "pokew '" ++ addr ++ text "' ").length ≤ 1023 := by
      rw [List.length_append, List.length_append]
      exact (by omega : 7 + addr.length + 2 ≤ 1023)
    have hfront : text "pokew '" = text "pokew" ++ [0x20] ++ text "'" := by decide
    have hback : text "' " = text "'" ++ [0x20] := by decide
    rw [List.take_of_length_le hshort, hfront, hback, trailed, trailed, List.flatMap_cons,
      List.flatMap_cons]
    simp only [List.append_assoc]
  have hzero : 0 ∉ trailed (text "pokew" :: (text "'" ++ addr ++ text "'") :: ws.map wordArg) := by
    intro hmem
    obtain ⟨token, htoken, hmem⟩ := List.mem_flatMap.mp hmem
    rcases List.mem_append.mp hmem with hmem | hmem
    · rcases List.mem_cons.mp htoken with rfl | htoken
      · exact absurd hmem (by decide)
      rcases List.mem_cons.mp htoken with rfl | htoken
      · rcases List.mem_append.mp hmem with hmem | hmem
        · rcases List.mem_append.mp hmem with hmem | hmem
          · exact absurd hmem (by decide)
          · exact zero_not_mem_of_isAlnum haddr hmem
        · exact absurd hmem (by decide)
      · exact hnul token (List.mem_cons_of_mem _ (List.mem_cons_of_mem _ htoken)) hmem
    · exact absurd hmem (by decide)
  have hnested : (toCStr ((text "pokew '" ++ addr ++ text "' ").take 1023 ++
      trailed (ws.map wordArg))).val =
        trailed (text "pokew" :: (text "'" ++ addr ++ text "'") :: ws.map wordArg) := by
    rw [hline]
    exact cstr_of_not_mem hzero
  have hparsed := parsed_trailed htokens hnested (List.cons_ne_nil _ _)
    (by rw [List.length_cons, List.length_cons, List.length_map]; exact hcount) hnul
    (fun h => absurd (Option.some.inj h) (by decide))
  rw [executeLine_eq, executeLineWith_called hcalled]
  simp only [asmCmd, assembleWords_eq hwords]
  rw [executeLine_sent hparsed (by decide) (by decide)]
  rfl

theorem length_command (ws : List Word) :
    (command addr (trailed (ws.map wordArg))).length = min 1023 (addr.length + 9) + 11 * ws.length := by
  have hwords : (trailed (ws.map wordArg)).length = 11 * ws.length := by
    induction ws with
    | nil => rfl
    | cons w ws ih =>
        rw [List.map_cons, trailed, List.flatMap_cons, List.length_append, List.length_append,
          length_wordArg, List.length_cons]
        rw [trailed] at ih
        rw [ih, List.length_cons, List.length_nil]
        omega
  have hpokew : (text "pokew '").length = 7 := by decide
  have hquote : (text "' ").length = 2 := by decide
  rw [command, List.length_append, List.length_take, List.length_append, List.length_append, hpokew,
    hquote, hwords]
  omega

theorem exists_words (hall : ∀ l ∈ lines, ∃ w, asmAssemble l 0 = .ok w) :
    ∃ ws, List.Forall₂ (fun line w => asmAssemble line 0 = .ok w) lines ws := by
  induction lines with
  | nil => exact ⟨[], .nil⟩
  | cons l lines ih =>
      obtain ⟨w, hw⟩ := hall l List.mem_cons_self
      obtain ⟨ws, hws⟩ := ih fun l hl => hall l (List.mem_cons_of_mem _ hl)
      exact ⟨w :: ws, .cons hw hws⟩

/-- What the PSP stores for the words. -/
theorem stores_words (sw : Word → Word → Machine → Machine) (m : Machine) (hnum : Numeral n addr)
    (haligned : (BitVec.ofNat 32 n).toNat % 4 = 0) (hshort : addr.length < 1024) (ws : List Word) :
    (pokewCmd sw (addr :: ws.map wordArg) m).2 = placed (BitVec.ofNat 32 n)
      (ws.take (m.memValidate (BitVec.ofNat 32 n) (memAttribWrite ||| memAttribWord) / 4)) := by
  refine stores_pokewCmd (fun m => memDecode_numeral hnum hshort m) haligned ?_
  rw [List.forall₂_map_left_iff, List.forall₂_same]
  exact fun w _ => decodes_wordArg w

theorem place_injective {i j : ℕ} (hi : i < 2 ^ 30) (hj : j < 2 ^ 30) (h : place a i = place a j) :
    i = j := by
  have hnat := congrArg BitVec.toNat h
  have hlt := a.isLt
  rw [place, place, BitVec.toNat_add, BitVec.toNat_add, BitVec.toNat_ofNat, BitVec.toNat_ofNat] at hnat
  omega

/-- The word of a line is stored if there is room for it, and no other is stored in its place. -/
theorem mem_stores_iff {k i : ℕ} (hi : i < ws.length) (hcount : ws.length < 2 ^ 30) :
    (place a i, w) ∈ placed a (ws.take k) ↔ i < k ∧ w = ws[i] := by
  rw [mem_placed]
  constructor
  · rintro ⟨j, hj, hplace, rfl⟩
    rw [List.length_take] at hj
    obtain rfl : i = j := place_injective (by omega) (by omega) hplace
    exact ⟨by omega, List.getElem_take⟩
  · rintro ⟨hik, rfl⟩
    exact ⟨i, by rw [List.length_take]; omega, rfl, List.getElem_take⟩

theorem place_aligned (ha : a.toNat % 4 = 0) (i : ℕ) : (place a i).toNat % 4 = 0 := by
  rw [place, BitVec.toNat_add, BitVec.toNat_ofNat]
  omega

end

/-- For a number and lines that all assemble: the command does what the lines say exactly if there
is room for them and each of them fits its place. -/
theorem asm_issued_iff (s : GlobalContext) (script : Bool) (line : CStr)
    (sw : Word → Word → Machine → Machine) (m : Machine) (addr inst : Bytes) (insts : List Bytes)
    (n : ℕ) (hcalled : called s.env line = some (.asm, addr :: inst :: insts))
    (hnum : Numeral n addr) (haligned : n % 4 = 0)
    (hall : ∀ l ∈ inst :: insts, ∃ w, asmAssemble l 0 = .ok w) :
    Issued s script line sw m addr (BitVec.ofNat 32 n) (inst :: insts) ↔
      Issuable m addr (BitVec.ofNat 32 n) (inst :: insts) := by
  have ha : (BitVec.ofNat 32 n).toNat % 4 = 0 := by
    rw [BitVec.toNat_ofNat]
    omega
  obtain ⟨ws, hws⟩ := exists_words hall
  have hlength := hws.length_eq
  have hcount := length_called hcalled
  have hsome : 0 < (inst :: insts).length := Nat.zero_lt_succ _
  have hfew : ws.length + 2 < maxArgs := by
    rw [List.length_cons] at hcount
    omega
  have hargs : maxArgs = 16 := rfl
  have halnum := (readNumber_numeral hnum follows_nil).2
  have hline : ∀ i, ∀ h : i < (inst :: insts).length, ∀ h' : i < ws.length,
      asmAssemble (inst :: insts)[i] 0 = .ok ws[i] := (List.forall₂_iff_get.mp hws).2
  constructor
  · rintro ⟨hroom, argv, hlog, hstored⟩
    have hbytes := hroom _ (assembleWords_eq hws)
    rw [length_command] at hbytes
    have hsent := @log_asm s script line addr ws inst insts hcalled halnum hws (by omega) hfew
    have hargv : argv = addr :: ws.map wordArg := by
      have hevents := List.append_cancel_left (hlog.symm.trans hsent)
      cases hevents
      rfl
    simp only [hargv, stores_words sw m hnum ha (by omega) ws] at hstored
    have hmem : ∀ i, ∀ h : i < (inst :: insts).length, ∀ h' : i < ws.length,
        i < m.memValidate (BitVec.ofNat 32 n) (memAttribWrite ||| memAttribWord) / 4 ∧
          InstructionAt (inst :: insts)[i] (place (BitVec.ofNat 32 n) i) ws[i] := by
      intro i h h'
      obtain ⟨w, hw, hat⟩ := hstored i h
      obtain ⟨hik, rfl⟩ := (mem_stores_iff h' (by omega)).mp hw
      exact ⟨hik, hat⟩
    refine ⟨by omega, ?_, fun i h => ?_⟩
    · have hlast := (hmem ((inst :: insts).length - 1) (by omega) (by omega)).1
      omega
    · have h' : i < ws.length := hlength ▸ h
      exact (instructionAt_iff (hline i h h') (place_aligned ha i)).mp (hmem i h h').2
  · rintro ⟨hroom, hvalid, hfits⟩
    refine ⟨?_, addr :: ws.map wordArg, log_asm hcalled halnum hws (by omega) hfew, ?_⟩
    · intro words hwords
      cases (assembleWords_eq hws).symm.trans hwords
      rw [length_command]
      omega
    · intro i h
      have hi : i < ws.length := hlength ▸ h
      refine ⟨ws[i], ?_, (instructionAt_iff (hline i h hi) (place_aligned ha i)).mpr (hfits i h)⟩
      rw [stores_words sw m hnum ha (by omega)]
      exact (mem_stores_iff hi (by omega)).mpr ⟨by omega, rfl⟩

/-- A shell in which nothing was set yet. -/
def started : GlobalContext where
  vars := fun _ => none
  sargv := []
  fscript := none
  exec := ⟨[], List.not_mem_nil⟩
  script := false
  exit := false
  lasterr := false
  asmmode := false
  asmaddr := 0
  ttymode := false
  crashed := false
  sock := []
  log := []

def idle : Machine where
  lw := fun _ => 0
  protoff := false
  isv1 := false
  currex := none
  modaddr := fun _ => none
  threadaddr := fun _ => none

/-- `asm` with its arguments, spaces in them behind a backslash. -/
def asmText (args : List Bytes) : CStr := toCStr (trailed ((text "asm" :: args).map quoteArg))

theorem called_asmText {args : List Bytes} (hnul : ∀ arg ∈ args, 0 ∉ arg) (hsome : args ≠ [])
    (hroom : args.length + 1 < maxArgs) :
    called started.env (asmText args) = some (.asm, args) := by
  have htokens : List.Forall₂ (Token started.env) ((text "asm" :: args).map quoteArg)
      (text "asm" :: args) := by
    rw [List.forall₂_map_left_iff, List.forall₂_same]
    exact fun arg _ => token_quoteArg started.env arg
  have hwords : ∀ word ∈ text "asm" :: args, 0 ∉ word := by
    intro word hword
    rcases List.mem_cons.mp hword with rfl | hword
    · decide
    · exact hnul word hword
  have hzero : 0 ∉ trailed ((text "asm" :: args).map quoteArg) := by
    intro hmem
    obtain ⟨token, htoken, hmem⟩ := List.mem_flatMap.mp hmem
    obtain ⟨word, hword, rfl⟩ := List.mem_map.mp htoken
    rcases List.mem_append.mp hmem with hmem | hmem
    · exact zero_not_mem_quoteArg (hwords word hword) hmem
    · exact absurd hmem (by decide)
  have hparsed := @parsed_trailed started.env (asmText args) _ _ htokens (cstr_of_not_mem hzero)
    (List.cons_ne_nil _ _) hroom hwords (fun h => absurd (Option.some.inj h) (by decide))
  have hpath : ¬(dot ∈ text "asm" ∨ slash ∈ text "asm") := by decide
  have hcommand : findCommand (text "asm") = some ⟨"asm", none, .asm, 1⟩ := rfl
  have hargs : ¬args.length < 1 := by
    have hpos := List.length_pos_of_ne_nil hsome
    omega
  rw [called, hparsed]
  dsimp only
  rw [if_neg hpath, hcommand, Option.bind_some, if_neg hargs]

theorem fits_plain {str op : Bytes} {args : List Bytes} {inst : Asm.Instruction} {t p : Word}
    (hsplit : splitLine str = some (op, args))
    (hop : ¬(SameLetters (text "msub") op ∨ SameLetters (text "msubu") op))
    (haddress : address str = some (inst, t)) (hkind : addressKind inst = none)
    (hletters : letters inst.fmt.toList ≠ ['t', 'O']) : Fits str p := by
  refine ⟨?_, ?_, ?_, ?_⟩
  · rintro ⟨op', reg, more, n, hsplit', hop', -⟩
    cases hsplit.symm.trans hsplit'
    exact hop hop'
  · intro inst' t' haddress' hkind'
    cases haddress.symm.trans haddress'
    rw [hkind] at hkind'
    cases hkind'
  · intro inst' t' haddress' hkind'
    cases haddress.symm.trans haddress'
    rw [hkind] at hkind'
    cases hkind'
  · intro inst' t' haddress' hletters'
    cases haddress.symm.trans haddress'
    exact absurd hletters' hletters

theorem fits_lui (p : Word) : Fits (text "lui $a0, 0x891") p :=
  @fits_plain _ (text "lui") [text "$a0", text "0x891"]
    ⟨"lui", 0x3C000000, 0xFFE00000, "%t, %I", 2⟩ 0x891 p (by decide +kernel) (by decide +kernel)
    (by decide +kernel) (by decide +kernel) (by decide +kernel)

theorem fits_addiu (p : Word) : Fits (text "addiu $a0, $a0, 4") p :=
  @fits_plain _ (text "addiu") [text "$a0", text "$a0", text "4"]
    ⟨"addiu", 0x24000000, 0xFC000000, "%t, %s, %i", 3⟩ 4 p (by decide +kernel) (by decide +kernel)
    (by decide +kernel) (by decide +kernel) (by decide +kernel)

theorem fits_jal : Fits (text "jal 0x8900010") 0x8900008 := by
  have haddress : address (text "jal 0x8900010") =
      some (⟨"jal", 0x0C000000, 0xFC000000, "%j", 1⟩, 0x8900010) := by decide +kernel
  refine ⟨?_, ?_, ?_, ?_⟩
  · rintro ⟨op, reg, more, n, hsplit, -⟩
    have hone : splitLine (text "jal 0x8900010") = some (text "jal", [text "0x8900010"]) := by
      decide +kernel
    cases hone.symm.trans hsplit
  · intro inst t h hkind
    cases haddress.symm.trans h
    exact absurd hkind (by decide +kernel)
  · intro inst t h _
    cases haddress.symm.trans h
    exact ⟨by decide, (by decide : (0x8900010 : Word) &&& 0xF0000000 = 0x8900008 &&& 0xF0000000)⟩
  · intro inst t h hletters
    cases haddress.symm.trans h
    exact absurd hletters (by decide)

def threeLines : List Bytes :=
  [text "lui $a0, 0x891", text "addiu $a0, $a0, 4", text "jal 0x8900010"]

/-- The third word is the jump at 0x8900008. -/
theorem asm_issued_iff_jal :
    Issued started false (asmText (text "0x8900000" :: threeLines)) (fun _ _ m => m) idle
      (text "0x8900000") 0x8900000 threeLines := by
  have hall : ∀ l ∈ threeLines, ∃ w, asmAssemble l 0 = .ok w := by
    rintro l hl
    simp only [threeLines, List.mem_cons, List.not_mem_nil, or_false] at hl
    rcases hl with rfl | rfl | rfl
    · exact ⟨0x3C040891, by decide +kernel⟩
    · exact ⟨0x24840004, by decide +kernel⟩
    · exact ⟨0x0E240004, by decide +kernel⟩
  refine (asm_issued_iff started false _ _ idle (text "0x8900000") _ _ 0x8900000
    (called_asmText (by decide) (by decide) (by decide)) ⟨by decide, by decide⟩ (by decide)
    hall).mpr ⟨by decide, by decide, ?_⟩
  intro i hi
  match i, hi with
  | 0, _ => exact fits_lui _
  | 1, _ => exact fits_addiu _
  | 2, _ =>
      have hplace : place (BitVec.ofNat 32 0x8900000) 2 = 0x8900008 := by decide
      rw [hplace]
      exact fits_jal

/-- `b 0x8900010` at 0x8900000 is stored as a branch to 0x8920000. -/
theorem asm_branch_elsewhere :
    called started.env (asmText [text "0x8900000", text "b 0x8900010"]) =
        some (.asm, [text "0x8900000", text "b 0x8900010"]) ∧
      (executeLine false (asmText [text "0x8900000", text "b 0x8900010"]) started).2.log =
        [.sent false [text "pokew", text "0x8900000", text "0x10007FFF"]] ∧
      (pokewCmd (fun _ _ m => m) [text "0x8900000", text "0x10007FFF"] idle).2 =
        [(0x8900000, 0x10007FFF)] ∧
      asmAssemble (text "b 0x8900010") 0x8900000 = .ok 0x10000003 ∧
      (BranchTargets.disasmIsBranch 0x10007FFF 0x8900000).2 = some 0x8920000 := by
  have hcalled := @called_asmText [text "0x8900000", text "b 0x8900010"] (by decide) (by decide)
    (by decide)
  have hnum : Numeral 0x8900000 (text "0x8900000") := ⟨by decide, by decide⟩
  have hword : text "0x10007FFF" = wordArg 0x10007FFF := by decide
  refine ⟨hcalled, ?_, ?_, by decide +kernel, by decide +kernel⟩
  · rw [hword]
    exact log_asm hcalled (by decide) (.cons (by decide) .nil) (by decide) (by decide)
  · have hstores := stores_words (fun _ _ m => m) idle hnum (by decide) (by decide) [0x10007FFF]
    rw [hword]
    exact hstores.trans (by decide)

end PsplinkUsb.Pspsh.AsmCommand
