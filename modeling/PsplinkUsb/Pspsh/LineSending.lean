import PsplinkUsb.Pspsh.PlainWords
import PsplinkUsb.Psplink.UsbShell

namespace PsplinkUsb.Pspsh.LineSending

open PsplinkUsb.Library.CString
open PsplinkUsb.Psplink.UsbShell (maxCli)
open PsplinkUsb.Pspsh.Operands (text)
open PsplinkUsb.Pspsh.ParseArgs
open PsplinkUsb.Pspsh.PlainWords
open PsplinkUsb.Pspsh.ExecuteLine

/-- A command as it is sent: strings, and what is left of a word that was given up. -/
structure Message where
  argv : List Bytes
  left : Bytes

def Message.bytes (m : Message) : Bytes := strings m.argv ++ m.left ++ [1]

/-- A command that the PSP can read. -/
structure Message.Clean (m : Message) : Prop where
  some : m.argv ≠ []
  args : ∀ arg ∈ m.argv, 0 ∉ arg ∧ 1 ∉ arg
  left : 0 ∉ m.left
  count : m.argv.length ≤ maxArgs
  fits : (strings m.argv).length + m.left.length < maxCli

/-- The line gives a command that has no byte 1 in its arguments and fits the buffers. -/
def CommandOk (env : Env) (line : CStr) : Prop :=
  ∀ p ∈ parsed env line, (∀ arg ∈ p.2, 1 ∉ arg) ∧ p.1.length + 3 ≤ maxCli

instance (env : Env) (line : CStr) : Decidable (CommandOk env line) :=
  inferInstanceAs (Decidable (∀ p ∈ parsed env line, _))

/-- The function that `execute_line` calls for a line, and its arguments. -/
def called (env : Env) (line : CStr) : Option (Func × List Bytes) :=
  match parsed env line with
  | some (_, name :: args) =>
      if dot ∈ name ∨ slash ∈ name then none
      else (findCommand name).bind fun cmd =>
        if args.length < cmd.minArgs then none else some (cmd.func, args)
  | _ => none

/-- The line that `asm_cmd` executes. -/
def asmLine : List Bytes → Option CStr
  | [] => none
  | [addr] => some (toCStr ((text "calc '" ++ addr ++ text "'").take 1023))
  | addr :: inst :: insts =>
      (assembleWords (inst :: insts)).toOption.map fun words =>
        toCStr ((text "pokew '" ++ addr ++ text "' ").take 1023 ++ words)

/-- All but the variables and modes that only change what lines mean. -/
structure Quiet (s s' : GlobalContext) : Prop where
  sargv : s'.sargv = s.sargv
  fscript : s'.fscript = s.fscript
  exec : s'.exec = s.exec
  script : s'.script = s.script
  sock : s'.sock = s.sock
  log : s'.log = s.log

/-- How `execute_line` ends. -/
inductive Executed (asmCmd : List Bytes → GlobalContext → GlobalContext) (script : Bool)
    (line : CStr) (s : GlobalContext) : Bool × GlobalContext → Prop
  | sent {s' : GlobalContext} {m : Message} (hquiet : Quiet s s')
      (hcrashed : s'.crashed = s.crashed) (hclean : CommandOk s.env line → m.Clean) :
      Executed asmCmd script line s (true, s'.send script m.bytes m.argv)
  | kept {s' : GlobalContext} (hquiet : Quiet s s') (hcrashed : s'.crashed = s.crashed) :
      Executed asmCmd script line s (false, s')
  | crashed {out : Bytes} (hparsed : parsed s.env line = some (out, [])) :
      Executed asmCmd script line s (false, { s with crashed := true })
  | asm {args : List Bytes} (hcalled : called s.env line = some (.asm, args)) :
      Executed asmCmd script line s (false, asmCmd args s)

variable {env : Env} {line : CStr} {s s' s'' : GlobalContext} {script : Bool} {out : Bytes}
  {argv args : List Bytes} {runAsm : List Bytes → GlobalContext → GlobalContext}

theorem Quiet.refl (s : GlobalContext) : Quiet s s := ⟨rfl, rfl, rfl, rfl, rfl, rfl⟩

theorem setCmd_quiet (args : List Bytes) (s : GlobalContext) :
    Quiet s (setCmd args s) ∧ (setCmd args s).crashed = s.crashed := by
  rw [setCmd]
  split
  · exact ⟨.refl s, rfl⟩
  · split
    · exact ⟨⟨rfl, rfl, rfl, rfl, rfl, rfl⟩, rfl⟩
    · exact ⟨.refl s, rfl⟩

theorem runFunc_quiet (args : List Bytes) (s : GlobalContext) {f : Func} (hf : f ≠ .asm) :
    Quiet s (runFunc runAsm args s f).2 ∧ (runFunc runAsm args s f).2.crashed = s.crashed := by
  cases f with
  | asm => exact absurd rfl hf
  | set => exact setCmd_quiet args s
  | exit => exact ⟨⟨rfl, rfl, rfl, rfl, rfl, rfl⟩, rfl⟩
  | close => exact ⟨⟨rfl, rfl, rfl, rfl, rfl, rfl⟩, rfl⟩
  | tty => exact ⟨⟨rfl, rfl, rfl, rfl, rfl, rfl⟩, rfl⟩
  | unset => exact ⟨⟨rfl, rfl, rfl, rfl, rfl, rfl⟩, rfl⟩
  | strlen => exact ⟨⟨rfl, rfl, rfl, rfl, rfl, rfl⟩, rfl⟩
  | symload => exact ⟨.refl s, rfl⟩
  | disopts => exact ⟨.refl s, rfl⟩
  | env => exact ⟨.refl s, rfl⟩
  | echo => exact ⟨.refl s, rfl⟩
  | error => exact ⟨.refl s, rfl⟩
  | help => exact ⟨.refl s, rfl⟩

theorem message_of_parsed (h : parsed env line = some (out, argv)) :
    ∃ m : Message, out = m.bytes ∧ argv = m.argv ∧
      (argv ≠ [] → CommandOk env line → m.Clean) := by
  obtain ⟨⟨left, hout, hleft⟩, hargs, hcount⟩ := parsed_spec h
  refine ⟨⟨argv, left⟩, hout, rfl, fun hne hok => ?_⟩
  obtain ⟨hone, hfits⟩ := hok _ (Option.mem_def.mpr h)
  refine ⟨hne, fun arg harg => ⟨hargs arg harg, hone arg harg⟩, hleft, hcount.le, ?_⟩
  dsimp only at hfits ⊢
  rw [hout, List.length_append, List.length_append] at hfits
  omega

theorem message_of_path (h : parsed env line = some (out, argv)) :
    ∃ m : Message, text "ld" ++ 0 :: out = m.bytes ∧ text "ld" :: argv = m.argv ∧
      (CommandOk env line → m.Clean) := by
  obtain ⟨⟨left, hout, hleft⟩, hargs, hcount⟩ := parsed_spec h
  refine ⟨⟨text "ld" :: argv, left⟩, ?_, rfl, fun hok => ?_⟩
  · rw [hout, Message.bytes, strings]
    simp only [List.append_assoc, List.cons_append]
  · obtain ⟨hone, hfits⟩ := hok _ (Option.mem_def.mpr h)
    refine ⟨List.cons_ne_nil _ _, ?_, hleft, hcount, ?_⟩
    · intro arg harg
      rcases List.mem_cons.mp harg with rfl | harg
      · decide
      · exact ⟨hargs arg harg, hone arg harg⟩
    · have hld : (text "ld").length = 2 := by decide
      dsimp only at hfits ⊢
      rw [strings, List.length_append, List.length_cons, hld]
      rw [hout, List.length_append, List.length_append, List.length_singleton] at hfits
      omega

theorem executed (script : Bool) (line : CStr) (s : GlobalContext) :
    Executed runAsm script line s (executeLineWith runAsm script line s) := by
  rw [executeLineWith]
  split
  · exact .kept (.refl s) rfl
  · rename_i out hparsed
    exact .crashed hparsed
  · rename_i out name args hparsed
    obtain ⟨m, hout, hargv, hclean⟩ := message_of_parsed hparsed
    have hne : name :: args ≠ [] := List.cons_ne_nil _ _
    split
    · obtain ⟨m, hout, hargv, hclean⟩ := message_of_path hparsed
      rw [hout, hargv]
      exact .sent (.refl s) rfl hclean
    · rename_i hpath
      rw [hout, hargv]
      split
      · exact .sent (.refl s) rfl (hclean hne)
      · rename_i cmd hcmd
        split
        · exact .kept (.refl s) rfl
        · rename_i hmin
          rcases eq_or_ne cmd.func .asm with hasm | hasm
          · rw [hasm]
            refine .asm ?_
            rw [called, hparsed]
            simp only
            rw [if_neg hpath, hcmd, Option.bind_some, if_neg hmin, hasm]
          · obtain ⟨hquiet, hcrashed⟩ := @runFunc_quiet runAsm args s cmd.func hasm
            dsimp only
            split
            · exact .sent hquiet hcrashed (hclean hne)
            · exact .kept hquiet hcrashed

theorem executeLineWith_congr {runAsm' : List Bytes → GlobalContext → GlobalContext}
    (h : ∀ args, called s.env line = some (.asm, args) → runAsm args s = runAsm' args s) :
    executeLineWith runAsm script line s = executeLineWith runAsm' script line s := by
  rw [executeLineWith, executeLineWith]
  cases hparsed : parsed s.env line with
  | none => rfl
  | some p =>
      obtain ⟨out, argv⟩ := p
      cases argv with
      | nil => rfl
      | cons name args =>
          dsimp only
          split
          · rfl
          · rename_i hpath
            cases hcmd : findCommand name with
            | none => rfl
            | some cmd =>
                dsimp only
                split
                · rfl
                · rename_i hmin
                  rcases eq_or_ne cmd.func .asm with hasm | hasm
                  · have hcalled : called s.env line = some (.asm, args) := by
                      rw [called, hparsed]
                      simp only
                      rw [if_neg hpath, hcmd, Option.bind_some, if_neg hmin, hasm]
                    rw [hasm, runFunc, runFunc, h args hcalled]
                  · have hsame : runFunc runAsm args s cmd.func = runFunc runAsm' args s cmd.func := by
                      cases hfunc : cmd.func with
                      | asm => exact absurd hfunc hasm
                      | _ => rfl
                    rw [hsame]

theorem called_asmLine {nested : CStr} (h : asmLine args = some nested) (env : Env) :
    called env nested = none := by
  have hfirst : ∃ word rest, PlainWord word ∧ nested.val = word ++ 0x20 :: rest ∧
      findCommand word = none ∧ ¬(dot ∈ word ∨ slash ∈ word) := by
    match args with
    | [] => cases h
    | [addr] =>
        obtain rfl := Option.some.inj h
        refine ⟨text "calc", cstr ((0x27 :: (addr ++ text "'")).take 1018),
          plainWord_of_all (by decide) (by decide), ?_, by decide, by decide⟩
        have hsplit : (text "calc '" ++ addr ++ text "'").take 1023 =
            (text "calc" ++ [0x20]) ++ (0x27 :: (addr ++ text "'")).take 1018 := by
          have hword : text "calc '" = (text "calc" ++ [0x20]) ++ [0x27] := by decide
          rw [hword, List.append_assoc, List.append_assoc, List.take_append,
            List.take_of_length_le (by decide)]
          rfl
        have hval : (toCStr ((text "calc '" ++ addr ++ text "'").take 1023)).val =
            cstr ((text "calc '" ++ addr ++ text "'").take 1023) := rfl
        rw [hval, hsplit, cstr_append (by decide), List.append_assoc, List.singleton_append]
    | addr :: inst :: insts =>
        obtain ⟨words, -, rfl⟩ := Option.map_eq_some_iff.mp h
        refine ⟨text "pokew", cstr ((0x27 :: (addr ++ text "' ")).take 1017 ++ words),
          plainWord_of_all (by decide) (by decide), ?_, by decide, by decide⟩
        have hsplit : (text "pokew '" ++ addr ++ text "' ").take 1023 ++ words =
            (text "pokew" ++ [0x20]) ++ ((0x27 :: (addr ++ text "' ")).take 1017 ++ words) := by
          have hword : text "pokew '" = (text "pokew" ++ [0x20]) ++ [0x27] := by decide
          rw [hword, List.append_assoc, List.append_assoc, List.take_append,
            List.take_of_length_le (by decide), List.append_assoc]
          rfl
        have hval : (toCStr ((text "pokew '" ++ addr ++ text "' ").take 1023 ++ words)).val =
            cstr ((text "pokew '" ++ addr ++ text "' ").take 1023 ++ words) := rfl
        rw [hval, hsplit, cstr_append (by decide), List.append_assoc, List.singleton_append]
  obtain ⟨word, rest, hword, hline, hcmd, hpath⟩ := hfirst
  rw [called]
  cases hparsed : parsed env nested with
  | none => rfl
  | some p =>
      obtain ⟨out, argv⟩ := p
      obtain ⟨more, rfl⟩ := parsed_first hword hline hparsed
      dsimp only
      rw [if_neg hpath, hcmd]
      rfl

theorem asmCmd_spec (execute : CStr → GlobalContext → GlobalContext) (args : List Bytes)
    (s : GlobalContext) :
    (asmLine args = none ∧ Quiet s (asmCmd execute args s) ∧
      ∀ execute', asmCmd execute args s = asmCmd execute' args s) ∨
      ∃ nested, asmLine args = some nested ∧ Quiet (execute nested s) (asmCmd execute args s) ∧
        ∀ execute', execute nested s = execute' nested s →
          asmCmd execute args s = asmCmd execute' args s := by
  match args with
  | [] => exact .inl ⟨rfl, .refl s, fun _ => rfl⟩
  | [addr] =>
      refine .inr ⟨_, rfl, ⟨rfl, rfl, rfl, rfl, rfl, rfl⟩, fun execute' heq => ?_⟩
      rw [asmCmd, asmCmd, heq]
  | addr :: inst :: insts =>
      cases hwords : assembleWords (inst :: insts) with
      | ok words =>
          refine .inr ⟨toCStr ((text "pokew '" ++ addr ++ text "' ").take 1023 ++ words), ?_, ?_, ?_⟩
          · simp [asmLine, hwords, Except.toOption]
          · simp only [asmCmd, hwords]
            exact .refl _
          · intro execute' heq
            simp only [asmCmd, hwords, heq]
      | error e =>
          refine .inl ⟨by simp [asmLine, hwords, Except.toOption], ?_⟩
          cases e with
          | rejected =>
              simp only [asmCmd, hwords]
              exact ⟨.refl s, fun _ => trivial⟩
          | nullDereference =>
              simp only [asmCmd, hwords]
              exact ⟨⟨rfl, rfl, rfl, rfl, rfl, rfl⟩, fun _ => trivial⟩

theorem executeLine_eq (script : Bool) (line : CStr) (s : GlobalContext) :
    executeLine script line s =
      executeLineWith (asmCmd fun line s => (executeLine script line s).2) script line
        s := by
  rw [executeLine]
  apply executeLineWith_congr
  intro args _
  rcases asmCmd_spec (fun line s => (executeLineWith (fun _ s => s) script line s).2) args s with
    ⟨-, -, hcongr⟩ | ⟨nested, hsome, -, hcongr⟩
  · exact hcongr _
  · apply hcongr
    refine congrArg Prod.snd (executeLineWith_congr fun args hcalled => ?_)
    rw [called_asmLine hsome] at hcalled
    cases hcalled

/-- The line that a line makes `asm_cmd` execute. -/
def nestedLine (env : Env) (line : CStr) : Option CStr :=
  (called env line).bind fun c => if c.1 = .asm then asmLine c.2 else none

/-- What is sent for a line is a command that the PSP can read. -/
def LineOk (env : Env) (line : CStr) : Prop :=
  CommandOk env line ∧ ∀ nested ∈ nestedLine env line, CommandOk env nested

instance (env : Env) (line : CStr) : Decidable (LineOk env line) :=
  inferInstanceAs (Decidable (_ ∧ ∀ nested ∈ nestedLine env line, _))

/-- Moreover the line does not run `asm_cmd`, and has a first word if it has any output. -/
def ScriptLineOk (env : Env) (line : CStr) : Prop :=
  CommandOk env line ∧ (called env line).map Prod.fst ≠ some .asm ∧
    (parsed env line).map Prod.snd ≠ some []

instance (env : Env) (line : CStr) : Decidable (ScriptLineOk env line) :=
  inferInstanceAs (Decidable (_ ∧ _ ∧ _))

/-- Commands are sent, and nothing else that decides about scripts is changed. -/
structure Sends (origin : Bool) (msgs : List Message) (s s' : GlobalContext) : Prop where
  sargv : s'.sargv = s.sargv
  fscript : s'.fscript = s.fscript
  exec : s'.exec = s.exec
  script : s'.script = s.script
  sock : s'.sock = s.sock ++ msgs.flatMap Message.bytes
  log : s'.log = s.log ++ msgs.map fun m => .sent origin m.argv
  clean : ∀ m ∈ msgs, m.Clean

theorem Quiet.sends (h : Quiet s s') : Sends script [] s s' where
  sargv := h.sargv
  fscript := h.fscript
  exec := h.exec
  script := h.script
  sock := by rw [h.sock, List.flatMap_nil, List.append_nil]
  log := by rw [h.log, List.map_nil, List.append_nil]
  clean := by simp

theorem Quiet.send {m : Message} (h : Quiet s s') (hclean : m.Clean) :
    Sends script [m] s (s'.send script m.bytes m.argv) where
  sargv := h.sargv
  fscript := h.fscript
  exec := h.exec
  script := h.script
  sock := by rw [GlobalContext.send, h.sock, List.flatMap_singleton]
  log := by rw [GlobalContext.send, h.log, List.map_singleton]
  clean := by simpa using hclean

theorem Sends.quiet {msgs : List Message} (h : Sends script msgs s s') (h' : Quiet s' s'') :
    Sends script msgs s s'' where
  sargv := h'.sargv.trans h.sargv
  fscript := h'.fscript.trans h.fscript
  exec := h'.exec.trans h.exec
  script := h'.script.trans h.script
  sock := h'.sock.trans h.sock
  log := h'.log.trans h.log
  clean := h.clean

theorem executeLineWith_sends (hline : CommandOk s.env line)
    (hasm : (called s.env line).map Prod.fst ≠ some .asm) :
    ∃ msgs, Sends script msgs s (executeLineWith runAsm script line s).2 ∧
      msgs.length = (executeLineWith runAsm script line s).1.toNat ∧
      ((parsed s.env line).map Prod.snd ≠ some [] →
        (executeLineWith runAsm script line s).2.crashed = s.crashed) := by
  generalize hresult : executeLineWith runAsm script line s = result
  have hexecuted := @executed runAsm script line s
  rw [hresult] at hexecuted
  cases hexecuted with
  | sent hquiet hcrashed hclean => exact ⟨_, hquiet.send (hclean hline), rfl, fun _ => hcrashed⟩
  | kept hquiet hcrashed => exact ⟨_, hquiet.sends, rfl, fun _ => hcrashed⟩
  | crashed hparsed =>
      refine ⟨[], (Quiet.sends ⟨rfl, rfl, rfl, rfl, rfl, rfl⟩), rfl, fun hne => ?_⟩
      rw [hparsed] at hne
      exact absurd rfl hne
  | asm hcalled =>
      rw [hcalled] at hasm
      exact absurd rfl hasm

theorem executeLine_sends (hline : LineOk s.env line) :
    ∃ msgs, Sends script msgs s (executeLine script line s).2 ∧ msgs.length ≤ 1 := by
  generalize hresult : executeLine script line s = result
  have hexecuted := @executed
    (asmCmd fun line s => (executeLineWith (fun _ s => s) script line s).2) script line s
  rw [← executeLine, hresult] at hexecuted
  cases hexecuted with
  | sent hquiet hcrashed hclean => exact ⟨_, hquiet.send (hclean hline.1), le_rfl⟩
  | kept hquiet hcrashed => exact ⟨_, hquiet.sends, Nat.zero_le _⟩
  | crashed hparsed =>
      exact ⟨_, Quiet.sends ⟨rfl, rfl, rfl, rfl, rfl, rfl⟩, Nat.zero_le _⟩
  | @asm args hcalled =>
      rcases asmCmd_spec (fun line s => (executeLineWith (fun _ s => s) script line s).2) args s with
        ⟨-, hquiet, -⟩ | ⟨nested, hsome, hquiet, -⟩
      · exact ⟨_, hquiet.sends, Nat.zero_le _⟩
      · have hnested : nestedLine s.env line = some nested := by
          rw [nestedLine, hcalled, Option.bind_some, if_pos rfl, hsome]
        have hother : (called s.env nested).map Prod.fst ≠ some .asm := by
          rw [called_asmLine hsome]
          simp
        obtain ⟨msgs, hsends, hlength, -⟩ := executeLineWith_sends (hline.2 nested hnested) hother
        exact ⟨msgs, hsends.quiet hquiet, hlength.trans_le (Bool.toNat_le _)⟩

theorem executeLine_words {words : List Bytes} (h : ∀ word ∈ words, PlainWord word)
    (hsome : words ≠ []) (hroom : words.length < maxArgs)
    (hfirst : (words.headD []).head? ≠ some numberSign)
    (hpath : ¬(dot ∈ words.headD [] ∨ slash ∈ words.headD []))
    (hcmd : findCommand (words.headD []) = none) (hline : line.val = spaced words) :
    executeLine script line s = (true, s.send script (strings words ++ [1]) words) := by
  have hparsed := @parsed_spaced s.env words line h hsome hroom hfirst hline
  obtain ⟨word, words, rfl⟩ := List.exists_cons_of_ne_nil hsome
  rw [List.headD_cons] at hpath hcmd
  rw [executeLine, executeLineWith, hparsed]
  dsimp only
  rw [if_neg hpath, hcmd]

end PsplinkUsb.Pspsh.LineSending
