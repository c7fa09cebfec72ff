import PsplinkUsb.Library.Run
import PsplinkUsb.Pspsh.AsmCommand
import PsplinkUsb.Pspsh.ScriptRunning

namespace PsplinkUsb.Pspsh.AsmSession

open PsplinkUsb.Library.Ascii
open PsplinkUsb.Library.CString
open PsplinkUsb.Library.Numerals
open PsplinkUsb.Library.Run
open PsplinkUsb.Pspsh.Asm (asmAssemble)
open PsplinkUsb.Pspsh.AsmCommand
open PsplinkUsb.Pspsh.ExecuteLine
open PsplinkUsb.Pspsh.LineSending
open PsplinkUsb.Pspsh.Operands (text)
open PsplinkUsb.Pspsh.ParseArgs
open PsplinkUsb.Pspsh.PlainWords
open PsplinkUsb.Pspsh.ScriptRunning
open PsplinkUsb.Pspsh.Tokens

/-- What a command was sent for: `asm` with an address, a line in the asm mode that is on, or
something else. -/
inductive Due where
  | calcCmd
  | pokewCmd
  | other
deriving DecidableEq, Repr

/-- `prompt` is the address in the prompt `asm:0x%08X> `, while this is the prompt. Of the asm mode
that is on, `start` is the address that answered its `calc`, and `poked` how many of its words were
poked with success. -/
structure Session where
  pc : GlobalContext
  due : List Due
  prompt : Option Word
  start : Option Word
  poked : ℕ

inductive Input where
  | typed (buf : CStr)
  | answered (ok : Bool) (vret : Word)

/-- The frame of a SUCCESS or ERROR that `shellParseThread` sends. -/
def answerFrame (ok : Bool) (vret : Word) : Bytes :=
  (if ok then shellCmdSuccess else shellCmdError) :: wordArg vret

namespace Session

variable (σ : Session)

/-- A line that is typed; those that start a script are left out. -/
def type (buf : CStr) : Option Session :=
  match request buf σ.pc with
  | .script _ => none
  | _ =>
      let pc := cliHandler buf none σ.pc
      let sent := pc.log.length - σ.pc.log.length
      if pc.asmmode then
        if σ.pc.asmmode then some { σ with pc := pc, due := σ.due ++ List.replicate sent .pokewCmd }
        else
          some { pc := pc, due := σ.due ++ List.replicate sent .calcCmd, prompt := none, start := none
                 poked := 0 }
      else
        some { pc := pc, due := σ.due.map (fun _ => .other) ++ List.replicate sent .other
               prompt := none, start := none, poked := 0 }

/-- A frame that answers the oldest of the commands that are not answered yet. -/
def answer (ok : Bool) (vret : Word) : Option Session :=
  match σ.due with
  | [] => none
  | command :: due =>
      let pc := processCmd (answerFrame ok vret) σ.pc
      let prompt := if pc.asmmode then some pc.asmaddr else none
      match command with
      | .calcCmd =>
          some { pc := pc, due := due, prompt := prompt, start := if ok then some vret else none
                 poked := 0 }
      | .pokewCmd =>
          some { σ with pc := pc, due := due, prompt := prompt, poked := σ.poked + ok.toNat }
      | .other => some { σ with pc := pc, due := due, prompt := prompt }

def step : Input → Option Session
  | .typed buf => σ.type buf
  | .answered ok vret => σ.answer ok vret

/-- The address behind the words that were poked. -/
def behind (a : Word) : Word := a + BitVec.ofNat 32 (4 * σ.poked)

/-- What an answer to the first of the commands must be like in asm mode: a word is poked with
success, and not at 0; what was sent before `asm` is answered with 0 as long as `calc` is not
answered. -/
def Fine (ok : Bool) (vret : Word) : List Due → Prop
  | .pokewCmd :: _ => ∀ a ∈ σ.start,
      ok = true ∧ σ.behind a ≠ 0 ∨ σ.behind a = 0 ∧ vret = if ok then 4 else 0
  | .other :: due => .calcCmd ∈ due → vret = 0
  | _ => True

instance (ok : Bool) (vret : Word) : (due : List Due) → Decidable (σ.Fine ok vret due)
  | .pokewCmd :: _ => inferInstanceAs (Decidable (∀ a ∈ σ.start, _))
  | .other :: _ => inferInstanceAs (Decidable (_ → _))
  | .calcCmd :: _ => .isTrue trivial
  | [] => .isTrue trivial

def Unharmed : Input → Prop
  | .typed _ => True
  | .answered ok vret => σ.pc.asmmode = true → σ.Fine ok vret σ.due

instance : (input : Input) → Decidable (σ.Unharmed input)
  | .typed _ => .isTrue trivial
  | .answered _ _ => inferInstanceAs (Decidable (_ → _))

/-- A shell with no script, not in asm mode, and any number of answers due. -/
structure Initial : Prop where
  plain : ¬InScript σ.pc
  script : σ.pc.script = false
  asmmode : σ.pc.asmmode = false
  start : σ.start = none
  due : ∀ command ∈ σ.due, command = .other

/-- The prompt shows the address, and the next line that assembles is poked there. -/
structure At (a : Word) : Prop where
  prompt : σ.prompt = some a
  next : ∀ (buf : CStr) (opcode : Word), buf.val.dropWhile isSpace ≠ [] →
    asmAssemble (buf.val.dropWhile isSpace) a = .ok opcode →
      (cliHandler buf none σ.pc).log =
        σ.pc.log ++ [.sent false [text "pokew", wordArg a, wordArg opcode]]

/-- What is kept while the session goes on. -/
structure Inv : Prop where
  plain : ¬InScript σ.pc
  script : σ.pc.script = false
  outside : σ.pc.asmmode = false → σ.start = none ∧ ∀ command ∈ σ.due, command = .other
  tty : σ.pc.asmmode = true → σ.pc.ttymode = false
  waiting : .calcCmd ∈ σ.due → σ.pc.asmmode = true → σ.start = none ∧ σ.pc.asmaddr = 0 ∧
    ∃ n k, σ.due = List.replicate n .other ++ .calcCmd :: List.replicate k .pokewCmd
  started : ∀ a, σ.start = some a → (∀ command ∈ σ.due, command = .pokewCmd) ∧
    σ.pc.asmaddr = σ.behind a ∧ σ.prompt = some σ.pc.asmaddr

end Session

section

variable {s : GlobalContext} {script : Bool} {line : CStr} {args : List Bytes}

/-- No script is started or stopped. -/
structure Kept (s s' : GlobalContext) : Prop where
  fscript : s'.fscript = s.fscript
  exec : s'.exec = s.exec
  script : s'.script = s.script

/-- How the modes of the assembler come out of a line: as they were, or set for `calc`. -/
inductive Modes (s s' : GlobalContext) : Prop
  | same (hmode : s'.asmmode = s.asmmode) (haddr : s'.asmaddr = s.asmaddr)
  | set (hmode : s'.asmmode = true) (haddr : s'.asmaddr = 0) (htty : s'.ttymode = s.ttymode)
      (hlog : s'.log.length ≤ s.log.length + 1)

theorem Kept.inScript_iff {s' : GlobalContext} (h : Kept s s') : InScript s' ↔ InScript s := by
  rw [InScript, InScript, h.exec, h.fscript]

theorem executeLineWith_uncalled (runAsm : List Bytes → GlobalContext → GlobalContext)
    (script : Bool) (h : called s.env line = none) :
    (executeLineWith runAsm script line s).2 = s ∨
      (executeLineWith runAsm script line s).2 = { s with crashed := true } ∨
      ∃ out argv, (executeLineWith runAsm script line s).2 = s.send script out argv := by
  rw [called] at h
  rw [executeLineWith]
  cases hparsed : parsed s.env line with
  | none => exact .inl rfl
  | some p =>
      obtain ⟨out, argv⟩ := p
      cases argv with
      | nil => exact .inr (.inl rfl)
      | cons name args =>
          rw [hparsed] at h
          dsimp only at h ⊢
          split at h
          · rename_i hpath
            rw [if_pos hpath]
            exact .inr (.inr ⟨_, _, rfl⟩)
          · rename_i hpath
            rw [if_neg hpath]
            cases hcmd : findCommand name with
            | none => exact .inr (.inr ⟨_, _, rfl⟩)
            | some cmd =>
                rw [hcmd, Option.bind_some] at h
                split at h
                · rename_i hmin
                  dsimp only
                  rw [if_pos hmin]
                  exact .inl rfl
                · cases h

theorem uncalled_modes (script : Bool) {runAsm : List Bytes → GlobalContext → GlobalContext}
    {s' : GlobalContext} (h : called s.env line = none) (hs' : (executeLineWith runAsm script line s).2 = s') :
    Kept s s' ∧ s'.asmmode = s.asmmode ∧ s'.asmaddr = s.asmaddr ∧ s'.ttymode = s.ttymode ∧
      s'.log.length ≤ s.log.length + 1 := by
  rcases executeLineWith_uncalled runAsm script h with heq | heq | ⟨out, argv, heq⟩
  · rw [← hs', heq]
    exact ⟨⟨rfl, rfl, rfl⟩, rfl, rfl, rfl, Nat.le_succ _⟩
  · rw [← hs', heq]
    exact ⟨⟨rfl, rfl, rfl⟩, rfl, rfl, rfl, Nat.le_succ _⟩
  · rw [← hs', heq]
    exact ⟨⟨rfl, rfl, rfl⟩, rfl, rfl, rfl,
      by rw [GlobalContext.send, List.length_append, List.length_singleton]⟩

theorem runFunc_modes {runAsm : List Bytes → GlobalContext → GlobalContext} {f : Func} (hf : f ≠ .asm)
    (args : List Bytes) (s : GlobalContext) :
    Kept s (runFunc runAsm args s f).2 ∧ (runFunc runAsm args s f).2.asmmode = s.asmmode ∧
      (runFunc runAsm args s f).2.asmaddr = s.asmaddr := by
  cases f with
  | asm => exact absurd rfl hf
  | set =>
      have hset : Kept s (setCmd args s) ∧ (setCmd args s).asmmode = s.asmmode ∧
          (setCmd args s).asmaddr = s.asmaddr := by
        rw [setCmd]
        split
        · exact ⟨⟨rfl, rfl, rfl⟩, rfl, rfl⟩
        · split
          · exact ⟨⟨rfl, rfl, rfl⟩, rfl, rfl⟩
          · exact ⟨⟨rfl, rfl, rfl⟩, rfl, rfl⟩
      exact hset
  | _ => exact ⟨⟨rfl, rfl, rfl⟩, rfl, rfl⟩

theorem executeLine_modes (script : Bool) (line : CStr) (s : GlobalContext) :
    Kept s (executeLine script line s).2 ∧ Modes s (executeLine script line s).2 := by
  rw [executeLine_eq]
  cases hcalled : called s.env line with
  | none =>
      obtain ⟨hkept, hmode, haddr, -⟩ := uncalled_modes script hcalled rfl
      exact ⟨hkept, .same hmode haddr⟩
  | some p =>
      obtain ⟨f, args⟩ := p
      rcases eq_or_ne f .asm with rfl | hf
      · rw [executeLineWith_called hcalled]
        match args with
        | [] => exact ⟨⟨rfl, rfl, rfl⟩, .same rfl rfl⟩
        | [addr] =>
            have hnested := @called_asmLine [addr] _ rfl s.env
            obtain ⟨hkept, -, -, htty, hlog⟩ := uncalled_modes script hnested
              (congrArg Prod.snd (executeLine_eq script _ s)).symm
            exact ⟨⟨hkept.fscript, hkept.exec, hkept.script⟩, .set rfl rfl htty hlog⟩
        | addr :: inst :: insts =>
            cases hwords : assembleWords (inst :: insts) with
            | ok words =>
                have hline : asmLine (addr :: inst :: insts) = some (toCStr
                    ((text "pokew '" ++ addr ++ text "' ").take 1023 ++ words)) := by
                  simp [asmLine, hwords, Except.toOption]
                obtain ⟨hkept, hmode, haddr, -⟩ := uncalled_modes script
                  (called_asmLine hline s.env) (congrArg Prod.snd (executeLine_eq script _ s)).symm
                simp only [asmCmd, hwords]
                exact ⟨hkept, .same hmode haddr⟩
            | error e =>
                cases e with
                | rejected =>
                    simp only [asmCmd, hwords]
                    exact ⟨⟨rfl, rfl, rfl⟩, .same rfl rfl⟩
                | nullDereference =>
                    simp only [asmCmd, hwords]
                    exact ⟨⟨rfl, rfl, rfl⟩, .same rfl rfl⟩
      · obtain ⟨hkept, hmode, haddr⟩ := @runFunc_modes (asmCmd fun line s => (executeLine script line s).2)
          f hf args s
        obtain ⟨out, argv, heq⟩ := executeLineWith_func
          (asmCmd fun line s => (executeLine script line s).2) script hcalled
        rw [heq]
        split
        · exact ⟨⟨hkept.fscript, hkept.exec, hkept.script⟩, .same hmode haddr⟩
        · exact ⟨hkept, .same hmode haddr⟩

def pokewArgs (a opcode : Word) : List Bytes := [text "pokew", wordArg a, wordArg opcode]

theorem executeLine_pokew (script : Bool) (a opcode : Word) (s : GlobalContext) :
    (executeLine script (toCStr (text "pokew 0x" ++ padded 8 16 a.toNat ++ text " 0x" ++
      padded 8 16 opcode.toNat ++ [0x20])) s).2 =
      s.send script (strings (pokewArgs a opcode) ++ [1]) (pokewArgs a opcode) := by
  have hplain : ∀ word ∈ pokewArgs a opcode, PlainWord word ∧ 0 ∉ word := by
    intro word hword
    simp only [pokewArgs, List.mem_cons, List.not_mem_nil, or_false] at hword
    rcases hword with rfl | rfl | rfl
    · exact ⟨plainWord_of_all (by decide) (by decide), by decide⟩
    · exact ⟨plainWord_wordArg a, zero_not_mem_of_isAlnum fun c hc => isAlnum_of_mem_wordArg hc⟩
    · exact ⟨plainWord_wordArg opcode, zero_not_mem_of_isAlnum fun c hc => isAlnum_of_mem_wordArg hc⟩
  have hline : text "pokew 0x" ++ padded 8 16 a.toNat ++ text " 0x" ++ padded 8 16 opcode.toNat ++
      [0x20] = trailed (pokewArgs a opcode) := by
    have hfront : text "pokew 0x" = text "pokew" ++ [0x20] ++ text "0x" := by decide
    have hmiddle : text " 0x" = [0x20] ++ text "0x" := by decide
    rw [hfront, hmiddle, pokewArgs, trailed, List.flatMap_cons, List.flatMap_cons, List.flatMap_cons,
      List.flatMap_nil, wordArg, wordArg]
    simp only [List.append_assoc, List.append_nil]
  have hzero : 0 ∉ trailed (pokewArgs a opcode) := by
    intro hmem
    obtain ⟨word, hword, hmem⟩ := List.mem_flatMap.mp hmem
    rcases List.mem_append.mp hmem with hmem | hmem
    · exact (hplain word hword).2 hmem
    · exact absurd hmem (by decide)
  have hparsed : parsed s.env (toCStr (trailed (pokewArgs a opcode))) =
      some (strings (pokewArgs a opcode) ++ [1], pokewArgs a opcode) :=
    parsed_trailed (PlainWord.tokens fun word hword => (hplain word hword).1) (cstr_of_not_mem hzero)
      (List.cons_ne_nil _ _) (Nat.lt_of_sub_pos (by decide : 0 < maxArgs - 3))
      (fun word hword => (hplain word hword).2)
      (fun h => absurd (Option.some.inj h) (by decide))
  rw [hline]
  exact executeLine_sent hparsed (by decide) (by decide)

/-- How a line that is typed in asm mode ends. -/
inductive Typed (buf : CStr) (s : GlobalContext) : GlobalContext → Prop
  | left (hblank : buf.val.dropWhile isSpace = []) :
      Typed buf s { s with asmmode := false, asmaddr := 0 }
  | poked {opcode : Word} (hasm : asmAssemble (buf.val.dropWhile isSpace) s.asmaddr = .ok opcode) :
      Typed buf s (s.send false (strings (pokewArgs s.asmaddr opcode) ++ [1]) (pokewArgs s.asmaddr opcode))
  | refused (hasm : asmAssemble (buf.val.dropWhile isSpace) s.asmaddr = .error .rejected) : Typed buf s s
  | crashed (hasm : asmAssemble (buf.val.dropWhile isSpace) s.asmaddr = .error .nullDereference) :
      Typed buf s { s with crashed := true }

theorem typed_inside (buf : CStr) (hasm : s.asmmode = true) (htty : s.ttymode = false)
    (hplain : ¬InScript s) :
    Typed buf s (cliHandler buf none s) ∧ ∀ cmd, request buf s ≠ .script cmd := by
  have htty' : ¬s.ttymode = true := Bool.eq_false_iff.mp htty
  cases hline : buf.val.dropWhile isSpace with
  | nil =>
      have hrequest : request buf s = .settled { s with asmmode := false, asmaddr := 0 } := by
        rw [request, if_neg htty', hline]
        simp only
        rw [if_pos hasm]
      rw [cliHandler, hrequest]
      exact ⟨.left hline, nofun⟩
  | cons ch rest =>
      cases hassemble : asmAssemble (ch :: rest) s.asmaddr with
      | ok opcode =>
          have hrequest : request buf s =
              .line (toCStr (text "pokew 0x" ++ padded 8 16 s.asmaddr.toNat ++ text " 0x" ++
                padded 8 16 opcode.toNat ++ [0x20])) := by
            rw [request, if_neg htty', hline]
            simp only
            rw [if_neg hplain, if_pos hasm, hassemble]
          rw [cliHandler, hrequest]
          dsimp only
          rw [executeLine_pokew]
          exact ⟨.poked (by rw [hline]; exact hassemble), nofun⟩
      | error e =>
          have hrequest : request buf s =
              .settled (if e = .rejected then s else { s with crashed := true }) := by
            rw [request, if_neg htty', hline]
            simp only
            rw [if_neg hplain, if_pos hasm, hassemble]
            cases e with
            | _ => rfl
          rw [cliHandler, hrequest]
          cases e with
          | rejected => exact ⟨.refused (by rw [hline]; exact hassemble), nofun⟩
          | nullDereference => exact ⟨.crashed (by rw [hline]; exact hassemble), nofun⟩

theorem typed_outside (buf : CStr) (hasm : s.asmmode = false) (hplain : ¬InScript s)
    (hscript : ∀ cmd, request buf s ≠ .script cmd) :
    Kept s (cliHandler buf none s) ∧ ((cliHandler buf none s).asmmode = false ∨
      (cliHandler buf none s).asmmode = true ∧ (cliHandler buf none s).asmaddr = 0 ∧
        (cliHandler buf none s).ttymode = false ∧
        (cliHandler buf none s).log.length ≤ s.log.length + 1) := by
  have hasm' : ¬s.asmmode = true := Bool.eq_false_iff.mp hasm
  have hself : Kept s s := ⟨rfl, rfl, rfl⟩
  by_cases htty : s.ttymode = true
  · have hrequest : request buf s =
        .settled (if buf.val.take 2 = text "~." then { s with ttymode := false } else s) := by
      rw [request, if_pos htty]
    rw [cliHandler, hrequest]
    dsimp only
    split
    · exact ⟨⟨rfl, rfl, rfl⟩, .inl hasm⟩
    · exact ⟨hself, .inl hasm⟩
  · have hcases : request buf s = .settled s ∨ (∃ cmd, request buf s = .script cmd) ∨
        ∃ line, request buf s = .line line := by
      rw [request, if_neg htty]
      cases buf.val.dropWhile isSpace with
      | nil =>
          simp only
          rw [if_neg hasm']
          exact .inl rfl
      | cons ch rest =>
          simp only
          rw [if_neg hplain, if_neg hasm']
          split
          · exact .inl rfl
          · split
            · exact .inr (.inl ⟨_, rfl⟩)
            · exact .inr (.inr ⟨_, rfl⟩)
    rcases hcases with hrequest | ⟨cmd, hrequest⟩ | ⟨line, hrequest⟩
    · rw [cliHandler, hrequest]
      exact ⟨hself, .inl hasm⟩
    · exact absurd hrequest (hscript cmd)
    · obtain ⟨hkept, hmodes⟩ := executeLine_modes false line s
      rw [cliHandler, hrequest]
      refine ⟨hkept, ?_⟩
      cases hmodes with
      | same hmode haddr => exact .inl (hmode.trans hasm)
      | set hmode haddr htty' hlog =>
          exact .inr ⟨hmode, haddr, htty'.trans (Bool.eq_false_iff.mpr htty), hlog⟩

theorem strtoul_wordArg (w : Word) : strtoul 0 (wordArg w) = some (w.toNat, []) := by
  have hread : readInt 0 (wordArg w) = some ((w.toNat : ℤ), []) := readInt_hex 8 w.toNat
  have hlt := w.isLt
  rw [strtoul, hread, Option.map_some, if_pos (by omega)]
  congr 2
  omega

theorem processCmd_answer (ok : Bool) (vret : Word) (hplain : ¬InScript s) (hscript : s.script = false) :
    Kept s (processCmd (answerFrame ok vret) s) ∧
      (processCmd (answerFrame ok vret) s).asmmode = s.asmmode ∧
      (s.asmmode = true → (processCmd (answerFrame ok vret) s).ttymode = s.ttymode ∧
        (processCmd (answerFrame ok vret) s).asmaddr =
          if s.asmaddr = 0 then vret else s.asmaddr + 4) := by
  have hhead : (answerFrame ok vret).head? = some (if ok then shellCmdSuccess else shellCmdError) := rfl
  have hcwd : (answerFrame ok vret).head? ≠ some shellCmdCwd := by
    rw [hhead]
    cases ok with
    | _ => decide
  have hreply : IsReply (answerFrame ok vret) := by
    cases ok with
    | true => exact .inl rfl
    | false => exact .inr rfl
  have hreplied : ∃ lasterr, replied (answerFrame ok vret) s =
      { s with lasterr := lasterr }.setenv (text "?") (wordArg vret) := by
    rw [replied, hhead]
    cases ok with
    | true => exact ⟨false, rfl⟩
    | false =>
        have herror : some (if false = true then shellCmdSuccess else shellCmdError) =
            some shellCmdError := rfl
        refine ⟨true, ?_⟩
        rw [if_pos herror, if_neg hplain]
        rfl
  obtain ⟨lasterr, hreplied⟩ := hreplied
  rw [InScript, not_or, not_not, not_not] at hplain
  have hrun : executeScriptLine (replied (answerFrame ok vret) s) =
      (false, replied (answerFrame ok vret) s) := by
    have hexec : ¬(replied (answerFrame ok vret) s).exec.val ≠ [] := by
      rw [hreplied]
      exact not_not.mpr hplain.1
    have hfile : (replied (answerFrame ok vret) s).fscript = none := by
      rw [hreplied]
      exact hplain.2
    rw [executeScriptLine, if_neg hexec, hfile]
  have hdrop : (answerFrame ok vret).drop 1 = wordArg vret := rfl
  rw [processCmd, if_neg hcwd, if_pos hreply, hrun, hreplied, hdrop, strtoul_wordArg]
  dsimp only [GlobalContext.setenv, Option.map_some, Option.getD_some]
  rw [if_pos ⟨Bool.false_ne_true, by rw [hscript]; exact Bool.false_ne_true⟩, BitVec.ofNat_toNat,
    BitVec.setWidth_eq]
  split
  · exact ⟨⟨rfl, rfl, rfl⟩, rfl, fun _ => ⟨rfl, rfl⟩⟩
  · rename_i hmode
    exact ⟨⟨rfl, rfl, rfl⟩, rfl, fun h => absurd h hmode⟩

end

namespace Session

variable {σ σ' : Session} {buf : CStr} {ok : Bool} {vret a : Word}

theorem place_succ (a : Word) (n : ℕ) :
    a + BitVec.ofNat 32 (4 * n) + 4 = a + BitVec.ofNat 32 (4 * (n + 1)) := by
  rw [Nat.mul_succ, BitVec.ofNat_add, ← BitVec.add_assoc]
  rfl

theorem Initial.inv (h : σ.Initial) : σ.Inv where
  plain := h.plain
  script := h.script
  outside := fun _ => ⟨h.start, h.due⟩
  tty := fun hmode => absurd (h.asmmode.symm.trans hmode) Bool.false_ne_true
  waiting := fun _ hmode => absurd (h.asmmode.symm.trans hmode) Bool.false_ne_true
  started := fun a hstart => absurd (h.start.symm.trans hstart) (Option.some_ne_none a).symm

theorem Inv.asmmode_of_start (h : σ.Inv) (hstart : σ.start = some a) : σ.pc.asmmode = true := by
  by_contra hmode
  have hnone := (h.outside (Bool.eq_false_iff.mpr hmode)).1
  cases hnone.symm.trans hstart

theorem type_eq (hscript : ∀ cmd, request buf σ.pc ≠ .script cmd) :
    σ.type buf =
      let pc := cliHandler buf none σ.pc
      let sent := pc.log.length - σ.pc.log.length
      if pc.asmmode then
        if σ.pc.asmmode then some { σ with pc := pc, due := σ.due ++ List.replicate sent .pokewCmd }
        else
          some { pc := pc, due := σ.due ++ List.replicate sent .calcCmd, prompt := none, start := none
                 poked := 0 }
      else
        some { pc := pc, due := σ.due.map (fun _ => .other) ++ List.replicate sent .other
               prompt := none, start := none, poked := 0 } := by
  rw [Session.type]
  split
  · rename_i cmd hrequest
    exact absurd hrequest (hscript cmd)
  · rfl

theorem inv_outside {pc : GlobalContext} (hplain : ¬InScript pc) (hscript : pc.script = false)
    (hmode : pc.asmmode = false) (due : List Due) (n : ℕ) :
    Inv { pc := pc, due := due.map (fun _ => .other) ++ List.replicate n .other, prompt := none
          start := none, poked := 0 } where
  plain := hplain
  script := hscript
  outside := by
    refine fun _ => ⟨rfl, fun command hcommand => ?_⟩
    rcases List.mem_append.mp hcommand with hcommand | hcommand
    · obtain ⟨-, -, rfl⟩ := List.mem_map.mp hcommand
      rfl
    · exact List.eq_of_mem_replicate hcommand
  tty := fun h => absurd (hmode.symm.trans h) Bool.false_ne_true
  waiting := fun _ h => absurd (hmode.symm.trans h) Bool.false_ne_true
  started := fun a h => absurd h (Option.some_ne_none a).symm

theorem Inv.pokes (h : σ.Inv) (hmode : σ.pc.asmmode = true) {pc : GlobalContext} (hkept : Kept σ.pc pc)
    (hmode' : pc.asmmode = true) (haddr : pc.asmaddr = σ.pc.asmaddr) (htty : pc.ttymode = σ.pc.ttymode)
    (m : ℕ) : Inv { σ with pc := pc, due := σ.due ++ List.replicate m .pokewCmd } where
  plain := fun hin => h.plain (hkept.inScript_iff.mp hin)
  script := hkept.script.trans h.script
  outside := fun hoff => absurd (hmode'.symm.trans hoff) Bool.true_eq_false.mp
  tty := fun _ => htty.trans (h.tty hmode)
  waiting := by
    intro hcalc _
    have hcalc' : Due.calcCmd ∈ σ.due := by
      rcases List.mem_append.mp hcalc with hcalc | hcalc
      · exact hcalc
      · cases List.eq_of_mem_replicate hcalc
    obtain ⟨hstart, hzero, n, k, hdue⟩ := h.waiting hcalc' hmode
    refine ⟨hstart, haddr.trans hzero, n, k + m, ?_⟩
    dsimp only
    rw [hdue, List.append_assoc, List.cons_append, ← List.replicate_add]
  started := by
    intro a hstart
    obtain ⟨hpokes, hbehind, hprompt⟩ := h.started a hstart
    refine ⟨fun command hcommand => ?_, haddr.trans hbehind, ?_⟩
    · rcases List.mem_append.mp hcommand with hcommand | hcommand
      · exact hpokes command hcommand
      · exact List.eq_of_mem_replicate hcommand
    · dsimp only
      rw [haddr]
      exact hprompt

theorem Inv.type_inside (h : σ.Inv) (hmode : σ.pc.asmmode = true) (hstep : σ.type buf = some σ') :
    σ'.Inv := by
  obtain ⟨htyped, hscript⟩ := typed_inside buf hmode (h.tty hmode) h.plain
  rw [type_eq hscript] at hstep
  dsimp only at hstep
  generalize cliHandler buf none σ.pc = pc at hstep htyped
  cases htyped with
  | left hblank =>
      rw [if_neg Bool.false_ne_true] at hstep
      cases hstep
      exact @inv_outside { σ.pc with asmmode := false, asmaddr := 0 } h.plain h.script rfl σ.due _
  | @poked opcode hassemble =>
      have hmode' : (σ.pc.send false (strings (pokewArgs σ.pc.asmaddr opcode) ++ [1])
        (pokewArgs σ.pc.asmaddr opcode)).asmmode = true := hmode
      have hkept : Kept σ.pc (σ.pc.send false (strings (pokewArgs σ.pc.asmaddr opcode) ++ [1])
        (pokewArgs σ.pc.asmaddr opcode)) := ⟨rfl, rfl, rfl⟩
      rw [if_pos hmode', if_pos hmode] at hstep
      cases hstep
      exact h.pokes hmode hkept hmode' rfl rfl _
  | refused hassemble =>
      rw [if_pos hmode, if_pos hmode] at hstep
      cases hstep
      exact h.pokes hmode ⟨rfl, rfl, rfl⟩ hmode rfl rfl _
  | crashed hassemble =>
      have hmode' : ({ σ.pc with crashed := true } : GlobalContext).asmmode = true := hmode
      have hkept : Kept σ.pc { σ.pc with crashed := true } := ⟨rfl, rfl, rfl⟩
      rw [if_pos hmode', if_pos hmode] at hstep
      cases hstep
      exact h.pokes hmode hkept hmode' rfl rfl _

theorem Inv.type_outside (h : σ.Inv) (hmode : σ.pc.asmmode = false) (hstep : σ.type buf = some σ') :
    σ'.Inv := by
  have hscript : ∀ cmd, request buf σ.pc ≠ .script cmd := by
    intro cmd hrequest
    rw [Session.type, hrequest] at hstep
    cases hstep
  obtain ⟨hkept, hmodes⟩ := typed_outside buf hmode h.plain hscript
  rw [type_eq hscript] at hstep
  dsimp only at hstep
  generalize cliHandler buf none σ.pc = pc at hstep hkept hmodes
  have hplain : ¬InScript pc := fun hin => h.plain (hkept.inScript_iff.mp hin)
  rcases hmodes with hoff | ⟨hon, haddr, htty, hlog⟩
  · rw [if_neg (Bool.eq_false_iff.mp hoff)] at hstep
    cases hstep
    exact inv_outside hplain (hkept.script.trans h.script) hoff σ.due _
  · rw [if_pos hon, if_neg (Bool.eq_false_iff.mp hmode)] at hstep
    cases hstep
    obtain ⟨-, hothers⟩ := h.outside hmode
    exact {
      plain := hplain
      script := hkept.script.trans h.script
      outside := fun hoff => absurd (hon.symm.trans hoff) Bool.true_eq_false.mp
      tty := fun _ => htty
      waiting := by
        intro hcalc _
        refine ⟨rfl, haddr, σ.due.length, 0, ?_⟩
        have hsent : pc.log.length - σ.pc.log.length = 1 := by
          rcases List.mem_append.mp hcalc with hcalc | hcalc
          · cases hothers _ hcalc
          · have hpos := List.length_pos_of_mem hcalc
            rw [List.length_replicate] at hpos
            omega
        dsimp only
        rw [hsent, List.eq_replicate_length.mpr hothers, List.length_replicate]
        rfl
      started := fun a hstart => absurd hstart (Option.some_ne_none a).symm }

/-- What an answer makes of the shell. -/
structure Answered (σ : Session) (vret : Word) (pc : GlobalContext) : Prop where
  plain : ¬InScript pc
  script : pc.script = false
  mode : pc.asmmode = σ.pc.asmmode
  tty : σ.pc.asmmode = true → pc.ttymode = false
  addr : σ.pc.asmmode = true →
    pc.asmaddr = if σ.pc.asmaddr = 0 then vret else σ.pc.asmaddr + 4

theorem Inv.answered (h : σ.Inv) (ok : Bool) (vret : Word) :
    Answered σ vret (processCmd (answerFrame ok vret) σ.pc) := by
  obtain ⟨hkept, hmode, hset⟩ := processCmd_answer ok vret h.plain h.script
  exact {
    plain := fun hin => h.plain (hkept.inScript_iff.mp hin)
    script := hkept.script.trans h.script
    mode := hmode
    tty := fun hon => (hset hon).1.trans (h.tty hon)
    addr := fun hon => (hset hon).2 }

theorem Inv.asmmode_of_due {command : Due} (h : σ.Inv) (hmem : command ∈ σ.due)
    (hne : command ≠ .other) : σ.pc.asmmode = true := by
  by_contra hoff
  exact hne ((h.outside (Bool.eq_false_iff.mpr hoff)).2 command hmem)

section

variable {pc : GlobalContext} {due : List Due}

theorem Inv.answer_calc (h : σ.Inv) (hpc : Answered σ vret pc) (hdue : σ.due = .calcCmd :: due) :
    Inv { pc := pc, due := due, prompt := if pc.asmmode then some pc.asmaddr else none
          start := if ok then some vret else none, poked := 0 } := by
  have hmem : .calcCmd ∈ σ.due := hdue ▸ List.mem_cons_self
  have hon := h.asmmode_of_due hmem nofun
  have hon' := hpc.mode.trans hon
  obtain ⟨hstart, hzero, n, k, hshape⟩ := h.waiting hmem hon
  have hrest : due = List.replicate k .pokewCmd := by
    rw [hdue] at hshape
    cases n with
    | zero => exact (List.cons.inj hshape).2
    | succ n => cases (List.cons.inj hshape).1
  exact {
    plain := hpc.plain
    script := hpc.script
    outside := fun hoff => absurd (hon'.symm.trans hoff) Bool.true_eq_false.mp
    tty := fun _ => hpc.tty hon
    waiting := fun hcalc => by
      rw [hrest] at hcalc
      cases List.eq_of_mem_replicate hcalc
    started := by
      intro a hstart'
      refine ⟨fun command hcommand => ?_, ?_, if_pos hon'⟩
      · rw [hrest] at hcommand
        exact List.eq_of_mem_replicate hcommand
      · cases ok with
        | false => cases hstart'
        | true =>
            obtain rfl := Option.some.inj hstart'
            dsimp only [behind]
            rw [hpc.addr hon, if_pos hzero]
            exact (BitVec.add_zero vret).symm }

theorem Inv.answer_pokew (h : σ.Inv) (hpc : Answered σ vret pc) (hdue : σ.due = .pokewCmd :: due)
    (hguard : σ.pc.asmmode = true → σ.Fine ok vret σ.due) :
    Inv { σ with pc := pc, due := due, prompt := if pc.asmmode then some pc.asmaddr else none
                 poked := σ.poked + ok.toNat } := by
  have hon := h.asmmode_of_due (hdue ▸ List.mem_cons_self : .pokewCmd ∈ σ.due) nofun
  have hon' := hpc.mode.trans hon
  rw [hdue] at hguard
  exact {
    plain := hpc.plain
    script := hpc.script
    outside := fun hoff => absurd (hon'.symm.trans hoff) Bool.true_eq_false.mp
    tty := fun _ => hpc.tty hon
    waiting := fun hcalc => by
      have hcalc' : Due.calcCmd ∈ σ.due := hdue ▸ List.mem_cons_of_mem _ hcalc
      obtain ⟨-, -, n, k, hshape⟩ := h.waiting hcalc' hon
      rw [hdue] at hshape
      cases n with
      | zero => cases (List.cons.inj hshape).1
      | succ n => cases (List.cons.inj hshape).1
    started := by
      intro a hstart
      obtain ⟨hpokes, hbehind, -⟩ := h.started a hstart
      refine ⟨fun command hcommand => hpokes command (hdue ▸ List.mem_cons_of_mem _ hcommand),
        ?_, if_pos hon'⟩
      dsimp only [behind]
      rw [hpc.addr hon, hbehind]
      rcases hguard hon a hstart with ⟨rfl, hne⟩ | ⟨hzero, rfl⟩
      · rw [if_neg hne]
        exact place_succ a σ.poked
      · rw [if_pos hzero]
        cases ok with
        | true => rw [Bool.toNat_true, ← place_succ a σ.poked, ← behind, hzero]; rfl
        | false => exact hzero.symm }

theorem Inv.answer_other (h : σ.Inv) (hpc : Answered σ vret pc) (hdue : σ.due = .other :: due)
    (hguard : σ.pc.asmmode = true → σ.Fine ok vret σ.due) :
    Inv { σ with pc := pc, due := due, prompt := if pc.asmmode then some pc.asmaddr else none } := by
  rw [hdue] at hguard
  exact {
    plain := hpc.plain
    script := hpc.script
    outside := by
      intro hoff
      obtain ⟨hstart, hothers⟩ := h.outside (hpc.mode.symm.trans hoff)
      exact ⟨hstart, fun command hcommand =>
        hothers command (hdue ▸ List.mem_cons_of_mem _ hcommand)⟩
    tty := fun hon => hpc.tty (hpc.mode.symm.trans hon)
    waiting := by
      intro hcalc hon'
      have hon := hpc.mode.symm.trans hon'
      have hcalc' : Due.calcCmd ∈ σ.due := hdue ▸ List.mem_cons_of_mem _ hcalc
      obtain ⟨hstart, hzero, n, k, hshape⟩ := h.waiting hcalc' hon
      refine ⟨hstart, ?_, ?_⟩
      · dsimp only
        rw [hpc.addr hon, if_pos hzero]
        exact hguard hon hcalc
      · rw [hdue] at hshape
        cases n with
        | zero => cases (List.cons.inj hshape).1
        | succ n => exact ⟨n, k, (List.cons.inj hshape).2⟩
    started := by
      intro a hstart
      cases (h.started a hstart).1 .other (hdue ▸ List.mem_cons_self) }

end

theorem Inv.answer (h : σ.Inv) (hguard : σ.Unharmed (.answered ok vret))
    (hstep : σ.answer ok vret = some σ') : σ'.Inv := by
  have hpc := h.answered ok vret
  rw [Session.answer] at hstep
  rcases hdue : σ.due with _ | ⟨command, due⟩
  · rw [hdue] at hstep
    cases hstep
  · rw [hdue] at hstep
    cases command with
    | calcCmd =>
        cases hstep
        exact h.answer_calc hpc hdue
    | pokewCmd =>
        cases hstep
        exact h.answer_pokew hpc hdue hguard
    | other =>
        cases hstep
        exact h.answer_other hpc hdue hguard

theorem Inv.step {input : Input} (h : σ.Inv) (hguard : σ.Unharmed input)
    (hstep : σ.step input = some σ') : σ'.Inv := by
  cases input with
  | typed buf =>
      cases hmode : σ.pc.asmmode with
      | true => exact h.type_inside hmode hstep
      | false => exact h.type_outside hmode hstep
  | answered ok vret => exact h.answer hguard hstep

theorem Inv.type_poked (h : σ.Inv) (hstart : σ.start = some a) (buf : CStr) (opcode : Word)
    (hsome : buf.val.dropWhile isSpace ≠ [])
    (hassemble : asmAssemble (buf.val.dropWhile isSpace) (σ.behind a) = .ok opcode) :
    ∃ σ', σ.step (.typed buf) = some σ' ∧ σ'.due = σ.due ++ [.pokewCmd] ∧ σ'.start = σ.start ∧
      σ'.poked = σ.poked := by
  have hmode := h.asmmode_of_start hstart
  obtain ⟨htyped, hscript⟩ := typed_inside buf hmode (h.tty hmode) h.plain
  rw [← (h.started a hstart).2.1] at hassemble
  rw [Session.step, type_eq hscript]
  dsimp only
  generalize cliHandler buf none σ.pc = pc at htyped ⊢
  cases htyped with
  | left hblank => exact absurd hblank hsome
  | @poked opcode' hassemble' =>
      have hmode' : (σ.pc.send false (strings (pokewArgs σ.pc.asmaddr opcode') ++ [1])
        (pokewArgs σ.pc.asmaddr opcode')).asmmode = true := hmode
      have hsent : (σ.pc.send false (strings (pokewArgs σ.pc.asmaddr opcode') ++ [1])
          (pokewArgs σ.pc.asmaddr opcode')).log.length - σ.pc.log.length = 1 := by
        rw [GlobalContext.send, List.length_append, List.length_singleton, Nat.add_sub_cancel_left]
      rw [if_pos hmode', if_pos hmode, hsent]
      exact ⟨_, rfl, rfl, rfl, rfl⟩
  | refused hassemble' => cases hassemble.symm.trans hassemble'
  | crashed hassemble' => cases hassemble.symm.trans hassemble'

theorem Inv.at (h : σ.Inv) (hstart : σ.start = some a) : σ.At (σ.behind a) := by
  obtain ⟨-, haddr, hprompt⟩ := h.started a hstart
  have hmode := h.asmmode_of_start hstart
  refine ⟨by rw [hprompt, haddr], fun buf opcode hsome hassemble => ?_⟩
  obtain ⟨htyped, -⟩ := typed_inside buf hmode (h.tty hmode) h.plain
  rw [← haddr] at hassemble ⊢
  generalize cliHandler buf none σ.pc = pc at htyped ⊢
  cases htyped with
  | left hblank => exact absurd hblank hsome
  | poked hassemble' =>
      cases hassemble.symm.trans hassemble'
      rfl
  | refused hassemble' => cases hassemble.symm.trans hassemble'
  | crashed hassemble' => cases hassemble.symm.trans hassemble'

end Session

/-- While every step of a session is unharmed: behind the address that `calc` gave, the prompt and the
next `pokew` have gone on by the words that were poked. -/
theorem asm_address_kept {σ₀ σ : Session} {inputs : List Input} (hinitial : σ₀.Initial)
    (hrun : Reaches Session.step Session.Unharmed σ₀ inputs σ) {a : Word} (hstart : σ.start = some a) :
    σ.At (σ.behind a) := by
  have hinv : σ.Inv := hrun.invariant hinitial.inv fun _ _ _ h hguard hstep => h.step hguard hstep
  exact hinv.at hstart

/-- A session before anything is typed. -/
def idleSession : Session where
  pc := started
  due := []
  prompt := none
  start := none
  poked := 0

theorem idleSession_initial : idleSession.Initial where
  plain := by decide
  script := rfl
  asmmode := rfl
  start := rfl
  due := fun _ h => absurd h List.not_mem_nil

/-- `asm 0x8900000`, and a `nop`. -/
def nopInputs : List Input :=
  [.typed (toCStr (text "asm 0x8900000")), .answered true 0x8900000, .typed (toCStr (text "nop"))]

/-- The `pokew` of the `nop` is on its way. -/
theorem nop_typed : ∃ σ, Reaches Session.step Session.Unharmed idleSession nopInputs σ ∧ σ.Inv ∧
    σ.due = [.pokewCmd] ∧ σ.start = some 0x8900000 ∧ σ.poked = 0 := by
  have hfirst : ∃ σ, Reaches Session.step Session.Unharmed idleSession
      [.typed (toCStr (text "asm 0x8900000"))] σ ∧ decide (σ.due = [.calcCmd]) = true :=
    exists_reaches (by decide +kernel)
  obtain ⟨σ₁, hrun₁, hdue₁⟩ := hfirst
  have hdue₁ := of_decide_eq_true hdue₁
  have hguard₁ : σ₁.Unharmed (.answered true 0x8900000) := by
    rw [Session.Unharmed, hdue₁]
    exact fun _ => trivial
  obtain ⟨σ₂, hstep₂, hdue₂, hstart₂, hpoked₂⟩ : ∃ σ₂, σ₁.step (.answered true 0x8900000) = some σ₂ ∧
      σ₂.due = [] ∧ σ₂.start = some 0x8900000 ∧ σ₂.poked = 0 := by
    rw [Session.step, Session.answer, hdue₁]
    exact ⟨_, rfl, rfl, rfl, rfl⟩
  have hrun₂ := Reaches.step hrun₁ hguard₁ hstep₂
  have hinv₂ : σ₂.Inv :=
    hrun₂.invariant idleSession_initial.inv fun _ _ _ h hguard hstep => h.step hguard hstep
  have hbehind : σ₂.behind 0x8900000 = 0x8900000 := by
    rw [Session.behind, hpoked₂]
    rfl
  obtain ⟨σ₃, hstep₃, hdue₃, hstart₃, hpoked₃⟩ := hinv₂.type_poked hstart₂ (toCStr (text "nop")) 0
    (by decide) (by rw [hbehind]; decide)
  have hguard₃ : σ₂.Unharmed (.typed (toCStr (text "nop"))) := trivial
  have hrun₃ := Reaches.step hrun₂ hguard₃ hstep₃
  refine ⟨σ₃, hrun₃, hinv₂.step hguard₃ hstep₃, ?_, hstart₃.trans hstart₂, hpoked₃.trans hpoked₂⟩
  rw [hdue₃, hdue₂, List.nil_append]

/-- Whatever the answer to the `pokew` is, the prompt goes on. -/
theorem nop_answered {σ : Session} (hinv : σ.Inv) (hdue : σ.due = [.pokewCmd])
    (hstart : σ.start = some 0x8900000) (hpoked : σ.poked = 0) (ok : Bool) :
    ∃ σ', σ.step (.answered ok 0) = some σ' ∧ σ'.start = some 0x8900000 ∧ σ'.poked = ok.toNat ∧
      σ'.prompt = some 0x8900004 := by
  have hon := hinv.asmmode_of_start hstart
  have hpc := hinv.answered ok 0
  have haddr : σ.pc.asmaddr = 0x8900000 := by
    rw [(hinv.started _ hstart).2.1, Session.behind, hpoked]
    rfl
  rw [Session.step, Session.answer, hdue]
  refine ⟨_, rfl, hstart, ?_, ?_⟩
  · dsimp only
    rw [hpoked, Nat.zero_add]
  · dsimp only
    rw [if_pos (hpc.mode.trans hon), hpc.addr hon, haddr]
    rfl

/-- The `nop` is poked. -/
theorem asm_address_kept_nop :
    ∃ σ, Reaches Session.step Session.Unharmed idleSession (nopInputs ++ [.answered true 0]) σ ∧
      σ.start = some 0x8900000 ∧ σ.At 0x8900004 := by
  obtain ⟨σ, hrun, hinv, hdue, hstart, hpoked⟩ := nop_typed
  obtain ⟨σ', hstep, hstart', hpoked', -⟩ := nop_answered hinv hdue hstart hpoked true
  have hguard : σ.Unharmed (.answered true 0) := by
    rw [Session.Unharmed, hdue]
    rintro - a ha
    obtain rfl := Option.some.inj (hstart.symm.trans ha)
    refine .inl ⟨rfl, ?_⟩
    rw [Session.behind, hpoked]
    decide
  have hrun' := Reaches.step hrun hguard hstep
  have hat := asm_address_kept idleSession_initial hrun' hstart'
  rw [Session.behind, hpoked'] at hat
  exact ⟨σ', hrun', hstart', hat⟩

/-- The PSP answers ERROR to the `pokew` of the `nop`. -/
theorem error_counted :
    ∃ σ, Reaches Session.step anyStep idleSession (nopInputs ++ [.answered false 0]) σ ∧
      σ.start = some 0x8900000 ∧ σ.poked = 0 ∧ σ.prompt = some 0x8900004 ∧ ¬σ.At 0x8900000 := by
  obtain ⟨σ, hrun, hinv, hdue, hstart, hpoked⟩ := nop_typed
  obtain ⟨σ', hstep, hstart', hpoked', hprompt⟩ := nop_answered hinv hdue hstart hpoked false
  refine ⟨σ', .step (hrun.mono fun _ _ _ => trivial) trivial hstep, hstart', hpoked', hprompt,
    fun hat => ?_⟩
  have heq := hprompt.symm.trans hat.prompt
  exact absurd (Option.some.inj heq) (by decide)

end PsplinkUsb.Pspsh.AsmSession
