import PsplinkUsb.Psplink.AddressExpressions
import PsplinkUsb.Psplink.AddressNames

namespace PsplinkUsb.Psplink.AddressTokens

open PsplinkUsb.Library.Ascii
open PsplinkUsb.Library.Numerals
open PsplinkUsb.Psplink.ProgramMemory (Word)
open PsplinkUsb.Psplink.DecodeAddr
open PsplinkUsb.Psplink.AddressExpressions
open PsplinkUsb.Psplink.AddressNames

/-- A bracket is one token with the text in it, and `bad` is where a text goes on with nothing
that can be read. -/
inductive Token where
  | star
  | tilde
  | operator (op : Operator)
  | number (n : Word)
  | reg (name : Bytes)
  | modname (name : Bytes)
  | thread (name : Bytes)
  | bracket (inside : Bytes)
  | bad

theorem length_strtoul32_lt {base n : ℕ} {line behind : Bytes}
    (h : strtoul32 base line = some (n, behind)) : behind.length < line.length := by
  obtain ⟨p, hint, heq⟩ := Option.map_eq_some_iff.mp h
  obtain ⟨-, rfl⟩ := Prod.mk.inj heq
  exact length_readInt_lt hint

/-- The tokens of a text, up to where it goes on with none. A hex digit that starts no number is
read as the number 0, and stays where it is. -/
def scan (line : Bytes) : List Token :=
  match line with
  | [] => []
  | c :: line =>
      if isASpace c then scan line
      else if c = star then .star :: scan line
      else if c = tilde then .tilde :: scan line
      else if c = dollar then .reg (regText line).1 :: scan (regText line).2
      else if c = atSign ∨ c = percent then
        match _hname : upTo c line with
        | none => [.bad]
        | some (name, behind) =>
            (if c = atSign then .modname name else .thread name) :: scan behind
      else if c = openParen then
        match _hclosing : closing 1 line with
        | none => [.bad]
        | some (inside, behind) => .bracket inside :: scan behind
      else if isXDigit c then
        match _hnumber : strtoul32 0 (c :: line) with
        | none => [.number 0, .bad]
        | some (n, behind) => .number (BitVec.ofNat 32 n) :: scan behind
      else
        match _hop : readOperator c line with
        | none => [.bad]
        | some (op, behind) => .operator op :: scan behind
termination_by line.length
decreasing_by
  · exact Nat.lt_succ_self _
  · exact Nat.lt_succ_self _
  · exact Nat.lt_succ_self _
  · exact Nat.lt_succ_of_le (length_regText_le line)
  · exact (length_upTo _hname).trans (Nat.lt_succ_self _)
  · have hlt := length_closing _hclosing
    rw [List.length_cons]
    omega
  · exact length_strtoul32_lt _hnumber
  · exact Nat.lt_succ_of_le (length_readOperator _hop)

/-- A number, a register, a module, a thread or a bracket. -/
def Token.IsOperand : Token → Prop
  | .number _ | .reg _ | .modname _ | .thread _ | .bracket _ => True
  | _ => False

/-- Behind an operand, a `*` is an operator. -/
def Token.IsOperator : Token → Prop
  | .star | .operator _ => True
  | _ => False

instance : DecidablePred Token.IsOperand
  | .number _ | .reg _ | .modname _ | .thread _ | .bracket _ => .isTrue trivial
  | .star | .tilde | .operator _ | .bad => .isFalse id

/-- The expressions: an operand with any `~` and `*` in front of it, and behind an expression an
operator and another such operand. -/
inductive Grammar (k : Kernel) (m : Machine) : Kind → List Token → Prop where
  | number (n : Word) : Grammar k m .operand [.number n]
  | reg {name : Bytes} (h : (m.exceptionGetReg name).isSome = true) :
      Grammar k m .operand [.reg name]
  | modname {name : Bytes} (h : k.ModuleNamed name) : Grammar k m .operand [.modname name]
  | thread {name : Bytes} (h : k.ThreadNamed name) : Grammar k m .operand [.thread name]
  | bracket {inside : Bytes} (h : Grammar k m .expr (scan inside)) :
      Grammar k m .operand [.bracket inside]
  | star {ts : List Token} (h : Grammar k m .operand ts) : Grammar k m .operand (.star :: ts)
  | tilde {ts : List Token} (h : Grammar k m .operand ts) : Grammar k m .operand (.tilde :: ts)
  | first {ts : List Token} (h : Grammar k m .operand ts) : Grammar k m .expr ts
  | more {ts us : List Token} {op : Token} (he : Grammar k m .expr ts) (hop : op.IsOperator)
      (ho : Grammar k m .operand us) : Grammar k m .expr (ts ++ op :: us)

/-- A text that is an expression. -/
def WellFormed (k : Kernel) (m : Machine) (s : Bytes) : Prop := Grammar k m .expr (scan s)

/-- Behind an operand there is neither an operand nor a `~`. -/
def Token.MayPrecede (t u : Token) : Prop := t.IsOperand → ¬u.IsOperand ∧ u ≠ .tilde

/-- What is not looked for: a text that does not end in an operand, an operand with another one
or a `~` behind it, a module that cannot be queried, and any of these in brackets. -/
inductive Slip (k : Kernel) : List Token → Prop where
  | last {ts : List Token} (h : ∀ t ∈ ts.getLast?, ¬t.IsOperand) : Slip k ts
  | side {ts : List Token} (h : ¬ts.IsChain Token.MayPrecede) : Slip k ts
  | modname {ts : List Token} {name : Bytes} (hmem : .modname name ∈ ts)
      (h : ¬k.ModuleNamed name) : Slip k ts
  | bracket {ts : List Token} {inside : Bytes} (hmem : .bracket inside ∈ ts)
      (h : Slip k (scan inside)) : Slip k ts

/-- Nothing that can be read, or the name of no register or thread. -/
def Token.Unknown (k : Kernel) (m : Machine) : Token → Prop
  | .reg name => ¬(m.exceptionGetReg name).isSome = true
  | .thread name => ¬k.ThreadNamed name
  | .bad => True
  | _ => False

/-- An operator that is no `*` stands right behind an operand. -/
def Token.MayFollow (t u : Token) : Prop := ¬t.IsOperand → ∀ op, u ≠ .operator op

/-- What is looked for: a token that is not known, an operator with no operand before it, and any
of these in brackets. -/
inductive Refused (k : Kernel) (m : Machine) : List Token → Prop where
  | unknown {ts : List Token} {t : Token} (hmem : t ∈ ts) (h : t.Unknown k m) : Refused k m ts
  | first {ts : List Token} {op : Operator} (h : ts.head? = some (.operator op)) : Refused k m ts
  | behind {ts : List Token} (h : ¬ts.IsChain Token.MayFollow) : Refused k m ts
  | bracket {ts : List Token} {inside : Bytes} (hmem : .bracket inside ∈ ts)
      (h : Refused k m (scan inside)) : Refused k m ts

/-- The address or the value that a name stands for. -/
def named (m : Machine) : Token → Option Word
  | .reg name => m.exceptionGetReg name
  | .modname name => m.modaddr name
  | .thread name => m.threadaddr name
  | _ => none

/-- The tokens pass the checks that are made of them from left to right: an operator needs an
operand before it and a number none, names have to be known, brackets have to pass, and an operand
with `*` in front of it has to lead to an address for each of them. -/
inductive Passes (m : Machine) : ParseState → List Token → ParseState → Prop where
  | nil (st : ParseState) : Passes m st [] st
  | times {st st' : ParseState} {ts : List Token} (h : st.op = .none)
      (hrest : Passes m { st with op := .mul } ts st') : Passes m st (.star :: ts) st'
  | deref {st st' : ParseState} {ts : List Token} (h : st.op ≠ .none)
      (hrest : Passes m { st with deref := st.deref + 1 } ts st') : Passes m st (.star :: ts) st'
  | not {st st' : ParseState} {ts : List Token}
      (hrest : Passes m { st with not := st.not + 1 } ts st') : Passes m st (.tilde :: ts) st'
  | operator {st st' : ParseState} {ts : List Token} {op : Operator} (h : st.op = .none)
      (hrest : Passes m { st with op := op } ts st') : Passes m st (.operator op :: ts) st'
  | number {st st₁ st' : ParseState} {ts : List Token} {n : Word} (h : st.op ≠ .none)
      (happly : m.apply st n = some st₁) (hrest : Passes m st₁ ts st') :
      Passes m st (.number n :: ts) st'
  | name {st st₁ st' : ParseState} {t : Token} {ts : List Token} {v : Word}
      (h : named m t = some v) (happly : m.apply st v = some st₁) (hrest : Passes m st₁ ts st') :
      Passes m st (t :: ts) st'
  | bracket {st st₀ st₁ st' : ParseState} {inside : Bytes} {ts : List Token}
      (hinside : Passes m .start (scan inside) st₀) (happly : m.apply st st₀.val = some st₁)
      (hrest : Passes m st₁ ts st') : Passes m st (.bracket inside :: ts) st'

/-- A round of `parse_line`. -/
def step (m : Machine) (st : ParseState) : Token → Option ParseState
  | .star =>
      if st.op = .none then some { st with op := .mul }
      else some { st with deref := st.deref + 1 }
  | .tilde => some { st with not := st.not + 1 }
  | .operator op => if st.op = .none then some { st with op := op } else none
  | .number n => if st.op = .none then none else m.apply st n
  | .reg name => (m.exceptionGetReg name).bind (m.apply st)
  | .modname name => (m.modaddr name).bind (m.apply st)
  | .thread name => (m.threadaddr name).bind (m.apply st)
  | .bracket inside => (parseLine m inside).bind (m.apply st)
  | .bad => none

section

variable {m : Machine} {k : Kernel} {line s inside : Bytes} {st st' : ParseState} {ts us : List Token}
  {t u : Token} {kind : Kind} {v : Word}

theorem plain_star (h : st.op = .none) : Plain star st where
  space := by decide
  star := fun hstar => by
    rw [h] at hstar
    rcases hstar.2 with hop | hop
    · cases hop
    · exact hop rfl
  tilde := by decide
  dollar := by decide
  name := by decide
  openParen := by decide

theorem bind_parseLoop
    (h : ∀ st, parseLoop m line st = ((scan line).foldlM (step m) st).map fun st => st.val)
    (o : Option ParseState) :
    o.bind (parseLoop m line) = (o.bind ((scan line).foldlM (step m))).map fun st => st.val := by
  cases o with
  | none => rfl
  | some st => exact h st

theorem parseLoop_eq (line : Bytes) (st : ParseState) :
    parseLoop m line st = ((scan line).foldlM (step m) st).map fun st => st.val := by
  fun_induction scan line generalizing st with
  | case1 => exact parseLoop_nil
  | case2 c line hspace ih => rw [parseLoop_space hspace, ih]
  | case3 line hspace ih =>
      rw [List.foldlM_cons, step]
      split
      · rename_i hop
        rw [parseLoop_plain (plain_star hop), if_neg (by decide), if_neg (not_not.mpr hop)]
        exact ih _
      · rename_i hop
        rw [parseLoop_star hop]
        exact ih _
  | case4 line hspace hstar ih =>
      rw [parseLoop_tilde, ih]
      rfl
  | case5 line hspace hstar htilde ih =>
      rw [parseLoop_dollar]
      exact bind_parseLoop ih _
  | case6 c line hspace hstar htilde hdollar hname hnone =>
      rw [parseLoop_name hname, hnone]
      rfl
  | case7 c line hspace hstar htilde hdollar hname name behind hsome ih =>
      rw [parseLoop_name hname, hsome, Option.bind_some]
      by_cases hat : c = atSign
      · rw [if_pos hat, if_pos hat]
        exact bind_parseLoop ih _
      · rw [if_neg hat, if_neg hat]
        exact bind_parseLoop ih _
  | case8 line hnone hspace hstar htilde hdollar hname =>
      rw [parseLoop_brackets, hnone]
      rfl
  | case9 line inside behind hsome hspace hstar htilde hdollar hname ih =>
      rw [parseLoop_brackets, hsome, Option.bind_some]
      exact bind_parseLoop ih _
  | case10 c line hspace hstar htilde hdollar hname hopen hhex hnone =>
      have hplain : ∀ st, Plain c st := fun _ =>
        ⟨hspace, fun h => hstar h.1, htilde, hdollar, hname, hopen⟩
      have hnumber : readNumber (c :: line) = (0, c :: line) := by
        rw [readNumber, hnone]
      rw [parseLoop_plain (hplain st), if_pos hhex, List.foldlM_cons, step, hnumber]
      split
      · rfl
      · cases happly : m.apply st 0 with
        | none => rfl
        | some st =>
            -- the digit is there again, and no operator before it
            rw [Option.bind_some, parseLoop_plain (hplain st), if_pos hhex,
              if_pos (Machine.apply_op happly)]
            rfl
  | case11 c line hspace hstar htilde hdollar hname hopen hhex n behind hsome ih =>
      have hnumber : readNumber (c :: line) = (BitVec.ofNat 32 n, behind) := by
        rw [readNumber, hsome]
      rw [parseLoop_plain ⟨hspace, fun h => hstar h.1, htilde, hdollar, hname, hopen⟩, if_pos hhex,
        List.foldlM_cons, step, hnumber]
      split
      · rfl
      · exact bind_parseLoop ih _
  | case12 c line hspace hstar htilde hdollar hname hopen hhex hnone =>
      rw [parseLoop_plain ⟨hspace, fun h => hstar h.1, htilde, hdollar, hname, hopen⟩, if_neg hhex,
        hnone]
      split
      · rfl
      · rfl
  | case13 c line hspace hstar htilde hdollar hname hopen hhex op behind hsome ih =>
      rw [parseLoop_plain ⟨hspace, fun h => hstar h.1, htilde, hdollar, hname, hopen⟩, if_neg hhex,
        List.foldlM_cons, step, hsome, ite_not]
      split
      · exact ih _
      · rfl

theorem operator_of_readOperator {c : UInt8} {op : Operator} {behind : Bytes}
    (h : readOperator c line = some (op, behind)) : op ≠ .none := by
  have hone : ∀ {op' : Operator} {rest : Bytes}, op' ≠ .none →
      some (op', rest) = some (op, behind) → op ≠ .none := by
    rintro op' rest hne heq rfl
    exact hne (congrArg Prod.fst (Option.some.inj heq))
  have htwo : ∀ {next : UInt8} {two : Operator} {one : Option Operator}, two ≠ .none →
      one ≠ some .none → oneOrTwo next two one line = some (op, behind) → op ≠ .none := by
    intro next two one hne hne' h
    refine of_ite (hone hne) (fun h => ?_) h
    obtain ⟨op', rfl, heq⟩ := Option.map_eq_some_iff.mp h
    refine hone (fun hop => hne' ?_) (congrArg some heq)
    rw [hop]
  have hne : ∀ {op : Operator}, op ≠ .none → some op ≠ some .none := fun h heq => h (Option.some.inj heq)
  refine of_ite (hone (by decide)) (of_ite (hone (by decide)) (of_ite (htwo (by decide) (by decide))
    (of_ite (htwo (by decide) (by decide)) (of_ite (hone (by decide)) (of_ite
      (htwo (by decide) (by decide)) (of_ite (htwo (by decide) (by decide)) ?_)))))) h
  exact of_ite (of_ite (hone (by decide)) (htwo (by decide) (by decide)))
    (of_ite (of_ite (hone (by decide)) (htwo (by decide) (by decide)))
      (of_ite (hone (by decide)) (of_ite (hone (by decide)) nofun)))

/-- A token that a text of this length can have. -/
structure Token.Fits (n : ℕ) (t : Token) : Prop where
  operator : ∀ op, t = .operator op → op ≠ .none
  bracket : ∀ inside, t = .bracket inside → inside.length < n

theorem Token.Fits.of_mem {n : ℕ} {behind : Bytes} (h : t ∈ u :: scan behind) (hu : u.Fits n)
    (ih : t ∈ scan behind → t.Fits behind.length) (hlt : behind.length < n) : t.Fits n := by
  rcases List.mem_cons.mp h with rfl | h
  · exact hu
  · exact ⟨(ih h).operator, fun inside heq => ((ih h).bracket inside heq).trans hlt⟩

theorem fits_of_mem_scan (h : t ∈ scan s) : t.Fits s.length := by
  have hbad : ∀ n, Token.bad.Fits n := fun n => ⟨nofun, nofun⟩
  fun_induction scan s with
  | case1 => cases h
  | case2 c line hspace ih =>
      exact ⟨(ih h).operator, fun inside heq => ((ih h).bracket inside heq).trans (Nat.lt_succ_self _)⟩
  | case3 line hspace ih => exact .of_mem h ⟨nofun, nofun⟩ ih (Nat.lt_succ_self _)
  | case4 line hspace hstar ih => exact .of_mem h ⟨nofun, nofun⟩ ih (Nat.lt_succ_self _)
  | case5 line hspace hstar htilde ih =>
      exact .of_mem h ⟨nofun, nofun⟩ ih (Nat.lt_succ_of_le (length_regText_le line))
  | case6 c line hspace hstar htilde hdollar hname hnone =>
      rw [List.mem_singleton.mp h]
      exact hbad _
  | case7 c line hspace hstar htilde hdollar hname name behind hsome ih =>
      refine .of_mem h ?_ ih ((length_upTo hsome).trans (Nat.lt_succ_self _))
      split
      · exact ⟨nofun, nofun⟩
      · exact ⟨nofun, nofun⟩
  | case8 line hnone hspace hstar htilde hdollar hname =>
      rw [List.mem_singleton.mp h]
      exact hbad _
  | case9 line inside behind hsome hspace hstar htilde hdollar hname ih =>
      have hlength := length_closing hsome
      refine .of_mem h ⟨nofun, fun inside' heq => ?_⟩ ih (by rw [List.length_cons]; omega)
      rw [← Token.bracket.inj heq, List.length_cons]
      omega
  | case10 c line hspace hstar htilde hdollar hname hopen hhex hnone =>
      rcases List.mem_cons.mp h with rfl | h
      · exact ⟨nofun, nofun⟩
      · rw [List.mem_singleton.mp h]
        exact hbad _
  | case11 c line hspace hstar htilde hdollar hname hopen hhex n behind hsome ih =>
      exact .of_mem h ⟨nofun, nofun⟩ ih (length_strtoul32_lt hsome)
  | case12 c line hspace hstar htilde hdollar hname hopen hhex hnone =>
      rw [List.mem_singleton.mp h]
      exact hbad _
  | case13 c line hspace hstar htilde hdollar hname hopen hhex op behind hsome ih =>
      refine .of_mem h ⟨fun op' heq => ?_, nofun⟩ ih (Nat.lt_succ_of_le (length_readOperator hsome))
      rw [← Token.operator.inj heq]
      exact operator_of_readOperator hsome

theorem parseLine_eq (s : Bytes) :
    parseLine m s = ((scan s).foldlM (step m) .start).map fun st => st.val := parseLoop_eq s .start

theorem Passes.foldlM (h : Passes m st ts st') : ts.foldlM (step m) st = some st' := by
  induction h with
  | nil st => rfl
  | times h hrest ih =>
      rw [List.foldlM_cons, step, if_pos h]
      exact ih
  | deref h hrest ih =>
      rw [List.foldlM_cons, step, if_neg h]
      exact ih
  | not hrest ih => exact ih
  | operator h hrest ih =>
      rw [List.foldlM_cons, step, if_pos h]
      exact ih
  | number h happly hrest ih =>
      rw [List.foldlM_cons, step, if_neg h, happly]
      exact ih
  | @name st st₁ st' t ts v h happly hrest ih =>
      have hstep : step m st t = some st₁ := by
        rw [← happly]
        cases t with
        | reg name => exact congrArg (·.bind (m.apply st)) h
        | modname name => exact congrArg (·.bind (m.apply st)) h
        | thread name => exact congrArg (·.bind (m.apply st)) h
        | _ => cases h
      rw [List.foldlM_cons, hstep]
      exact ih
  | bracket hinside happly hrest ihinside ih =>
      rw [List.foldlM_cons, step, parseLine_eq, ihinside, Option.map_some, Option.bind_some, happly]
      exact ih

theorem passes_of_foldlM (n : ℕ) (hlength : ∀ inside, .bracket inside ∈ ts → inside.length < n)
    (h : ts.foldlM (step m) st = some st') : Passes m st ts st' := by
  induction n using Nat.strong_induction_on generalizing ts st st' with
  | _ n ihn =>
      induction ts generalizing st with
      | nil =>
          cases h
          exact .nil _
      | cons t ts ih =>
          rw [List.foldlM_cons] at h
          obtain ⟨st₁, hstep, hfold⟩ := Option.bind_eq_some_iff.mp h
          have hrest : Passes m st₁ ts st' :=
            ih (fun inside hmem => hlength inside (List.mem_cons_of_mem _ hmem)) hfold
          cases t with
          | star =>
              rw [step] at hstep
              split at hstep
              · rename_i hop
                cases hstep
                exact .times hop hrest
              · rename_i hop
                cases hstep
                exact .deref hop hrest
          | tilde =>
              cases hstep
              exact .not hrest
          | operator op =>
              rw [step] at hstep
              split at hstep
              · rename_i hop
                cases hstep
                exact .operator hop hrest
              · cases hstep
          | number n =>
              rw [step] at hstep
              split at hstep
              · cases hstep
              · rename_i hop
                exact .number hop hstep hrest
          | reg name =>
              obtain ⟨v, hv, happly⟩ := Option.bind_eq_some_iff.mp hstep
              exact .name hv happly hrest
          | modname name =>
              obtain ⟨v, hv, happly⟩ := Option.bind_eq_some_iff.mp hstep
              exact .name hv happly hrest
          | thread name =>
              obtain ⟨v, hv, happly⟩ := Option.bind_eq_some_iff.mp hstep
              exact .name hv happly hrest
          | bracket inside =>
              obtain ⟨v, hv, happly⟩ := Option.bind_eq_some_iff.mp hstep
              rw [parseLine_eq] at hv
              obtain ⟨st₀, hfold₀, rfl⟩ := Option.map_eq_some_iff.mp hv
              have hinside : Passes m .start (scan inside) st₀ :=
                ihn inside.length (hlength inside List.mem_cons_self)
                  (fun inner hmem => (fits_of_mem_scan hmem).bracket inner rfl) hfold₀
              exact .bracket hinside happly hrest
          | bad => cases hstep

/-- A text has a value exactly if its tokens pass the checks. -/
theorem parseLine_iff :
    parseLine m s = some v ↔ ∃ st, Passes m .start (scan s) st ∧ st.val = v := by
  rw [parseLine_eq, Option.map_eq_some_iff]
  constructor
  · rintro ⟨st, hfold, hv⟩
    exact ⟨st, passes_of_foldlM s.length (fun inside hmem => (fits_of_mem_scan hmem).bracket inside rfl) hfold, hv⟩
  · rintro ⟨st, hpasses, hv⟩
    exact ⟨st, hpasses.foldlM, hv⟩

/-- A token with which neither of the two is the matter. -/
def Token.Sound (k : Kernel) (m : Machine) : Token → Prop
  | .modname name => k.ModuleNamed name
  | .bracket inside => ¬Slip k (scan inside) ∧ ¬Refused k m (scan inside)
  | t => ¬t.Unknown k m

/-- What an operand with its prefixes looks like: it ends in the operand, and nothing is the matter
with it. -/
structure OperandShape (k : Kernel) (m : Machine) (ts : List Token) : Prop where
  last : ∃ t ∈ ts.getLast?, t.IsOperand
  head : ∀ op, ts.head? ≠ some (.operator op)
  chain : ts.IsChain Token.MayPrecede
  order : ts.IsChain Token.MayFollow
  tokens : ∀ t ∈ ts, t.Sound k m

theorem OperandShape.not_slip (h : OperandShape k m ts) : ¬Slip k ts := by
  intro hslip
  obtain ⟨t, ht, hoperand⟩ := h.last
  cases hslip with
  | last hlast => exact hlast t ht hoperand
  | side hside => exact hside h.chain
  | modname hmem hnot => exact hnot (h.tokens _ hmem)
  | bracket hmem hinside => exact (h.tokens _ hmem).1 hinside

theorem OperandShape.not_refused (h : OperandShape k m ts) : ¬Refused k m ts := by
  intro hrefused
  cases hrefused with
  | @unknown _ t hmem hunknown =>
      have hsound := h.tokens t hmem
      cases t with
      | reg name => exact hsound hunknown
      | thread name => exact hsound hunknown
      | bad => exact hsound trivial
      | _ => exact hunknown
  | first hfirst => exact h.head _ hfirst
  | behind hbehind => exact hbehind h.order
  | bracket hmem hinside => exact (h.tokens _ hmem).2 hinside

theorem operandShape_singleton (ht : t.IsOperand) (hsound : t.Sound k m) : OperandShape k m [t] where
  last := ⟨t, rfl, ht⟩
  head := fun op hop => by
    rw [Option.some.inj hop] at ht
    exact ht
  chain := .singleton t
  order := .singleton t
  tokens := List.forall_mem_singleton.mpr hsound

theorem OperandShape.prefixed (h : OperandShape k m ts) (ht : t = .star ∨ t = .tilde) :
    OperandShape k m (t :: ts) where
  last := by
    obtain ⟨u, hu, hoperand⟩ := h.last
    refine ⟨u, ?_, hoperand⟩
    rw [List.getLast?_cons, hu]
    rfl
  head := fun op hop => by
    rcases ht with rfl | rfl
    · cases hop
    · cases hop
  chain := by
    refine List.isChain_cons.mpr ⟨fun u _ hoperand => ?_, h.chain⟩
    rcases ht with rfl | rfl
    · exact absurd hoperand id
    · exact absurd hoperand id
  order := List.isChain_cons.mpr ⟨fun u hu _ op heq => h.head op (heq ▸ hu), h.order⟩
  tokens := by
    refine List.forall_mem_cons.mpr ⟨?_, h.tokens⟩
    rcases ht with rfl | rfl
    · exact id
    · exact id

/-- An operator joins two of them. -/
theorem OperandShape.joined (h : OperandShape k m ts) (hu : u.IsOperator)
    (h' : OperandShape k m us) : OperandShape k m (ts ++ u :: us) where
  last := by
    obtain ⟨t, ht, hoperand⟩ := h'.last
    refine ⟨t, ?_, hoperand⟩
    rw [List.getLast?_append, List.getLast?_cons, ht]
    rfl
  head := by
    obtain ⟨t, ht, -⟩ := h.last
    obtain ⟨w, ts, rfl⟩ := List.exists_cons_of_ne_nil (List.ne_nil_of_mem (List.mem_of_getLast? ht))
    exact h.head
  chain := by
    have hnot : ¬u.IsOperand ∧ u ≠ .tilde := by
      cases u with
      | star => exact ⟨id, nofun⟩
      | operator op => exact ⟨id, nofun⟩
      | _ => exact absurd hu id
    refine List.isChain_append.mpr ⟨h.chain, List.isChain_cons.mpr ⟨fun v _ hoperand => ?_, h'.chain⟩, ?_⟩
    · exact absurd hoperand hnot.1
    · rintro t - v hv -
      rw [← Option.some.inj hv]
      exact hnot
  order := by
    obtain ⟨t, ht, hoperand⟩ := h.last
    refine List.isChain_append.mpr ⟨h.order,
      List.isChain_cons.mpr ⟨fun v hv _ op heq => h'.head op (heq ▸ hv), h'.order⟩, ?_⟩
    rintro t' ht' v - hnot
    rw [← Option.some.inj (ht.symm.trans ht')] at hnot
    exact absurd hoperand hnot
  tokens := by
    refine List.forall_mem_append.mpr ⟨h.tokens, List.forall_mem_cons.mpr ⟨?_, h'.tokens⟩⟩
    cases u with
    | star => exact id
    | operator op => exact id
    | _ => exact absurd hu id

theorem Grammar.shape (h : Grammar k m kind ts) : OperandShape k m ts := by
  induction h with
  | number n => exact operandShape_singleton trivial id
  | reg h => exact operandShape_singleton trivial (not_not_intro h)
  | modname h => exact operandShape_singleton trivial h
  | thread h => exact operandShape_singleton trivial (not_not_intro h)
  | bracket h ih => exact operandShape_singleton trivial ⟨ih.not_slip, ih.not_refused⟩
  | star h ih => exact ih.prefixed (.inl rfl)
  | tilde h ih => exact ih.prefixed (.inr rfl)
  | first h ih => exact ih
  | more he hop ho ihe iho => exact ihe.joined hop iho

/-- What can stand behind an expression. -/
def Continues (k : Kernel) (m : Machine) (ts : List Token) : Prop :=
  ∀ es, Grammar k m .expr es → Grammar k m .expr (es ++ ts)

theorem continues_nil : Continues k m [] := fun es hes => by
  rw [List.append_nil]
  exact hes

theorem Continues.operator {vs : List Token} (hu : u.IsOperator) (hus : Grammar k m .operand us)
    (hvs : Continues k m vs) : Continues k m (u :: (us ++ vs)) := by
  intro es hes
  have happend : es ++ u :: (us ++ vs) = es ++ u :: us ++ vs := by
    rw [List.append_assoc, List.cons_append]
  rw [happend]
  exact hvs _ (.more hes hu hus)

/-- Tokens that end in an operand. -/
def Ends (ts : List Token) : Prop := ∃ t ∈ ts.getLast?, t.IsOperand

theorem ends_tail (h : Ends (t :: ts)) : ts = [] ∨ Ends ts := by
  refine (eq_or_ne ts []).imp_right fun hne => ?_
  obtain ⟨u, hu, hoperand⟩ := h
  obtain ⟨v, hv⟩ := Option.ne_none_iff_exists'.mp (List.getLast?_eq_none_iff.not.mpr hne)
  rw [List.getLast?_cons, hv, Option.getD_some] at hu
  exact ⟨v, hv, Option.some.inj hu ▸ hoperand⟩

theorem ends_behind (ht : ¬t.IsOperand) (h : Ends (t :: ts)) : Ends ts := by
  rcases ends_tail h with rfl | hends
  · obtain ⟨u, hu, hoperand⟩ := h
    rw [← Option.some.inj hu] at hoperand
    exact absurd hoperand ht
  · exact hends

/-- What tokens make in their order: an operand and what can stand behind it if an operand is due,
else what can stand behind the expression that is there. -/
structure Behind (k : Kernel) (m : Machine) (ts : List Token) : Prop where
  due : Ends ts → (∀ op, ts.head? ≠ some (.operator op)) →
    ∃ us vs, ts = us ++ vs ∧ Grammar k m .operand us ∧ Continues k m vs
  done : ts = [] ∨ Ends ts → (∀ t ∈ ts.head?, ¬t.IsOperand ∧ t ≠ .tilde) → Continues k m ts

theorem behind_operand (ht : t.IsOperand) (hgrammar : Grammar k m .operand [t])
    (hside : ∀ u ∈ ts.head?, t.MayPrecede u) (h : Behind k m ts) : Behind k m (t :: ts) where
  due := fun hends _ => ⟨[t], ts, rfl, hgrammar, h.done (ends_tail hends) fun u hu => hside u hu ht⟩
  done := fun _ hhead => absurd ht (hhead t rfl).1

theorem continues_operator (hu : u.IsOperator) (hnot : ¬u.IsOperand)
    (horder : ∀ v ∈ ts.head?, u.MayFollow v) (h : Behind k m ts) (hends : Ends (u :: ts)) :
    Continues k m (u :: ts) := by
  obtain ⟨us, vs, rfl, hus, hvs⟩ :=
    h.due (ends_behind hnot hends) fun op hop => horder _ hop hnot op rfl
  exact hvs.operator hu hus

theorem behind_of_order (hoperand : ∀ t ∈ ts, t.IsOperand → Grammar k m .operand [t])
    (hbad : .bad ∉ ts) (hside : ts.IsChain Token.MayPrecede) (horder : ts.IsChain Token.MayFollow) :
    Behind k m ts := by
  induction ts with
  | nil => exact ⟨fun ⟨_, hu, _⟩ => absurd hu nofun, fun _ _ => continues_nil⟩
  | cons t ts ih =>
      obtain ⟨hside, hsides⟩ := List.isChain_cons.mp hside
      obtain ⟨horder, horders⟩ := List.isChain_cons.mp horder
      have hrest := ih (fun u hu => hoperand u (List.mem_cons_of_mem _ hu))
        (List.not_mem_of_not_mem_cons hbad) hsides horders
      -- behind a prefix an operand is due as before it
      have hprefix : ¬t.IsOperand → Ends (t :: ts) →
          ∃ us vs, ts = us ++ vs ∧ Grammar k m .operand us ∧ Continues k m vs := fun ht hends =>
        hrest.due (ends_behind ht hends) fun op hop => horder _ hop ht op rfl
      cases t with
      | star =>
          refine ⟨fun hends _ => ?_, fun hends _ => ?_⟩
          · obtain ⟨us, vs, rfl, hus, hvs⟩ := hprefix id hends
            exact ⟨_ :: us, vs, rfl, .star hus, hvs⟩
          · exact continues_operator trivial id horder hrest
              (hends.resolve_left (List.cons_ne_nil _ _))
      | tilde =>
          refine ⟨fun hends _ => ?_, fun _ hhead => absurd rfl (hhead _ rfl).2⟩
          obtain ⟨us, vs, rfl, hus, hvs⟩ := hprefix id hends
          exact ⟨_ :: us, vs, rfl, .tilde hus, hvs⟩
      | operator op =>
          refine ⟨fun _ hhead => absurd rfl (hhead op), fun hends _ => ?_⟩
          exact continues_operator trivial id horder hrest (hends.resolve_left (List.cons_ne_nil _ _))
      | bad => exact absurd List.mem_cons_self hbad
      | _ => exact behind_operand trivial (hoperand _ List.mem_cons_self trivial) hside hrest

theorem wellFormed_iff_tokens :
    WellFormed k m s ↔ ¬Slip k (scan s) ∧ ¬Refused k m (scan s) := by
  refine ⟨fun hwell => ⟨hwell.shape.not_slip, hwell.shape.not_refused⟩, ?_⟩
  induction hn : s.length using Nat.strong_induction_on generalizing s with
  | _ n ih =>
      subst hn
      rintro ⟨hslip, hrefused⟩
      have hoperand : ∀ t ∈ scan s, t.IsOperand → Grammar k m .operand [t] := by
        intro t hmem ht
        have hknown : ¬t.Unknown k m := fun hunknown => hrefused (.unknown hmem hunknown)
        cases t with
        | number n => exact .number n
        | reg name => exact .reg (not_not.mp hknown)
        | modname name => exact .modname (not_not.mp fun hnot => hslip (.modname hmem hnot))
        | thread name => exact .thread (not_not.mp hknown)
        | bracket inside =>
            exact .bracket (ih _ ((fits_of_mem_scan hmem).bracket inside rfl) rfl
              ⟨fun h => hslip (.bracket hmem h), fun h => hrefused (.bracket hmem h)⟩)
        | _ => exact absurd ht id
      have hends : Ends (scan s) := by
        by_contra hlast
        exact hslip (.last fun t ht hop => hlast ⟨t, ht, hop⟩)
      obtain ⟨us, vs, heq, hus, hvs⟩ :=
        (behind_of_order hoperand (fun hmem => hrefused (.unknown hmem trivial))
          (not_not.mp fun h => hslip (.side h)) (not_not.mp fun h => hrefused (.behind h))).due
          hends fun op hop => hrefused (.first hop)
      rw [WellFormed, heq]
      exact hvs us (.first hus)

/-- The tokens that pass are known, and their operators in order where no operand has a `~`
behind it. -/
structure Orderly (k : Kernel) (m : Machine) (st : ParseState) (ts : List Token) : Prop where
  known : ∀ t ∈ ts, ¬t.Unknown k m
  head : st.op ≠ .none → ∀ op, ts.head? ≠ some (.operator op)
  order : (st.op = .none → ts.head? ≠ some .tilde) → ts.IsChain Token.MayPrecede →
    ts.IsChain Token.MayFollow
  brackets : ∀ inside, .bracket inside ∈ ts → ¬Slip k (scan inside) → ¬Refused k m (scan inside)

theorem Orderly.connective {st₁ : ParseState} (ht : ¬t.IsOperand) (hknown : ¬t.Unknown k m)
    (hhead : st.op ≠ .none → ∀ op, t ≠ .operator op)
    (hst₁ : (st.op = .none → t ≠ .tilde) → st₁.op ≠ .none) (h : Orderly k m st₁ ts) :
    Orderly k m st (t :: ts) where
  known := List.forall_mem_cons.mpr ⟨hknown, h.known⟩
  head := fun hop op heq => hhead hop op (Option.some.inj heq)
  order := fun htilde hchain => by
    have hop := hst₁ fun hnone heq => htilde hnone (congrArg some heq)
    refine List.isChain_cons.mpr ⟨fun u hu _ op heq => h.head hop op (heq ▸ hu), ?_⟩
    exact h.order (fun hnone => absurd hnone hop) (List.isChain_cons.mp hchain).2
  brackets := fun inside hmem => by
    refine h.brackets inside ((List.mem_cons.mp hmem).resolve_left fun heq => ht ?_)
    rw [← heq]
    trivial

theorem Orderly.operand {st₁ : ParseState} (ht : t.IsOperand) (hknown : ¬t.Unknown k m)
    (hbracket : ∀ inside, t = .bracket inside → ¬Slip k (scan inside) → ¬Refused k m (scan inside))
    (h : Orderly k m st₁ ts) : Orderly k m st (t :: ts) where
  known := List.forall_mem_cons.mpr ⟨hknown, h.known⟩
  head := fun _ op heq => by
    rw [Option.some.inj heq] at ht
    exact ht
  order := fun _ hchain => by
    obtain ⟨hfirst, hchain⟩ := List.isChain_cons.mp hchain
    exact List.isChain_cons.mpr ⟨fun u _ hnot => absurd ht hnot,
      h.order (fun _ heq => (hfirst .tilde heq ht).2 rfl) hchain⟩
  brackets := fun inside hmem => by
    rcases List.mem_cons.mp hmem with heq | hmem
    · exact hbracket inside heq.symm
    · exact h.brackets inside hmem

theorem Orderly.not_refused (h : Orderly k m st ts) (hop : st.op ≠ .none) (hslip : ¬Slip k ts) :
    ¬Refused k m ts := by
  intro hrefused
  cases hrefused with
  | unknown hmem hunknown => exact h.known _ hmem hunknown
  | first hfirst => exact h.head hop _ hfirst
  | behind hbehind =>
      exact hbehind (h.order (fun hnone => absurd hnone hop) (not_not.mp fun hside => hslip (.side hside)))
  | bracket hmem hinside => exact h.brackets _ hmem (fun hin => hslip (.bracket hmem hin)) hinside

theorem Passes.orderly (h : Passes (k.machine m) st ts st')
    (hops : ∀ op, .operator op ∈ ts → op ≠ .none) : Orderly k (k.machine m) st ts := by
  induction h with
  | nil st =>
      refine ⟨fun _ hmem => absurd hmem List.not_mem_nil, fun _ op hop => ?_, fun _ _ => .nil,
        fun _ hmem => absurd hmem List.not_mem_nil⟩
      cases hop
  | times h hrest ih =>
      have hrest := ih fun op hmem => hops op (List.mem_cons_of_mem _ hmem)
      refine hrest.connective id id (fun hop => absurd h hop) ?_
      exact fun _ => nofun
  | deref h hrest ih =>
      have hrest := ih fun op hmem => hops op (List.mem_cons_of_mem _ hmem)
      refine hrest.connective id id (fun _ _ => nofun) ?_
      exact fun _ => h
  | not hrest ih =>
      have hrest := ih fun op hmem => hops op (List.mem_cons_of_mem _ hmem)
      refine hrest.connective id id (fun _ _ => nofun) ?_
      exact fun htilde hop => htilde hop rfl
  | operator h hrest ih =>
      have hrest := ih fun op hmem => hops op (List.mem_cons_of_mem _ hmem)
      exact hrest.connective id id (fun hop => absurd h hop) fun _ => hops _ List.mem_cons_self
  | number h happly hrest ih =>
      have hrest := ih fun op hmem => hops op (List.mem_cons_of_mem _ hmem)
      exact hrest.operand trivial id nofun
  | @name st st₁ st' t ts v h happly hrest ih =>
      have hrest := ih fun op hmem => hops op (List.mem_cons_of_mem _ hmem)
      cases t with
      | reg name =>
          exact hrest.operand trivial (not_not_intro (Option.isSome_iff_exists.mpr ⟨v, h⟩)) nofun
      | modname name => exact hrest.operand trivial id nofun
      | thread name =>
          have hnamed := Kernel.getThreadaddr_isSome.mp (Option.isSome_iff_exists.mpr ⟨v, h⟩)
          exact hrest.operand trivial (not_not_intro hnamed) nofun
      | _ => cases h
  | @bracket st st₀ st₁ st' inside ts hinside happly hrest ihinside ih =>
      have hrest := ih fun op hmem => hops op (List.mem_cons_of_mem _ hmem)
      have horderly := ihinside fun op hmem => (fits_of_mem_scan hmem).operator op rfl
      refine hrest.operand trivial id fun inner heq => ?_
      rw [← Token.bracket.inj heq]
      exact horderly.not_refused (by decide)

/-- A text that passes is an expression exactly if nothing slips in it. -/
theorem wellFormed_iff (h : Passes (k.machine m) .start (scan s) st) :
    WellFormed k (k.machine m) s ↔ ¬Slip k (scan s) := by
  have horderly := h.orderly fun op hmem => (fits_of_mem_scan hmem).operator op rfl
  rw [wellFormed_iff_tokens, and_iff_left_of_imp (horderly.not_refused (by decide))]

end

end PsplinkUsb.Psplink.AddressTokens
