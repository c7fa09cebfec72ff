import Mathlib.Data.BitVec
import PsplinkUsb.Library.Numerals
import PsplinkUsb.Psplink.ProgramMemory

namespace PsplinkUsb.Psplink.DecodeAddr

open PsplinkUsb.Library.Ascii
open PsplinkUsb.Library.Numerals
open PsplinkUsb.Psplink.ProgramMemory (Word)

abbrev Bytes := List UInt8

def text (s : String) : Bytes := s.toByteArray.data.toList

def star : UInt8 := 0x2A
def tilde : UInt8 := 0x7E
def dollar : UInt8 := 0x24
def atSign : UInt8 := 0x40
def percent : UInt8 := 0x25
def openParen : UInt8 := 0x28
def closeParen : UInt8 := 0x29
def slash : UInt8 := 0x2F
def ampersand : UInt8 := 0x26
def bar : UInt8 := 0x7C
def caret : UInt8 := 0x5E
def equals : UInt8 := 0x3D
def exclamation : UInt8 := 0x21
def less : UInt8 := 0x3C
def greater : UInt8 := 0x3E

/-- `struct mem_entry`. -/
structure MemEntry where
  addr : Word
  size : Word
  attrib : Word
  v1only : Bool

def memAttribRead : Word := 1 <<< 0
def memAttribWord : Word := 1 <<< 5
def memAttribAll : Word := 0xFFFFFFFF

/-- `g_memareas`, up to the entry without a size. -/
def memAreas : List MemEntry :=
  [⟨0x00010000, 16 * 1024, memAttribAll, false⟩,
   ⟨0x40010000, 16 * 1024, memAttribAll, false⟩,
   ⟨0x04000000, 2 * 1024 * 1024, memAttribAll, false⟩,
   ⟨0x44000000, 2 * 1024 * 1024, memAttribAll, false⟩,
   ⟨0x08800000, 24 * 1024 * 1024, memAttribAll, false⟩,
   ⟨0x48800000, 24 * 1024 * 1024, memAttribAll, false⟩,
   ⟨0x88000000, 4 * 1024 * 1024, memAttribAll, false⟩,
   ⟨0xA8000000, 4 * 1024 * 1024, memAttribAll, false⟩,
   ⟨0x88400000, 4 * 1024 * 1024, memAttribAll, true⟩,
   ⟨0xA8400000, 4 * 1024 * 1024, memAttribAll, true⟩,
   ⟨0x88800000, 24 * 1024 * 1024, memAttribAll, false⟩,
   ⟨0xA8800000, 24 * 1024 * 1024, memAttribAll, false⟩,
   ⟨0xBFC00000, 1 * 1024 * 1024, memAttribAll, false⟩]

/-- The registers of the current exception, with the address that is found for the module its
`epc` is in. -/
structure Exception where
  epc : Word
  fsr : Word
  r : Fin 32 → Word
  modaddr : Word

/-- What an expression is decoded over: the memory and its protection, the exception if there is
one, and the addresses that stand for the texts of modules and threads. -/
structure Machine where
  lw : Word → Word
  protoff : Bool
  isv1 : Bool
  currex : Option Exception
  modaddr : Bytes → Option Word
  threadaddr : Bytes → Option Word

def regName : List String :=
  ["zr", "at", "v0", "v1", "a0", "a1", "a2", "a3", "t0", "t1", "t2", "t3", "t4", "t5", "t6", "t7",
   "s0", "s1", "s2", "s3", "s4", "s5", "s6", "s7", "t8", "t9", "k0", "k1", "gp", "sp", "fp", "ra"]

inductive Operator where
  | start | none | plus | minus | and | or | xor | shl | shr | land | lor | neq | eq | lt | leq | gt
  | geq | mul | div
  deriving DecidableEq

def truth (p : Prop) [Decidable p] : Word := if p then 1 else 0

/-- A shift counts with the low five bits, as the processor does. -/
def doOp (op : Operator) (not : ℕ) (left right : Word) : Word :=
  let right := (fun right => ~~~right)^[not] right
  match op with
  | .plus => left + right
  | .minus => left - right
  | .and => left &&& right
  | .or => left ||| right
  | .xor => left ^^^ right
  | .shl => left <<< (right.toNat % 32)
  | .shr => left >>> (right.toNat % 32)
  | .land => truth (left ≠ 0 ∧ right ≠ 0)
  | .lor => truth (left ≠ 0 ∨ right ≠ 0)
  | .neq => truth (left ≠ right)
  | .eq => truth (left = right)
  | .lt => truth (left < right)
  | .gt => truth (right < left)
  | .leq => truth (left ≤ right)
  | .geq => truth (right ≤ left)
  | .mul => left * right
  | .div => if right ≠ 0 then left / right else 1
  | .start => right
  | .none => right

def isASpace (c : UInt8) : Bool := c = 0x20 ∨ c = 0x09 ∨ c = 0x0A ∨ c = 0x0D

/-- Up to 15 letters and digits, and what is behind them. -/
def regText (line : Bytes) : Bytes × Bytes :=
  let buf := (line.take 15).takeWhile isAlnum
  (buf, line.drop buf.length)

/-- What stands before a character, and behind it. -/
def upTo (c : UInt8) : Bytes → Option (Bytes × Bytes)
  | [] => none
  | x :: line => if x = c then some ([], line) else (upTo c line).map fun p => (x :: p.1, p.2)

/-- What stands before the bracket that closes all that are open, and behind it. -/
def closing : ℕ → Bytes → Option (Bytes × Bytes)
  | _, [] => none
  | depth, c :: line =>
      if c = openParen then (closing (depth + 1) line).map fun p => (c :: p.1, p.2)
      else if c = closeParen then
        if depth = 1 then some ([], line)
        else (closing (depth - 1) line).map fun p => (c :: p.1, p.2)
      else (closing depth line).map fun p => (c :: p.1, p.2)

/-- `strtoul` of a number: where there is none, it is 0 and nothing is read. -/
def readNumber (line : Bytes) : Word × Bytes :=
  match strtoul32 0 line with
  | some (n, line) => (BitVec.ofNat 32 n, line)
  | none => (0, line)

/-- One operator for a character alone, another one when `next` is behind it. -/
def oneOrTwo (next : UInt8) (two : Operator) (one : Option Operator) (line : Bytes) :
    Option (Operator × Bytes) :=
  if line.head? = some next then some (two, line.tail) else one.map fun op => (op, line)

/-- The `switch` over the operators. -/
def readOperator (c : UInt8) (line : Bytes) : Option (Operator × Bytes) :=
  if c = plus then some (.plus, line)
  else if c = minus then some (.minus, line)
  else if c = ampersand then oneOrTwo ampersand .land (some .and) line
  else if c = bar then oneOrTwo bar .lor (some .or) line
  else if c = caret then some (.xor, line)
  else if c = equals then oneOrTwo equals .eq none line
  else if c = exclamation then oneOrTwo equals .neq none line
  else if c = less then
    if line.head? = some less then some (.shl, line.tail) else oneOrTwo equals .leq (some .lt) line
  else if c = greater then
    if line.head? = some greater then some (.shr, line.tail)
    else oneOrTwo equals .geq (some .gt) line
  else if c = star then some (.mul, line)
  else if c = slash then some (.div, line)
  else none

structure ParseState where
  op : Operator
  deref : ℕ
  not : ℕ
  val : Word

def ParseState.start : ParseState := { op := .start, deref := 0, not := 0, val := 0 }

namespace Machine

variable (m : Machine)

def memValidate (addr attrib : Word) : ℕ :=
  let sizeLeft :=
    match memAreas.find? fun entry => entry.addr ≤ addr ∧ addr < entry.addr + entry.size with
    | some entry =>
        if entry.attrib &&& attrib = attrib ∧ (¬entry.v1only ∨ m.isv1) then
          entry.size.toNat - (addr - entry.addr).toNat
        else 0
    | none => 0
  if m.protoff ∧ sizeLeft = 0 then 256 else sizeLeft

/-- The loop of `deref_addr`. -/
def derefAddr : ℕ → Word → Option Word
  | 0, val => some val
  | deref + 1, val =>
      if val &&& 3 ≠ 0 then none
      else if m.memValidate val (memAttribRead ||| memAttribWord) < 4 then none
      else derefAddr deref (m.lw val)

def exceptionGetReg (reg : Bytes) : Option Word :=
  match m.currex with
  | none => none
  | some ex =>
      if reg = text "epc" then some ex.epc
      else if reg = text "fsr" then some ex.fsr
      else if reg = text "mod" then some ex.modaddr
      else ((List.finRange 32).find? fun i : Fin 32 => text (regName.getD i.val "") = reg).map ex.r

/-- The end of a round of `parse_line`, with the value of an operand. -/
def apply (st : ParseState) (temp : Word) : Option ParseState :=
  (m.derefAddr st.deref temp).map fun temp =>
    { op := .none, deref := 0, not := 0, val := doOp st.op st.not st.val temp }

variable {m} {st st' : ParseState} {temp : Word}

theorem apply_op (h : m.apply st temp = some st') : st'.op = .none := by
  obtain ⟨temp', -, rfl⟩ := Option.map_eq_some_iff.mp h
  rfl

end Machine

section

variable {line inside behind : Bytes} {depth : ℕ} {c : UInt8}

theorem length_readNumber_le (line : Bytes) : (readNumber line).2.length ≤ line.length := by
  rw [readNumber]
  split
  · rename_i n rest hread
    obtain ⟨p, hint, heq⟩ := Option.map_eq_some_iff.mp hread
    have hle := length_readInt_le hint
    rw [congrArg Prod.snd heq] at hle
    exact hle
  · exact le_refl _

theorem length_regText_le (line : Bytes) : (regText line).2.length ≤ line.length := by
  rw [regText, List.length_drop]
  exact Nat.sub_le _ _

theorem length_upTo (h : upTo c line = some (inside, behind)) : behind.length < line.length := by
  induction line generalizing inside with
  | nil => cases h
  | cons x line ih =>
      rw [upTo] at h
      split at h
      · cases h
        exact Nat.lt_succ_self _
      · obtain ⟨⟨inside', behind'⟩, hrest, heq⟩ := Option.map_eq_some_iff.mp h
        cases heq
        exact (ih hrest).trans (Nat.lt_succ_self _)

theorem length_closing (h : closing depth line = some (inside, behind)) :
    inside.length + behind.length < line.length := by
  induction line generalizing inside depth with
  | nil => cases h
  | cons c line ih =>
      have hrest : ∀ depth', ((closing depth' line).map fun p => (c :: p.1, p.2)) =
          some (inside, behind) → inside.length + behind.length < (c :: line).length := by
        intro depth' hmap
        obtain ⟨⟨inside', behind'⟩, hclosing, heq⟩ := Option.map_eq_some_iff.mp hmap
        cases heq
        have hlt := ih hclosing
        dsimp only at hlt ⊢
        rw [List.length_cons, List.length_cons]
        omega
      rw [closing] at h
      split_ifs at h
      · exact hrest _ h
      · cases h
        rw [List.length_nil, List.length_cons]
        omega
      · exact hrest _ h
      · exact hrest _ h

theorem length_tail_le (line : Bytes) : line.tail.length ≤ line.length := by
  rw [List.length_tail]
  exact Nat.sub_le _ _

theorem length_oneOrTwo {next : UInt8} {two op : Operator} {one : Option Operator}
    (h : oneOrTwo next two one line = some (op, behind)) : behind.length ≤ line.length := by
  rw [oneOrTwo] at h
  split at h
  · cases h
    exact length_tail_le line
  · obtain ⟨op', -, heq⟩ := Option.map_eq_some_iff.mp h
    exact (congrArg (fun p => p.2.length) heq).symm.le

theorem of_ite {α : Type} {p q : Prop} [Decidable p] {a b : Option α} {r : α}
    (ha : a = some r → q) (hb : b = some r → q) (h : (if p then a else b) = some r) : q := by
  split at h
  · exact ha h
  · exact hb h

theorem length_readOperator {op : Operator} (h : readOperator c line = some (op, behind)) :
    behind.length ≤ line.length := by
  have hone : ∀ op', some (op', line) = some (op, behind) → behind.length ≤ line.length :=
    fun op' heq => (congrArg (fun p => p.2.length) (Option.some.inj heq)).symm.le
  have htwo : ∀ op', some (op', line.tail) = some (op, behind) → behind.length ≤ line.length :=
    fun op' heq => (congrArg (fun p => p.2.length) (Option.some.inj heq)).symm.le.trans
      (length_tail_le line)
  have hequals : ∀ {two one}, oneOrTwo equals two one line = some (op, behind) →
      behind.length ≤ line.length := length_oneOrTwo
  refine of_ite (hone _) (of_ite (hone _) (of_ite length_oneOrTwo (of_ite length_oneOrTwo
    (of_ite (hone _) (of_ite hequals (of_ite hequals ?_)))))) h
  exact of_ite (of_ite (htwo _) hequals) (of_ite (of_ite (htwo _) hequals)
    (of_ite (hone _) (of_ite (hone _) nofun)))

end

/-- The loop of `parse_line`: nothing is the return value 0. -/
def parseLoop (m : Machine) (line : Bytes) (st : ParseState) : Option Word :=
  match line with
  | [] => some st.val
  | c :: line =>
      if isASpace c then parseLoop m line st
      else if c = star ∧ (st.op = .start ∨ st.op ≠ .none) then
        parseLoop m line { st with deref := st.deref + 1 }
      else if c = tilde then parseLoop m line { st with not := st.not + 1 }
      else if c = dollar then
        match m.exceptionGetReg (regText line).1 with
        | none => none
        | some temp =>
            match m.apply st temp with
            | none => none
            | some st => parseLoop m (regText line).2 st
      else if c = atSign ∨ c = percent then
        match _hname : upTo c line with
        | none => none
        | some (name, behind) =>
            match if c = atSign then m.modaddr name else m.threadaddr name with
            | none => none
            | some temp =>
                match m.apply st temp with
                | none => none
                | some st => parseLoop m behind st
      else if c = openParen then
        match _hclosing : closing 1 line with
        | none => none
        | some (inside, behind) =>
            match parseLoop m inside .start with
            | none => none
            | some temp =>
                match m.apply st temp with
                | none => none
                | some st => parseLoop m behind st
      else if isXDigit c then
        if st.op = .none then none
        else
          match _hst : m.apply st (readNumber (c :: line)).1 with
          | none => none
          | some st => parseLoop m (readNumber (c :: line)).2 st
      else if st.op ≠ .none then none
      else
        match _hop : readOperator c line with
        | none => none
        | some (op, behind) => parseLoop m behind { st with op := op }
termination_by (line.length, if st.op = .none then 0 else 1)
decreasing_by
  · exact .left _ _ (Nat.lt_succ_self _)
  · exact .left _ _ (Nat.lt_succ_self _)
  · exact .left _ _ (Nat.lt_succ_self _)
  · exact .left _ _ (Nat.lt_succ_of_le (length_regText_le line))
  · exact .left _ _ ((length_upTo _hname).trans (Nat.lt_succ_self _))
  · have hlt := length_closing _hclosing
    exact .left _ _ (by rw [List.length_cons]; omega)
  · have hlt := length_closing _hclosing
    exact .left _ _ (by rw [List.length_cons]; omega)
  · -- a number that is not one leaves the text, but no operator is pending behind it
    rename_i hpending
    rw [if_pos (Machine.apply_op _hst), if_neg hpending]
    rcases (length_readNumber_le (c :: line)).lt_or_eq with hlt | heq
    · exact .left _ _ hlt
    · rw [heq]
      exact .right _ Nat.zero_lt_one
  · exact .left _ _ (Nat.lt_succ_of_le (length_readOperator _hop))

/-- `parse_line`. -/
def parseLine (m : Machine) (line : Bytes) : Option Word := parseLoop m line .start

def memDecode (m : Machine) (line : Bytes) : Option Word := parseLine m (line.take 1023)

section

variable {m : Machine} {st : ParseState} {c : UInt8} {line : Bytes}

theorem parseLoop_nil : parseLoop m [] st = some st.val := by rw [parseLoop]

theorem parseLoop_space (hc : isASpace c = true) :
    parseLoop m (c :: line) st = parseLoop m line st := by
  rw [parseLoop, if_pos hc]

theorem parseLoop_star (hst : st.op ≠ .none) :
    parseLoop m (star :: line) st = parseLoop m line { st with deref := st.deref + 1 } := by
  rw [parseLoop, if_neg (by decide), if_pos ⟨rfl, .inr hst⟩]

theorem parseLoop_tilde :
    parseLoop m (tilde :: line) st = parseLoop m line { st with not := st.not + 1 } := by
  rw [parseLoop, if_neg (by decide), if_neg fun h => absurd h.1 (by decide), if_pos rfl]

theorem parseLoop_dollar : parseLoop m (dollar :: line) st =
    ((m.exceptionGetReg (regText line).1).bind (m.apply st)).bind
      (parseLoop m (regText line).2) := by
  rw [parseLoop, if_neg (by decide), if_neg fun h => absurd h.1 (by decide), if_neg (by decide),
    if_pos rfl]
  cases m.exceptionGetReg (regText line).1 with
  | none => rfl
  | some temp =>
      rw [Option.bind_some]
      dsimp only
      cases m.apply st temp with
      | none => rfl
      | some st => rfl

theorem parseLoop_name (hc : c = atSign ∨ c = percent) : parseLoop m (c :: line) st =
    (upTo c line).bind fun p =>
      ((if c = atSign then m.modaddr p.1 else m.threadaddr p.1).bind (m.apply st)).bind
        (parseLoop m p.2) := by
  have hspace : ¬isASpace c := by rcases hc with rfl | rfl <;> decide
  have hstar : c ≠ star := by rcases hc with rfl | rfl <;> decide
  have htilde : c ≠ tilde := by rcases hc with rfl | rfl <;> decide
  have hdollar : c ≠ dollar := by rcases hc with rfl | rfl <;> decide
  rw [parseLoop, if_neg hspace, if_neg fun h => hstar h.1, if_neg htilde, if_neg hdollar, if_pos hc]
  split
  · rename_i hnone
    rw [hnone]
    rfl
  · rename_i name behind hsome
    rw [hsome, Option.bind_some]
    dsimp only
    cases (if c = atSign then m.modaddr name else m.threadaddr name) with
    | none => rfl
    | some temp =>
        rw [Option.bind_some]
        dsimp only
        cases m.apply st temp with
        | none => rfl
        | some st => rfl

theorem parseLoop_brackets : parseLoop m (openParen :: line) st =
    (closing 1 line).bind fun p =>
      ((parseLoop m p.1 .start).bind (m.apply st)).bind (parseLoop m p.2) := by
  rw [parseLoop, if_neg (by decide), if_neg fun h => absurd h.1 (by decide), if_neg (by decide),
    if_neg (by decide), if_neg (by decide), if_pos rfl]
  split
  · rename_i hnone
    rw [hnone]
    rfl
  · rename_i inside behind hsome
    rw [hsome, Option.bind_some]
    dsimp only
    cases parseLoop m inside .start with
    | none => rfl
    | some temp =>
        rw [Option.bind_some]
        dsimp only
        cases m.apply st temp with
        | none => rfl
        | some st => rfl

/-- A character that starts none of the operands but a number. -/
structure Plain (c : UInt8) (st : ParseState) : Prop where
  space : ¬isASpace c
  star : ¬(c = star ∧ (st.op = .start ∨ st.op ≠ .none))
  tilde : c ≠ tilde
  dollar : c ≠ dollar
  name : ¬(c = atSign ∨ c = percent)
  openParen : c ≠ openParen

theorem parseLoop_plain (h : Plain c st) : parseLoop m (c :: line) st =
    if isXDigit c then
      if st.op = .none then none
      else (m.apply st (readNumber (c :: line)).1).bind (parseLoop m (readNumber (c :: line)).2)
    else if st.op ≠ .none then none
    else (readOperator c line).bind fun p => parseLoop m p.2 { st with op := p.1 } := by
  rw [parseLoop, if_neg h.space, if_neg h.star, if_neg h.tilde, if_neg h.dollar, if_neg h.name,
    if_neg h.openParen]
  split
  · split
    · rfl
    · cases m.apply st (readNumber (c :: line)).1 with
      | none => rfl
      | some st => rfl
  · split
    · rfl
    · cases readOperator c line with
      | none => rfl
      | some p => rfl

end

end PsplinkUsb.Psplink.DecodeAddr
