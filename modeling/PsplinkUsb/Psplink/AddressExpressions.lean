import PsplinkUsb.Psplink.DecodeAddr

namespace PsplinkUsb.Psplink.AddressExpressions

open PsplinkUsb.Library.Ascii
open PsplinkUsb.Library.Numerals
open PsplinkUsb.Psplink.ProgramMemory (Word)
open PsplinkUsb.Psplink.DecodeAddr

inductive BinOp where
  | plus | minus | and | or | xor | shl | shr | land | lor | eq | neq | lt | leq | gt | geq | mul | div
  deriving DecidableEq

def BinOp.symbol : BinOp → Bytes
  | .plus => text "+"
  | .minus => text "-"
  | .and => text "&"
  | .or => text "|"
  | .xor => text "^"
  | .shl => text "<<"
  | .shr => text ">>"
  | .land => text "&&"
  | .lor => text "||"
  | .eq => text "=="
  | .neq => text "!="
  | .lt => text "<"
  | .leq => text "<="
  | .gt => text ">"
  | .geq => text ">="
  | .mul => text "*"
  | .div => text "/"

/-- The value modulo 2^32; none for a shift by 32 or more, and for a division by zero. -/
def BinOp.value (left right : Word) : BinOp → Option Word
  | .plus => some (left + right)
  | .minus => some (left - right)
  | .and => some (left &&& right)
  | .or => some (left ||| right)
  | .xor => some (left ^^^ right)
  | .shl => if right.toNat < 32 then some (left <<< right.toNat) else none
  | .shr => if right.toNat < 32 then some (left >>> right.toNat) else none
  | .land => some (truth (left ≠ 0 ∧ right ≠ 0))
  | .lor => some (truth (left ≠ 0 ∨ right ≠ 0))
  | .eq => some (truth (left = right))
  | .neq => some (truth (left ≠ right))
  | .lt => some (truth (left.toNat < right.toNat))
  | .leq => some (truth (left.toNat ≤ right.toNat))
  | .gt => some (truth (right.toNat < left.toNat))
  | .geq => some (truth (right.toNat ≤ left.toNat))
  | .mul => some (left * right)
  | .div => if right = 0 then none else some (BitVec.ofNat 32 (left.toNat / right.toNat))

inductive Kind where
  | operand
  | expr

/-- The syntax of operands and of expressions: an expression is an operand with the prefixes in
front of it, or an expression, an operator and such an operand. -/
inductive Syntax : Kind → Type where
  | number (n : ℕ) : Syntax .operand
  | reg (name : Bytes) : Syntax .operand
  | bracket (e : Syntax .expr) : Syntax .operand
  | first (nots derefs : ℕ) (o : Syntax .operand) : Syntax .expr
  | more (e : Syntax .expr) (op : BinOp) (nots derefs : ℕ) (o : Syntax .operand) : Syntax .expr

/-- What an address leads to, over any number of aligned and valid addresses. -/
def chase (m : Machine) : ℕ → Word → Option Word
  | 0, addr => some addr
  | derefs + 1, addr =>
      if addr.toNat % 4 = 0 ∧ 4 ≤ m.memValidate addr (memAttribRead ||| memAttribWord) then
        chase m derefs (m.lw addr)
      else none

def complement (nots : ℕ) (value : Word) : Word := (fun value => ~~~value)^[nots] value

/-- The value, from the left to the right; none if an address that is followed is not aligned or
not valid, a shift too wide, or a divisor zero. -/
def Syntax.eval (m : Machine) {k : Kind} : Syntax k → Option Word
  | .number n => some (BitVec.ofNat 32 n)
  | .reg name => m.exceptionGetReg name
  | .bracket e => e.eval m
  | .first nots derefs o => do
      let value ← o.eval m
      let value ← chase m derefs value
      return complement nots value
  | .more e op nots derefs o => do
      let left ← e.eval m
      let value ← o.eval m
      let value ← chase m derefs value
      op.value left (complement nots value)

/-- A text that starts with a digit, and that `strtoul` reads to the end. -/
def Numeral (n : ℕ) (s : Bytes) : Prop :=
  s.head?.any isDigit = true ∧ strtoul32 0 s = some (n, [])

/-- White space, any number of `~` and then any number of `*`. -/
inductive Prefixes : ℕ → ℕ → Bytes → Prop where
  | nil : Prefixes 0 0 []
  | space {c : UInt8} {nots derefs : ℕ} {s : Bytes} (hc : isASpace c = true)
      (hs : Prefixes nots derefs s) : Prefixes nots derefs (c :: s)
  | deref {derefs : ℕ} {s : Bytes} (hs : Prefixes 0 derefs s) : Prefixes 0 (derefs + 1) (star :: s)
  | not {nots derefs : ℕ} {s : Bytes} (hs : Prefixes nots derefs s) :
      Prefixes (nots + 1) derefs (tilde :: s)

/-- The texts for an expression, with any white space between its parts. -/
inductive Renders : {k : Kind} → Syntax k → Bytes → Prop where
  | number {n : ℕ} {s : Bytes} (h : Numeral n s) : Renders (.number n) s
  | reg (name : Bytes) : Renders (.reg name) (dollar :: name)
  | bracket {e : Syntax .expr} {s : Bytes} (he : Renders e s) :
      Renders (.bracket e) (openParen :: s ++ [closeParen])
  | first {nots derefs : ℕ} {o : Syntax .operand} {p s w : Bytes} (hp : Prefixes nots derefs p)
      (ho : Renders o s) (hw : ∀ c ∈ w, isASpace c = true) :
      Renders (.first nots derefs o) (p ++ s ++ w)
  | more {e : Syntax .expr} {op : BinOp} {nots derefs : ℕ} {o : Syntax .operand} {t p s w : Bytes}
      (he : Renders e t) (hp : Prefixes nots derefs p) (ho : Renders o s)
      (hw : ∀ c ∈ w, isASpace c = true) :
      Renders (.more e op nots derefs o) (t ++ op.symbol ++ p ++ s ++ w)

def BinOp.operator : BinOp → Operator
  | .plus => .plus
  | .minus => .minus
  | .and => .and
  | .or => .or
  | .xor => .xor
  | .shl => .shl
  | .shr => .shr
  | .land => .land
  | .lor => .lor
  | .eq => .eq
  | .neq => .neq
  | .lt => .lt
  | .leq => .leq
  | .gt => .gt
  | .geq => .geq
  | .mul => .mul
  | .div => .div

section

variable {m : Machine} {st : ParseState} {c : UInt8} {line rest s t p w : Bytes} {v : Word}
  {nots derefs depth : ℕ} {op : BinOp}

theorem doOp_complement (op : Operator) (nots : ℕ) (left right : Word) :
    doOp op nots left right = doOp op 0 left (complement nots right) := rfl

theorem doOp_value {left right : Word} (h : op.value left right = some v) :
    doOp op.operator 0 left right = v := by
  cases op with
  | shl =>
      rw [BinOp.value] at h
      split at h
      · rename_i hlt
        rw [← Option.some.inj h]
        exact congrArg (left <<< ·) (Nat.mod_eq_of_lt hlt)
      · cases h
  | shr =>
      rw [BinOp.value] at h
      split at h
      · rename_i hlt
        rw [← Option.some.inj h]
        exact congrArg (left >>> ·) (Nat.mod_eq_of_lt hlt)
      · cases h
  | div =>
      rw [BinOp.value] at h
      split at h
      · cases h
      · rename_i hne
        rw [← Option.some.inj h]
        have hdiv : doOp .div 0 left right = left / right := if_pos hne
        rw [BinOp.operator, hdiv]
        apply BitVec.eq_of_toNat_eq
        have hlt := left.isLt
        have hle := Nat.div_le_self left.toNat right.toNat
        rw [BitVec.toNat_udiv, BitVec.toNat_ofNat, Nat.mod_eq_of_lt (by omega)]
  | _ => exact Option.some.inj h

theorem derefAddr_eq (derefs : ℕ) (addr : Word) : m.derefAddr derefs addr = chase m derefs addr := by
  induction derefs generalizing addr with
  | zero => rfl
  | succ derefs ih =>
      have halign : addr &&& 3 = 0 ↔ addr.toNat % 4 = 0 := by
        have hmod := Nat.and_two_pow_sub_one_eq_mod addr.toNat 2
        have hthree : (3 : Word).toNat = 2 ^ 2 - 1 := rfl
        constructor
        · intro h
          have hnat := congrArg BitVec.toNat h
          rw [BitVec.toNat_and, hthree, hmod] at hnat
          exact hnat
        · intro h
          apply BitVec.eq_of_toNat_eq
          rw [BitVec.toNat_and, hthree, hmod]
          exact h
      rw [Machine.derefAddr, chase, ih]
      by_cases hzero : addr.toNat % 4 = 0
      · rw [if_neg (not_not.mpr (halign.mpr hzero))]
        by_cases hvalid : 4 ≤ m.memValidate addr (memAttribRead ||| memAttribWord)
        · rw [if_neg (Nat.not_lt.mpr hvalid), if_pos ⟨hzero, hvalid⟩]
        · rw [if_pos (Nat.not_le.mp hvalid), if_neg fun h => hvalid h.2]
      · rw [if_pos fun h => hzero (halign.mp h), if_neg fun h => hzero h.1]

theorem parseLoop_spaces (hw : ∀ c ∈ w, isASpace c = true) :
    parseLoop m (w ++ line) st = parseLoop m line st := by
  induction w with
  | nil => rfl
  | cons c w ih =>
      rw [List.cons_append, parseLoop_space (hw c List.mem_cons_self)]
      exact ih fun c hc => hw c (List.mem_cons_of_mem _ hc)

theorem parseLoop_prefixes (hp : Prefixes nots derefs p) (hst : st.op ≠ .none) :
    parseLoop m (p ++ line) st =
      parseLoop m line { st with not := st.not + nots, deref := st.deref + derefs } := by
  induction hp generalizing st with
  | nil => rfl
  | space hc hs ih =>
      rw [List.cons_append, parseLoop_space hc]
      exact ih hst
  | @deref derefs s hs ih =>
      have hcount : st.deref + 1 + derefs = st.deref + (derefs + 1) := by omega
      rw [List.cons_append, parseLoop_star hst, @ih { st with deref := st.deref + 1 } hst, hcount]
  | @not nots derefs s hs ih =>
      have hcount : st.not + 1 + nots = st.not + (nots + 1) := by omega
      rw [List.cons_append, parseLoop_tilde, @ih { st with not := st.not + 1 } hst, hcount]

theorem parseLoop_reg {temp : Word} (hreg : m.exceptionGetReg (regText line).1 = some temp) :
    parseLoop m (dollar :: line) st = (m.apply st temp).bind (parseLoop m (regText line).2) := by
  rw [parseLoop_dollar, hreg, Option.bind_some]

theorem parseLoop_bracket {inside behind : Bytes} {temp : Word}
    (hclosing : closing 1 line = some (inside, behind)) (hinside : parseLine m inside = some temp) :
    parseLoop m (openParen :: line) st = (m.apply st temp).bind (parseLoop m behind) := by
  rw [parseLine] at hinside
  rw [parseLoop_brackets, hclosing, Option.bind_some, hinside, Option.bind_some]

theorem isASpace_iff : isASpace c = true ↔ c ∈ [0x20, 0x09, 0x0A, 0x0D] := by
  simp [isASpace]

theorem not_isASpace_of_isAlnum (hc : isAlnum c = true) : isASpace c = false :=
  Bool.eq_false_iff.mpr fun hspace => not_mem_of_class (by decide) hc (isASpace_iff.mp hspace)

theorem parseLoop_number (hc : isDigit c = true) (hst : st.op ≠ .none) :
    parseLoop m (c :: line) st =
      (m.apply st (readNumber (c :: line)).1).bind (parseLoop m (readNumber (c :: line)).2) := by
  have hspace : isASpace c = false := not_isASpace_of_isAlnum (decide_eq_true (.inl hc))
  have hother : c ∉ [star, tilde, dollar, atSign, percent, openParen] :=
    not_mem_of_class (by decide) hc
  have hhex : isXDigit c = true := decide_eq_true (.inl hc)
  simp only [List.mem_cons, List.not_mem_nil, or_false, not_or] at hother
  obtain ⟨hstar, htilde, hdollar, hat, hpercent, hopen⟩ := hother
  have hplain : Plain c st := ⟨Bool.eq_false_iff.mp hspace, fun h => hstar h.1, htilde, hdollar,
    not_or.mpr ⟨hat, hpercent⟩, hopen⟩
  rw [parseLoop_plain hplain, if_pos hhex, if_neg hst]

theorem oneOrTwo_one {next : UInt8} {two one : Operator} (h : line.head? ≠ some next) :
    oneOrTwo next two (some one) line = some (one, line) := if_neg h

/-- No character behind an operator that would make another one of it. -/
def Apart (rest : Bytes) : Prop := ∀ c ∈ rest.head?, c ∉ [ampersand, bar, equals, less, greater]

theorem Apart.head_ne (h : Apart rest) (hc : c ∈ [ampersand, bar, equals, less, greater]) :
    rest.head? ≠ some c := fun heq => h c heq hc

/-- A character that `parse_line` gets to the operators with. -/
def Operating (c : UInt8) : Prop :=
  isASpace c = false ∧ c ∉ [tilde, dollar, atSign, percent, openParen] ∧ isXDigit c = false

instance : DecidablePred Operating := fun _ => inferInstanceAs (Decidable (_ ∧ _ ∧ _))

theorem readOperator_symbol (op : BinOp) (h : Apart rest) :
    ∃ c line, op.symbol ++ rest = c :: line ∧ Operating c ∧
      readOperator c line = some (op.operator, rest) := by
  cases op with
  | and => exact ⟨ampersand, rest, rfl, by decide, oneOrTwo_one (h.head_ne (by decide))⟩
  | or => exact ⟨bar, rest, rfl, by decide, oneOrTwo_one (h.head_ne (by decide))⟩
  | lt =>
      refine ⟨less, rest, rfl, by decide, ?_⟩
      exact (if_neg (h.head_ne (by decide))).trans (oneOrTwo_one (h.head_ne (by decide)))
  | gt =>
      refine ⟨greater, rest, rfl, by decide, ?_⟩
      exact (if_neg (h.head_ne (by decide))).trans (oneOrTwo_one (h.head_ne (by decide)))
  | _ => exact ⟨_, _, rfl, by decide, rfl⟩

theorem parseLoop_symbol (h : Apart rest) (hst : st.op = .none) :
    parseLoop m (op.symbol ++ rest) st = parseLoop m rest { st with op := op.operator } := by
  obtain ⟨c, line, hsymbol, ⟨hspace, hother, hhex⟩, hread⟩ := readOperator_symbol op h
  simp only [List.mem_cons, List.not_mem_nil, or_false, not_or] at hother
  obtain ⟨htilde, hdollar, hat, hpercent, hopen⟩ := hother
  have hstar : ¬(c = star ∧ (st.op = .start ∨ st.op ≠ .none)) := by
    rintro ⟨-, hop⟩
    rw [hst] at hop
    rcases hop with hop | hop
    · cases hop
    · exact hop rfl
  have hplain : Plain c st := ⟨Bool.eq_false_iff.mp hspace, hstar, htilde, hdollar,
    not_or.mpr ⟨hat, hpercent⟩, hopen⟩
  rw [hsymbol, parseLoop_plain hplain, if_neg (Bool.eq_false_iff.mp hhex), if_neg (not_not.mpr hst),
    hread, Option.bind_some]

/-- What closes the brackets open in front of `s` stands behind it. -/
def Balanced (s : Bytes) : Prop :=
  ∀ depth rest, 1 ≤ depth →
    closing depth (s ++ rest) = (closing depth rest).map fun p => (s ++ p.1, p.2)

theorem balanced_nil : Balanced [] := fun depth rest _ => by
  rw [List.nil_append]
  exact Option.map_id'.symm

theorem Balanced.append (hs : Balanced s) (ht : Balanced t) : Balanced (s ++ t) := by
  intro depth rest hdepth
  rw [List.append_assoc, hs depth (t ++ rest) hdepth, ht depth rest hdepth, Option.map_map]
  congr 1
  funext p
  exact congrArg (·, p.2) (List.append_assoc s t p.1).symm

theorem balanced_plain (hs : ∀ c ∈ s, c ≠ openParen ∧ c ≠ closeParen) : Balanced s := by
  induction s with
  | nil => exact balanced_nil
  | cons c s ih =>
      intro depth rest hdepth
      obtain ⟨hopen, hclose⟩ := hs c List.mem_cons_self
      have hrest := ih (fun c hc => hs c (List.mem_cons_of_mem _ hc)) depth rest hdepth
      rw [List.cons_append, closing, if_neg hopen, if_neg hclose, hrest, Option.map_map]
      rfl

theorem Balanced.bracket (hs : Balanced s) : Balanced (openParen :: s ++ [closeParen]) := by
  intro depth rest hdepth
  have hclose : closing (depth + 1) (closeParen :: rest) =
      (closing depth rest).map fun p => (closeParen :: p.1, p.2) := by
    rw [closing, if_neg (by decide), if_pos rfl, if_neg (by omega), Nat.add_sub_cancel]
  rw [List.cons_append, List.cons_append, List.append_assoc, closing, if_pos rfl,
    hs (depth + 1) ([closeParen] ++ rest) (by omega)]
  rw [List.singleton_append, hclose, Option.map_map, Option.map_map]
  congr 1
  funext p
  simp

/-- Letters and digits in front of something else end there. -/
def Follows (rest : Bytes) : Prop := ∀ c ∈ rest.head?, isAlnum c = false

theorem readNumber_numeral {n : ℕ} (h : Numeral n s) (hrest : Follows rest) :
    readNumber (s ++ rest) = (BitVec.ofNat 32 n, rest) ∧ ∀ c ∈ s, isAlnum c = true := by
  obtain ⟨hdigit, hread⟩ := h
  cases s with
  | nil => cases hdigit
  | cons c s =>
      obtain ⟨⟨i, behind⟩, hint, heq⟩ := Option.map_eq_some_iff.mp hread
      obtain ⟨hvalue, rfl⟩ := Prod.mk.inj heq
      obtain ⟨happend, hall⟩ := readInt_append hdigit hint hrest
      refine ⟨?_, hall⟩
      rw [readNumber, strtoul32, happend, Option.map_some]
      exact congrArg (fun n => (BitVec.ofNat 32 n, rest)) hvalue

theorem exceptionGetReg_name {name : Bytes} (h : m.exceptionGetReg name = some v) :
    name.length ≤ 15 ∧ ∀ c ∈ name, isAlnum c = true := by
  have hnames : ∀ s ∈ "epc" :: "fsr" :: "mod" :: regName, (text s).length ≤ 15 ∧
      ∀ c ∈ text s, isAlnum c = true := by
    decide
  have hname : ∃ s ∈ "epc" :: "fsr" :: "mod" :: regName, name = text s := by
    rw [Machine.exceptionGetReg] at h
    split at h
    · cases h
    · split_ifs at h with hepc hfsr hmod
      · exact ⟨"epc", by decide, hepc⟩
      · exact ⟨"fsr", by decide, hfsr⟩
      · exact ⟨"mod", by decide, hmod⟩
      · obtain ⟨i, hi, -⟩ := Option.map_eq_some_iff.mp h
        have hfound := List.find?_some hi
        refine ⟨regName.getD i.val "", ?_, (of_decide_eq_true hfound).symm⟩
        have hmem : ∀ i : Fin 32, regName.getD i.val "" ∈ "epc" :: "fsr" :: "mod" :: regName := by
          decide
        exact hmem i
  obtain ⟨s, hs, rfl⟩ := hname
  exact hnames s hs

theorem regText_name {name : Bytes} (hlength : name.length ≤ 15)
    (hname : ∀ c ∈ name, isAlnum c = true) (hrest : Follows rest) :
    regText (name ++ rest) = (name, rest) := by
  have hstop : ∀ k, (rest.take k).takeWhile isAlnum = [] := by
    intro k
    cases rest with
    | nil => rw [List.take_nil, List.takeWhile_nil]
    | cons c rest =>
        cases k with
        | zero => rfl
        | succ k => rw [List.take_succ_cons, List.takeWhile_cons_of_neg (Bool.eq_false_iff.mp (hrest c rfl))]
  have htake : ((name ++ rest).take 15).takeWhile isAlnum = name := by
    rw [List.take_append, List.take_of_length_le hlength, List.takeWhile_append_of_pos hname,
      hstop, List.append_nil]
  rw [regText, htake]
  exact congrArg (name, ·) List.drop_left

theorem not_paren {class' : UInt8 → Bool} (hclass : ∀ c ∈ [openParen, closeParen], class' c = false)
    (hc : class' c = true) : c ≠ openParen ∧ c ≠ closeParen := by
  have hmem := not_mem_of_class hclass hc
  simp only [List.mem_cons, List.not_mem_nil, or_false, not_or] at hmem
  exact hmem

theorem balanced_spaces (hw : ∀ c ∈ w, isASpace c = true) : Balanced w :=
  balanced_plain fun c hc => not_paren (by decide) (hw c hc)

theorem balanced_prefixes (hp : Prefixes nots derefs p) : Balanced p := by
  apply balanced_plain
  induction hp with
  | nil => exact fun c hc => absurd hc List.not_mem_nil
  | space hc hs ih => exact List.forall_mem_cons.mpr ⟨not_paren (by decide) hc, ih⟩
  | deref hs ih => exact List.forall_mem_cons.mpr ⟨by decide, ih⟩
  | not hs ih => exact List.forall_mem_cons.mpr ⟨by decide, ih⟩

theorem balanced_symbol (op : BinOp) : Balanced op.symbol := by
  apply balanced_plain
  cases op with
  | _ => decide

theorem eval_first {o : Syntax .operand} (h : (Syntax.first nots derefs o).eval m = some v) :
    ∃ a b, o.eval m = some a ∧ chase m derefs a = some b ∧ complement nots b = v := by
  rw [Syntax.eval] at h
  obtain ⟨a, ha, h⟩ := Option.bind_eq_some_iff.mp h
  obtain ⟨b, hb, h⟩ := Option.bind_eq_some_iff.mp h
  exact ⟨a, b, ha, hb, Option.some.inj h⟩

theorem eval_more {e : Syntax .expr} {o : Syntax .operand}
    (h : (Syntax.more e op nots derefs o).eval m = some v) :
    ∃ left a b, e.eval m = some left ∧ o.eval m = some a ∧ chase m derefs a = some b ∧
      op.value left (complement nots b) = some v := by
  rw [Syntax.eval] at h
  obtain ⟨left, hleft, h⟩ := Option.bind_eq_some_iff.mp h
  obtain ⟨a, ha, h⟩ := Option.bind_eq_some_iff.mp h
  obtain ⟨b, hb, h⟩ := Option.bind_eq_some_iff.mp h
  exact ⟨left, a, b, hleft, ha, hb, h⟩

theorem follows_nil : Follows [] := fun c hc => absurd hc.symm (Option.some_ne_none c)

theorem follows_cons (hc : isAlnum c = false) : Follows (c :: rest) :=
  fun _ hx => Option.some.inj hx ▸ hc

theorem Follows.spaces (h : Follows rest) (hw : ∀ c ∈ w, isASpace c = true) : Follows (w ++ rest) := by
  cases w with
  | nil => exact h
  | cons c w =>
      refine follows_cons (Bool.eq_false_iff.mpr fun hc => ?_)
      exact Bool.false_ne_true ((not_isASpace_of_isAlnum hc).symm.trans (hw c List.mem_cons_self))

theorem follows_symbol (op : BinOp) (rest : Bytes) : Follows (op.symbol ++ rest) := by
  cases op with
  | _ => exact follows_cons (by decide)

theorem Renders.balanced {k : Kind} {x : Syntax k} (h : Renders x s) (hv : x.eval m = some v) :
    Balanced s := by
  induction h generalizing v with
  | number h =>
      exact balanced_plain fun c hc => @not_paren _ isAlnum (by decide) ((readNumber_numeral h follows_nil).2 c hc)
  | reg name =>
      refine balanced_plain (List.forall_mem_cons.mpr ⟨by decide, fun c hc => ?_⟩)
      exact @not_paren _ isAlnum (by decide) ((exceptionGetReg_name hv).2 c hc)
  | bracket he ih => exact (ih hv).bracket
  | first hp ho hw ih =>
      obtain ⟨a, b, ha, -⟩ := eval_first hv
      exact ((balanced_prefixes hp).append (ih ha)).append (balanced_spaces hw)
  | more he hp ho hw ihe iho =>
      obtain ⟨left, a, b, hleft, ha, -⟩ := eval_more hv
      exact ((((ihe hleft).append (balanced_symbol _)).append (balanced_prefixes hp)).append
        (iho ha)).append (balanced_spaces hw)

theorem apart_operand {o : Syntax .operand} (hp : Prefixes nots derefs p) (ho : Renders o s)
    (rest : Bytes) : Apart (p ++ s ++ rest) := by
  have hcons : ∀ c line, c ∉ [ampersand, bar, equals, less, greater] → Apart (c :: line) :=
    fun c line hc x hx => Option.some.inj hx ▸ hc
  cases hp with
  | nil =>
      cases ho with
      | number h =>
          cases s with
          | nil => cases h.1
          | cons c s =>
              exact hcons c _ (@not_mem_of_class isDigit _ (by decide) c h.1)
      | reg name => exact hcons dollar _ (by decide)
      | bracket he => exact hcons openParen _ (by decide)
  | @space c nots derefs s hc hs =>
      exact hcons c _ (not_mem_of_class (by decide) hc)
  | deref hs => exact hcons star _ (by decide)
  | not hs => exact hcons tilde _ (by decide)

end

/-- An operand is read with the operator and the prefixes in front of it; an expression, from the
start, as its value. -/
def Reads (m : Machine) (s : Bytes) (v : Word) : Kind → Prop
  | .operand => ∀ st rest, st.op ≠ .none → Follows rest →
      parseLoop m (s ++ rest) st = (m.apply st v).bind (parseLoop m rest)
  | .expr => ∀ rest, Follows rest → parseLoop m (s ++ rest) .start =
      parseLoop m rest { op := .none, deref := 0, not := 0, val := v }

theorem Renders.reads {m : Machine} {k : Kind} {x : Syntax k} {s : Bytes} (h : Renders x s) {v : Word}
    (hv : x.eval m = some v) : Reads m s v k := by
  induction h generalizing v with
  | @number n s h =>
      intro st rest hst hrest
      cases s with
      | nil => cases h.1
      | cons c s =>
          have hread := (readNumber_numeral h hrest).1
          rw [List.cons_append] at hread ⊢
          rw [parseLoop_number h.1 hst, hread, Option.some.inj hv]
  | reg name =>
      intro st rest hst hrest
      obtain ⟨hlength, hname⟩ := exceptionGetReg_name hv
      have hread := regText_name hlength hname hrest
      have hreg : m.exceptionGetReg (regText (name ++ rest)).1 = some v := by
        rw [hread]
        exact hv
      rw [List.cons_append, parseLoop_reg hreg, hread]
  | @bracket e s he ih =>
      intro st rest hst hrest
      have hclosing : closing 1 (s ++ closeParen :: rest) = some (s, rest) := by
        rw [he.balanced hv 1 _ (le_refl 1), closing, if_neg (by decide), if_pos rfl, if_pos rfl,
          Option.map_some, List.append_nil]
      have hinside : parseLine m s = some v := by
        have hread := ih hv [] follows_nil
        rw [List.append_nil, parseLoop_nil] at hread
        exact hread
      rw [List.append_assoc, List.cons_append, List.singleton_append, parseLoop_bracket hclosing hinside]
  | @first nots derefs o p s w hp ho hw ih =>
      intro rest hrest
      obtain ⟨a, b, ha, hb, rfl⟩ := eval_first hv
      have hstart : ParseState.start.op ≠ .none := by decide
      have happly : m.apply { op := .start, deref := 0 + derefs, not := 0 + nots, val := 0 } a =
          some { op := .none, deref := 0, not := 0, val := complement nots b } := by
        have hderef : m.derefAddr (0 + derefs) a = some b := by rw [Nat.zero_add, derefAddr_eq, hb]
        have hnot : doOp .start (0 + nots) 0 b = complement nots b := by rw [Nat.zero_add]; rfl
        rw [← hnot]
        exact congrArg (Option.map _) hderef
      have hread := ih ha { op := .start, deref := 0 + derefs, not := 0 + nots, val := 0 } (w ++ rest)
        hstart (hrest.spaces hw)
      rw [List.append_assoc, List.append_assoc, parseLoop_prefixes hp hstart]
      refine hread.trans ?_
      rw [happly, Option.bind_some, parseLoop_spaces hw]
  | @more e op nots derefs o t p s w he hp ho hw ihe iho =>
      intro rest hrest
      obtain ⟨left, a, b, hleft, ha, hb, hvalue⟩ := eval_more hv
      have hop : op.operator ≠ .none := by
        cases op with
        | _ => decide
      have hparts : t ++ op.symbol ++ p ++ s ++ w ++ rest =
          t ++ (op.symbol ++ (p ++ s ++ (w ++ rest))) := by simp only [List.append_assoc]
      have happly : m.apply
          { op := op.operator, deref := 0 + derefs, not := 0 + nots, val := left } a =
            some { op := .none, deref := 0, not := 0, val := v } := by
        have hderef : m.derefAddr (0 + derefs) a = some b := by rw [Nat.zero_add, derefAddr_eq, hb]
        have hnot : doOp op.operator (0 + nots) left b = v := by
          rw [Nat.zero_add, doOp_complement, doOp_value hvalue]
        rw [← hnot]
        exact congrArg (Option.map _) hderef
      have hread := iho ha { op := op.operator, deref := 0 + derefs, not := 0 + nots, val := left }
        (w ++ rest) hop (hrest.spaces hw)
      rw [hparts, ihe hleft _ (follows_symbol op _), parseLoop_symbol (apart_operand hp ho _) rfl,
        List.append_assoc, parseLoop_prefixes hp hop]
      refine hread.trans ?_
      rw [happly, Option.bind_some, parseLoop_spaces hw]

theorem Renders.parseLine {m : Machine} {x : Syntax .expr} {s : Bytes} {v : Word}
    (h : Renders x s) (hv : x.eval m = some v) : parseLine m s = some v := by
  have hread := h.reads hv [] follows_nil
  rw [List.append_nil, parseLoop_nil] at hread
  exact hread

theorem memDecode_of_length {m : Machine} {s : Bytes} (hlength : s.length < 1024) :
    memDecode m s = parseLine m s := by
  rw [memDecode, List.take_of_length_le (Nat.le_of_lt_succ hlength)]

/-- A number alone is its own value. -/
theorem memDecode_numeral {s : Bytes} {n : ℕ} (h : Numeral n s) (hlength : s.length < 1024)
    (m : Machine) : memDecode m s = some (BitVec.ofNat 32 n) := by
  have hrenders : Renders (.first 0 0 (.number n)) ([] ++ s ++ []) := .first .nil (.number h) nofun
  rw [List.nil_append, List.append_nil] at hrenders
  rw [memDecode_of_length hlength]
  exact hrenders.parseLine rfl

/-- An expression that has a value is decoded to it. -/
theorem expression_value {m : Machine} {x : Syntax .expr} {s : Bytes} {v : Word}
    (h : Renders x s) (hlength : s.length < 1024) (hv : x.eval m = some v) :
    parseLine m s = some v ∧ memDecode m s = some v := by
  refine ⟨h.parseLine hv, ?_⟩
  rw [memDecode_of_length hlength]
  exact h.parseLine hv

/-- `8 + ~*($a0<<2)`, where `$a0` is 0x100 and 0x400 holds 0x404. -/
theorem expression_value_registers :
    let ex : Exception := { epc := 0, fsr := 0, r := fun i => if i = 4 then 0x100 else 0, modaddr := 0 }
    let m : Machine :=
      { lw := fun addr => addr + 4
        protoff := true
        isv1 := false
        currex := some ex
        modaddr := fun _ => none
        threadaddr := fun _ => none }
    parseLine m (text "8 + ~*($a0<<2)") = some 0xFFFFFC03 ∧
      memDecode m (text "8 + ~*($a0<<2)") = some 0xFFFFFC03 := by
  intro ex m
  have hnumber : ∀ n s, Numeral n s → Renders (.first 0 0 (.number n)) ([] ++ s ++ []) :=
    fun n s h => .first .nil (.number h) nofun
  have hreg : Renders (.first 0 0 (.reg (text "a0"))) ([] ++ text "$a0" ++ []) :=
    .first .nil (.reg (text "a0")) nofun
  have hshift : Renders (.more (.first 0 0 (.reg (text "a0"))) .shl 0 0 (.number 2))
      ([] ++ text "$a0" ++ [] ++ BinOp.shl.symbol ++ [] ++ text "2" ++ []) :=
    .more hreg .nil (.number ⟨by decide, by decide⟩) nofun
  have hprefixes : Prefixes 1 1 (text " ~*") := .space (by decide) (.not (.deref .nil))
  have height : Renders (.first 0 0 (.number 8)) ([] ++ text "8" ++ text " ") :=
    .first .nil (.number ⟨by decide, by decide⟩) (by decide)
  have hsum : Renders (.more (.first 0 0 (.number 8)) .plus 1 1 (.bracket _))
      ([] ++ text "8" ++ text " " ++ BinOp.plus.symbol ++ text " ~*" ++ text "($a0<<2)" ++ []) :=
    .more height hprefixes (.bracket hshift) nofun
  exact expression_value hsum (by decide) (by decide)

end PsplinkUsb.Psplink.AddressExpressions
