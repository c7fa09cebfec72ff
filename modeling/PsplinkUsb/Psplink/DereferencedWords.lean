import PsplinkUsb.Psplink.MemoryRegions

namespace PsplinkUsb.Psplink.DereferencedWords

open PsplinkUsb.Library.Ascii
open PsplinkUsb.Psplink.ProgramMemory (Word)
open PsplinkUsb.Psplink.DecodeAddr
open PsplinkUsb.Psplink.MemoryRegions

/-- The words that the loop of `deref_addr` reads. -/
def derefReads (m : Machine) : ℕ → Word → List Word
  | 0, _ => []
  | deref + 1, val =>
      if val &&& 3 ≠ 0 then []
      else if m.memValidate val (memAttribRead ||| memAttribWord) < 4 then []
      else val :: derefReads m deref (m.lw val)

/-- What a run of `parse_line` leaves in `*val`, also where it returns 0, and the words it reads. -/
structure Trace where
  val : Word
  reads : List Word

def Trace.behind (reads : List Word) (t : Trace) : Trace := { t with reads := reads ++ t.reads }

/-- The loop of `parse_line`. -/
def parseTrace (m : Machine) (line : Bytes) (st : ParseState) : Trace :=
  match line with
  | [] => ⟨st.val, []⟩
  | c :: line =>
      if isASpace c then parseTrace m line st
      else if c = star ∧ (st.op = .start ∨ st.op ≠ .none) then
        parseTrace m line { st with deref := st.deref + 1 }
      else if c = tilde then parseTrace m line { st with not := st.not + 1 }
      else if c = dollar then
        match m.exceptionGetReg (regText line).1 with
        | none => ⟨st.val, []⟩
        | some temp =>
            .behind (derefReads m st.deref temp)
              (match m.apply st temp with
              | none => ⟨st.val, []⟩
              | some st => parseTrace m (regText line).2 st)
      else if c = atSign ∨ c = percent then
        match _hname : upTo c line with
        | none => ⟨st.val, []⟩
        | some (name, behind) =>
            match if c = atSign then m.modaddr name else m.threadaddr name with
            | none => ⟨st.val, []⟩
            | some temp =>
                .behind (derefReads m st.deref temp)
                  (match m.apply st temp with
                  | none => ⟨st.val, []⟩
                  | some st => parseTrace m behind st)
      else if c = openParen then
        match _hclosing : closing 1 line with
        | none => ⟨st.val, []⟩
        | some (inside, behind) =>
            .behind (parseTrace m inside .start).reads
              (match parseLoop m inside .start with
              | none => ⟨st.val, []⟩
              | some temp =>
                  .behind (derefReads m st.deref temp)
                    (match m.apply st temp with
                    | none => ⟨st.val, []⟩
                    | some st => parseTrace m behind st))
      else if isXDigit c then
        if st.op = .none then ⟨st.val, []⟩
        else
          .behind (derefReads m st.deref (readNumber (c :: line)).1)
            (match _hst : m.apply st (readNumber (c :: line)).1 with
            | none => ⟨st.val, []⟩
            | some st => parseTrace m (readNumber (c :: line)).2 st)
      else if st.op ≠ .none then ⟨st.val, []⟩
      else
        match _hop : readOperator c line with
        | none => ⟨st.val, []⟩
        | some (op, behind) => parseTrace m behind { st with op := op }
termination_by (line.length, if st.op = .none then 0 else 1)
decreasing_by
  · exact .left _ _ (Nat.lt_succ_self _)
  · exact .left _ _ (Nat.lt_succ_self _)
  · exact .left _ _ (Nat.lt_succ_self _)
  · exact .left _ _ (Nat.lt_succ_of_le (length_regText_le line))
  · exact .left _ _ ((length_upTo _hname).trans (Nat.lt_succ_self _))
  · have hlt := length_closing _hclosing
    exact .left _ _ (by rw [List.length_cons]; omega)
  · have hlt := length_closing _hclosing
    exact .left _ _ (by rw [List.length_cons]; omega)
  · -- a number that is not one leaves the text, but no operator is pending behind it
    rename_i hpending
    rw [if_pos (Machine.apply_op _hst), if_neg hpending]
    rcases (length_readNumber_le (c :: line)).lt_or_eq with hlt | heq
    · exact .left _ _ hlt
    · rw [heq]
      exact .right _ Nat.zero_lt_one
  · exact .left _ _ (Nat.lt_succ_of_le (length_readOperator _hop))

/-- `parse_line` and `memDecode`, whether or not they succeed. -/
def decodeTrace (m : Machine) (line : Bytes) : Trace := parseTrace m (line.take 1023) .start

section

variable {m : Machine} {line : Bytes} {st : ParseState} {a v : Word}

theorem aligned_of_and (h : v &&& 3 = 0) : v.toNat % 4 = 0 := by
  have hmod := Nat.and_two_pow_sub_one_eq_mod v.toNat 2
  have hand := congrArg BitVec.toNat h
  rw [BitVec.toNat_and] at hand
  exact hmod.symm.trans hand

theorem forall_derefReads {P : Word → Prop}
    (h : ∀ a : Word, a.toNat % 4 = 0 → 4 ≤ m.memValidate a (memAttribRead ||| memAttribWord) → P a)
    (deref : ℕ) (val : Word) : ∀ a ∈ derefReads m deref val, P a := by
  induction deref generalizing val with
  | zero => exact fun a ha => absurd ha List.not_mem_nil
  | succ deref ih =>
      rw [derefReads]
      split
      · exact fun a ha => absurd ha List.not_mem_nil
      · rename_i haligned
        split
        · exact fun a ha => absurd ha List.not_mem_nil
        · rename_i hleft
          refine List.forall_mem_cons.mpr ⟨h val (aligned_of_and (not_not.mp haligned)) ?_, ih _⟩
          exact not_lt.mp hleft

theorem forall_behind {P : Word → Prop} {reads : List Word} {t : Trace} (h : ∀ a ∈ reads, P a)
    (ht : ∀ a ∈ t.reads, P a) : ∀ a ∈ (t.behind reads).reads, P a :=
  List.forall_mem_append.mpr ⟨h, ht⟩

theorem forall_none {P : Word → Prop} (v : Word) : ∀ a ∈ (⟨v, []⟩ : Trace).reads, P a :=
  fun _ ha => absurd ha List.not_mem_nil

theorem forall_parseTrace {P : Word → Prop}
    (h : ∀ a : Word, a.toNat % 4 = 0 → 4 ≤ m.memValidate a (memAttribRead ||| memAttribWord) → P a)
    (line : Bytes) (st : ParseState) : ∀ a ∈ (parseTrace m line st).reads, P a := by
  fun_induction parseTrace m line st with
  | case2 st c line hspace ih => exact ih
  | case3 st c line hspace hstar ih => exact ih
  | case4 st line hspace hstar ih => exact ih
  | case6 st line hspace hstar htilde temp hreg ih =>
      refine forall_behind (forall_derefReads h _ _) ?_
      split
      · exact forall_none _
      · exact ih _
  | case9 st c line hspace hstar htilde hdollar hname name behind hupTo temp hnamed ih =>
      refine forall_behind (forall_derefReads h _ _) ?_
      split
      · exact forall_none _
      · exact ih _
  | case11 st line hspace hstar htilde hdollar hname inside behind hclosing ihinside ih =>
      refine forall_behind ihinside ?_
      split
      · exact forall_none _
      · refine forall_behind (forall_derefReads h _ _) ?_
        split
        · exact forall_none _
        · exact ih _
  | case13 st c line hspace hstar htilde hdollar hname hopen hhex hop ih =>
      refine forall_behind (forall_derefReads h _ _) ?_
      split
      · exact forall_none _
      · rename_i hst
        exact ih _ hst
  | case16 st c line hspace hstar htilde hdollar hname hopen hhex hop op behind hread ih => exact ih
  | _ => exact forall_none _

theorem val_operand {reads : List Word} {temp : Word} {f : ParseState → Option Word}
    {t : Trace} {g : ParseState → Trace} (h : (m.apply st temp).bind f = some v)
    (hrest : ∀ st', m.apply st temp = some st' → f st' = some v → (g st').val = v) :
    (Trace.behind reads (match m.apply st temp with | none => t | some st' => g st')).val = v := by
  obtain ⟨st', happly, h⟩ := Option.bind_eq_some_iff.mp h
  rw [happly]
  exact hrest st' happly h

/-- A run that succeeds returns what it leaves in `*val`. -/
theorem parseTrace_val (h : parseLoop m line st = some v) : (parseTrace m line st).val = v := by
  fun_induction parseTrace m line st with
  | case1 st =>
      rw [parseLoop_nil] at h
      exact Option.some.inj h
  | case2 st c line hspace ih =>
      rw [parseLoop_space hspace] at h
      exact ih h
  | case3 st c line hspace hstar ih =>
      rw [parseLoop, if_neg hspace, if_pos hstar] at h
      exact ih h
  | case4 st line hspace hstar ih =>
      rw [parseLoop_tilde] at h
      exact ih h
  | case5 st line hreg hspace hstar htilde =>
      rw [parseLoop_dollar, hreg] at h
      cases h
  | case6 st line temp hreg hspace hstar htilde ih =>
      rw [parseLoop_dollar, hreg] at h
      exact val_operand h fun st' _ => ih st'
  | case7 st c line hspace hstar htilde hdollar hname hnone =>
      rw [parseLoop_name hname, hnone] at h
      cases h
  | case8 st c line hspace hstar htilde hdollar hname name behind hsome hnamed =>
      rw [dite_eq_ite] at hnamed
      rw [parseLoop_name hname, hsome, Option.bind_some, hnamed] at h
      cases h
  | case9 st c line hspace hstar htilde hdollar hname name behind hsome temp hnamed ih =>
      rw [dite_eq_ite] at hnamed
      rw [parseLoop_name hname, hsome, Option.bind_some, hnamed] at h
      exact val_operand h fun st' _ => ih st'
  | case10 st line hnone hspace hstar htilde hdollar hname =>
      rw [parseLoop_brackets, hnone] at h
      cases h
  | case11 st line inside behind hsome hspace hstar htilde hdollar hname ihinside ih =>
      rw [parseLoop_brackets, hsome, Option.bind_some] at h
      obtain ⟨st', happly, h⟩ := Option.bind_eq_some_iff.mp h
      obtain ⟨temp, hinside, happly⟩ := Option.bind_eq_some_iff.mp happly
      dsimp only [Trace.behind]
      rw [hinside]
      dsimp only
      rw [happly]
      exact ih st' h
  | case12 st c line hspace hstar htilde hdollar hname hopen hhex hop =>
      rw [parseLoop_plain ⟨hspace, hstar, htilde, hdollar, hname, hopen⟩, if_pos hhex, if_pos hop] at h
      cases h
  | case13 st c line hspace hstar htilde hdollar hname hopen hhex hop ih =>
      rw [parseLoop_plain ⟨hspace, hstar, htilde, hdollar, hname, hopen⟩, if_pos hhex, if_neg hop] at h
      obtain ⟨st', happly, h⟩ := Option.bind_eq_some_iff.mp h
      dsimp only [Trace.behind]
      split
      · rename_i hnone
        cases happly.symm.trans hnone
      · rename_i hsome
        cases happly.symm.trans hsome
        exact ih st' happly h
  | case14 st c line hspace hstar htilde hdollar hname hopen hhex hop =>
      rw [parseLoop_plain ⟨hspace, hstar, htilde, hdollar, hname, hopen⟩, if_neg hhex, if_pos hop] at h
      cases h
  | case15 st c line hspace hstar htilde hdollar hname hopen hhex hop hnone =>
      rw [parseLoop_plain ⟨hspace, hstar, htilde, hdollar, hname, hopen⟩, if_neg hhex, if_neg hop,
        hnone] at h
      cases h
  | case16 st c line hspace hstar htilde hdollar hname hopen hhex hop op behind hsome ih =>
      rw [parseLoop_plain ⟨hspace, hstar, htilde, hdollar, hname, hopen⟩, if_neg hhex, if_neg hop,
        hsome] at h
      exact ih h

end

end PsplinkUsb.Psplink.DereferencedWords
