import PsplinkUsb.Pspsh.ExecuteLine

namespace PsplinkUsb.Pspsh.VariableNames

open PsplinkUsb.Library.Ascii
open PsplinkUsb.Library.CString
open PsplinkUsb.Library.Lines
open PsplinkUsb.Pspsh.ExecuteLine
open PsplinkUsb.Pspsh.Operands (text)
open PsplinkUsb.Pspsh.ParseArgs

inductive SetError where
  | noValue
  | noName
  | notLetter
  | notAlnum
  deriving DecidableEq

def SetError.message : SetError → Bytes
  | .noValue => text "Error, no value specified\n"
  | .noName => text "Error, no name specified\n"
  | .notLetter => text "Error, variable names must start with a letter\n"
  | .notAlnum => text "Error, variable names must be alphanumeric\n"

/-- The text that is shown tells which check failed. -/
theorem SetError.message_injective : Function.Injective SetError.message := by
  intro e e' h
  cases e <;> cases e' <;> first | rfl | exact absurd h (by decide)

def isAlpha (c : UInt8) : Bool := isLower c ∨ isUpper c

/-- The loop of `set_cmd` over the name. Its `break` leaves only the loop. -/
def checkName : Bytes → Option SetError
  | [] => none
  | c :: name => if ¬isAlnum c then some .notAlnum else checkName name

/-- What `set_cmd` complains about, and the context it leaves. -/
def setCmdChecked (args : List Bytes) (s : GlobalContext) : Option SetError × GlobalContext :=
  match cut equals (args.headD []) with
  | none => (some .noValue, s)
  | some (name, value) =>
      match name with
      | [] => (some .noName, s)
      | c :: _ =>
          if ¬isAlpha c then (some .notLetter, s)
          else (checkName name, s.setenv name value)

/-- A letter, then letters and digits. -/
def ValidName (name : Bytes) : Prop :=
  name.head?.any isAlpha = true ∧ ∀ c ∈ name, isAlnum c = true

/-- The variable has the value, and all else is as it was. -/
structure Assigned (s s' : GlobalContext) (name value : Bytes) : Prop where
  rest : s' = { s with vars := s'.vars }
  value : (s'.vars name).map Subtype.val = some value
  others : ∀ other, other ≠ name → s'.vars other = s.vars other

/-- A valid name is set, and for no other argument anything changes. -/
structure Validated (arg : CStr) (more : List Bytes) (s : GlobalContext) : Prop where
  set : ∀ name value, arg.val = name ++ equals :: value → ValidName name →
    Assigned s (setCmd (arg.val :: more) s) name value
  kept : (∀ name value, arg.val = name ++ equals :: value → ¬ValidName name) →
    setCmd (arg.val :: more) s = s

/-- The name starts with a letter, and has something else than letters and digits behind it. -/
def LateSymbol (arg : CStr) : Prop :=
  ∃ name value, arg.val = name ++ equals :: value ∧ equals ∉ name ∧
    name.head?.any isAlpha = true ∧ ∃ c ∈ name, isAlnum c = false

section

variable {arg : CStr} {args more : List Bytes} {name value : Bytes} {s : GlobalContext} {e : SetError}

theorem checkName_eq (h : checkName name = some e) : e = .notAlnum := by
  induction name with
  | nil => cases h
  | cons c name ih =>
      rw [checkName] at h
      split at h
      · exact (Option.some.inj h).symm
      · exact ih h

theorem setCmd_checked (args : List Bytes) (s : GlobalContext) :
    (setCmdChecked args s).2 = setCmd args s := by
  rw [setCmdChecked, setCmd]
  cases hcut : cut equals (args.headD []) with
  | none => rfl
  | some p =>
      obtain ⟨name, value⟩ := p
      cases name with
      | nil => rfl
      | cons c name =>
          have hany : ((c :: name).head?.any fun c => isLower c ∨ isUpper c) = isAlpha c := rfl
          dsimp only
          rw [hany]
          by_cases hc : isAlpha c = true
          · rw [if_neg (not_not.mpr hc), if_pos hc]
          · rw [if_pos hc, if_neg hc]

/-- Every complaint but the last keeps the variables as they are. -/
theorem setCmd_refused (h : (setCmdChecked args s).1 = some e) (he : e ≠ .notAlnum) :
    setCmd args s = s := by
  rw [← setCmd_checked]
  unfold setCmdChecked at h ⊢
  cases hcut : cut equals (args.headD []) with
  | none => rfl
  | some p =>
      obtain ⟨name, value⟩ := p
      cases name with
      | nil => rfl
      | cons c name =>
          rw [hcut] at h
          dsimp only at h ⊢
          split at h
          · rename_i hc
            rw [if_pos hc]
          · exact absurd (checkName_eq h) he

theorem not_mem_of_validName (h : ValidName name) : equals ∉ name := by
  intro hmem
  have halnum := h.2 equals hmem
  revert halnum
  decide

theorem setCmd_of_name (harg : arg.val = name ++ equals :: value) (hname : equals ∉ name) :
    setCmd (arg.val :: more) s = if name.head?.any isAlpha then s.setenv name value else s := by
  rw [setCmd, List.headD_cons, harg, cut_append hname]
  rfl

theorem assigned_setenv (hvalue : 0 ∉ value) : Assigned s (s.setenv name value) name value where
  rest := rfl
  value := by
    have hset : (s.setenv name value).vars name = some (toCStr value) := Function.update_self _ _ _
    rw [hset, Option.map_some]
    exact congrArg some (cstr_of_not_mem hvalue)
  others _ hother := Function.update_of_ne hother _ _

end

/-- No variable is set, and nothing is going on. -/
def noVariables : GlobalContext where
  vars _ := none
  sargv := []
  fscript := none
  exec := toCStr []
  script := false
  exit := false
  lasterr := false
  asmmode := false
  asmaddr := 0
  ttymode := false
  crashed := false
  sock := []
  log := []

/-- The command validates its argument in every context, exactly when no other character than a
letter or digit stands behind the letter that the name starts with. -/
theorem set_validated_iff (arg : CStr) (more : List Bytes) :
    (∀ s, Validated arg more s) ↔ ¬LateSymbol arg := by
  constructor
  · rintro hall ⟨name, value, harg, hname, halpha, c, hc, hsymbol⟩
    have hkept := (hall noVariables).kept ?_
    · rw [setCmd_of_name harg hname, if_pos halpha] at hkept
      have hset : (noVariables.setenv name value).vars name = some (toCStr value) :=
        Function.update_self _ _ _
      rw [hkept] at hset
      cases hset
    · intro name' value' harg' hvalid
      have hsame := (cut_append (not_mem_of_validName hvalid)).symm.trans
        ((congrArg (cut equals) (harg'.symm.trans harg)).trans (cut_append hname))
      cases hsame
      exact absurd (hvalid.2 c hc) (by simp [hsymbol])
  · intro hno s
    constructor
    · intro name value harg hvalid
      rw [setCmd_of_name harg (not_mem_of_validName hvalid), if_pos hvalid.1]
      apply assigned_setenv
      intro hmem
      exact arg.property (harg ▸ List.mem_append_right _ (List.mem_cons_of_mem _ hmem))
    · intro hinvalid
      cases hcut : cut equals arg.val with
      | none =>
          rw [setCmd, List.headD_cons, hcut]
      | some p =>
          obtain ⟨name, value⟩ := p
          obtain ⟨hname, harg⟩ := cut_eq_some.mp hcut
          rw [setCmd_of_name harg hname]
          split
          · rename_i halpha
            by_contra
            refine hno ⟨name, value, harg, hname, halpha, ?_⟩
            by_contra hnone
            refine hinvalid name value harg ⟨halpha, fun c hc => ?_⟩
            by_contra hsymbol
            exact hnone ⟨c, hc, Bool.eq_false_iff.mpr hsymbol⟩
          · rfl

/-- The argument `a-b=c` sets a variable `a-b`, though it is complained about. -/
theorem late_symbol_set :
    (setCmdChecked [text "a-b=c"] noVariables).1 = some .notAlnum ∧
      ((setCmd [text "a-b=c"] noVariables).vars (text "a-b")).map Subtype.val = some (text "c") := by
  decide

end PsplinkUsb.Pspsh.VariableNames
