import PsplinkUsb.Psplink.BreakpointTable

namespace PsplinkUsb.Psplink.Stepping

open PsplinkUsb.Psplink.ProgramMemory
open PsplinkUsb.Psplink.BreakpointTable

def beqOpcode : Word := 0x4
def beqlOpcode : Word := 0x14
def bgtzOpcode : Word := 0x7
def bgtzlOpcode : Word := 0x17
def blezOpcode : Word := 0x6
def blezlOpcode : Word := 0x16
def bneOpcode : Word := 0x5
def bnelOpcode : Word := 0x15

def regimmOpcode : Word := 0x1
def bgezOpcode : Word := 0x1
def bgezalOpcode : Word := 0x11
def bgezallOpcode : Word := 0x13
def bgezlOpcode : Word := 0x3
def bltzOpcode : Word := 0
def bltzalOpcode : Word := 0x10
def bltzallOpcode : Word := 0x12
def bltzlOpcode : Word := 0x2

def jOpcode : Word := 0x2
def jalOpcode : Word := 0x3

def specialOpcode : Word := 0
def jalrOpcode : Word := 0x9
def jrOpcode : Word := 0x8

def cop0Opcode : Word := 0x10
def cop1Opcode : Word := 0x11
def cop2Opcode : Word := 0x12
def bcxfOpcode : Word := 0x100
def bcxflOpcode : Word := 0x102
def bcxtOpcode : Word := 0x101
def bcxtlOpcode : Word := 0x103

def debugBpStep : Word := 16#32

/-- The case labels of conditional branches, of those among the `REGIMM` instructions and
of those of the coprocessors. -/
def branchOpcodes : List Word :=
  [beqOpcode, beqlOpcode, bgtzOpcode, bgtzlOpcode, blezOpcode, blezlOpcode, bneOpcode, bnelOpcode]

def regimmBranches : List Word :=
  [bgezOpcode, bgezalOpcode, bgezallOpcode, bgezlOpcode,
   bltzOpcode, bltzalOpcode, bltzallOpcode, bltzlOpcode]

def copBranches : List Word := [bcxfOpcode, bcxflOpcode, bcxtOpcode, bcxtlOpcode]

def major (opcode : Word) : Word := opcode >>> 26
def rt (opcode : Word) : Word := opcode >>> 16 &&& 0x1f
def funct (opcode : Word) : Word := opcode &&& 0x3f
def copBits (opcode : Word) : Word := opcode >>> 16 &&& 0x3ff

/-- `(short) (opcode & 0xffff)`. -/
def ofs (opcode : Word) : Word := (opcode.setWidth 16).signExtend 32

/-- The local variables of `step_generic` after its `switch`. -/
structure Step where
  targetpc : Word
  branch : Bool
  cond : Bool
  link : Bool

def Step.next (epc : Word) : Step :=
  { targetpc := epc + 4, branch := false, cond := false, link := false }

def Step.relative (epc opcode : Word) : Step :=
  { targetpc := epc + 4 + ofs opcode * 4, branch := true, cond := true, link := false }

def Step.absolute (epc opcode : Word) : Step :=
  { targetpc := (opcode &&& 0x3ffffff) <<< 2 ||| (epc + 4) &&& 0xf0000000
    branch := true, cond := false, link := major opcode = jalOpcode }

def Step.register (r : Fin 32 → Word) (opcode : Word) : Step :=
  { targetpc := r (opcode.extractLsb' 21 5).toFin
    branch := true, cond := false, link := funct opcode = jalrOpcode }

def decodeStep (r : Fin 32 → Word) (epc opcode : Word) : Step :=
  if major opcode ∈ branchOpcodes then .relative epc opcode
  else if major opcode = regimmOpcode then
    if rt opcode ∈ regimmBranches then .relative epc opcode else .next epc
  else if major opcode = jalOpcode ∨ major opcode = jOpcode then .absolute epc opcode
  else if major opcode = specialOpcode then
    if funct opcode = jalrOpcode ∨ funct opcode = jrOpcode then .register r opcode else .next epc
  else if major opcode ∈ [cop0Opcode, cop1Opcode, cop2Opcode] then
    if copBits opcode ∈ copBranches then .relative epc opcode else .next epc
  else .next epc

/-- The words taken for a branch with an offset. -/
def IsRelative (opcode : Word) : Prop :=
  major opcode ∈ branchOpcodes ∨
    major opcode = regimmOpcode ∧ rt opcode ∈ regimmBranches ∨
    major opcode ∈ [cop0Opcode, cop1Opcode, cop2Opcode] ∧ copBits opcode ∈ copBranches

def IsAbsolute (opcode : Word) : Prop := major opcode = jalOpcode ∨ major opcode = jOpcode

def IsRegister (opcode : Word) : Prop :=
  major opcode = specialOpcode ∧ (funct opcode = jalrOpcode ∨ funct opcode = jrOpcode)

section

variable {r : Fin 32 → Word} {epc opcode : Word}

theorem branchOpcodes_apart {c : Word} (h : c ∈ branchOpcodes) :
    c ≠ jalOpcode ∧ c ≠ jOpcode ∧ c ≠ specialOpcode := by
  have hall : branchOpcodes.all
      (fun c => c ≠ jalOpcode ∧ c ≠ jOpcode ∧ c ≠ specialOpcode) = true := by
    decide
  exact of_decide_eq_true (List.all_eq_true.mp hall c h)

theorem cop_apart {c : Word} (h : c ∈ [cop0Opcode, cop1Opcode, cop2Opcode]) :
    c ≠ jalOpcode ∧ c ≠ jOpcode ∧ c ≠ specialOpcode ∧ c ∉ branchOpcodes ∧ c ≠ regimmOpcode := by
  have hall : [cop0Opcode, cop1Opcode, cop2Opcode].all (fun c => c ≠ jalOpcode ∧ c ≠ jOpcode ∧
      c ≠ specialOpcode ∧ c ∉ branchOpcodes ∧ c ≠ regimmOpcode) = true := by
    decide
  exact of_decide_eq_true (List.all_eq_true.mp hall c h)

theorem regimm_apart : regimmOpcode ∉ branchOpcodes ∧ regimmOpcode ≠ jalOpcode ∧
    regimmOpcode ≠ jOpcode ∧ regimmOpcode ≠ specialOpcode := by
  decide

theorem IsRelative.major (h : IsRelative opcode) :
    ¬IsAbsolute opcode ∧ Stepping.major opcode ≠ specialOpcode := by
  rcases h with hbranch | ⟨hregimm, -⟩ | ⟨hcop, -⟩
  · obtain ⟨hjal, hj, hspecial⟩ := branchOpcodes_apart hbranch
    exact ⟨not_or.mpr ⟨hjal, hj⟩, hspecial⟩
  · obtain ⟨-, hjal, hj, hspecial⟩ := regimm_apart
    rw [IsAbsolute, hregimm]
    exact ⟨not_or.mpr ⟨hjal, hj⟩, hspecial⟩
  · obtain ⟨hjal, hj, hspecial, -⟩ := cop_apart hcop
    exact ⟨not_or.mpr ⟨hjal, hj⟩, hspecial⟩

theorem decodeStep_relative (h : IsRelative opcode) :
    decodeStep r epc opcode = .relative epc opcode := by
  obtain ⟨hjump, hspecial⟩ := h.major
  rw [IsAbsolute] at hjump
  rw [decodeStep]
  rcases h with hbranch | ⟨hregimm, hrt⟩ | ⟨hcop, hbits⟩
  · rw [if_pos hbranch]
  · rw [if_neg (hregimm ▸ regimm_apart.1), if_pos hregimm, if_pos hrt]
  · obtain ⟨-, -, -, hbranch, hregimm⟩ := cop_apart hcop
    rw [if_neg hbranch, if_neg hregimm, if_neg hjump, if_neg hspecial, if_pos hcop,
      if_pos hbits]

theorem decodeStep_absolute (h : IsAbsolute opcode) :
    decodeStep r epc opcode = .absolute epc opcode := by
  have hne : ∀ c, c = jalOpcode ∨ c = jOpcode → c ∉ branchOpcodes ∧ c ≠ regimmOpcode := by
    rintro c (rfl | rfl)
    · decide
    · decide
  obtain ⟨hbranch, hregimm⟩ := hne _ h
  rw [decodeStep, if_neg hbranch, if_neg hregimm]
  exact if_pos h

theorem decodeStep_register (h : IsRegister opcode) :
    decodeStep r epc opcode = .register r opcode := by
  obtain ⟨hspecial, hfunct⟩ := h
  have hne : specialOpcode ∉ branchOpcodes ∧ specialOpcode ≠ regimmOpcode ∧
      ¬(specialOpcode = jalOpcode ∨ specialOpcode = jOpcode) := by
    decide
  rw [decodeStep, hspecial, if_neg hne.1, if_neg hne.2.1, if_neg hne.2.2, if_pos rfl,
    if_pos hfunct]

theorem decodeStep_next (hrelative : ¬IsRelative opcode) (habsolute : ¬IsAbsolute opcode)
    (hregister : ¬IsRegister opcode) : decodeStep r epc opcode = .next epc := by
  rw [decodeStep]
  split_ifs with hbranch hregimm hrt hjump hspecial hfunct hcop hbits
  · exact absurd (.inl hbranch) hrelative
  · exact absurd (.inr (.inl ⟨hregimm, hrt⟩)) hrelative
  · rfl
  · exact absurd hjump habsolute
  · exact absurd ⟨hspecial, hfunct⟩ hregister
  · rfl
  · exact absurd (.inr (.inr ⟨hcop, hbits⟩)) hrelative
  · rfl
  · rfl

end

/-- `debugSetBP` with the flags of a step. -/
def armStep (address : Word) (thid : Int) (s : DebugState) : Option Slot × DebugState :=
  debugSetBP address (debugBpOneshot ||| debugBpStep) thid s

/-- `bp->step = other`, when there is `bp`. -/
def setStep (bp other : Option Slot) (s : DebugState) : DebugState :=
  match bp with
  | none => s
  | some i => s.setBp i { s.bps i with step := other }

def stepGeneric (ctx : PsplinkContext) (skip : Bool) (s : DebugState) : DebugState :=
  let step := decodeStep ctx.r ctx.epc (lw s.mem ctx.epc)
  if step.link ∧ skip then (armStep (ctx.epc + 8) ctx.thid s).2
  else if step.branch then
    let (bp₁, s) := armStep step.targetpc ctx.thid s
    if step.cond ∧ step.targetpc ≠ ctx.epc + 8 then
      let (bp₂, s) := armStep (ctx.epc + 8) ctx.thid s
      setStep bp₂ bp₁ (setStep bp₁ bp₂ s)
    else s
  else (armStep step.targetpc ctx.thid s).2

end PsplinkUsb.Psplink.Stepping
