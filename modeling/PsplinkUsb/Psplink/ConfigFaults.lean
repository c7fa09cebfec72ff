import PsplinkUsb.Psplink.ConfigUpdate

namespace PsplinkUsb.Psplink.ConfigFaults

open PsplinkUsb.Psplink.ConfigReading
open PsplinkUsb.Psplink.ConfigUpdate

/-- What the calls answer. Of the line that a call of `fdprintf` writes, `taken` gives the
number of bytes that are in the file when it has been closed. -/
structure Faults extends Outcome where
  taken : ℕ → ℕ
  removeTmp : Bool

/-- The open file `psplink.ini.tmp`. -/
structure TmpFile where
  text : Bytes
  writes : ℕ

def openTmpFile : TmpFile := ⟨[], 0⟩

def fdprintf (taken : ℕ → ℕ) (fd : TmpFile) (line : Bytes) : TmpFile where
  text := fd.text ++ line.take (taken fd.writes)
  writes := fd.writes + 1

/-- The body of the loop: the file and `found`. -/
def writeEntry (taken : ℕ → ℕ) (newname newval : Bytes) (mode : ℤ) :
    TmpFile × Bool → Entry → TmpFile × Bool
  | (fd, found), (name, val) =>
      if name = newname then
        if mode = configModeAdd then (fdprintf taken fd (configLine newname newval), true)
        else (fd, found)
      else (fdprintf taken fd (configLine name val), found)

def writtenText (taken : ℕ → ℕ) (content newname newval : Bytes) (mode : ℤ) : Bytes :=
  let (fd, found) :=
    eachEntry (writeEntry taken newname newval mode) (psplinkConfigOpen content)
      (openTmpFile, false)
  if mode = configModeAdd ∧ ¬found then (fdprintf taken fd (configLine newname newval)).text
  else fd.text

def configChange (io : Faults) (newname newval : Bytes) (mode : ℤ) (fs : Files) : Files :=
  if mode ≠ configModeAdd ∧ mode ≠ configModeDel then fs
  else if io.openTmp then
    match if io.openCnf then fs.cnf else none with
    | none => { fs with tmp := if io.removeTmp then none else some [] }
    | some content =>
        let written := { fs with tmp := some (writtenText io.taken content newname newval mode) }
        if io.removeCnf then
          if io.rename then { cnf := written.tmp, tmp := none } else { written with cnf := none }
        else written
  else fs

/-- The lines that are written, one by each call. -/
def writtenLines (content newname newval : Bytes) (mode : ℤ) : List Bytes :=
  (updated newname newval mode (configEntries content)).map fun e => configLine e.1 e.2

/-- What is taken of lines written one after the other. -/
def accepted (taken : ℕ → ℕ) : ℕ → List Bytes → Bytes
  | _, [] => []
  | k, line :: lines => line.take (taken k) ++ accepted taken (k + 1) lines

/-- Every write, from the `k`-th on, comes to the whole of its line. -/
def WritesWhole (taken : ℕ → ℕ) : ℕ → List Bytes → Prop
  | _, [] => True
  | k, line :: lines => line.length ≤ taken k ∧ WritesWhole taken (k + 1) lines

section Lines

variable {taken : ℕ → ℕ} {newname newval : Bytes} {mode : ℤ} {es : List Entry}

theorem foldl_fdprintf (lines : List Bytes) (fd : TmpFile) :
    (lines.foldl (fdprintf taken) fd).text = fd.text ++ accepted taken fd.writes lines := by
  induction lines generalizing fd with
  | nil => exact (List.append_nil _).symm
  | cons line lines ih =>
      rw [List.foldl_cons, ih, accepted, fdprintf, List.append_assoc]

theorem foldl_writeEntry_add (fd : TmpFile) (found : Bool) :
    es.foldl (writeEntry taken newname newval configModeAdd) (fd, found) =
      (((es.map fun e => if e.1 = newname then (newname, newval) else e).map
          fun e => configLine e.1 e.2).foldl (fdprintf taken) fd,
        found || es.any fun e => e.1 = newname) := by
  induction es generalizing fd found with
  | nil => simp
  | cons e es ih =>
      rw [List.foldl_cons, writeEntry]
      split_ifs with hname
      · rw [ih]
        simp [hname]
      · contradiction
      · rw [ih]
        simp [hname]

theorem foldl_writeEntry_del (hmode : mode ≠ configModeAdd) (fd : TmpFile) (found : Bool) :
    es.foldl (writeEntry taken newname newval mode) (fd, found) =
      (((es.filter fun e => e.1 ≠ newname).map fun e => configLine e.1 e.2).foldl
        (fdprintf taken) fd, found) := by
  induction es generalizing fd found with
  | nil => simp
  | cons e es ih =>
      rw [List.foldl_cons, writeEntry, if_neg hmode]
      split_ifs with hname
      · rw [ih]
        simp [hname]
      · rw [ih]
        simp [hname]

theorem writtenText_eq (content : Bytes) : writtenText taken content newname newval mode =
    accepted taken 0 (writtenLines content newname newval mode) := by
  have hloop : eachEntry (writeEntry taken newname newval mode) (psplinkConfigOpen content)
      (openTmpFile, false) = (configEntries content).foldl (writeEntry taken newname newval mode)
        (openTmpFile, false) := by
    rw [eachEntry_eq, configEntries_eq]
    rfl
  have hlines : accepted taken 0 (writtenLines content newname newval mode) =
      ((writtenLines content newname newval mode).foldl (fdprintf taken) openTmpFile).text :=
    (foldl_fdprintf _ openTmpFile).symm
  rw [hlines, writtenText, hloop, writtenLines, updated]
  by_cases hmode : mode = configModeAdd
  · subst hmode
    rw [foldl_writeEntry_add, if_pos rfl, List.map_append, List.foldl_append]
    by_cases hfound : ∃ e ∈ configEntries content, e.1 = newname
    · have hany : ((configEntries content).any fun e => e.1 = newname) = true := by
        obtain ⟨e, he, hname⟩ := hfound
        exact List.any_eq_true.mpr ⟨e, he, decide_eq_true hname⟩
      rw [if_pos hfound, hany]
      simp
    · have hany : ((configEntries content).any fun e => e.1 = newname) = false := by
        apply List.any_eq_false.mpr
        exact fun e he hname => hfound ⟨e, he, of_decide_eq_true hname⟩
      rw [if_neg hfound, hany]
      simp
  · rw [foldl_writeEntry_del hmode, if_neg hmode]
    simp [hmode]

theorem changedText_eq_flatten (content : Bytes) : changedText content newname newval mode =
    (writtenLines content newname newval mode).flatten := by
  rw [changedText_eq, configText, writtenLines, List.flatMap_def]

theorem length_accepted_le (k : ℕ) (lines : List Bytes) :
    (accepted taken k lines).length ≤ lines.flatten.length := by
  induction lines generalizing k with
  | nil => rfl
  | cons line lines ih =>
      have hrest := ih (k + 1)
      rw [accepted, List.flatten_cons, List.length_append, List.length_append, List.length_take]
      omega

/-- All text is in the file exactly if every write was whole. -/
theorem accepted_eq_flatten_iff (k : ℕ) (lines : List Bytes) :
    accepted taken k lines = lines.flatten ↔ WritesWhole taken k lines := by
  induction lines generalizing k with
  | nil => exact iff_of_true rfl trivial
  | cons line lines ih =>
      rw [accepted, List.flatten_cons, WritesWhole, ← ih (k + 1)]
      constructor
      · intro h
        have hlength := congrArg List.length h
        have hrest := @length_accepted_le taken (k + 1) lines
        rw [List.length_append, List.length_append, List.length_take] at hlength
        have hwhole : line.length ≤ taken k := by omega
        rw [List.take_of_length_le hwhole] at h
        exact ⟨hwhole, List.append_cancel_left h⟩
      · rintro ⟨hwhole, hrest⟩
        rw [List.take_of_length_le hwhole, hrest]

end Lines

/-- Without a short write and with the temporary file removed after use, there are no other
faults than before. -/
theorem configChange_of_whole (io : Faults) (newname newval : Bytes) (mode : ℤ) (fs : Files)
    (hremove : io.removeTmp = true) (hwhole : ∀ content, fs.cnf = some content →
      WritesWhole io.taken 0 (writtenLines content newname newval mode)) :
    configChange io newname newval mode fs =
      ConfigUpdate.configChange io.toOutcome newname newval mode fs := by
  have htext : ∀ content, fs.cnf = some content →
      writtenText io.taken content newname newval mode =
        changedText content newname newval mode := by
    intro content hcnf
    rw [writtenText_eq, changedText_eq_flatten]
    exact (accepted_eq_flatten_iff 0 _).mpr (hwhole content hcnf)
  rw [configChange, ConfigUpdate.configChange, hremove]
  cases hcnf : fs.cnf with
  | none => simp
  | some content =>
      cases io.openCnf with
      | false => simp
      | true => simp [htext content hcnf]

/-- There is still a `psplink.ini`, the old one or the complete new one. -/
def Kept (fs fs' complete : Files) : Prop :=
  ∃ text, fs'.cnf = some text ∧ (fs.cnf = some text ∨ complete.cnf = some text)

section Kept

variable {io : Faults} {newname newval content : Bytes} {mode : ℤ} {tmp : Option Bytes}

/-- The calls come as far as removing the old file. -/
def Removes (io : Faults) (mode : ℤ) : Prop :=
  (mode = configModeAdd ∨ mode = configModeDel) ∧ io.openTmp = true ∧ io.openCnf = true ∧
    io.removeCnf = true

theorem cnf_of_removes (h : Removes io mode) :
    (configChange io newname newval mode ⟨some content, tmp⟩).cnf =
      if io.rename then some (writtenText io.taken content newname newval mode) else none := by
  obtain ⟨hmode, hopen, hcnf, hremove⟩ := h
  rw [configChange, if_neg (by tauto), if_pos hopen, hcnf, hremove]
  cases io.rename <;> rfl

theorem cnf_of_not_removes (h : ¬Removes io mode) :
    (configChange io newname newval mode ⟨some content, tmp⟩).cnf = some content := by
  rw [configChange]
  split
  · rfl
  · rename_i hmode
    split
    · rename_i hopen
      cases hcnf : io.openCnf with
      | false => rfl
      | true =>
          have hremove : io.removeCnf = false := by
            rw [← Bool.not_eq_true]
            exact fun hremove => h ⟨by tauto, hopen, hcnf, hremove⟩
          rw [hremove]
          rfl
    · rfl

theorem cnf_complete (hmode : mode = configModeAdd ∨ mode = configModeDel) :
    (ConfigUpdate.configChange .allSucceed newname newval mode ⟨some content, tmp⟩).cnf =
      some (changedText content newname newval mode) := by
  rw [ConfigUpdate.configChange, if_neg (by tauto)]
  rfl

end Kept

/-- If the old file is removed, then the new one is renamed, and its writes were whole or came
to the old text. -/
def SafelyReplaced (io : Faults) (content newname newval : Bytes) (mode : ℤ) : Prop :=
  Removes io mode →
    io.rename = true ∧
      (WritesWhole io.taken 0 (writtenLines content newname newval mode) ∨
        accepted io.taken 0 (writtenLines content newname newval mode) = content)

/-- For every `psplink.ini`, name, value and mode and whatever fails, the configuration is kept
exactly if the old file is not removed or safely replaced. -/
theorem configChange_kept_iff (io : Faults) (newname newval : Bytes) (mode : ℤ) (content : Bytes)
    (tmp : Option Bytes) :
    Kept ⟨some content, tmp⟩ (configChange io newname newval mode ⟨some content, tmp⟩)
        (ConfigUpdate.configChange .allSucceed newname newval mode ⟨some content, tmp⟩) ↔
      SafelyReplaced io content newname newval mode := by
  by_cases hremoves : Removes io mode
  · rw [Kept, cnf_of_removes hremoves, cnf_complete hremoves.1, SafelyReplaced,
      ← accepted_eq_flatten_iff, ← changedText_eq_flatten, ← writtenText_eq]
    cases io.rename with
    | false => simp [hremoves]
    | true =>
        simp only [if_true, Option.some.injEq, exists_eq_left', hremoves, true_and, true_imp_iff]
        tauto
  · rw [Kept, cnf_of_not_removes hremoves]
    exact iff_of_true ⟨content, rfl, .inl rfl⟩ fun h => absurd h hremoves

/-- The old file is removed, and the new one stays under its temporary name. -/
theorem failed_rename_loses_config :
    ¬∀ (io : Faults) (newname newval : Bytes) (mode : ℤ) (content : Bytes) (tmp : Option Bytes),
      Kept ⟨some content, tmp⟩ (configChange io newname newval mode ⟨some content, tmp⟩)
        (ConfigUpdate.configChange .allSucceed newname newval mode ⟨some content, tmp⟩) := by
  intro h
  let io : Faults :=
    { openTmp := true, openCnf := true, removeCnf := true, rename := false,
      taken := fun _ => 256, removeTmp := true }
  obtain ⟨text, hcnf, -⟩ := h io [0x61] [0x31] configModeAdd [] none
  rw [cnf_of_removes ⟨.inl rfl, rfl, rfl, rfl⟩] at hcnf
  cases hcnf

end PsplinkUsb.Psplink.ConfigFaults
