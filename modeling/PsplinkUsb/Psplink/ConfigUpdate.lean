import PsplinkUsb.Psplink.ConfigReading

/-!
`configChange` of `psplink/config.c`: the file is read entry by entry, written again with
every value in quotes, and put in the place of the old one.
-/

namespace PsplinkUsb.Psplink.ConfigUpdate

open PsplinkUsb.Library.CString
open PsplinkUsb.Library.Lines
open PsplinkUsb.Psplink.ConfigReading

def configModeAdd : ℤ := 1
def configModeDel : ℤ := 2

/-- `psplink.ini` and `psplink.ini.tmp`, as far as they are there. -/
structure Files where
  cnf : Option Bytes
  tmp : Option Bytes

/-- Which of the calls on the files succeed. -/
structure Outcome where
  openTmp : Bool
  openCnf : Bool
  removeCnf : Bool
  rename : Bool

def Outcome.allSucceed : Outcome := ⟨true, true, true, true⟩

/-- `fdprintf(fd, "%s=\"%s\"\n", name, val)`. -/
def configLine (name val : Bytes) : Bytes := name ++ equals :: quote :: (val ++ [quote, newline])

/-- The body of the loop: what is written so far, and `found`. -/
def changeEntry (newname newval : Bytes) (mode : ℤ) : Bytes × Bool → Entry → Bytes × Bool
  | (out, found), (name, val) =>
      if name = newname then
        if mode = configModeAdd then (out ++ configLine newname newval, true) else (out, found)
      else (out ++ configLine name val, found)

def changedText (content newname newval : Bytes) (mode : ℤ) : Bytes :=
  let (out, found) :=
    eachEntry (changeEntry newname newval mode) (psplinkConfigOpen content) ([], false)
  if mode = configModeAdd ∧ ¬found then out ++ configLine newname newval else out

def configChange (io : Outcome) (newname newval : Bytes) (mode : ℤ) (fs : Files) : Files :=
  if mode ≠ configModeAdd ∧ mode ≠ configModeDel then fs
  else if io.openTmp then
    match if io.openCnf then fs.cnf else none with
    | none => { fs with tmp := none }
    | some content =>
        let written := { fs with tmp := some (changedText content newname newval mode) }
        if io.removeCnf then
          if io.rename then { cnf := written.tmp, tmp := none } else { written with cnf := none }
        else written
  else fs

/-- What the update is for: the entries of that name get the new value, or there is a new one,
or they are gone. -/
def updated (newname newval : Bytes) (mode : ℤ) (es : List Entry) : List Entry :=
  if mode = configModeAdd then
    es.map (fun e => if e.1 = newname then (newname, newval) else e) ++
      if ∃ e ∈ es, e.1 = newname then [] else [(newname, newval)]
  else es.filter fun e => e.1 ≠ newname

def configText (es : List Entry) : Bytes := es.flatMap fun e => configLine e.1 e.2

section

variable {newname newval : Bytes} {mode : ℤ} {e : Entry} {es : List Entry}

theorem configText_append (fs : List Entry) :
    configText (es ++ fs) = configText es ++ configText fs := List.flatMap_append

theorem foldl_changeEntry_add (out : Bytes) (found : Bool) :
    es.foldl (changeEntry newname newval configModeAdd) (out, found) =
      (out ++ configText (es.map fun e => if e.1 = newname then (newname, newval) else e),
        found || es.any fun e => e.1 = newname) := by
  induction es generalizing out found with
  | nil => simp [configText]
  | cons e es ih =>
      rw [List.foldl_cons, changeEntry]
      by_cases hname : e.1 = newname
      · rw [if_pos hname, if_pos rfl, ih]
        simp [configText, hname]
      · rw [if_neg hname, ih]
        simp [configText, hname]

theorem foldl_changeEntry_del (hmode : mode ≠ configModeAdd) (out : Bytes) (found : Bool) :
    es.foldl (changeEntry newname newval mode) (out, found) =
      (out ++ configText (es.filter fun e => e.1 ≠ newname), found) := by
  induction es generalizing out found with
  | nil => simp [configText]
  | cons e es ih =>
      rw [List.foldl_cons, changeEntry, if_neg hmode]
      split_ifs with hname
      · rw [ih]
        simp [hname]
      · rw [ih]
        simp [configText, hname]

/-- The new file is the text of the updated entries. -/
theorem changedText_eq (content : Bytes) :
    changedText content newname newval mode =
      configText (updated newname newval mode (configEntries content)) := by
  have hloop : eachEntry (changeEntry newname newval mode) (psplinkConfigOpen content) ([], false) =
      (configEntries content).foldl (changeEntry newname newval mode) ([], false) := by
    rw [eachEntry_eq, configEntries_eq]
    rfl
  rw [changedText, hloop, updated]
  by_cases hmode : mode = configModeAdd
  · subst hmode
    rw [foldl_changeEntry_add, if_pos rfl, configText_append]
    by_cases hfound : ∃ e ∈ configEntries content, e.1 = newname
    · have hany : ((configEntries content).any fun e => e.1 = newname) = true := by
        obtain ⟨e, he, hname⟩ := hfound
        exact List.any_eq_true.mpr ⟨e, he, decide_eq_true hname⟩
      rw [if_pos hfound, hany]
      simp [configText]
    · have hany : ((configEntries content).any fun e => e.1 = newname) = false := by
        apply List.any_eq_false.mpr
        exact fun e he hname => hfound ⟨e, he, of_decide_eq_true hname⟩
      rw [if_neg hfound, hany]
      simp [configText]
  · rw [foldl_changeEntry_del hmode, if_neg hmode]
    simp [hmode]

end

end PsplinkUsb.Psplink.ConfigUpdate
