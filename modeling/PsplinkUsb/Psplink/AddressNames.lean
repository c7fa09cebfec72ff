import PsplinkUsb.Psplink.DecodeAddr

namespace PsplinkUsb.Psplink.AddressNames

open PsplinkUsb.Library.Numerals
open PsplinkUsb.Psplink.ProgramMemory (Word)
open PsplinkUsb.Psplink.DecodeAddr

def colon : UInt8 := 0x3A
def comma : UInt8 := 0x2C

/-- What is read of a `SceKernelModuleInfo`. -/
structure ModuleInfo where
  nsegment : ℕ
  segmentaddr : Fin 4 → Word
  segmentsize : Fin 4 → Word
  textAddr : Word
  textSize : Word
  dataSize : Word
  bssSize : Word

/-- The `memset` in front of the query. -/
def ModuleInfo.cleared : ModuleInfo :=
  { nsegment := 0
    segmentaddr := fun _ => 0
    segmentsize := fun _ => 0
    textAddr := 0
    textSize := 0
    dataSize := 0
    bssSize := 0 }

/-- What is read of a `SceKernelThreadInfo`. -/
structure ThreadInfo where
  entry : Word
  stack : Word
  stackSize : Word

/-- The calls of the system that look for modules, threads and exports. -/
structure Kernel where
  findModuleByName : Bytes → Option Word
  queryModuleInfo : Word → Option ModuleInfo
  findThreadByName : Bytes → Option Word
  referThreadStatus : Word → Option ThreadInfo
  findExportByNid : Word → Bytes → Word → Word
  findExportByName : Word → Bytes → Bytes → Word

/-- A text up to its first `c`, and what stands behind that. -/
def splitAt (c : UInt8) (name : Bytes) : Bytes × Option Bytes :=
  match upTo c name with
  | some (name, behind) => (name, some behind)
  | none => (name, none)

/-- The `strtoul` of a whole text in hex digits: a text without a number has to be empty. -/
def hexUid (name : Bytes) : Option Word :=
  match strtoul32 16 name with
  | some (n, behind) => if behind = [] then some (BitVec.ofNat 32 n) else none
  | none => if name = [] then some 0 else none

/-- The place of a segment, from the digit for it. -/
def segmentId (digit : UInt8) : Option (Fin 4) :=
  if h : 0x31 ≤ digit.toNat ∧ digit.toNat ≤ 0x34 then some ⟨digit.toNat - 0x31, by omega⟩ else none

/-- A segment that the module does not have is 0. -/
def segmentOf (info : ModuleInfo) (segment : Fin 4 → Word) (id : Fin 4) : Word :=
  if id.val < info.nsegment then segment id else 0

namespace Kernel

variable (k : Kernel)

/-- An export of a module, with a number or a name for it. -/
def exportValue (uid : Word) (library entry : Bytes) : Word :=
  if [zero, lowerX] <+: entry then
    k.findExportByNid uid library (BitVec.ofNat 32 (((strtoul32 16 entry).map Prod.fst).getD 0))
  else k.findExportByName uid library entry

/-- What a module's name stands for, with what is behind the colon; nothing is the return
value 0. -/
def moduleValue (uid : Word) (info : ModuleInfo) : Option Bytes → Option Word
  | none => some info.textAddr
  | some ext =>
      if ext = text "text" then some info.textAddr
      else if ext = text "stext" then some info.textSize
      else if ext = text "sdata" then some info.dataSize
      else if ext = text "sbss" then some info.bssSize
      else
        match splitAt comma ext with
        | (library, some entry) => some (k.exportValue uid library entry)
        | (_, none) =>
            match ext with
            | [digit] => (segmentId digit).map (segmentOf info info.segmentaddr)
            | [s, digit] =>
                if s = 0x73 then (segmentId digit).map (segmentOf info info.segmentsize) else none
            | _ => none

def moduleUid (name : Bytes) : Option Word := (k.findModuleByName name).or (hexUid name)

/-- A query that fails is no error: `ret`, which would say so, is always 0. -/
def getModaddr (name : Bytes) : Option Word :=
  let (name, ext) := splitAt colon name
  match k.moduleUid name with
  | none => none
  | some uid => k.moduleValue uid ((k.queryModuleInfo uid).getD .cleared) ext

def threadValue (info : ThreadInfo) : Option Bytes → Option Word
  | none => some info.entry
  | some ext =>
      if ext = text "stack" then some info.stack
      else if ext = text "sstack" then some info.stackSize
      else none

def getThreadaddr (name : Bytes) : Option Word :=
  let (name, ext) := splitAt colon name
  match (k.findThreadByName name).or (hexUid name) with
  | none => none
  | some uid =>
      match k.referThreadStatus uid with
      | none => none
      | some info => threadValue info ext

/-- A machine on which the system finds the modules and threads. -/
def machine (m : Machine) : Machine :=
  { m with modaddr := k.getModaddr, threadaddr := k.getThreadaddr }

/-- The name is that of a module which can be queried, and what is behind the colon is known. -/
def ModuleNamed (name : Bytes) : Prop :=
  ∃ uid info v, k.moduleUid (splitAt colon name).1 = some uid ∧ k.queryModuleInfo uid = some info ∧
    k.moduleValue uid info (splitAt colon name).2 = some v

/-- The name is that of a thread which can be queried, and what is behind the colon is known. -/
def ThreadNamed (name : Bytes) : Prop :=
  ∃ uid info v, (k.findThreadByName (splitAt colon name).1).or (hexUid (splitAt colon name).1) =
      some uid ∧ k.referThreadStatus uid = some info ∧
    threadValue info (splitAt colon name).2 = some v

variable {k} {name : Bytes}

theorem getThreadaddr_isSome : (k.getThreadaddr name).isSome = true ↔ k.ThreadNamed name := by
  rw [getThreadaddr]
  dsimp only
  constructor
  · intro h
    split at h
    · cases h
    · rename_i uid huid
      split at h
      · cases h
      · rename_i info hinfo
        obtain ⟨v, hv⟩ := Option.isSome_iff_exists.mp h
        exact ⟨uid, info, v, huid, hinfo, hv⟩
  · rintro ⟨uid, info, v, huid, hinfo, hv⟩
    simp [huid, hinfo, hv]

end Kernel

end PsplinkUsb.Psplink.AddressNames
