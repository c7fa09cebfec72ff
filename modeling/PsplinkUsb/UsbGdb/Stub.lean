import PsplinkUsb.Library.LittleEndian
import PsplinkUsb.Library.Numerals
import PsplinkUsb.Psplink.BreakpointTable
import PsplinkUsb.UsbGdb.StubMemory

/-!
`GdbHandleException` of `usbgdb/gdb-stub.c`: the packets it knows and the replies it builds
in `output`. A context is an object in memory; the threads of the kernel are what the kernel
answers.
-/

namespace PsplinkUsb.UsbGdb.Stub

open PsplinkUsb.Library.Ascii
open PsplinkUsb.Library.CString
open PsplinkUsb.Library.LittleEndian
open PsplinkUsb.Library.Numerals (padded)
open PsplinkUsb.Library.Patch
open PsplinkUsb.Psplink.BreakpointTable
open PsplinkUsb.Psplink.ProgramMemory
open PsplinkUsb.UsbGdb.Packets hiding plus minus
open PsplinkUsb.UsbGdb.StubMemory

def ascii (s : String) : Bytes := s.toByteArray.data.toList

/-- An object of the kernel's memory, where the contexts and the stack of the stub are. -/
structure KernelObject (size : ℕ) where
  addr : Word
  lower : 0x88000000 ≤ addr.toNat
  upper : addr.toNat + size ≤ 0x88400000

/-- The size of `struct PsplinkContext` and the offsets of its fields. -/
def contextSize : ℕ := 928
def offsetR : ℕ := 32
def offsetStatus : ℕ := 160
def offsetCause : ℕ := 176
def offsetEpc : ℕ := 180
def offsetFpr : ℕ := 184
def offsetFsr : ℕ := 312
def offsetFramePtr : ℕ := 320
def offsetIndex : ℕ := 328
def offsetType : ℕ := 392
def offsetThid : ℕ := 912
def offsetCont : ℕ := 920

abbrev Context := KernelObject contextSize

def KernelObject.field {size : ℕ} (o : KernelObject size) (offset : ℕ) : Word :=
  o.addr + BitVec.ofNat 32 offset

def loadWord (m : ByteMemory) (address : Word) : Word :=
  BitVec.ofNat 32 (ofBytes (load m (addresses address 4)))

def storeWord (m : ByteMemory) (address value : Word) : ByteMemory :=
  applyAll (((addresses address 4).map cell).zip (toBytes 4 value.toNat)) m

/-- `name` of `SceKernelThreadInfo`, of 32 bytes with the zero at its end. -/
def ThreadName := { name : CStr // name.1.length < 32 }

/-- What the kernel answers while a packet is handled, and the bytes in front of `hexchars`. -/
structure Kernel where
  threadmanIds : List Word
  moduleOf : Word → Word
  threadStatus : Word → Word ⊕ ThreadName
  fullThreadContext : Word → Option { bytes : Bytes // bytes.length = contextSize }
  beforeHexchars : ℕ → UInt8

/-- `ctx`, the local `thctx`, and what is fixed of `g_context`. -/
structure Env where
  user : Partition
  ctx : Context
  thctx : Context
  uid : Word
  elf : Bool
  textAddr : Word

/-- The static variables of `handle_query`. -/
structure Query where
  threads : List Word
  threadLoc : ℕ

structure State where
  mem : ByteMemory
  bps : Slot → Breakpoint
  hw : HwDebugEnv
  started : Bool
  thid : Word
  query : Query

/-- What is stored from `output[0]` on, one after the other, and whether something is stored
through a pointer that is `NULL`. -/
structure Reply where
  passes : List Bytes
  fault : Bool

def Reply.empty : Reply := { passes := [], fault := false }

/-- `strcpy` or `sprintf` to `output`. -/
def Reply.ofText (text : Bytes) : Reply := { passes := [text ++ [0]], fault := false }

/-- The string in `output`. -/
def Reply.text (r : Reply) : Bytes := cstr (r.passes.getLastD [])

def comma : UInt8 := 0x2C
def semicolon : UInt8 := 0x3B

def hexWord (w : Word) : Bytes := padded 8 16 w.toNat
def lowerHexWord (w : Word) : Bytes := (hexWord w).map toLower

def sighup : UInt8 := 1
def sigill : UInt8 := 4
def sigtrap : UInt8 := 5
def sigfpe : UInt8 := 8
def sigbus : UInt8 := 10
def sigsegv : UInt8 := 11

def hardTrapInfo : List (ℕ × UInt8) :=
  [(6, sigbus), (7, sigbus), (9, sigtrap), (10, sigill), (12, sigfpe), (13, sigtrap),
    (14, sigsegv), (15, sigfpe), (23, sigsegv), (31, sigsegv)]

def computeSignal (tt : ℕ) : UInt8 := (hardTrapInfo.lookup tt).getD sighup

def trapSignal (env : Env) (m : ByteMemory) : UInt8 :=
  if loadWord m (env.ctx.field offsetType) = psplinkExtypeDebug then sigtrap
  else computeSignal ((loadWord m (env.ctx.field offsetCause) &&& 0x7C) >>> 2).toNat

/-- A register in the stop reply: its number, a colon, its value and a semicolon. -/
def trapFields (user : Partition) (m : ByteMemory) : List (UInt8 × Word) → Hexed
  | [] => { text := [], done := true }
  | (number, address) :: fields =>
      let value := mem2hex user m address 4
      let field := hexchar (number >>> 4) :: hexchar number :: colon :: value.text
      if value.done then
        let rest := trapFields user m fields
        { rest with text := field ++ semicolon :: rest.text }
      else { text := field, done := false }

def buildTrapCmd (env : Env) (m : ByteMemory) (sigval : UInt8) : Reply :=
  let fields := trapFields env.user m
    [(37, env.ctx.field offsetEpc), (30, env.ctx.field (offsetR + 4 * 30)),
      (29, env.ctx.field (offsetR + 4 * 29))]
  let stored := 0x54 :: hexchar (sigval >>> 4) :: hexchar sigval :: fields.text
  if fields.done then
    .ofText (stored ++ ascii "thread:" ++ lowerHexWord (loadWord m (env.ctx.field offsetThid)) ++
      [semicolon])
  else { passes := [stored], fault := true }

/-- Calls of `mem2hex` behind one another, and whether one of them was given `NULL`. -/
def dump (user : Partition) (m : ByteMemory) : List (Word × ℕ) → Hexed × Bool
  | [] => ({ text := [], done := true }, false)
  | (address, count) :: blocks =>
      let block := mem2hex user m address count
      if block.done then
        let rest := dump user m blocks
        ({ rest.1 with text := block.text ++ rest.1.text }, rest.2)
      else (block, !blocks.isEmpty)

/-- The blocks of registers that `g` reads and `G` writes, with their sizes. -/
def registerBlocks (ctx : Context) : List (Word × ℕ) :=
  [(ctx.field offsetR, 32 * 4), (ctx.field offsetStatus, 6 * 4), (ctx.field offsetFpr, 32 * 4),
    (ctx.field offsetFsr, 2 * 4), (ctx.field offsetFramePtr, 2 * 4),
    (ctx.field offsetIndex, 16 * 4)]

def dumpContext (user : Partition) (m : ByteMemory) (ctx : Context) : Reply :=
  let (registers, fault) := dump user m (registerBlocks ctx)
  { passes := [registers.text ++ if registers.done then [0] else []], fault := fault }

/-- The case `g`. -/
def readRegisters (env : Env) (k : Kernel) (s : State) : Reply :=
  if s.thid ≠ 0 ∧ s.thid ≠ loadWord s.mem (env.ctx.field offsetThid) then
    match k.fullThreadContext s.thid with
    | some context =>
        let overlay := ((addresses env.thctx.addr contextSize).map cell).zip context.1
        dumpContext env.user (applyAll overlay s.mem) env.thctx
    | none => .ofText (ascii "E03")
  else dumpContext env.user s.mem env.ctx

/-- Calls of `hex2mem` for blocks behind one another in the packet. -/
def writeBlocks (user : Partition) : Bytes → List (Word × ℕ) → ByteMemory → ByteMemory
  | _, [], m => m
  | ptr, (address, count) :: blocks, m =>
      writeBlocks user (ptr.drop (2 * count)) blocks
        (hex2mem user false ptr address count m).mem

/-- The case `G`, from behind the `G` on. -/
def writeRegisters (env : Env) (ptr : Bytes) (s : State) : Reply × State :=
  (.ofText (ascii "OK"),
    if s.thid ≠ 0 ∧ s.thid = loadWord s.mem (env.ctx.field offsetThid) then
      { s with mem := writeBlocks env.user ptr (registerBlocks env.ctx) s.mem }
    else s)

structure Numbers where
  addr : Word
  length : Word
  ptr : Bytes
  deriving DecidableEq

/-- An address, a comma and a length, and how many bytes were read for them. -/
def twoNumbers (ptr : Bytes) : Option Numbers × ℕ :=
  let addr := hexToInt ptr
  if addr.numChars = 0 then (none, 1)
  else if addr.ptr.getD 0 0 ≠ comma then (none, addr.numChars + 1)
  else
    let length := hexToInt (addr.ptr.drop 1)
    (if length.numChars = 0 then none
      else some { addr := addr.intValue, length := length.intValue, ptr := length.ptr },
      addr.numChars + 1 + (length.numChars + 1))

/-- The case `m`, from behind the `m` on. The length is taken as an `int`. -/
def readMemory (user : Partition) (m : ByteMemory) (ptr : Bytes) : Reply :=
  match (twoNumbers ptr).1 with
  | some numbers =>
      let bytes := mem2hex user m numbers.addr numbers.length.toInt.toNat
      if bytes.done then .ofText bytes.text
      else { passes := [bytes.text, ascii "E03" ++ [0]], fault := false }
  | none => .ofText (ascii "E01")

structure WriteResult where
  reply : Reply
  mem : ByteMemory
  reads : ℕ

/-- The cases `X` and `M`, from behind the letter on. -/
def writeMemory (user : Partition) (binary : Bool) (ptr : Bytes) (m : ByteMemory) : WriteResult :=
  match twoNumbers ptr with
  | (some numbers, reads) =>
      if numbers.ptr.getD 0 0 = colon then
        let stored := hex2mem user binary (numbers.ptr.drop 1) numbers.addr
          numbers.length.toInt.toNat m
        { reply := .ofText (ascii (if stored.ret ≠ 0 then "OK" else "E03"))
          mem := stored.mem, reads := reads + stored.reads }
      else { reply := .ofText (ascii "E02"), mem := m, reads := reads }
  | (none, reads) => { reply := .ofText (ascii "E02"), mem := m, reads := reads }

/-- The case `H`, from behind the `H` on. -/
def selectThread (ptr : Bytes) (s : State) : Reply × State :=
  if ptr.getD 0 0 = 0x67 then
    let addr := hexToInt (ptr.drop 1)
    if addr.numChars ≠ 0 then (.ofText (ascii "OK"), { s with thid := addr.intValue })
    else (.ofText (ascii "EO3"), s)
  else (.empty, s)

/-- `hexchars[*str >> 4]`. A `char` has a sign. -/
def hexcharShifted (k : Kernel) (ch : UInt8) : UInt8 :=
  if ch < 0x80 then hexchar (ch >>> 4) else k.beforeHexchars (16 - (ch >>> 4).toNat)

def strtohex (k : Kernel) (str : Bytes) : Reply :=
  .ofText (str.flatMap fun ch => [hexcharShifted k ch, hexchar ch])

def psplinkReferThreadsByModule (k : Kernel) (modid : Word) (max : ℕ) : List Word :=
  (k.threadmanIds.filter fun id => k.moduleOf id = modid).take max

/-- `handle_query`. -/
def handleQuery (env : Env) (k : Kernel) (str : Bytes) (s : State) : Reply × State :=
  if (ascii "C").isPrefixOf str then
    (.ofText (ascii "QC" ++ hexWord (loadWord s.mem (env.ctx.field offsetThid))), s)
  else if (ascii "fThreadInfo").isPrefixOf str then
    match psplinkReferThreadsByModule k env.uid 20 with
    | [] => (.empty, { s with query := { s.query with threads := [] } })
    | thread :: threads =>
        (.ofText (ascii "m" ++ hexWord thread),
          { s with query := { threads := thread :: threads, threadLoc := 1 } })
  else if (ascii "sThreadInfo").isPrefixOf str then
    match s.query.threads[s.query.threadLoc]? with
    | some thread =>
        (.ofText (ascii "m" ++ hexWord thread),
          { s with query := { s.query with threadLoc := s.query.threadLoc + 1 } })
    | none => (.ofText (ascii "l"), s)
  else if (ascii "ThreadExtraInfo,").isPrefixOf str then
    let thid := hexToInt (str.drop 16)
    if thid.numChars ≠ 0 then
      match k.threadStatus thid.intValue with
      | .inr name => (strtohex k name.1.1, s)
      | .inl error => (strtohex k (ascii "Error: 0x" ++ hexWord error), s)
    else (.empty, s)
  else if (ascii "Offsets").isPrefixOf str && !env.elf then
    let text := hexWord env.textAddr
    (.ofText (ascii "Text=" ++ text ++ ascii ";Data=" ++ text ++ ascii ";Bss=" ++ text), s)
  else (.empty, s)

/-- The memory as words, for the breakpoint table. -/
def State.debug (s : State) : DebugState :=
  { bps := s.bps, mem := fun c => loadWord s.mem c, hw := s.hw }

/-- Take over what a call changed of the table and of the word at an address. -/
def State.update (s : State) (address : Word) (d : DebugState) : State :=
  { s with bps := d.bps, hw := d.hw, mem := storeWord s.mem address (lw d.mem address) }

/-- `handle_bp`. -/
def handleBp (str : Bytes) (set : Bool) (s : State) : Reply × State :=
  if isDigit (str.getD 0 0) = false ∨ str.getD 1 0 ≠ comma then (.ofText (ascii "E01"), s)
  else
    match (twoNumbers (str.drop 2)).1 with
    | none => (.ofText (ascii "E01"), s)
    | some numbers =>
        if str.getD 0 0 = 0x30 ∨ str.getD 0 0 = 0x31 then
          if set then
            let flags := if str.getD 0 0 = 0x31 then debugBpHardware else 0
            let (slot, d) := debugSetBP numbers.addr flags 0 s.debug
            (.ofText (ascii (if slot.isSome then "OK" else "E03")), s.update numbers.addr d)
          else
            let (ret, d) := debugDeleteBP numbers.addr s.debug
            (.ofText (ascii (if ret ≠ 0 then "OK" else "EO3")), s.update numbers.addr d)
        else (.empty, s)

def pspExceptionContinue : Word := 1
def pspExceptionStep : Word := 2

/-- Set `epc` if the packet names an address, and how the thread continues. -/
def resume (env : Env) (cont : Word) (takesAddr : Bool) (ptr : Bytes) (s : State) : State :=
  let addr := hexToInt ptr
  let m := if takesAddr ∧ addr.numChars ≠ 0 then
    storeWord s.mem (env.ctx.field offsetEpc) addr.intValue else s.mem
  { s with mem := storeWord m (env.ctx.field offsetCont) cont }

/-- A packet is replied to, or the stub leaves its loop. -/
inductive Outcome where
  | reply (r : Reply) (s : State)
  | restart (ret : Bool) (r : Option Reply) (s : State)

/-- A reply behind `output[0] = 0`. -/
def Reply.opened (r : Reply) : Reply := { r with passes := [0] :: r.passes }

def answered (r : Reply × State) : Outcome := .reply r.1.opened r.2

/-- One turn of the loop, with the packet in `input`. -/
def handlePacket (env : Env) (k : Kernel) (s : State) (input : Bytes) : Outcome :=
  let command := input.getD 0 0
  let ptr := input.drop 1
  if command = 0x3F then answered (buildTrapCmd env s.mem (trapSignal env s.mem), s)
  else if command = 0x63 then
    .restart true none
      { resume env pspExceptionContinue s.started ptr s with started := true }
  else if command = 0x44 then
    .restart false (some Reply.empty.opened) (resume env pspExceptionContinue false ptr s)
  else if command = 0x67 then answered (readRegisters env k s, s)
  else if command = 0x47 then answered (writeRegisters env ptr s)
  else if command = 0x6D then answered (readMemory env.user s.mem ptr, s)
  else if command = 0x58 ∨ command = 0x4D then
    let result := writeMemory env.user (command = 0x58) ptr s.mem
    answered (result.reply, { s with mem := result.mem })
  else if command = 0x73 then .restart true none (resume env pspExceptionStep true ptr s)
  else if command = 0x48 then answered (selectThread ptr s)
  else if command = 0x71 then answered (handleQuery env k ptr s)
  else if command = 0x5A then answered (handleBp ptr true s)
  else if command = 0x7A then answered (handleBp ptr false s)
  else answered (.empty, s)

theorem text_ofText {text : Bytes} (h : 0 ∉ text) : (Reply.ofText text).opened.text = text :=
  cstr_append_zero h []

/-- A stub whose memory is zero, with the partition `main.c` starts with. -/
def plainEnv : Env where
  user := { userbase := 0x08800000, usertop := 0x0A000000 }
  ctx := { addr := 0x88100000, lower := by decide, upper := by decide }
  thctx := { addr := 0x88200000, lower := by decide, upper := by decide }
  uid := 1
  elf := false
  textAddr := 0x08804000

def plainKernel : Kernel where
  threadmanIds := []
  moduleOf _ := 0
  threadStatus _ := .inl 0x80020198
  fullThreadContext _ := none
  beforeHexchars _ := 0

def plainState : State where
  mem _ := 0
  bps _ := Breakpoint.zero
  hw := { drcntl := 0, ibc := 0, iba := 0, ibam := 0 }
  started := true
  thid := 0
  query := { threads := [], threadLoc := 0 }

end PsplinkUsb.UsbGdb.Stub
