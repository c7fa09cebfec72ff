import Mathlib.Data.List.FinRange
import PsplinkUsb.Psplink.ProgramMemory

/-!
The API hooks of `psplink/apihook.c`: sixteen slots, each remembering the word
it patched and the function that word led to. Pointers are words, `NULL` is 0.
-/

namespace PsplinkUsb.Psplink.ApiHook

open PsplinkUsb.Psplink.ProgramMemory

abbrev apihookMaxids : Nat := 16

def apihookMaxname : Nat := 32
def apihookMaxparam : Nat := 6

abbrev HookId := Fin apihookMaxids

structure ApiHookGeneric where
  name : List UInt8
  param : List UInt8
  ret : UInt8
  func : Word
  syscall : Word
  sleep : Int
  imphook : Bool
deriving DecidableEq, Repr

def ApiHookGeneric.empty : ApiHookGeneric := ⟨[], [], 118, 0, 0, 0, false⟩

/-- What does not change while hooks come and go: the address of the stub table
`_apiHook0`, the user-mode stub table registered by psplink_user and the
pointer to the syscall table held by coprocessor register 12. -/
structure HookEnv where
  apiHook0 : Word
  userdispatch : Word
  syscallPtr : Word

structure HookState where
  hooks : HookId → ApiHookGeneric
  mem : Memory

/-- `find_syscall_addr`: the first entry of the syscall table that holds
`addr`, or `NULL`. -/
def findSyscallAddr (env : HookEnv) (mem : Memory) (addr : Word) : Word :=
  if env.syscallPtr = 0 then 0
  else
    let head := lw mem env.syscallPtr
    let syscalls := head + 0x10
    let size := (lw mem (head + 12) - 0x10).toNat / 4
    match (List.range size).find? fun i => lw mem (syscalls + BitVec.ofNat 32 (4 * i)) == addr with
    | some i => syscalls + BitVec.ofNat 32 (4 * i)
    | none => 0

theorem lw_findSyscallAddr {env : HookEnv} {mem : Memory} {addr : Word}
    (h : findSyscallAddr env mem addr ≠ 0) :
    lw mem (findSyscallAddr env mem addr) = addr := by
  revert h
  unfold findSyscallAddr
  split
  · intro h
    exact absurd rfl h
  · dsimp only
    split
    · rename_i i hfound
      intro _
      simpa using List.find?_some hfound
    · intro h
      exact absurd rfl h

def findFreeHook (s : HookState) : Option HookId :=
  (List.finRange apihookMaxids).find? fun i => (s.hooks i).func == 0

/-- The instruction `j func` that `apiHookImport` assembles. -/
def jumpWord (func : Word) : Word :=
  0x08000000#32 ||| ((func &&& 0x0FFFFFFF#32) >>> 2)

/-- The test `(*p & ~0x03FFFFFF) == 0x08000000`. -/
def isJump (inst : Word) : Bool := inst &&& ~~~0x03FFFFFF#32 == 0x08000000#32

def jumpTarget (inst addr : Word) : Word :=
  ((inst &&& 0x03FFFFFF#32) <<< 2) ||| (addr &&& 0xF0000000#32)

theorem and_mask_shift {index : Word} (hindex : index.toNat < 0x4000000) :
    ((index <<< 2) &&& 0x0FFFFFFF#32) >>> 2 = index := by
  apply BitVec.eq_of_toNat_eq
  rw [BitVec.toNat_ushiftRight, BitVec.toNat_and, BitVec.toNat_shiftLeft]
  have hmask : ∀ n : Nat, n &&& (0x0FFFFFFF#32).toNat = n % 0x10000000 :=
    fun n => Nat.and_two_pow_sub_one_eq_mod n 28
  rw [hmask, Nat.shiftLeft_eq, Nat.shiftRight_eq_div_pow]
  omega

/-- Encoding the decoded target of a jump gives the jump back, whatever segment
the jump lies in. -/
theorem jumpWord_jumpTarget {inst : Word} (addr : Word) (h : isJump inst = true) :
    jumpWord (jumpTarget inst addr) = inst := by
  have hinst : inst &&& ~~~0x03FFFFFF#32 = 0x08000000#32 := by simpa [isJump] using h
  have hindex : (inst &&& 0x03FFFFFF#32).toNat < 0x4000000 := by
    rw [BitVec.toNat_and]
    exact Nat.lt_of_le_of_lt Nat.and_le_right (by decide)
  have hsegment : addr &&& 0xF0000000#32 &&& 0x0FFFFFFF#32 = 0#32 := by
    rw [BitVec.and_assoc]
    exact BitVec.and_zero
  rw [jumpWord, jumpTarget, BitVec.and_or_distrib_right, hsegment, BitVec.or_zero,
    and_mask_shift hindex, ← hinst]
  ext i hi
  simp only [BitVec.getElem_or, BitVec.getElem_and, BitVec.getElem_not]
  cases inst[i] <;> cases (67108863#32 : BitVec 32)[i] <;> rfl

/-- `apiHookAddr`, for a pointer that is not `NULL`. -/
def apiHookAddr (mem : Memory) (addr func : Word) : Memory := sw mem func addr

/-- `apiHookImport`, for a pointer that is not `NULL`. -/
def apiHookImport (mem : Memory) (addr func : Word) : Memory :=
  sw mem (jumpWord func) addr

/-- `&hookaddr[id * 2]`: every stub of the table is two instructions long. -/
def stubAddress (hookaddr : Word) (id : HookId) : Word :=
  hookaddr + BitVec.ofNat 32 (8 * id.val)

/-- Where a hook goes: the word to patch, the function it leads to and the stub
table to use instead. `none` stands for every refusal. -/
def hookSite (env : HookEnv) (mem : Memory) (addr : Word) (imphook : Bool) :
    Option (Word × Word × Word) :=
  if addr = 0 then none
  else if imphook then
    let user := !has addr 0x80000000#32
    if user && env.userdispatch == 0 then none
    else if !isJump (lw mem addr) then none
    else
      some (addr, jumpTarget (lw mem addr) addr,
        if user then env.userdispatch else env.apiHook0)
  else
    let syscall := findSyscallAddr env mem addr
    if syscall = 0 then none else some (syscall, addr, env.apiHook0)

structure HookRequest where
  addr : Word
  imphook : Bool
  name : List UInt8
  ret : UInt8
  format : List UInt8
  sleep : Int
deriving DecidableEq, Repr

/-- `_apiHookGenericCommon`: 1 and the patched state, or 0 and no change. -/
def apiHookGenericCommon (env : HookEnv) (req : HookRequest) (s : HookState) :
    Int × HookState :=
  match findFreeHook s with
  | none => (0, s)
  | some id =>
      match hookSite env s.mem req.addr req.imphook with
      | none => (0, s)
      | some (syscall, target, hookaddr) =>
          let hook : ApiHookGeneric :=
            { name := req.name.take (apihookMaxname - 1),
              param := req.format.take apihookMaxparam, ret := req.ret,
              func := target, syscall := syscall, sleep := req.sleep,
              imphook := req.imphook }
          let stub := stubAddress hookaddr id
          let mem :=
            if req.imphook then apiHookImport s.mem syscall stub
            else apiHookAddr s.mem syscall stub
          (1, { hooks := Function.update s.hooks id hook, mem := mem })

/-- The word `apiHookGenericDelete` writes back for a hook. -/
def restoreWord (hook : ApiHookGeneric) : Word :=
  if hook.imphook then jumpWord hook.func else hook.func

def toHookId (id : Int) : Option HookId :=
  if h : 0 ≤ id ∧ id < apihookMaxids then some ⟨id.toNat, by omega⟩ else none

def apiHookGenericDelete (id : Int) (s : HookState) : HookState :=
  match toHookId id with
  | none => s
  | some i =>
      let hook := s.hooks i
      if hook.func = 0 then s
      else
        { hooks := Function.update s.hooks i { hook with func := 0 },
          mem := if hook.imphook then apiHookImport s.mem hook.syscall hook.func
            else apiHookAddr s.mem hook.syscall hook.func }

end PsplinkUsb.Psplink.ApiHook
