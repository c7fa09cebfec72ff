import PsplinkUsb.Psplink.CommandBuffers
import PsplinkUsb.Psplink.MemoryDump
import PsplinkUsb.Psplink.MemorySearch

/-!
The memory commands of `psplink/shell.c`, from `memdump` to `disasm`: what they read and store, and
what is followed to get to their addresses.
-/

namespace PsplinkUsb.Psplink.MemoryCommands

open PsplinkUsb.Library.LittleEndian
open PsplinkUsb.Library.Numerals (minus)
open PsplinkUsb.Psplink.ProgramMemory (Word)
open PsplinkUsb.Psplink.DecodeAddr
open PsplinkUsb.Psplink.AddressExpressions
open PsplinkUsb.Psplink.PokeWords (memAttribWrite)
open PsplinkUsb.Psplink.MemoryRegions
open PsplinkUsb.Psplink.DereferencedWords
open PsplinkUsb.Psplink.MemoryDump
open PsplinkUsb.Psplink.MemorySearch
open PsplinkUsb.Psplink.CommandBuffers (Shell)

/-- What a store of bytes from an address on makes of the machine. It leaves the protection alone. -/
structure Bus where
  store : Word → Bytes → Machine → Machine
  protoff_store : ∀ addr bytes m, (store addr bytes m).protoff = m.protoff

/-- The files: which can be written and read, how much a call moves of what is left to move, and
what there is to read. -/
structure Drive where
  creates : Bytes → Bool
  opens : Bytes → Bool
  moves : ℕ → ℕ → ℤ
  moves_le : ∀ done left, moves done left ≤ left
  contents : Bytes → ℕ → UInt8

/-- What the commands run with, and what is in the row of `print_memdump` before. -/
structure Env where
  bus : Bus
  drive : Drive
  shell : Shell
  row : ℕ → Word

structure State where
  machine : Machine
  memdump : MemdumpState

/-- The state behind a command, whether it returns `CMD_OK`, the words that are followed in its
arguments, the bytes that it reads or stores, each access with the start address that it belongs
to, and the values it prints, with their addresses. -/
structure Outcome where
  state : State
  ok : Bool
  derefs : List Word
  accesses : List (Word × Access)
  shown : List (Word × Word)

def loadBytes (m : Machine) (addr : Word) (size : ℕ) : Bytes :=
  (List.range size).map fun i => byteAt m (addr + BitVec.ofNat 32 i)

def clearLow (width : ℕ) (addr : Word) : Word := addr &&& ~~~BitVec.ofNat 32 (width - 1)

/-- The words that `memDecode` follows. -/
def followed (m : Machine) (arg : Bytes) : List Word := (decodeTrace m arg).reads

/-- A command that ends without any access. -/
def quiet (s : State) (ok : Bool) (derefs : List Word) : Outcome :=
  { state := s, ok := ok, derefs := derefs, accesses := [], shown := [] }

section

variable (env : Env)

/-- The loop of the poke commands. -/
def pokeLoop (width : ℕ) (start : Word) : List Bytes → ℕ → Word → Machine →
    Machine × List Word × List (Word × Access)
  | [], _, _, m => (m, [], [])
  | arg :: args, sizeLeft, addr, m =>
      let derefs := followed m arg
      let (m, stored) :=
        match memDecode m arg with
        | some data => (env.bus.store addr (toBytes width data.toNat) m,
            [(start, (⟨addr, width, width⟩ : Access))])
        | none => (m, [])
      if sizeLeft ≤ width then (m, derefs, stored)
      else
        let rest := pokeLoop width start args (sizeLeft - width) (addr + BitVec.ofNat 32 width) m
        (rest.1, derefs ++ rest.2.1, stored ++ rest.2.2)

def pokeCmd (width : ℕ) (attrib : Word) (argv : List Bytes) (s : State) : Outcome :=
  let m := s.machine
  let derefs := followed m (argv.getD 0 [])
  match memDecode m (argv.getD 0 []) with
  | none => quiet s true derefs
  | some addr =>
      let addr := clearLow width addr
      let sizeLeft := m.memValidate addr (memAttribWrite ||| attrib)
      if width ≤ sizeLeft then
        let (m, more, stored) := pokeLoop env width addr argv.tail sizeLeft addr m
        { state := { s with machine := m }, ok := true, derefs := derefs ++ more
          accesses := stored, shown := [] }
      else quiet s false derefs

def pokewCmd : List Bytes → State → Outcome := pokeCmd env 4 memAttribWord
def pokehCmd : List Bytes → State → Outcome := pokeCmd env 2 memAttribHalf
def pokebCmd : List Bytes → State → Outcome := pokeCmd env 1 memAttribByte

def pokesCmd (argv : List Bytes) (s : State) : Outcome :=
  let m := s.machine
  let derefs := followed m (argv.getD 0 [])
  match memDecode m (argv.getD 0 []) with
  | none => quiet s true derefs
  | some addr =>
      let str := argv.getD 1 [] ++ [0]
      if str.length ≤ m.memValidate addr (memAttribWrite ||| memAttribWord) then
        { state := { s with machine := env.bus.store addr str m }, ok := true, derefs := derefs
          accesses := [(addr, ⟨addr, str.length, 1⟩)], shown := [] }
      else quiet s false derefs

/-- The format has no part in what is read. -/
def peekCmd (width : ℕ) (attrib : Word) (argv : List Bytes) (s : State) : Outcome :=
  let m := s.machine
  let derefs := followed m (argv.getD 0 [])
  match memDecode m (argv.getD 0 []) with
  | none => quiet s true derefs
  | some addr =>
      let addr := clearLow width addr
      if width ≤ m.memValidate addr (memAttribRead ||| attrib) then
        { state := s, ok := true, derefs := derefs, accesses := [(addr, ⟨addr, width, width⟩)]
          shown := [(addr, BitVec.ofNat 32 (ofBytes (loadBytes m addr width)))] }
      else quiet s false derefs

def peekwCmd : List Bytes → State → Outcome := peekCmd 4 memAttribWord
def peekhCmd : List Bytes → State → Outcome := peekCmd 2 memAttribHalf
def peekbCmd : List Bytes → State → Outcome := peekCmd 1 memAttribByte

/-- What is followed in two arguments, the second one only if the first is decoded. -/
def followedBoth (m : Machine) (argv : List Bytes) : List Word :=
  followed m (argv.getD 0 []) ++
    if (memDecode m (argv.getD 0 [])).isSome then followed m (argv.getD 1 []) else []

/-- The loop of the fill commands, with so many more to store. -/
def fillLoop (bytes : Bytes) : ℕ → Word → Machine → Machine
  | 0, _, m => m
  | n + 1, addr, m =>
      fillLoop bytes n (addr + BitVec.ofNat 32 bytes.length) (env.bus.store addr bytes m)

def fillCmd (width : ℕ) (attrib : Word) (argv : List Bytes) (s : State) : Outcome :=
  let m := s.machine
  let derefs := followedBoth m argv
  match memDecode m (argv.getD 0 []), memDecode m (argv.getD 1 []) with
  | some addr, some size =>
      let addr := clearLow width addr
      let count := min size.toNat (m.memValidate addr (memAttribWrite ||| attrib)) / width
      match strtoint (argv.getD 2 []) with
      | none => quiet s false derefs
      | some val =>
          { state := { s with machine := fillLoop env (toBytes width val.toNat) count addr m }
            ok := true, derefs := derefs
            accesses := (List.range count).map fun i =>
              (addr, ⟨addr + BitVec.ofNat 32 (width * i), width, width⟩)
            shown := [] }
  | _, _ => quiet s true derefs

def fillbCmd : List Bytes → State → Outcome := fillCmd env 1 memAttribByte
def fillhCmd : List Bytes → State → Outcome := fillCmd env 2 memAttribHalf
def fillwCmd : List Bytes → State → Outcome := fillCmd env 4 memAttribWord

/-- The commands of `MemorySearch`, for so many rounds. -/
def findCmd (command : FindCommand) (rounds : ℕ) (argv : List Bytes) (s : State) : Outcome :=
  let m := s.machine
  let derefs := followedBoth m argv
  match memDecode m (argv.getD 0 []), memDecode m (argv.getD 1 []), command.run m rounds argv with
  | some addr, some _, some search =>
      { state := s, ok := true, derefs := derefs, accesses := search.reads.map fun a => (addr, a)
        shown := search.found.map fun found => (found, found) }
  | some _, some _, none => quiet s false derefs
  | _, _, _ => quiet s true derefs

def copymemCmd (argv : List Bytes) (s : State) : Outcome :=
  let m := s.machine
  let derefs := followedBoth m argv ++
    if (memDecode m (argv.getD 0 [])).isSome ∧ (memDecode m (argv.getD 1 [])).isSome then
      followed m (argv.getD 2 [])
    else []
  match memDecode m (argv.getD 0 []), memDecode m (argv.getD 1 []),
      memDecode m (argv.getD 2 []) with
  | some src, some dest, some size =>
      let srcsize := m.memValidate src (memAttribWrite ||| memAttribByte)
      let destsize := m.memValidate dest (memAttribWrite ||| memAttribByte)
      let size := min size.toNat (min srcsize destsize)
      { state := { s with machine := env.bus.store dest (loadBytes m src size) m }, ok := true
        derefs := derefs, accesses := [(src, ⟨src, size, 1⟩), (dest, ⟨dest, size, 1⟩)]
        shown := [] }
  | _, _, _ => quiet s true derefs

/-- The count that is asked for, and what is followed for it. -/
def disasmCount (m : Machine) (argv : List Bytes) : Option Word × List Word :=
  if 1 < argv.length then (memDecode m (argv.getD 1 []), followed m (argv.getD 1 []))
  else (some 1, [])

def disasmCmd (argv : List Bytes) (s : State) : Outcome :=
  let m := s.machine
  let (count, derefs) := disasmCount m argv
  match count with
  | none => quiet s false derefs
  | some count =>
      if count = 0 then quiet s false derefs
      else
        let derefs := derefs ++ followed m (argv.getD 0 [])
        match memDecode m (argv.getD 0 []) with
        | none => quiet s true derefs
        | some addr =>
            let addr := clearLow 4 addr
            let attrib := memAttribRead ||| memAttribWord ||| memAttribExec
            let places := (List.range (min count.toNat (m.memValidate addr attrib / 4))).map
              fun i => addr + BitVec.ofNat 32 (4 * i)
            { state := s, ok := true, derefs := derefs
              accesses := places.map fun place => (addr, ⟨place, 4, 4⟩)
              shown := places.map fun place => (place, m.lw place) }

/-- What is followed in the argument of `memdump`, when it is an address. -/
def followedDump (m : Machine) : List Bytes → List Word
  | [] => []
  | arg :: _ => if arg.head? = some minus then [] else followed m arg

def memdumpCmd (argv : List Bytes) (s : State) : Outcome :=
  let m := s.machine
  let derefs := followedDump m argv
  match MemoryDump.memdumpCmd m env.row argv s.memdump with
  | (st, .error) => quiet { s with memdump := st } false derefs
  | (st, .dumped dump) =>
      { state := { s with memdump := st }, ok := true, derefs := derefs
        accesses := dump.reads.map fun a => (st.addr, a), shown := [] }
  | (st, .invalid) => quiet { s with memdump := st } true derefs

/-- `handlepath` for a file. -/
def handled (arg : Bytes) (valid : Bool) : Option Bytes :=
  match env.shell.handled arg .file valid with
  | .ok h => if h.ret = 0 then none else some h.path
  | .error _ => none

/-- The calls of `sceIoWrite` or `sceIoRead` for `size` bytes, of which some are done: where each
starts, how many bytes it is given, and how many it moves. -/
def transfers (size : ℕ) : ℕ → ℕ → List (ℕ × ℕ × ℕ)
  | 0, _ => []
  | rounds + 1, done =>
      if done < size then
        let ret := env.drive.moves done (size - done)
        (done, size - done, ret.toNat) ::
          if ret ≤ 0 then [] else transfers size rounds (done + ret.toNat)
      else []

/-- Each of the calls moves a byte at least, or is the last one. -/
def transferAccesses (size : ℕ) (addr : Word) : List (Word × Access) :=
  (transfers env size size 0).map fun call =>
    (addr, ⟨addr + BitVec.ofNat 32 call.1, call.2.1, 1⟩)

def savememCmd (argv : List Bytes) (s : State) : Outcome :=
  let m := s.machine
  match handled env (argv.getD 2 []) false, strtoint (argv.getD 1 []) with
  | some path, some size =>
      let derefs := followed m (argv.getD 0 [])
      match memDecode m (argv.getD 0 []) with
      | none => quiet s false derefs
      | some addr =>
          let sizeLeft := m.memValidate addr (memAttribRead ||| memAttribByte)
          let size := (min size.toInt sizeLeft).toNat
          if env.drive.creates path then
            { state := s, ok := true, derefs := derefs
              accesses := transferAccesses env size addr, shown := [] }
          else quiet s true derefs
  | _, _ => quiet s false []

/-- The most that is asked for, -1 when it is not, or nothing for a number that is not one. -/
def loadSize (argv : List Bytes) : Option ℤ :=
  if 2 < argv.length then (strtoint (argv.getD 2 [])).map BitVec.toInt else some (-1)

/-- What the calls put into memory. -/
def loadLoop (path : Bytes) (addr : Word) (calls : List (ℕ × ℕ × ℕ)) (m : Machine) : Machine :=
  calls.foldl (fun m call => env.bus.store (addr + BitVec.ofNat 32 call.1)
    ((List.range call.2.2).map fun i => env.drive.contents path (call.1 + i)) m) m

def loadmemCmd (argv : List Bytes) (s : State) : Outcome :=
  let m := s.machine
  match handled env (argv.getD 1 []) true, loadSize argv with
  | some path, some maxsize =>
      let derefs := followed m (argv.getD 0 [])
      match memDecode m (argv.getD 0 []) with
      | none => quiet s false derefs
      | some addr =>
          let sizeLeft := m.memValidate addr (memAttribRead ||| memAttribByte)
          let size := if 0 ≤ maxsize then (min maxsize sizeLeft).toNat else sizeLeft
          if env.drive.opens path then
            { state := { s with machine := loadLoop env path addr (transfers env size size 0) m }
              ok := true, derefs := derefs
              accesses := transferAccesses env size addr, shown := [] }
          else quiet s true derefs
  | _, _ => quiet s false []

end

inductive Command where
  | memdump | savemem | loadmem | pokew | pokeh | pokeb | pokes | peekw | peekh | peekb
  | fillb | fillh | fillw | find (command : FindCommand) (rounds : ℕ) | copymem | disasm

def Command.run (env : Env) : Command → List Bytes → State → Outcome
  | .memdump => memdumpCmd env
  | .savemem => savememCmd env
  | .loadmem => loadmemCmd env
  | .pokew => pokewCmd env
  | .pokeh => pokehCmd env
  | .pokeb => pokebCmd env
  | .pokes => pokesCmd env
  | .peekw => peekwCmd
  | .peekh => peekhCmd
  | .peekb => peekbCmd
  | .fillb => fillbCmd env
  | .fillh => fillhCmd env
  | .fillw => fillwCmd env
  | .find command rounds => findCmd command rounds
  | .copymem => copymemCmd env
  | .disasm => disasmCmd

/-- The address in an argument, from which a command starts. -/
def decoded (m : Machine) (argv : List Bytes) (i width : ℕ) : List Word :=
  ((memDecode m (argv.getD i [])).map (clearLow width)).toList

/-- The addresses that a command starts from: two for a copy. -/
def Command.starts (argv : List Bytes) (s : State) : Command → List Word
  | .memdump => [(memdumpState s.machine argv s.memdump).1.addr]
  | .pokew | .peekw | .fillw | .disasm => decoded s.machine argv 0 4
  | .pokeh | .peekh | .fillh => decoded s.machine argv 0 2
  | .savemem | .loadmem | .pokeb | .pokes | .peekb | .fillb | .find _ _ =>
      decoded s.machine argv 0 1
  | .copymem => decoded s.machine argv 0 1 ++ decoded s.machine argv 1 1

section

variable {env : Env} {m : Machine} {s : State} {argv args : List Bytes} {start addr attrib : Word}
  {width total k n size : ℕ}

theorem end_mod_four {entry : MemEntry} (h : entry ∈ memAreas) : End entry % 4 = 0 := by
  have hareas : ∀ entry ∈ memAreas, End entry % 4 = 0 := by decide
  exact hareas entry h

theorem toNat_place (hprot : m.protoff = false) (hk : k ≤ m.memValidate start attrib) :
    (start + BitVec.ofNat 32 k).toNat = start.toNat + k := by
  rcases Nat.eq_zero_or_pos (m.memValidate start attrib) with hzero | hpos
  · obtain rfl : k = 0 := by omega
    exact congrArg BitVec.toNat (BitVec.add_zero start)
  · obtain ⟨entry, hmem, -, hend⟩ := exists_of_memValidate hprot hpos
    have hlt := end_lt hmem
    have hnat : (BitVec.ofNat 32 k).toNat = k := Nat.mod_eq_of_lt (by omega)
    rw [BitVec.toNat_add_of_lt (by rw [hnat]; omega), hnat]

theorem within_add (hprot : m.protoff = false) (hfits : k + size ≤ m.memValidate start attrib)
    (hstart : start.toNat % width = 0) (hk : k % width = 0) :
    (⟨start + BitVec.ofNat 32 k, size, width⟩ : Access).Within start where
  aligned := by
    rw [toNat_place hprot (Nat.le_of_add_right_le hfits), Nat.add_mod, hstart, hk]
    exact Nat.zero_mod width
  inside i hi := by
    rw [BitVec.add_assoc, ← BitVec.ofNat_add]
    have hlt : k + i < m.memValidate start attrib := (Nat.add_lt_add_left hi k).trans_le hfits
    exact contains_add hprot hlt

theorem within_start (hprot : m.protoff = false) (hfits : size ≤ m.memValidate start attrib)
    (hstart : start.toNat % width = 0) : (⟨start, size, width⟩ : Access).Within start := by
  have hwithin := within_add hprot ((Nat.zero_add size).trans_le hfits) hstart (Nat.zero_mod width)
  rwa [BitVec.add_zero] at hwithin

theorem followed_within (hprot : m.protoff = false) (arg : Bytes) :
    ∀ a ∈ followed m arg, (⟨a, 4, 4⟩ : Access).Within a :=
  forall_parseTrace (fun _ haligned hleft => within_start hprot hleft haligned) _ _

theorem followedBoth_within (hprot : m.protoff = false) (argv : List Bytes) :
    ∀ a ∈ followedBoth m argv, (⟨a, 4, 4⟩ : Access).Within a := by
  refine List.forall_mem_append.mpr ⟨followed_within hprot _, ?_⟩
  split
  · exact followed_within hprot _
  · exact fun _ ha => absurd ha List.not_mem_nil

/-- The widths of the accesses. -/
def Width (width : ℕ) : Prop := width = 1 ∨ width = 2 ∨ width = 4

theorem Width.pos (h : Width width) : 0 < width := by
  rcases h with rfl | rfl | rfl <;> decide

theorem Width.clearLow_mod (h : Width width) (addr : Word) :
    (clearLow width addr).toNat % width = 0 := by
  have hmod : ∀ j < 32, (addr &&& ~~~BitVec.ofNat 32 (2 ^ j - 1)).toNat % 2 ^ j = 0 := by
    intro j hj
    have hpow : 2 ^ j < 2 ^ 32 := Nat.pow_lt_pow_right (by decide) hj
    have hmask : (BitVec.ofNat 32 (2 ^ j - 1)).toNat = 2 ^ j - 1 := Nat.mod_eq_of_lt (by omega)
    have hclear : ∀ c : Word, (addr &&& ~~~c) &&& c = 0 := fun c => by
      rw [BitVec.and_assoc, BitVec.and_comm (~~~c), BitVec.and_not_self]
      exact BitVec.and_zero
    have hand := congrArg BitVec.toNat (hclear (BitVec.ofNat 32 (2 ^ j - 1)))
    rw [BitVec.toNat_and, hmask, Nat.and_two_pow_sub_one_eq_mod] at hand
    exact hand
  rcases h with rfl | rfl | rfl
  · exact hmod 0 (by decide)
  · exact hmod 1 (by decide)
  · exact hmod 2 (by decide)

theorem Width.memValidate_mod (h : Width width) (hprot : m.protoff = false) (attrib : Word)
    (hstart : start.toNat % width = 0) : m.memValidate start attrib % width = 0 := by
  rcases Nat.eq_zero_or_pos (m.memValidate start attrib) with hzero | hpos
  · rw [hzero, Nat.zero_mod]
  · obtain ⟨entry, hmem, -, hend⟩ := exists_of_memValidate hprot hpos
    have hfour := end_mod_four hmem
    rcases h with rfl | rfl | rfl <;> omega

/-- What holds of an outcome: words that are followed are in the region of their own address, and
an access is in that of its start. -/
structure Stays (o : Outcome) : Prop where
  derefs : ∀ a ∈ o.derefs, (⟨a, 4, 4⟩ : Access).Within a
  accesses : ∀ p ∈ o.accesses, p.2.Within p.1

theorem stays_quiet {derefs : List Word} {ok : Bool}
    (h : ∀ a ∈ derefs, (⟨a, 4, 4⟩ : Access).Within a) : Stays (quiet s ok derefs) where
  derefs := h
  accesses _ hp := absurd hp List.not_mem_nil

theorem pokeLoop_stays (env : Env) (args : List Bytes) (hwidth : Width width) (hprot : m.protoff = false)
    {m₀ : Machine} (hprot₀ : m₀.protoff = false) (hstart : start.toNat % width = 0)
    (hk : k % width = 0) (hleft : k + n = m₀.memValidate start attrib) (hpos : 0 < n) :
    (∀ a ∈ (pokeLoop env width start args n (start + BitVec.ofNat 32 k) m).2.1,
        (⟨a, 4, 4⟩ : Access).Within a) ∧
      ∀ p ∈ (pokeLoop env width start args n (start + BitVec.ofNat 32 k) m).2.2,
        p.2.Within p.1 := by
  induction args generalizing k n m with
  | nil => exact ⟨fun _ ha => absurd ha List.not_mem_nil, fun _ hp => absurd hp List.not_mem_nil⟩
  | cons arg args ih =>
      have hmod : n % width = 0 := by
        have htotal := hwidth.memValidate_mod hprot₀ attrib hstart
        rw [← hleft, Nat.add_mod, hk, Nat.zero_add, Nat.mod_mod] at htotal
        exact htotal
      have hle : width ≤ n := Nat.le_of_dvd hpos (Nat.dvd_of_mod_eq_zero hmod)
      have haccess : (⟨start + BitVec.ofNat 32 k, width, width⟩ : Access).Within start :=
        within_add hprot₀ ((Nat.add_le_add_left hle k).trans hleft.le) hstart hk
      have hderefs := followed_within hprot arg
      -- What is stored, and the machine behind it, whether or not the argument is a number.
      obtain ⟨m', stored, hmatch, hprot', hstored⟩ : ∃ m' stored,
          (match memDecode m arg with
            | some data => (env.bus.store (start + BitVec.ofNat 32 k) (toBytes width data.toNat) m,
                [(start, (⟨start + BitVec.ofNat 32 k, width, width⟩ : Access))])
            | none => (m, [])) = (m', stored) ∧ m'.protoff = false ∧
              ∀ p ∈ stored, p.2.Within p.1 := by
        cases memDecode m arg with
        | none => exact ⟨m, [], rfl, hprot, fun _ hp => absurd hp List.not_mem_nil⟩
        | some data =>
            refine ⟨_, _, rfl, (env.bus.protoff_store _ _ _).trans hprot, ?_⟩
            exact List.forall_mem_singleton.mpr haccess
      rw [pokeLoop, hmatch]
      dsimp only
      split
      · exact ⟨hderefs, hstored⟩
      · have hnext : start + BitVec.ofNat 32 k + BitVec.ofNat 32 width =
            start + BitVec.ofNat 32 (k + width) := by
          rw [BitVec.add_assoc, ← BitVec.ofNat_add]
        obtain ⟨hrest, hrest'⟩ := ih hprot' (k := k + width) (n := n - width)
          (by rw [Nat.add_mod_right, hk]) (by omega) (by omega)
        rw [hnext]
        exact ⟨List.forall_mem_append.mpr ⟨hderefs, hrest⟩,
          List.forall_mem_append.mpr ⟨hstored, hrest'⟩⟩

theorem pokeCmd_stays (hwidth : Width width) (hprot : s.machine.protoff = false) :
    Stays (pokeCmd env width attrib argv s) := by
  have hderefs := followed_within hprot (argv.getD 0 [])
  rw [pokeCmd]
  dsimp only
  split
  · exact stays_quiet hderefs
  · rename_i addr _
    split
    · rename_i hleft
      have hloop := pokeLoop_stays env argv.tail hwidth hprot hprot
        (hwidth.clearLow_mod addr) (Nat.zero_mod width) (Nat.zero_add _)
        (hwidth.pos.trans_le hleft)
      rw [BitVec.add_zero] at hloop
      exact ⟨List.forall_mem_append.mpr ⟨hderefs, hloop.1⟩, hloop.2⟩
    · exact stays_quiet hderefs

theorem pokesCmd_stays (hprot : s.machine.protoff = false) : Stays (pokesCmd env argv s) := by
  have hderefs := followed_within hprot (argv.getD 0 [])
  rw [pokesCmd]
  dsimp only
  split
  · exact stays_quiet hderefs
  · split
    · rename_i hleft
      exact ⟨hderefs, List.forall_mem_singleton.mpr (within_start hprot hleft (Nat.mod_one _))⟩
    · exact stays_quiet hderefs

theorem peekCmd_stays (hwidth : Width width) (hprot : s.machine.protoff = false) :
    Stays (peekCmd width attrib argv s) := by
  have hderefs := followed_within hprot (argv.getD 0 [])
  rw [peekCmd]
  dsimp only
  split
  · exact stays_quiet hderefs
  · rename_i addr _
    split
    · rename_i hleft
      exact ⟨hderefs, List.forall_mem_singleton.mpr
        (within_start hprot hleft (hwidth.clearLow_mod addr))⟩
    · exact stays_quiet hderefs

theorem fillCmd_stays (hwidth : Width width) (hprot : s.machine.protoff = false) :
    Stays (fillCmd env width attrib argv s) := by
  have hderefs := followedBoth_within hprot argv
  rw [fillCmd]
  dsimp only
  split
  · rename_i addr size _ _
    split
    · exact stays_quiet hderefs
    · refine ⟨hderefs, List.forall_mem_map.mpr fun i hi => ?_⟩
      have hlt := List.mem_range.mp hi
      have hmul : width * i + width ≤ min size.toNat
          (s.machine.memValidate (clearLow width addr) (memAttribWrite ||| attrib)) := by
        rw [← Nat.mul_succ]
        exact (Nat.mul_le_mul_left width hlt).trans (Nat.mul_div_le _ width)
      exact within_add hprot (hmul.trans (Nat.min_le_right _ _)) (hwidth.clearLow_mod addr)
        (Nat.mul_mod_right width i)
  · exact stays_quiet hderefs

theorem memmemLoop_accesses (pattern : Pattern) (count : ℕ) (data : Word) :
    ∀ a ∈ (memmemLoop m pattern count data).2, a.size = pattern.search.length ∧ a.width = 1 := by
  induction count generalizing data with
  | zero => exact fun a ha => absurd ha List.not_mem_nil
  | succ count ih =>
      rw [memmemLoop]
      dsimp only
      split
      · exact List.forall_mem_singleton.mpr ⟨rfl, rfl⟩
      · exact List.forall_mem_cons.mpr ⟨⟨rfl, rfl⟩, ih _⟩

theorem memmemMask_accesses (pattern : Pattern) (data : Word) (len : ℤ) :
    ∀ a ∈ (memmemMask m pattern data len).2, a.size = pattern.search.length ∧ a.width = 1 := by
  rw [memmemMask]
  split
  · exact fun a ha => absurd ha List.not_mem_nil
  · exact memmemLoop_accesses pattern _ data

theorem findLoop_accesses (pattern : Pattern) (rounds : ℕ) (curr size : Word) :
    ∀ a ∈ (findLoop m pattern rounds curr size).reads,
      a.size = pattern.search.length ∧ a.width = 1 := by
  induction rounds generalizing curr size with
  | zero => exact fun a ha => absurd ha List.not_mem_nil
  | succ rounds ih =>
      have hmask := memmemMask_accesses (m := m) pattern curr size.toInt
      rw [findLoop]
      split
      · rename_i heq
        rwa [heq] at hmask
      · rename_i heq
        rw [heq] at hmask
        dsimp only
        split
        · exact List.forall_mem_append.mpr ⟨hmask, ih _ _⟩
        · exact hmask

theorem findLoop_nothing (pattern : Pattern) (hne : pattern.search ≠ []) (rounds : ℕ)
    (curr : Word) : (findLoop m pattern rounds curr 0).reads = [] := by
  have hlength := List.length_pos_of_ne_nil hne
  have hcount : ((0 : Word).toInt - pattern.search.length + 1).toNat = 0 := by
    have hzero : (0 : Word).toInt = 0 := rfl
    omega
  have hmask : memmemMask m pattern curr (0 : Word).toInt = (none, []) := by
    rw [memmemMask, hcount]
    split <;> rfl
  cases rounds with
  | zero => rfl
  | succ rounds => rw [findLoop, hmask]

theorem findLoop_within (pattern : Pattern) (rounds : ℕ) {size : Word}
    (hprot : m.protoff = false) : ∀ a ∈ (findLoop m pattern rounds start
      (if size < BitVec.ofNat 32 (m.memValidate start attrib) then size
        else BitVec.ofNat 32 (m.memValidate start attrib))).reads, a.Within start := by
  intro a ha
  by_cases hne : pattern.search = []
  · obtain ⟨hsize, hwidth⟩ := findLoop_accesses pattern rounds _ _ a ha
    rw [hne, List.length_nil] at hsize
    exact ⟨by rw [hwidth, Nat.mod_one], fun i hi => absurd hi (by omega)⟩
  · rcases Nat.eq_zero_or_pos (m.memValidate start attrib) with hzero | hpos
    · rw [hzero, searched_eq (by decide), Nat.min_zero] at ha
      have hnone : a ∈ (findLoop m pattern rounds start 0).reads := ha
      rw [findLoop_nothing pattern hne] at hnone
      exact absurd hnone List.not_mem_nil
    · obtain ⟨entry, hmem, hcontains, hend⟩ := exists_of_memValidate hprot hpos
      have hlt := end_lt hmem
      rw [searched_eq (by omega)] at ha
      have hspan := span_memValidate hmem hcontains
        (Nat.min_le_right size.toNat (m.memValidate start attrib))
      have hstart : a ∈ (findLoop m pattern rounds (start + BitVec.ofNat 32 0) (BitVec.ofNat 32
          (min size.toNat (m.memValidate start attrib) - 0))).reads := by
        rwa [BitVec.add_zero]
      obtain ⟨j, hj, rfl⟩ := reads_findLoop hspan (Nat.zero_le _) hne hstart
      exact within_add hprot (hj.trans (Nat.min_le_right _ _)) (Nat.mod_one _) (Nat.mod_one j)

theorem findCmd_stays (command : FindCommand) (rounds : ℕ) (hprot : s.machine.protoff = false) :
    Stays (findCmd command rounds argv s) := by
  have hderefs := followedBoth_within hprot argv
  rw [findCmd]
  split
  · rename_i addr size search haddr hsize hsearch
    refine ⟨hderefs, List.forall_mem_map.mpr fun a ha => ?_⟩
    rw [run_eq, MemorySearch.findCmd, haddr, hsize] at hsearch
    rcases hpattern : command.pattern argv with _ | pattern
    · rw [hpattern] at hsearch
      cases hsearch
    · rw [hpattern] at hsearch
      obtain rfl := Option.some.inj hsearch
      exact findLoop_within pattern rounds hprot a ha
  · exact stays_quiet hderefs
  · exact stays_quiet hderefs

theorem transfers_le (env : Env) (rounds : ℕ) {done : ℕ} (hdone : done ≤ size) :
    ∀ call ∈ transfers env size rounds done, call.1 + call.2.1 ≤ size := by
  induction rounds generalizing done with
  | zero => exact fun call hcall => absurd hcall List.not_mem_nil
  | succ rounds ih =>
      rw [transfers]
      split
      · rename_i hlt
        refine List.forall_mem_cons.mpr ⟨?_, ?_⟩
        · show done + (size - done) ≤ size
          omega
        · split
          · exact fun call hcall => absurd hcall List.not_mem_nil
          · have hmoves := env.drive.moves_le done (size - done)
            exact ih (by omega)
      · exact fun call hcall => absurd hcall List.not_mem_nil

theorem transferAccesses_within (hprot : m.protoff = false)
    (hfits : size ≤ m.memValidate addr attrib) :
    ∀ p ∈ transferAccesses env size addr, p.2.Within p.1 := by
  refine List.forall_mem_map.mpr fun call hcall => ?_
  exact within_add hprot ((transfers_le env size (Nat.zero_le size) call hcall).trans hfits)
    (Nat.mod_one _) (Nat.mod_one _)

theorem savememCmd_stays (hprot : s.machine.protoff = false) : Stays (savememCmd env argv s) := by
  have hderefs := followed_within hprot (argv.getD 0 [])
  rw [savememCmd]
  dsimp only
  split
  · rename_i size _ _
    split
    · exact stays_quiet hderefs
    · rename_i addr _
      have hle : (min size.toInt (s.machine.memValidate addr
          (memAttribRead ||| memAttribByte))).toNat ≤
            s.machine.memValidate addr (memAttribRead ||| memAttribByte) := by omega
      split
      · exact ⟨hderefs, transferAccesses_within hprot hle⟩
      · exact stays_quiet hderefs
  · exact stays_quiet fun a ha => absurd ha List.not_mem_nil

theorem loadmemCmd_stays (hprot : s.machine.protoff = false) : Stays (loadmemCmd env argv s) := by
  have hderefs := followed_within hprot (argv.getD 0 [])
  rw [loadmemCmd]
  dsimp only
  split
  · rename_i maxsize _ _
    split
    · exact stays_quiet hderefs
    · rename_i addr _
      have hle : (if 0 ≤ maxsize then (min maxsize (s.machine.memValidate addr
          (memAttribRead ||| memAttribByte))).toNat
          else s.machine.memValidate addr (memAttribRead ||| memAttribByte)) ≤
            s.machine.memValidate addr (memAttribRead ||| memAttribByte) := by
        split
        · exact Int.toNat_le.mpr (Int.min_le_right _ _)
        · exact Nat.le_refl _
      split
      · exact ⟨hderefs, transferAccesses_within hprot hle⟩
      · exact stays_quiet hderefs
  · exact stays_quiet fun a ha => absurd ha List.not_mem_nil

theorem reads_memdumpCmd {row : ℕ → Word} {st st' : MemdumpState} {dump : Dump}
    (h : MemoryDump.memdumpCmd m row argv st = (st', .dumped dump)) :
    ∃ n ≤ m.memValidate st'.addr (memAttribRead ||| memAttribByte),
      dump.reads = (List.range n).map fun i => ⟨st'.addr + BitVec.ofNat 32 i, 1, 1⟩ := by
  rw [MemoryDump.memdumpCmd] at h
  rcases memdumpState m argv st with ⟨st₁, ok⟩
  dsimp only at h
  split at h
  · cases h
  · split at h
    · obtain ⟨rfl, hdump⟩ := Prod.mk.inj h
      obtain rfl := MemdumpResult.dumped.inj hdump
      refine ⟨_, ?_, reads_printMemdump⟩
      rw [dumpSize_eq]
      omega
    · cases h

theorem memdumpCmd_stays (hprot : s.machine.protoff = false) : Stays (memdumpCmd env argv s) := by
  have hderefs : ∀ a ∈ followedDump s.machine argv, (⟨a, 4, 4⟩ : Access).Within a := by
    cases argv with
    | nil => exact fun a ha => absurd ha List.not_mem_nil
    | cons arg argv =>
        rw [followedDump]
        split
        · exact fun a ha => absurd ha List.not_mem_nil
        · exact followed_within hprot arg
  rw [memdumpCmd]
  split
  · exact stays_quiet hderefs
  · rename_i st dump hdump
    refine ⟨hderefs, List.forall_mem_map.mpr fun a ha => ?_⟩
    obtain ⟨n, hle, hreads⟩ := reads_memdumpCmd hdump
    rw [hreads] at ha
    obtain ⟨i, hi, rfl⟩ := List.mem_map.mp ha
    exact within_add hprot ((List.mem_range.mp hi).trans_le hle) (Nat.mod_one _) (Nat.mod_one i)
  · exact stays_quiet hderefs

theorem copymemCmd_stays (hprot : s.machine.protoff = false) :
    Stays (copymemCmd env argv s) := by
  have hderefs : ∀ a ∈ followedBoth s.machine argv ++
      (if (memDecode s.machine (argv.getD 0 [])).isSome ∧
          (memDecode s.machine (argv.getD 1 [])).isSome then
        followed s.machine (argv.getD 2 []) else []), (⟨a, 4, 4⟩ : Access).Within a := by
    refine List.forall_mem_append.mpr ⟨followedBoth_within hprot argv, ?_⟩
    split
    · exact followed_within hprot _
    · exact fun _ ha => absurd ha List.not_mem_nil
  rw [copymemCmd]
  dsimp only
  split
  · refine ⟨hderefs, List.forall_mem_cons.mpr ⟨?_, List.forall_mem_singleton.mpr ?_⟩⟩
    · exact within_start hprot ((Nat.min_le_right _ _).trans (Nat.min_le_left _ _)) (Nat.mod_one _)
    · exact within_start hprot ((Nat.min_le_right _ _).trans (Nat.min_le_right _ _)) (Nat.mod_one _)
  · exact stays_quiet hderefs

theorem disasmCmd_stays (hprot : s.machine.protoff = false) : Stays (disasmCmd argv s) := by
  have hcount : ∀ a ∈ (disasmCount s.machine argv).2, (⟨a, 4, 4⟩ : Access).Within a := by
    rw [disasmCount]
    split
    · exact followed_within hprot _
    · exact fun _ ha => absurd ha List.not_mem_nil
  have hderefs := List.forall_mem_append.mpr ⟨hcount, followed_within hprot (argv.getD 0 [])⟩
  rw [disasmCmd]
  dsimp only
  split
  · exact stays_quiet hcount
  · rename_i count _
    split
    · exact stays_quiet hcount
    · split
      · exact stays_quiet hderefs
      · rename_i addr _
        refine ⟨hderefs, List.forall_mem_map.mpr (List.forall_mem_map.mpr fun i hi => ?_)⟩
        have hlt := (List.mem_range.mp hi).trans_le (Nat.min_le_right _ _)
        have hwidth : Width 4 := .inr (.inr rfl)
        have hfits : 4 * i + 4 ≤ s.machine.memValidate (clearLow 4 addr)
            (memAttribRead ||| memAttribWord ||| memAttribExec) := by omega
        exact within_add hprot hfits (hwidth.clearLow_mod addr) (Nat.mul_mod_right 4 i)

theorem mem_decoded (h : memDecode m (argv.getD n []) = some addr) :
    clearLow width addr ∈ decoded m argv n width := by
  rw [decoded, h]
  exact List.mem_singleton_self _

theorem mem_decoded_one (h : memDecode m (argv.getD n []) = some addr) :
    addr ∈ decoded m argv n 1 := by
  have hclear : clearLow 1 addr = addr := by
    rw [clearLow, Nat.sub_self]
    exact BitVec.and_allOnes
  exact hclear ▸ mem_decoded h

theorem forall_quiet {P : Word × Access → Prop} {ok : Bool} {derefs : List Word} :
    ∀ p ∈ (quiet s ok derefs).accesses, P p := fun _ hp => absurd hp List.not_mem_nil

theorem pokeLoop_start : ∀ p ∈ (pokeLoop env width start args n addr m).2.2, p.1 = start := by
  induction args generalizing n addr m with
  | nil => exact fun p hp => absurd hp List.not_mem_nil
  | cons arg args ih =>
      rw [pokeLoop]
      cases memDecode m arg with
      | none =>
          dsimp only
          split
          · exact fun p hp => absurd hp List.not_mem_nil
          · exact ih
      | some data =>
          dsimp only
          split
          · exact List.forall_mem_singleton.mpr rfl
          · exact List.forall_mem_append.mpr ⟨List.forall_mem_singleton.mpr rfl, ih⟩

theorem pokeCmd_starts :
    ∀ p ∈ (pokeCmd env width attrib argv s).accesses, p.1 ∈ decoded s.machine argv 0 width := by
  rw [pokeCmd]
  dsimp only
  split
  · exact forall_quiet
  · rename_i haddr
    split
    · exact fun p hp => pokeLoop_start p hp ▸ mem_decoded haddr
    · exact forall_quiet

theorem pokesCmd_starts :
    ∀ p ∈ (pokesCmd env argv s).accesses, p.1 ∈ decoded s.machine argv 0 1 := by
  rw [pokesCmd]
  dsimp only
  split
  · exact forall_quiet
  · rename_i haddr
    split
    · exact List.forall_mem_singleton.mpr (mem_decoded_one haddr)
    · exact forall_quiet

theorem peekCmd_starts :
    ∀ p ∈ (peekCmd width attrib argv s).accesses, p.1 ∈ decoded s.machine argv 0 width := by
  rw [peekCmd]
  dsimp only
  split
  · exact forall_quiet
  · rename_i haddr
    split
    · exact List.forall_mem_singleton.mpr (mem_decoded haddr)
    · exact forall_quiet

theorem fillCmd_starts :
    ∀ p ∈ (fillCmd env width attrib argv s).accesses, p.1 ∈ decoded s.machine argv 0 width := by
  rw [fillCmd]
  dsimp only
  split
  · rename_i haddr _
    split
    · exact forall_quiet
    · exact List.forall_mem_map.mpr fun i _ => mem_decoded haddr
  · exact forall_quiet

theorem findCmd_starts (command : FindCommand) (rounds : ℕ) :
    ∀ p ∈ (findCmd command rounds argv s).accesses, p.1 ∈ decoded s.machine argv 0 1 := by
  rw [findCmd]
  split
  · rename_i haddr _ _
    exact List.forall_mem_map.mpr fun a _ => mem_decoded_one haddr
  · exact forall_quiet
  · exact forall_quiet

theorem copymemCmd_starts : ∀ p ∈ (copymemCmd env argv s).accesses,
    p.1 ∈ decoded s.machine argv 0 1 ++ decoded s.machine argv 1 1 := by
  rw [copymemCmd]
  dsimp only
  split
  · rename_i hsrc hdest _
    exact List.forall_mem_cons.mpr ⟨List.mem_append_left _ (mem_decoded_one hsrc),
      List.forall_mem_singleton.mpr (List.mem_append_right _ (mem_decoded_one hdest))⟩
  · exact forall_quiet

theorem disasmCmd_starts :
    ∀ p ∈ (disasmCmd argv s).accesses, p.1 ∈ decoded s.machine argv 0 4 := by
  rw [disasmCmd]
  dsimp only
  split
  · exact forall_quiet
  · split
    · exact forall_quiet
    · split
      · exact forall_quiet
      · rename_i haddr
        exact List.forall_mem_map.mpr fun place _ => mem_decoded haddr

theorem savememCmd_starts :
    ∀ p ∈ (savememCmd env argv s).accesses, p.1 ∈ decoded s.machine argv 0 1 := by
  rw [savememCmd]
  dsimp only
  split
  · split
    · exact forall_quiet
    · rename_i haddr
      split
      · exact List.forall_mem_map.mpr fun call _ => mem_decoded_one haddr
      · exact forall_quiet
  · exact forall_quiet

theorem loadmemCmd_starts :
    ∀ p ∈ (loadmemCmd env argv s).accesses, p.1 ∈ decoded s.machine argv 0 1 := by
  rw [loadmemCmd]
  dsimp only
  split
  · split
    · exact forall_quiet
    · rename_i haddr
      split
      · exact List.forall_mem_map.mpr fun call _ => mem_decoded_one haddr
      · exact forall_quiet
  · exact forall_quiet

theorem memdumpCmd_starts : ∀ p ∈ (memdumpCmd env argv s).accesses,
    p.1 ∈ [(memdumpState s.machine argv s.memdump).1.addr] := by
  have hstate : (MemoryDump.memdumpCmd s.machine env.row argv s.memdump).1 =
      (memdumpState s.machine argv s.memdump).1 := by
    rw [MemoryDump.memdumpCmd]
    dsimp only
    split
    · rfl
    · split <;> rfl
  rw [memdumpCmd]
  split
  · exact forall_quiet
  · rename_i hdump
    rw [hdump] at hstate
    exact List.forall_mem_map.mpr fun a _ => List.mem_singleton.mpr (congrArg MemdumpState.addr hstate)
  · exact forall_quiet

/-- What a command reads or stores belongs to one of the addresses that it starts from. -/
theorem run_starts (env : Env) (command : Command) (argv : List Bytes) (s : State) :
    ∀ p ∈ (command.run env argv s).accesses, p.1 ∈ command.starts argv s := by
  cases command with
  | memdump => exact memdumpCmd_starts
  | savemem => exact savememCmd_starts
  | loadmem => exact loadmemCmd_starts
  | pokew => exact pokeCmd_starts
  | pokeh => exact pokeCmd_starts
  | pokeb => exact pokeCmd_starts
  | pokes => exact pokesCmd_starts
  | peekw => exact peekCmd_starts
  | peekh => exact peekCmd_starts
  | peekb => exact peekCmd_starts
  | fillb => exact fillCmd_starts
  | fillh => exact fillCmd_starts
  | fillw => exact fillCmd_starts
  | find command rounds => exact findCmd_starts command rounds
  | copymem => exact copymemCmd_starts
  | disasm => exact disasmCmd_starts

end

/-- No command leaves the regions of its start addresses while the protection is on. -/
theorem run_stays (env : Env) (command : Command) (argv : List Bytes) {s : State}
    (hprot : s.machine.protoff = false) : Stays (command.run env argv s) := by
  have hbyte : Width 1 := .inl rfl
  have hhalf : Width 2 := .inr (.inl rfl)
  have hword : Width 4 := .inr (.inr rfl)
  cases command with
  | memdump => exact memdumpCmd_stays hprot
  | savemem => exact savememCmd_stays hprot
  | loadmem => exact loadmemCmd_stays hprot
  | pokew => exact pokeCmd_stays hword hprot
  | pokeh => exact pokeCmd_stays hhalf hprot
  | pokeb => exact pokeCmd_stays hbyte hprot
  | pokes => exact pokesCmd_stays hprot
  | peekw => exact peekCmd_stays hword hprot
  | peekh => exact peekCmd_stays hhalf hprot
  | peekb => exact peekCmd_stays hbyte hprot
  | fillb => exact fillCmd_stays hbyte hprot
  | fillh => exact fillCmd_stays hhalf hprot
  | fillw => exact fillCmd_stays hword hprot
  | find command rounds => exact findCmd_stays command rounds hprot
  | copymem => exact copymemCmd_stays hprot
  | disasm => exact disasmCmd_stays hprot

/-- The store of a word, as the command of `PokeWords` makes it. -/
def storeWord (env : Env) (data addr : Word) : Machine → Machine :=
  env.bus.store addr (toBytes 4 data.toNat)

theorem pokeLoop_words (env : Env) (start : Word) (args : List Bytes) (n : ℕ) (addr : Word)
    (m : Machine) :
    (pokeLoop env 4 start args n addr m).1 = (PokeWords.pokeLoop (storeWord env) args n addr m).1 ∧
      (pokeLoop env 4 start args n addr m).2.2 =
        (PokeWords.pokeLoop (storeWord env) args n addr m).2.map fun p =>
          (start, ⟨p.1, 4, 4⟩) := by
  induction args generalizing n addr m with
  | nil => exact ⟨rfl, rfl⟩
  | cons arg args ih =>
      rw [pokeLoop, PokeWords.pokeLoop]
      cases memDecode m arg with
      | none =>
          dsimp only
          split
          · exact ⟨rfl, rfl⟩
          · exact ih (n - 4) (addr + 4) m
      | some data =>
          dsimp only
          split
          · exact ⟨rfl, rfl⟩
          · obtain ⟨hmachine, hstored⟩ := ih (n - 4) (addr + 4) (storeWord env data addr m)
            exact ⟨hmachine, List.cons_eq_cons.mpr ⟨rfl, hstored⟩⟩

/-- `pokew` is the command of `PokeWords`. -/
theorem pokewCmd_words (env : Env) (arg : Bytes) (argv : List Bytes) (s : State) :
    (pokewCmd env (arg :: argv) s).state.machine =
        (PokeWords.pokewCmd (storeWord env) (arg :: argv) s.machine).1 ∧
      (pokewCmd env (arg :: argv) s).accesses.map Prod.snd =
        (PokeWords.pokewCmd (storeWord env) (arg :: argv) s.machine).2.map fun p =>
          ⟨p.1, 4, 4⟩ := by
  rw [pokewCmd, pokeCmd, PokeWords.pokewCmd, List.getD_cons_zero, List.headD_cons]
  cases memDecode s.machine arg with
  | none => exact ⟨rfl, rfl⟩
  | some addr =>
      obtain ⟨hmachine, hstored⟩ := pokeLoop_words env (clearLow 4 addr) argv
        (s.machine.memValidate (clearLow 4 addr) (memAttribWrite ||| memAttribWord))
        (clearLow 4 addr) s.machine
      dsimp only
      split
      · rename_i hleft
        have hleft' : 4 ≤ s.machine.memValidate (addr &&& ~~~3) (memAttribWrite ||| memAttribWord) :=
          hleft
        rw [if_pos hleft']
        refine ⟨hmachine, ?_⟩
        rw [List.tail_cons, hstored, List.map_map]
        rfl
      · rename_i hleft
        have hleft' : ¬4 ≤ s.machine.memValidate (addr &&& ~~~3) (memAttribWrite ||| memAttribWord) :=
          hleft
        rw [if_neg hleft']
        exact ⟨rfl, rfl⟩

/-- What the protection is for. -/
structure Confined (env : Env) (command : Command) (argv : List Bytes) (s : State) : Prop where
  derefs : ∀ a ∈ (command.run env argv s).derefs, (⟨a, 4, 4⟩ : Access).Within a
  accesses : ∀ p ∈ (command.run env argv s).accesses,
    p.1 ∈ command.starts argv s ∧ p.2.Within p.1
  inside : ∀ addr attrib, ∀ entry ∈ memAreas, Contains entry addr →
    s.machine.memValidate addr attrib =
      if entry.v1only = true ∧ s.machine.isv1 = false then 0 else End entry - addr.toNat
  outside : ∀ addr attrib, (∀ entry ∈ memAreas, ¬Contains entry addr) →
    s.machine.memValidate addr attrib = 0

/-- With the protection on, a command reads and stores in the region of a start address only, and
follows words in the regions of their own addresses. -/
theorem commands_confined (env : Env) (command : Command) (argv : List Bytes) {s : State}
    (hprot : s.machine.protoff = false) : Confined env command argv s where
  derefs := (run_stays env command argv hprot).derefs
  accesses p hp := ⟨run_starts env command argv s p hp,
    (run_stays env command argv hprot).accesses p hp⟩
  inside _ _ _ hmem hcontains := memValidate_of_contains hprot hmem hcontains
  outside _ _ hnone := memValidate_of_outside hprot hnone

/-- A machine that keeps nothing that is stored, and no files. -/
def bareEnv : Env :=
  { bus := { store := fun _ _ m => m, protoff_store := fun _ _ _ => rfl }
    drive := { creates := fun _ => false, opens := fun _ => false, moves := fun _ _ => 0
               moves_le := fun _ left => Int.natCast_nonneg left, contents := fun _ _ => 0 }
    shell := CommandBuffers.bareShell
    row := fun _ => 0 }

/-- Every word of the memory is the address of the user memory. -/
def pointing : State :=
  { machine := { blank with lw := fun _ => 0x08800000 }
    memdump := { addr := 0, type := .byte } }

/-- Three words for the last two places of the user memory, the first of them read from it. -/
def lastWords : List Bytes := [text "0x9FFFFF8", text "*0x8800000", text "8", text "9"]

theorem pokew_confined : Confined bareEnv .pokew lastWords pointing :=
  commands_confined bareEnv .pokew lastWords rfl

/-- `peekw *0x40010000` follows a word in another region than that of the address it comes to, and
where a region is there on some devices only, nothing is left of it on the others. -/
theorem followed_elsewhere :
    (∃ p ∈ (Command.peekw.run bareEnv [text "*0x40010000"] pointing).accesses,
      ∃ a ∈ (Command.peekw.run bareEnv [text "*0x40010000"] pointing).derefs,
        ¬(⟨a, 4, 4⟩ : Access).Within p.1) ∧
      (∃ entry ∈ memAreas, Contains entry 0x88400000) ∧
        blank.memValidate 0x88400000 (memAttribRead ||| memAttribByte) = 0 := by
  refine ⟨?_, by decide, by decide⟩
  have hnumeral : Numeral 0x40010000 (text "0x40010000") := ⟨by decide, by decide⟩
  have hdecode : memDecode pointing.machine (text "*0x40010000") = some 0x08800000 := by
    have hrenders : Renders (.first 0 1 (.number 0x40010000))
        ([star] ++ text "0x40010000" ++ []) :=
      .first (.deref .nil) (.number hnumeral) fun _ hc => absurd hc List.not_mem_nil
    rw [memDecode_of_length (by decide)]
    exact hrenders.parseLine (by decide)
  have hfollowed : (0x40010000 : Word) ∈ followed pointing.machine (text "*0x40010000") := by
    have hread := (readNumber_numeral hnumeral follows_nil).1
    rw [List.append_nil] at hread
    show (0x40010000 : Word) ∈ (parseTrace _ (star :: text "0x40010000") .start).reads
    rw [parseTrace, if_neg (by decide), if_pos ⟨rfl, .inl rfl⟩]
    show _ ∈ (parseTrace _ (0x30 :: text "x40010000") _).reads
    rw [parseTrace, if_neg (by decide), if_neg (by decide), if_neg (by decide), if_neg (by decide),
      if_neg (by decide), if_neg (by decide), if_pos (by decide), if_neg (by decide)]
    refine List.mem_append_left _ ?_
    show _ ∈ derefReads _ 1 (readNumber (text "0x40010000")).1
    rw [hread]
    exact List.mem_singleton_self _
  have hleft : 4 ≤ pointing.machine.memValidate 0x08800000 (memAttribRead ||| memAttribWord) := by
    decide
  have hrun : Command.peekw.run bareEnv [text "*0x40010000"] pointing =
      { state := pointing, ok := true, derefs := followed pointing.machine (text "*0x40010000")
        accesses := [(0x08800000, ⟨0x08800000, 4, 4⟩)]
        shown := [(0x08800000, BitVec.ofNat 32 (ofBytes (loadBytes pointing.machine 0x08800000 4)))] } := by
    show peekCmd 4 memAttribWord [text "*0x40010000"] pointing = _
    rw [peekCmd]
    dsimp only
    rw [List.getD_cons_zero, hdecode]
    exact if_pos hleft
  rw [hrun]
  refine ⟨_, List.mem_singleton_self _, 0x40010000, hfollowed, fun hwithin => ?_⟩
  obtain ⟨entry, hmem, hstart, hin⟩ := hwithin.inside 0 (by decide)
  have hapart : ∀ entry ∈ memAreas, Contains entry 0x08800000 →
      ¬Contains entry (0x40010000 + BitVec.ofNat 32 0) := by decide
  exact hapart entry hmem hstart hin

end PsplinkUsb.Psplink.MemoryCommands
