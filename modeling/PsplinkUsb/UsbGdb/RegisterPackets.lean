import PsplinkUsb.UsbGdb.PacketData

namespace PsplinkUsb.UsbGdb.RegisterPackets

open PsplinkUsb.Library.Ascii
open PsplinkUsb.Library.CString
open PsplinkUsb.Library.Patch
open PsplinkUsb.Psplink.ProgramMemory
open PsplinkUsb.UsbGdb.Packets hiding plus minus
open PsplinkUsb.UsbGdb.StubMemory
open PsplinkUsb.UsbGdb.Stub
open PsplinkUsb.UsbGdb.PacketData

/-- The 90 words of a context that `g` sends. -/
def registers (ctx : Context) : List Word := addresses (ctx.field offsetR) 360

theorem toNat_kernelObject {size : ℕ} (o : KernelObject size) {i : ℕ} (hi : i < size) :
    (o.addr + BitVec.ofNat 32 i).toNat = o.addr.toNat + i := by
  have hupper := o.upper
  have hi' : i % 2 ^ 32 = i := Nat.mod_eq_of_lt (by omega)
  rw [BitVec.toNat_add, BitVec.toNat_ofNat, hi']
  exact Nat.mod_eq_of_lt (by omega)

theorem valid_kernelObject (user : Partition) {size : ℕ} (o : KernelObject size) {i : ℕ}
    (hi : i < size) : valid user (o.addr + BitVec.ofNat 32 i) = true := by
  have haddr := toNat_kernelObject o hi
  have hlower := o.lower
  have hupper := o.upper
  have hcell : (cell (o.addr + BitVec.ofNat 32 i)).toNat =
      (o.addr + BitVec.ofNat 32 i).toNat % 2 ^ 28 := by
    rw [cell, BitVec.toNat_and]
    exact Nat.and_two_pow_sub_one_eq_mod _ 28
  have hnibble : (o.addr + BitVec.ofNat 32 i) >>> 28 = (8 : Word) := by
    apply BitVec.eq_of_toNat_eq
    rw [BitVec.toNat_ushiftRight, Nat.shiftRight_eq_div_pow, haddr]
    show _ = 8
    omega
  rw [valid, Bool.or_eq_true]
  right
  rw [Bool.and_eq_true, Bool.and_eq_true, decide_eq_true_eq, decide_eq_true_eq, BitVec.le_def,
    BitVec.lt_def, hcell, haddr, hnibble]
  refine ⟨⟨?_, ?_⟩, rfl⟩
  · show 0x08000000 ≤ _
    omega
  · show _ < 0x08400000
    omega

theorem valid_field (user : Partition) {size : ℕ} (o : KernelObject size) {offset count : ℕ}
    (h : offset + count ≤ size) : ∀ a ∈ addresses (o.field offset) count, valid user a = true := by
  intro a ha
  obtain ⟨i, hi, rfl⟩ := mem_addresses.mp ha
  rw [KernelObject.field, BitVec.add_assoc, ← BitVec.ofNat_add]
  exact valid_kernelObject user o (by omega)

/-- Blocks that lie behind one another. -/
inductive Adjacent : Word → List (Word × ℕ) → ℕ → Prop
  | nil (address : Word) : Adjacent address [] 0
  | cons {address : Word} {blocks : List (Word × ℕ)} {n : ℕ} (count : ℕ)
      (h : Adjacent (address + BitVec.ofNat 32 count) blocks n) :
      Adjacent address ((address, count) :: blocks) (count + n)

theorem Adjacent.dump {user : Partition} {address : Word} {blocks : List (Word × ℕ)} {n : ℕ}
    (h : Adjacent address blocks n) (hvalid : ∀ a ∈ addresses address n, valid user a = true)
    (m : ByteMemory) :
    Stub.dump user m blocks =
      ({ text := hexText (load m (addresses address n)), done := true }, false) := by
  induction h with
  | nil address => rfl
  | @cons address blocks n count h ih =>
      rw [addresses_append] at hvalid
      have hblock := mem2hex_of_valid (fun a ha => hvalid a (List.mem_append_left _ ha)) m
      have hrest := ih fun a ha => hvalid a (List.mem_append_right _ ha)
      rw [Stub.dump, hblock, hrest, addresses_append, load_append, hexText_append]
      rfl

theorem decode_false_append (buf : Bytes) (n k : ℕ) :
    decode false buf (n + k) = decode false buf n ++ decode false (buf.drop (2 * n)) k := by
  induction n generalizing buf with
  | zero => simp [decode]
  | succ n ih =>
      have hdrop : (buf.drop 2).drop (2 * n) = buf.drop (2 * (n + 1)) := by
        rw [List.drop_drop]
        congr 1
        omega
      rw [Nat.succ_add, decode, decode, List.cons_append]
      show _ :: decode false (buf.drop 2) (n + k) = _ :: (decode false (buf.drop 2) n ++ _)
      rw [ih, hdrop]

theorem Adjacent.writeBlocks {user : Partition} {address : Word} {blocks : List (Word × ℕ)}
    {n : ℕ} (h : Adjacent address blocks n)
    (hvalid : ∀ a ∈ addresses address n, valid user a = true) (ptr : Bytes) (m : ByteMemory) :
    Stub.writeBlocks user ptr blocks m =
      applyAll (((addresses address n).map cell).zip (decode false ptr n)) m := by
  induction h generalizing ptr m with
  | nil address => rfl
  | @cons address blocks n count h ih =>
      rw [addresses_append] at hvalid
      have hfirst := reach_eq_addresses fun a ha => hvalid a (List.mem_append_left _ ha)
      have hlength : ((addresses address count).map cell).length =
          (decode false ptr count).length := by
        rw [List.length_map, length_addresses, length_decode]
      rw [Stub.writeBlocks, hex2mem_eq, hfirst,
        ih (fun a ha => hvalid a (List.mem_append_right _ ha)), addresses_append,
        List.map_append, decode_false_append, List.zip_append hlength, applyAll, applyAll,
        applyAll, List.foldl_append]

theorem adjacent_field (ctx : Context) (offset count : ℕ) {blocks : List (Word × ℕ)} {n : ℕ}
    (h : Adjacent (ctx.field (offset + count)) blocks n) :
    Adjacent (ctx.field offset) ((ctx.field offset, count) :: blocks) (count + n) := by
  apply Adjacent.cons
  rw [KernelObject.field, BitVec.add_assoc, ← BitVec.ofNat_add]
  exact h

theorem adjacent_registerBlocks (ctx : Context) :
    Adjacent (ctx.field offsetR) (registerBlocks ctx) 360 := by
  show Adjacent _ _ (128 + (24 + (128 + (8 + (8 + (64 + 0))))))
  apply adjacent_field ctx offsetR 128
  apply adjacent_field ctx offsetStatus 24
  apply adjacent_field ctx offsetFpr 128
  apply adjacent_field ctx offsetFsr 8
  apply adjacent_field ctx offsetFramePtr 8
  apply adjacent_field ctx offsetIndex 64
  exact .nil _

theorem valid_registers (user : Partition) (ctx : Context) :
    ∀ a ∈ registers ctx, valid user a = true := valid_field user ctx (by decide)

theorem dumpContext_eq (user : Partition) (m : ByteMemory) (ctx : Context) :
    dumpContext user m ctx = .ofText (hexText (load m (registers ctx))) := by
  rw [dumpContext, (adjacent_registerBlocks ctx).dump (valid_registers user ctx) m]
  rfl

theorem writeBlocks_eq (user : Partition) (ptr : Bytes) (m : ByteMemory) (ctx : Context) :
    writeBlocks user ptr (registerBlocks ctx) m =
      applyAll (((registers ctx).map cell).zip (decode false ptr 360)) m :=
  (adjacent_registerBlocks ctx).writeBlocks (valid_registers user ctx) ptr m

/-- Packets handled in one session, each with what the kernel answers meanwhile. -/
inductive Serves (env : Env) : State → List (Kernel × Bytes) → State → Prop
  | nil (s : State) : Serves env s [] s
  | cons {s s' s'' : State} {k : Kernel} {input : Bytes} {r : Reply}
      {packets : List (Kernel × Bytes)} (h : handlePacket env k s input = .reply r s')
      (hrest : Serves env s' packets s'') : Serves env s ((k, input) :: packets) s''

/-- The packets `H`, `g`, `m` and `q`. -/
def IsInquiry (input : Bytes) : Prop :=
  input.getD 0 0 = 0x48 ∨ input.getD 0 0 = 0x67 ∨ input.getD 0 0 = 0x6D ∨ input.getD 0 0 = 0x71

/-- No other thread than the stopped one is selected. -/
def OwnThread (env : Env) (s : State) : Prop :=
  s.thid = 0 ∨ s.thid = loadWord s.mem (env.ctx.field offsetThid)

/-- The thread selected after a packet. -/
def selects (input : Bytes) (thid : Word) : Word :=
  let addr := hexToInt (input.drop 2)
  if input.getD 0 0 = 0x48 ∧ input.getD 1 0 = 0x67 ∧ addr.numChars ≠ 0 then addr.intValue
  else thid

/-- The thread selected after packets. -/
def selected (thid : Word) (packets : List (Kernel × Bytes)) : Word :=
  packets.foldl (fun thid p => selects p.2 thid) thid

section

variable {env : Env} {k : Kernel} {s s' : State} {r : Reply} {input digits data : Bytes}

theorem selectThread_state (s : State) (hH : input.getD 0 0 = 0x48) :
    (selectThread (input.drop 1) s).2 = { s with thid := selects input s.thid } := by
  have hg : (input.drop 1).getD 0 0 = input.getD 1 0 := by
    simp [List.getD_eq_getElem?_getD]
  have hdrop : (input.drop 1).drop 1 = input.drop 2 := List.drop_drop
  rw [selectThread, selects, hg, hdrop]
  dsimp only
  by_cases hletter : input.getD 1 0 = 0x67
  · rw [if_pos hletter]
    by_cases hnumber : (hexToInt (input.drop 2)).numChars ≠ 0
    · rw [if_pos hnumber, if_pos ⟨hH, hletter, hnumber⟩]
    · rw [if_neg hnumber, if_neg fun h => hnumber h.2.2]
  · rw [if_neg hletter, if_neg fun h => hletter h.2.1]

theorem handleQuery_state (env : Env) (k : Kernel) (str : Bytes) (s : State) :
    ∃ query, (handleQuery env k str s).2 = { s with query := query } := by
  rw [handleQuery]
  split_ifs
  · exact ⟨s.query, rfl⟩
  · split
    · exact ⟨_, rfl⟩
    · exact ⟨_, rfl⟩
  · split
    · exact ⟨_, rfl⟩
    · exact ⟨s.query, rfl⟩
  · dsimp only
    split
    · split
      · exact ⟨s.query, rfl⟩
      · exact ⟨s.query, rfl⟩
    · exact ⟨s.query, rfl⟩
  · exact ⟨s.query, rfl⟩
  · exact ⟨s.query, rfl⟩

theorem inquiry_state (hinput : IsInquiry input) (h : handlePacket env k s input = .reply r s') :
    ∃ query, s' = { s with thid := selects input s.thid, query := query } := by
  have hother : input.getD 0 0 ≠ 0x48 → selects input s.thid = s.thid :=
    fun hne => if_neg fun hH => hne hH.1
  rcases hinput with hH | hg | hm | hq
  · simp only [handlePacket, hH, answered] at h
    cases h
    exact ⟨s.query, selectThread_state s hH⟩
  · rw [hother (by rw [hg]; decide)]
    simp only [handlePacket, hg, answered] at h
    cases h
    exact ⟨s.query, rfl⟩
  · rw [hother (by rw [hm]; decide)]
    simp only [handlePacket, hm, answered] at h
    cases h
    exact ⟨s.query, rfl⟩
  · rw [hother (by rw [hq]; decide)]
    simp only [handlePacket, hq, answered] at h
    cases h
    exact handleQuery_state env k _ s

theorem Serves.inquiries {packets : List (Kernel × Bytes)} (h : Serves env s packets s')
    (hpackets : ∀ p ∈ packets, IsInquiry p.2) :
    s'.mem = s.mem ∧ s'.thid = selected s.thid packets := by
  induction h with
  | nil s => exact ⟨rfl, rfl⟩
  | cons hpacket hrest ih =>
      obtain ⟨hfirst, hpackets⟩ := List.forall_mem_cons.mp hpackets
      obtain ⟨query, rfl⟩ := inquiry_state hfirst hpacket
      exact ih hpackets

theorem reply_registers (hown : OwnThread env s) (hinput : input.getD 0 0 = 0x67) (k : Kernel) :
    handlePacket env k s input =
      .reply (Reply.ofText (hexText (load s.mem (registers env.ctx)))).opened s := by
  have hread : readRegisters env k s = .ofText (hexText (load s.mem (registers env.ctx))) := by
    rw [readRegisters, if_neg (fun h => hown.elim h.1 h.2), dumpContext_eq]
  rw [handlePacket, hinput]
  exact congrArg (fun reply : Reply => Outcome.reply reply.opened s) hread

/-- The packet `G` is answered with `OK`, and a `g` after it with what it said: the packets
between may select threads and read, and no memory but the 90 words has changed. -/
def RegistersWritten (env : Env) (k : Kernel) (s : State) (digits input : Bytes) : Prop :=
  ∃ s', handlePacket env k s input = .reply (Reply.ofText (ascii "OK")).opened s' ∧
    (∀ c, c ∉ (registers env.ctx).map cell → s'.mem c = s.mem c) ∧
    ∀ packets s'' k' (input' : Bytes), (∀ p ∈ packets, IsInquiry p.2) → Serves env s' packets s'' →
      OwnThread env s'' → input'.getD 0 0 = 0x67 →
        ∃ r, handlePacket env k' s'' input' = .reply r s'' ∧ r.text = digits.map toLower

theorem handlePacket_write (env : Env) (k : Kernel) (s : State) (ptr : Bytes) :
    handlePacket env k s (0x47 :: ptr) =
      .reply (Reply.ofText (ascii "OK")).opened (writeRegisters env ptr s).2 := by
  simp only [handlePacket, List.getD_cons_zero, List.drop_succ_cons, List.drop_zero]
  rfl

/-- Whatever the state is after the `G`, a `g` reads the registers in its memory. -/
theorem registersWritten_iff_load (hdigits : HexOf digits data) (ptr : Bytes)
    (hown : OwnThread env (writeRegisters env ptr s).2)
    (hkept : ∀ c, c ∉ (registers env.ctx).map cell →
      (writeRegisters env ptr s).2.mem c = s.mem c) :
    RegistersWritten env k s digits (0x47 :: ptr) ↔
      load (writeRegisters env ptr s).2.mem (registers env.ctx) = data := by
  have htext : ∀ m : ByteMemory, (Reply.ofText (hexText (load m (registers env.ctx)))).opened.text =
      hexText (load m (registers env.ctx)) := fun m => text_ofText (not_mem_hexText _)
  constructor
  · rintro ⟨s', hs', -, hread⟩
    rw [handlePacket_write] at hs'
    cases hs'
    obtain ⟨r, hr, hreply⟩ := hread [] _ k [0x67] (by simp) (.nil _) hown rfl
    rw [reply_registers hown rfl] at hr
    cases hr
    rw [htext, ← hexText_of_hexOf hdigits] at hreply
    exact hexText_injective hreply
  · intro hload
    refine ⟨_, handlePacket_write env k s ptr, hkept, ?_⟩
    intro packets s'' k' input' hpackets hserves hown'' hinput'
    refine ⟨_, reply_registers hown'' hinput' k', ?_⟩
    rw [htext, (hserves.inquiries hpackets).1, hload, hexText_of_hexOf hdigits]

theorem cell_kernelObject_ne {size : ℕ} (o : KernelObject size) {i j : ℕ} (hi : i < size)
    (hj : j < size) (hne : i ≠ j) :
    cell (o.addr + BitVec.ofNat 32 i) ≠ cell (o.addr + BitVec.ofNat 32 j) := by
  have hlower := o.lower
  have hupper := o.upper
  rw [Ne, cell_eq_iff, toNat_kernelObject o hi, toNat_kernelObject o hj]
  omega

theorem loadWord_thid_eq {m m' : ByteMemory} (ctx : Context)
    (hkept : ∀ c, c ∉ (registers ctx).map cell → m' c = m c) :
    loadWord m' (ctx.field offsetThid) = loadWord m (ctx.field offsetThid) := by
  rw [loadWord, loadWord]
  congr 2
  apply List.map_congr_left
  intro a ha
  apply hkept
  intro hmem
  obtain ⟨b, hb, heq⟩ := List.mem_map.mp hmem
  obtain ⟨i, hi, rfl⟩ := mem_addresses.mp ha
  obtain ⟨j, hj, rfl⟩ := mem_addresses.mp hb
  rw [KernelObject.field, KernelObject.field, BitVec.add_assoc, BitVec.add_assoc,
    ← BitVec.ofNat_add, ← BitVec.ofNat_add] at heq
  have hj' : offsetR + j < contextSize := by
    simp only [offsetR, contextSize]
    omega
  have hi' : offsetThid + i < contextSize := by
    simp only [offsetThid, contextSize]
    omega
  have hne : offsetR + j ≠ offsetThid + i := by
    simp only [offsetR, offsetThid]
    omega
  exact cell_kernelObject_ne ctx hj' hi' hne heq

theorem nodup_registers (ctx : Context) : ((registers ctx).map cell).Nodup := by
  have hnodup := nodup_reach { userbase := 0, usertop := 0 } (ctx.field offsetR) 360
  rwa [reach_eq_addresses (valid_registers _ ctx)] at hnodup

theorem writeRegisters_selected (hdigits : HexOf digits data) (hlength : data.length = 360)
    (hthid : s.thid ≠ 0) (hown : s.thid = loadWord s.mem (env.ctx.field offsetThid))
    (rest : Bytes) :
    (writeRegisters env (digits ++ rest) s).2 =
      { s with mem := applyAll (((registers env.ctx).map cell).zip data) s.mem } := by
  have hdecode := decode_hexOf hdigits rest
  rw [hlength] at hdecode
  rw [writeRegisters, if_pos ⟨hthid, hown⟩, writeBlocks_eq, hdecode]

theorem writeRegisters_unselected (hthid : s.thid = 0) (ptr : Bytes) :
    (writeRegisters env ptr s).2 = s := by
  rw [writeRegisters, if_neg fun h => h.1 hthid]

theorem load_applyAll_registers (ctx : Context) (hlength : data.length = 360) (m : ByteMemory) :
    load (applyAll (((registers ctx).map cell).zip data) m) (registers ctx) = data := by
  have hlength' : ((registers ctx).map cell).length = data.length := by
    rw [List.length_map, registers, length_addresses, hlength]
  have hmap := map_applyAll_zip (nodup_registers ctx) hlength' m
  rwa [List.map_map] at hmap

end

/-- In a session, which starts with no thread selected, a `G` while no other thread is
selected writes the registers exactly if the packets before have selected the thread itself,
or there is nothing to change. -/
theorem registers_written_iff (env : Env) {s₀ s : State} {earlier : List (Kernel × Bytes)}
    (hstart : s₀.thid = 0) (hearlier : ∀ p ∈ earlier, IsInquiry p.2)
    (hserves : Serves env s₀ earlier s) (hown : OwnThread env s) (k : Kernel)
    {digits data : Bytes} (hdigits : HexOf digits data) (hlength : data.length = 360)
    (more : Bytes) :
    RegistersWritten env k s digits (0x47 :: (digits ++ 0 :: more)) ↔
      selected 0 earlier ≠ 0 ∨ load s₀.mem (registers env.ctx) = data := by
  obtain ⟨hmem, hthid⟩ := hserves.inquiries hearlier
  rw [hstart] at hthid
  rw [← hthid, ← hmem]
  by_cases hzero : s.thid = 0
  · have hafter := @writeRegisters_unselected env s hzero (digits ++ 0 :: more)
    have hown' : OwnThread env (writeRegisters env (digits ++ 0 :: more) s).2 := by
      rw [hafter]
      exact hown
    rw [registersWritten_iff_load hdigits _ hown' fun c _ => by rw [hafter], hafter]
    simp [hzero]
  · have hselected := hown.resolve_left hzero
    have hafter := writeRegisters_selected hdigits hlength hzero hselected (0 :: more)
    have hkept : ∀ c, c ∉ (registers env.ctx).map cell →
        (writeRegisters env (digits ++ 0 :: more) s).2.mem c = s.mem c := by
      intro c hc
      rw [hafter]
      apply applyAll_of_ne
      rintro p hp rfl
      exact hc (List.of_mem_zip hp).1
    have hown' : OwnThread env (writeRegisters env (digits ++ 0 :: more) s).2 := by
      right
      rw [loadWord_thid_eq env.ctx hkept, ← hselected, hafter]
    rw [registersWritten_iff_load hdigits _ hown' hkept, hafter,
      load_applyAll_registers env.ctx hlength]
    exact iff_of_true rfl (.inl hzero)

/-- The stopped thread is the thread 5. -/
def stopped : State :=
  { plainState with mem := storeWord plainState.mem (plainEnv.ctx.field offsetThid) 5 }

def newRegisters : Bytes := (List.range 360).map UInt8.ofNat

/-- `g`, `Hg5`, and `g` again. -/
def selectsStopped : List (Kernel × Bytes) :=
  [(plainKernel, [0x67]), (plainKernel, [0x48, 0x67, 0x35]), (plainKernel, [0x67])]

theorem serves_selectsStopped : Serves plainEnv stopped selectsStopped { stopped with thid := 5 } := by
  have hown : OwnThread plainEnv { stopped with thid := 5 } := .inr (by decide +kernel)
  have hselect : handlePacket plainEnv plainKernel stopped [0x48, 0x67, 0x35] =
      .reply (Reply.ofText (ascii "OK")).opened { stopped with thid := 5 } := rfl
  exact .cons (reply_registers (.inl rfl) rfl plainKernel)
    (.cons hselect (.cons (reply_registers hown rfl plainKernel) (.nil _)))

/-- The registers are zero before. -/
theorem registers_written_selected :
    load stopped.mem (registers plainEnv.ctx) ≠ newRegisters ∧
      RegistersWritten plainEnv plainKernel { stopped with thid := 5 } (hexText newRegisters)
        (0x47 :: (hexText newRegisters ++ 0 :: [])) := by
  have hinquiries : ∀ p ∈ selectsStopped, IsInquiry p.2 := by
    simp [selectsStopped, IsInquiry]
  have hlength : newRegisters.length = 360 := by simp [newRegisters]
  refine ⟨by decide +kernel, ?_⟩
  exact (registers_written_iff plainEnv rfl hinquiries serves_selectsStopped
    (.inr (by decide +kernel)) plainKernel (hexOf_hexText _) hlength []).mpr (.inl (by decide))

theorem load_zeros (as : List Word) : load plainState.mem as = List.replicate as.length 0 :=
  List.map_const' ..

/-- With no thread selected a `G` is acknowledged, and the registers stay zero. -/
theorem registers_lost :
    (∃ s, handlePacket plainEnv plainKernel plainState
        (0x47 :: (hexText (List.replicate 360 1) ++ [0])) =
      .reply (Reply.ofText (ascii "OK")).opened s) ∧
      ¬RegistersWritten plainEnv plainKernel plainState (hexText (List.replicate 360 1))
        (0x47 :: (hexText (List.replicate 360 1) ++ [0])) := by
  refine ⟨⟨_, handlePacket_write plainEnv plainKernel plainState _⟩, fun hwritten => ?_⟩
  have hafter := @writeRegisters_unselected plainEnv plainState rfl
    (hexText (List.replicate 360 1) ++ [0])
  have hown : OwnThread plainEnv
      (writeRegisters plainEnv (hexText (List.replicate 360 1) ++ [0]) plainState).2 := by
    rw [hafter]
    exact .inl rfl
  rw [registersWritten_iff_load (hexOf_hexText _) _ hown fun c _ => by rw [hafter], hafter,
    load_zeros, registers, length_addresses] at hwritten
  exact absurd (List.replicate_inj.mp hwritten).2 (by decide)

end PsplinkUsb.UsbGdb.RegisterPackets
