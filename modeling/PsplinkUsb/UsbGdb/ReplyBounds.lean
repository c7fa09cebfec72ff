import PsplinkUsb.UsbGdb.RegisterPackets

namespace PsplinkUsb.UsbGdb.ReplyBounds

open PsplinkUsb.Library.Ascii
open PsplinkUsb.Library.CString
open PsplinkUsb.Library.Numerals (length_padded_le)
open PsplinkUsb.Psplink.BreakpointTable
open PsplinkUsb.Psplink.ProgramMemory
open PsplinkUsb.UsbGdb.Packets hiding plus minus
open PsplinkUsb.UsbGdb.PacketLaws
open PsplinkUsb.UsbGdb.PacketExchange (xmitcsum_hexchar)
open PsplinkUsb.UsbGdb.StubMemory
open PsplinkUsb.UsbGdb.Stub
open PsplinkUsb.UsbGdb.RegisterPackets

/-- Everything is stored inside `output`, and a string is left there. -/
structure Fits (r : Reply) : Prop where
  no_fault : r.fault = false
  passes : ∀ pass ∈ r.passes, pass.length ≤ maxBuf
  terminated : 0 ∈ r.passes.getLastD []

/-- The reply to a packet, if it has one. -/
def Outcome.reply? : Outcome → Option Reply
  | .reply r _ => some r
  | .restart _ r _ => r

/-- A memory dump that does not fit: from 1024 bytes on, all of them readable as far as the
dump goes before it is out of bounds. -/
def Overflows (env : Env) (input : Bytes) : Prop :=
  input.getD 0 0 = 0x6D ∧ ∃ numbers, (twoNumbers (input.drop 1)).1 = some numbers ∧
    1024 ≤ numbers.length.toInt.toNat ∧
    ∀ a ∈ addresses numbers.addr (min numbers.length.toInt.toNat 1025), valid env.user a = true

section

variable {env : Env} {k : Kernel} {s : State} {r : Reply} {text : Bytes}

theorem fits_ofText (h : text.length < maxBuf) : Fits (Reply.ofText text).opened := by
  refine ⟨rfl, fun pass hpass => ?_, ?_⟩
  · rcases List.mem_cons.mp hpass with rfl | hpass
    · decide
    · obtain rfl := List.mem_singleton.mp hpass
      rw [List.length_append, List.length_singleton]
      exact h
  · exact List.mem_append_right _ (List.mem_singleton_self 0)

theorem fits_ofText_iff : Fits (Reply.ofText text).opened ↔ text.length < maxBuf := by
  constructor
  · intro hfits
    have hle := hfits.passes (text ++ [0]) (List.mem_cons_of_mem _ (List.mem_singleton_self _))
    rwa [List.length_append, List.length_singleton] at hle
  · exact fits_ofText

theorem fits_twice_iff :
    Fits (Reply.opened { passes := [text, ascii "E03" ++ [0]], fault := false }) ↔
      text.length ≤ maxBuf := by
  constructor
  · intro hfits
    exact hfits.passes text (List.mem_cons_of_mem _ List.mem_cons_self)
  · intro hle
    refine ⟨rfl, ?_, (by decide : 0 ∈ ascii "E03" ++ [0])⟩
    show ∀ pass ∈ [[0], text, ascii "E03" ++ [0]], pass.length ≤ maxBuf
    rw [List.forall_mem_cons, List.forall_mem_cons, List.forall_mem_singleton]
    exact ⟨by decide, hle, by decide⟩

theorem fits_empty : Fits Reply.empty.opened := by
  refine ⟨rfl, fun pass hpass => ?_, List.mem_singleton_self 0⟩
  obtain rfl := List.mem_singleton.mp hpass
  decide

theorem fits_either {c : Prop} [Decidable c] {a b : String} (ha : (ascii a).length < maxBuf)
    (hb : (ascii b).length < maxBuf) :
    Fits (Reply.ofText (ascii (if c then a else b))).opened := by
  split
  · exact fits_ofText ha
  · exact fits_ofText hb

theorem length_hexWord_le (w : Word) : (hexWord w).length ≤ 8 := by
  have hlt : w.toNat < 16 ^ 8 := w.isLt
  exact length_padded_le (by decide) (by decide) hlt

theorem trapFields_eq {user : Partition} (m : ByteMemory) {fields : List (UInt8 × Word)}
    (hvalid : ∀ f ∈ fields, ∀ a ∈ addresses f.2 4, valid user a = true) :
    (trapFields user m fields).done = true ∧
      (trapFields user m fields).text.length = 12 * fields.length := by
  induction fields with
  | nil => exact ⟨rfl, rfl⟩
  | cons field fields ih =>
      obtain ⟨hfield, hfields⟩ := List.forall_mem_cons.mp hvalid
      obtain ⟨hdone, hlength⟩ := ih hfields
      rw [trapFields, mem2hex_of_valid hfield]
      refine ⟨hdone, ?_⟩
      simp only [if_true, List.length_append, List.length_cons, length_hexText, load,
        List.length_map, length_addresses, hlength]
      omega

theorem fits_buildTrapCmd (env : Env) (m : ByteMemory) (sigval : UInt8) :
    Fits (buildTrapCmd env m sigval).opened := by
  obtain ⟨hdone, hlength⟩ := @trapFields_eq env.user m
    [(37, env.ctx.field offsetEpc), (30, env.ctx.field (offsetR + 4 * 30)),
      (29, env.ctx.field (offsetR + 4 * 29))] (by
    intro f hf
    simp only [List.mem_cons, List.not_mem_nil, or_false] at hf
    rcases hf with rfl | rfl | rfl
    · exact valid_field env.user env.ctx (by decide)
    · exact valid_field env.user env.ctx (by decide)
    · exact valid_field env.user env.ctx (by decide))
  rw [buildTrapCmd]
  simp only [hdone, if_true]
  apply fits_ofText
  have hthid := length_hexWord_le (loadWord m (env.ctx.field offsetThid))
  have hthread : (ascii "thread:").length = 7 := by decide
  simp only [List.length_append, List.length_cons, List.length_nil, lowerHexWord,
    List.length_map, hlength, hthread, maxBuf]
  omega

theorem fits_dumpContext (user : Partition) (m : ByteMemory) (ctx : Context) :
    Fits (dumpContext user m ctx).opened := by
  rw [dumpContext_eq]
  apply fits_ofText
  rw [length_hexText, load, List.length_map, registers, length_addresses]
  decide

theorem fits_readRegisters (env : Env) (k : Kernel) (s : State) :
    Fits (readRegisters env k s).opened := by
  rw [readRegisters]
  split
  · split
    · exact fits_dumpContext _ _ _
    · exact fits_ofText (by decide)
  · exact fits_dumpContext _ _ _

theorem fits_writeMemory (user : Partition) (binary : Bool) (ptr : Bytes) (m : ByteMemory) :
    Fits (writeMemory user binary ptr m).reply.opened := by
  rw [writeMemory]
  split
  · split
    · exact fits_either (by decide) (by decide)
    · exact fits_ofText (by decide)
  · exact fits_ofText (by decide)

theorem fits_selectThread (ptr : Bytes) (s : State) : Fits (selectThread ptr s).1.opened := by
  rw [selectThread]
  split
  · dsimp only
    split
    · exact fits_ofText (by decide)
    · exact fits_ofText (by decide)
  · exact fits_empty

theorem length_strtohex (k : Kernel) (str : Bytes) :
    (str.flatMap fun ch : UInt8 => [hexcharShifted k ch, hexchar ch]).length =
      2 * str.length := by
  induction str with
  | nil => rfl
  | cons ch str ih =>
      rw [List.flatMap_cons, List.length_append, ih, List.length_cons, List.length_cons,
        List.length_nil, List.length_cons]
      omega

theorem fits_strtohex (k : Kernel) {str : Bytes} (h : str.length < 1024) :
    Fits (strtohex k str).opened := by
  apply fits_ofText
  rw [length_strtohex, maxBuf]
  omega

theorem fits_handleQuery (env : Env) (k : Kernel) (str : Bytes) (s : State) :
    Fits (handleQuery env k str s).1.opened := by
  have hword : ∀ prefix_ w, (ascii prefix_).length ≤ 32 →
      Fits (Reply.ofText (ascii prefix_ ++ hexWord w)).opened := by
    intro prefix_ w hprefix
    have hlength := length_hexWord_le w
    apply fits_ofText
    rw [List.length_append, maxBuf]
    omega
  rw [handleQuery]
  split_ifs
  · exact hword _ _ (by decide)
  · split
    · exact fits_empty
    · exact hword _ _ (by decide)
  · split
    · exact hword _ _ (by decide)
    · exact fits_ofText (by decide)
  · dsimp only
    split
    · split
      · rename_i name _
        apply fits_strtohex
        exact name.2.trans (by decide)
      · rename_i error _
        have hlength := length_hexWord_le error
        have herror : (ascii "Error: 0x").length = 9 := by decide
        apply fits_strtohex
        rw [List.length_append, herror]
        omega
    · exact fits_empty
  · have hlength := length_hexWord_le env.textAddr
    have htext : (ascii "Text=").length = 5 := by decide
    have hdata : (ascii ";Data=").length = 6 := by decide
    have hbss : (ascii ";Bss=").length = 5 := by decide
    apply fits_ofText
    simp only [List.length_append, htext, hdata, hbss, maxBuf]
    omega
  · exact fits_empty

theorem fits_handleBp (str : Bytes) (set : Bool) (s : State) :
    Fits (handleBp str set s).1.opened := by
  rw [handleBp]
  split
  · exact fits_ofText (by decide)
  · split
    · exact fits_ofText (by decide)
    · split
      · split
        · exact fits_either (by decide) (by decide)
        · exact fits_either (by decide) (by decide)
      · exact fits_empty

/-- The reply to a packet fits, if it has one. -/
def Outcome.Fits (o : Outcome) : Prop := ∀ r ∈ Outcome.reply? o, ReplyBounds.Fits r

theorem fits_answered {r : Reply × State} : Outcome.Fits (answered r) ↔ Fits r.1.opened := by
  constructor
  · intro hfits
    exact hfits _ rfl
  · rintro hfits _ hr
    obtain rfl := Option.some.inj hr
    exact hfits

theorem fits_ite {c : Prop} [Decidable c] {a b : Outcome} (ha : c → Outcome.Fits a)
    (hb : ¬c → Outcome.Fits b) : Outcome.Fits (if c then a else b) := by
  split
  · rename_i hc
    exact ha hc
  · rename_i hc
    exact hb hc

theorem fits_no_reply (ret : Bool) (s : State) : Outcome.Fits (.restart ret none s) :=
  fun _ hr => absurd hr (Option.not_mem_none _)

theorem fits_of_not_read {input : Bytes} (hm : input.getD 0 0 ≠ 0x6D) :
    Outcome.Fits (handlePacket env k s input) := by
  rw [handlePacket]
  apply fits_ite fun _ => fits_answered.mpr (fits_buildTrapCmd _ _ _)
  intro _
  apply fits_ite fun _ => fits_no_reply _ _
  intro _
  apply fits_ite
  · rintro _ _ hr
    obtain rfl := Option.some.inj hr
    exact fits_empty
  intro _
  apply fits_ite fun _ => fits_answered.mpr (fits_readRegisters _ _ _)
  intro _
  apply fits_ite fun _ => fits_answered.mpr (fits_ofText (by decide))
  intro _
  apply fits_ite fun hread => absurd hread hm
  intro _
  apply fits_ite fun _ => fits_answered.mpr (fits_writeMemory _ _ _ _)
  intro _
  apply fits_ite fun _ => fits_no_reply _ _
  intro _
  apply fits_ite fun _ => fits_answered.mpr (fits_selectThread _ _)
  intro _
  apply fits_ite fun _ => fits_answered.mpr (fits_handleQuery _ _ _ _)
  intro _
  apply fits_ite fun _ => fits_answered.mpr (fits_handleBp _ _ _)
  intro _
  apply fits_ite fun _ => fits_answered.mpr (fits_handleBp _ _ _)
  intro _
  exact fits_answered.mpr fits_empty

/-- A dump is in bounds exactly if it is short, or stops before it is out of bounds. -/
theorem fits_readMemory_iff (user : Partition) (m : ByteMemory) (ptr : Bytes) :
    Fits (readMemory user m ptr).opened ↔
      ¬∃ numbers, (twoNumbers ptr).1 = some numbers ∧ 1024 ≤ numbers.length.toInt.toNat ∧
        ∀ a ∈ addresses numbers.addr (min numbers.length.toInt.toNat 1025),
          valid user a = true := by
  rw [readMemory]
  cases hnumbers : (twoNumbers ptr).1 with
  | none => exact iff_of_true (fits_ofText (by decide)) (by simp)
  | some numbers =>
      have hle := length_reach_le user numbers.addr numbers.length.toInt.toNat
      have hreach := @le_length_reach_iff user numbers.addr numbers.length.toInt.toNat
        (min numbers.length.toInt.toNat 1025) (Nat.min_le_left _ _)
      have hexists : (∃ numbers', some numbers = some numbers' ∧
          1024 ≤ numbers'.length.toInt.toNat ∧
            ∀ a ∈ addresses numbers'.addr (min numbers'.length.toInt.toNat 1025),
              valid user a = true) ↔
          1024 ≤ numbers.length.toInt.toNat ∧ min numbers.length.toInt.toNat 1025 ≤
            (reach user numbers.addr numbers.length.toInt.toNat).length := by
        rw [hreach]
        simp
      rw [hexists]
      dsimp only
      rw [mem2hex_eq]
      dsimp only
      split
      · rename_i hdone
        rw [decide_eq_true_eq] at hdone
        rw [fits_ofText_iff, length_hexText, load, List.length_map, hdone, maxBuf]
        omega
      · rename_i hstopped
        rw [decide_eq_true_eq] at hstopped
        rw [fits_twice_iff, length_hexText, load, List.length_map, maxBuf]
        omega

end

/-- Every reply fits, the stop reply too, exactly if the packet asks for no memory dump of
1024 bytes or more that are readable. -/
theorem replies_fit_iff (env : Env) (k : Kernel) (s : State) (input : Bytes) :
    Fits (buildTrapCmd env s.mem (trapSignal env s.mem)).opened ∧
      (Outcome.Fits (handlePacket env k s input) ↔ ¬Overflows env input) := by
  refine ⟨fits_buildTrapCmd env s.mem _, ?_⟩
  by_cases hm : input.getD 0 0 = 0x6D
  · have hpacket : handlePacket env k s input =
        answered (readMemory env.user s.mem (input.drop 1), s) := by
      simp only [handlePacket, hm]
      rfl
    rw [hpacket, fits_answered, fits_readMemory_iff, Overflows, and_iff_right hm]
  · exact iff_of_true (fits_of_not_read hm) fun hover => hm hover.1

/-- The packet `m8900000,400`. -/
def readKilobyte : Attempt where
  start := dollar
  payload := ascii "m8900000,400"
  digits := some (hexchar (checksumOf (ascii "m8900000,400") >>> 4),
    hexchar (checksumOf (ascii "m8900000,400")))

/-- The packet arrives, and the zero behind its 2048 digits is stored outside `output`. -/
theorem kilobyte_does_not_fit :
    (getpacket (fun _ => 0) readKilobyte.bytes).ret = true ∧
      HoldsPacket (getpacket (fun _ => 0) readKilobyte.bytes).buffer readKilobyte.payload ∧
      ¬Outcome.Fits
        (handlePacket plainEnv plainKernel plainState (readKilobyte.payload ++ [0])) := by
  have hvalid : readKilobyte.Valid := ⟨rfl, by decide, by decide⟩
  have hcloses : readKilobyte.Closes := (xmitcsum_hexchar _).symm
  have hquiet : Quiet [] := fun _ hch => absurd hch List.not_mem_nil
  obtain ⟨hret, -, hholds⟩ := getpacket_closes hquiet hvalid hcloses (fun _ => 0) []
  rw [List.append_nil] at hret hholds
  refine ⟨hret, hholds rfl, fun hfits => ?_⟩
  have hpacket : handlePacket plainEnv plainKernel plainState (readKilobyte.payload ++ [0]) =
      answered (readMemory plainEnv.user plainState.mem (ascii "8900000,400" ++ [0]), plainState) :=
    rfl
  rw [hpacket] at hfits
  have hread : (twoNumbers (ascii "8900000,400" ++ [0])).1 =
      some { addr := 0x08900000, length := 0x400, ptr := [0] } := by decide
  have hreply := (@fits_answered (readMemory plainEnv.user plainState.mem
    (ascii "8900000,400" ++ [0]), plainState)).mp hfits
  dsimp only at hreply
  refine (fits_readMemory_iff plainEnv.user plainState.mem
    (ascii "8900000,400" ++ [0])).mp hreply ⟨_, hread, ?_, ?_⟩
  · decide
  · exact List.all_eq_true.mp (by decide +kernel)

end PsplinkUsb.UsbGdb.ReplyBounds
