import PsplinkUsb.HostFs.Requests
import PsplinkUsb.Library.Interleaving
import PsplinkUsb.UsbHostfs.ChannelWrites
import PsplinkUsb.UsbHostfsPc.ClientSockets
import PsplinkUsb.UsbHostfsPc.PlainFile

namespace PsplinkUsb.HostFs.ChannelDelivery

open PsplinkUsb.Library.Chunks
open PsplinkUsb.Library.Duplex
open PsplinkUsb.Library.Interleaving
open PsplinkUsb.Library.Settling
open PsplinkUsb.HostFs.Wire
open PsplinkUsb.HostFs.Exchange
open PsplinkUsb.HostFs.Answers
open PsplinkUsb.HostFs.Requests
open PsplinkUsb.UsbHostfs.AsyncChannel
open PsplinkUsb.UsbHostfs.BulkRequests (asyncPayload)
open PsplinkUsb.UsbHostfs.ChannelWrites
open PsplinkUsb.UsbHostfs.CommandXchg
open PsplinkUsb.UsbHostfs.HostDriver (readRequest)
open PsplinkUsb.UsbHostfsPc.OsCalls
open PsplinkUsb.UsbHostfsPc.HostFiles
open PsplinkUsb.UsbHostfsPc.Handlers
open PsplinkUsb.UsbHostfsPc.ClientSockets
open PsplinkUsb.UsbHostfsPc.PlainFile

variable {σ : Type} {os : HostOs σ} {pc : Pc σ} {cs ss acc : List Bytes}

def Section.Valid : Section → Prop
  | .async _ payload => payload ≠ [] ∧ payload.length ≤ asyncPayload
  | .bulk _ data => data ≠ [] ∧ data.length ≤ hostfsBulkMaxwrite
  | .exchange req _ => Sendable req

/-- The calls that can succeed: any data for `usbAsyncWrite`, some but not too much for
`usbWriteBulkData`, and the requests of the driver. -/
def Call.Valid : Call → Prop
  | .asyncWrite _ _ => True
  | .writeBulkData _ data => 0 < data.length ∧ data.length ≤ hostfsBulkMaxwrite
  | .command req _ => Sendable req

theorem sections_valid {call : Call} (hcall : Call.Valid call) :
    ∀ s ∈ call.sections, Section.Valid s := by
  intro s hs
  cases call with
  | asyncWrite chan data =>
      obtain ⟨payload, hpayload, rfl⟩ := List.mem_map.mp hs
      exact mem_chunks hpayload
  | writeBulkData chan data =>
      obtain rfl := List.mem_singleton.mp hs
      exact ⟨List.length_pos_iff.mp hcall.1, hcall.2⟩
  | command req sizes =>
      obtain rfl := List.mem_singleton.mp hs
      exact hcall

/-- The pc at work on the bytes of a section, which it takes. -/
structure Took (pc pc' : Pc σ) (s : Section) : Prop where
  attached : pc'.attached = pc.attached
  clientsocks : ∀ d, pc'.clientsocks d =
    (pc.clientsocks d).map (· ++ ((Section.piece d s).getD []))

theorem field32_front (w : Word) (rest : Bytes) : field32 (le32 w ++ rest) 0 = w :=
  @field32_le32 [] 0 rfl w rest

theorem asyncCommand_fields (c : Channel) (payload : Bytes) :
    field32 (asyncCommand c ++ payload) 0 = asyncMagic ∧
      field32 (asyncCommand c ++ payload) 4 = channelWord c := by
  rw [asyncCommand, List.append_assoc]
  exact ⟨field32_front _ _, field32_le32 (length_le32 _) _ _⟩

theorem bulkCommand_fields (c : Channel) (len : ℕ) :
    field32 (bulkCommand c len) 0 = bulkMagic ∧ field32 (bulkCommand c len) 4 = channelWord c ∧
      field32 (bulkCommand c len) 8 = BitVec.ofNat 32 len := by
  rw [bulkCommand, List.append_assoc]
  refine ⟨field32_front _ _, field32_le32 (length_le32 _) _ _, ?_⟩
  have hlast := @field32_le32 (le32 bulkMagic ++ le32 (channelWord c)) 8 (by simp)
    (BitVec.ofNat 32 len) []
  rwa [List.append_nil, List.append_assoc] at hlast

theorem length_asyncCommand (c : Channel) : (asyncCommand c).length = sizeofAsyncCommand := by
  simp [asyncCommand, sizeofAsyncCommand]

theorem length_bulkCommand (c : Channel) (len : ℕ) :
    (bulkCommand c len).length = sizeofBulkCommand := by
  simp [bulkCommand, sizeofBulkCommand]

theorem magics_apart : asyncMagic ≠ hostfsMagic ∧ bulkMagic ≠ hostfsMagic ∧
    bulkMagic ≠ asyncMagic := by
  decide

theorem serve_async (hpc : pc.attached = true) (c : Channel) (payload : Bytes) :
    serve os pc (asyncCommand c ++ payload) = .done (doAsync pc (asyncCommand c ++ payload)) := by
  have hlength : (asyncCommand c ++ payload).length = sizeofAsyncCommand + payload.length := by
    rw [List.length_append, length_asyncCommand]
  rw [sizeofAsyncCommand] at hlength
  rw [serve, if_neg (not_not.mpr hpc), if_neg (by omega), (asyncCommand_fields c payload).1,
    if_neg magics_apart.1, if_pos rfl, if_neg (by rw [sizeofAsyncCommand]; omega)]

theorem serve_bulk (hpc : pc.attached = true) (c : Channel) (len : ℕ) :
    serve os pc (bulkCommand c len) = doBulk pc (bulkCommand c len) := by
  have hlength := length_bulkCommand c len
  rw [sizeofBulkCommand] at hlength
  rw [serve, if_neg (not_not.mpr hpc), if_neg (by omega), (bulkCommand_fields c len).1,
    if_neg magics_apart.2.1, if_neg magics_apart.2.2, if_pos rfl,
    if_neg (by rw [sizeofBulkCommand]; omega)]

theorem serve_hostfs (hpc : pc.attached = true) {req : XchgRequest} :
    serve os pc req.outcmd =
      (startHostfs os pc.host req.outcmd).bind fun h => .done { pc with host := h } := by
  have hmagic : field32 req.outcmd 0 = hostfsMagic :=
    congrArg HostFsCmd.magic (decode_outcmd req)
  have hlength : sizeofHostFsCmd ≤ req.outcmd.length := by simp [XchgRequest.outcmd]
  rw [startHostfs_outcmd]
  rw [sizeofHostFsCmd] at hlength
  rw [serve, if_neg (not_not.mpr hpc), if_neg (by omega), if_pos hmagic,
    if_neg (by rw [sizeofHostFsCmd]; omega)]

theorem took_write (pc : Pc σ) {c : Channel} {data : Bytes} {s : Section}
    (hs : ∀ d, Section.piece d s = if d = c then some data else none) :
    Took pc (pc.write (channelWord c) data) s where
  attached := Pc.write_attached _ _
  clientsocks d := by
    rw [channelWord, Pc.write_channel, hs]
    split <;> rfl

theorem section_steps {s : Section} (hs : Section.Valid s) (hpc : pc.attached = true)
    (cs ss acc : List Bytes) :
    ∃ n pc' cs' ss' acc', Took pc pc' s ∧
      Steps (Step (serve os) requestBuffer) n (idle s.proc pc cs ss acc)
        (idle (.done ()) pc' cs' ss' acc') := by
  cases s with
  | async chan payload =>
      have hlength : (asyncCommand chan ++ payload).length = sizeofAsyncCommand + payload.length := by
        rw [List.length_append, length_asyncCommand]
      have hle := hs.2
      have hpos := List.length_pos_iff.mpr hs.1
      simp only [asyncPayload, sizeofAsyncCommand] at hle hlength
      have hproc : (Section.async chan payload).proc =
          sendAll ((asyncCommand chan ++ payload) :: []) (.done ()) := by
        rw [Section.proc, writeData, pieces_of_le]
        · exact List.append_ne_nil_of_right_ne_nil _ hs.1
        · rw [txBufSize]
          omega
      have htaken : doAsync pc (asyncCommand chan ++ payload) =
          pc.write (channelWord chan) payload := by
        rw [doAsync, if_pos (by rw [sizeofAsyncCommand]; omega),
          (asyncCommand_fields chan payload).2, ← length_asyncCommand chan, List.drop_left]
      have hserve : (serve os pc (asyncCommand chan ++ payload)).feed ([] : List Bytes).flatten =
          some { sent := [], result := pc.write (channelWord chan) payload, rest := [] } := by
        rw [serve_async hpc, htaken]
        rfl
      have hlimit : (asyncCommand chan ++ payload).length ≤ requestBuffer := by
        rw [requestBuffer]
        omega
      obtain ⟨n, hsteps⟩ := @handover_steps UInt8 Unit (Pc σ) (serve os) requestBuffer cs ss acc
        (asyncCommand chan ++ payload) [] (.done ()) pc _ hlimit (by simp [Proper]) hserve
      rw [hproc]
      exact ⟨n, _, _, _, _, took_write pc fun _ => rfl, hsteps⟩
  | bulk chan data =>
      have hmax : hostfsBulkMaxwrite = 1048576 := rfl
      have hle := hs.2
      have hlength := length_bulkCommand chan data.length
      rw [sizeofBulkCommand] at hlength
      have hproc : (Section.bulk chan data).proc =
          sendAll (bulkCommand chan data.length :: [data]) (.done ()) := by
        rw [Section.proc, writeData, pieces_of_le]
        · rfl
        · exact List.ne_nil_of_length_pos (by omega)
        · rw [txBufSize]
          omega
      have hlen : (field32 (bulkCommand chan data.length) 8).toInt.toNat = data.length := by
        rw [(bulkCommand_fields chan data.length).2.2, BitVec.toInt_eq_toNat_of_lt
          (by rw [BitVec.toNat_ofNat]; omega), BitVec.toNat_ofNat]
        omega
      have hserve : (serve os pc (bulkCommand chan data.length)).feed [data].flatten =
          some { sent := [], result := pc.write (channelWord chan) data, rest := [] } := by
        rw [serve_bulk hpc, doBulk, feed_readBlock, hlen, (bulkCommand_fields chan _).2.1]
        simp [Proc.feed]
      have hlimit : (bulkCommand chan data.length).length ≤ requestBuffer := by
        rw [requestBuffer]
        omega
      obtain ⟨n, hsteps⟩ := @handover_steps UInt8 Unit (Pc σ) (serve os) requestBuffer cs ss acc
        (bulkCommand chan data.length) [data] (.done ()) pc _ hlimit (by simpa [Proper] using hs.1)
        hserve
      rw [hproc]
      exact ⟨n, _, _, _, _, took_write pc fun _ => rfl, hsteps⟩
  | exchange req sizes =>
      obtain ⟨command, reply, hanswers, hok⟩ := @answered_of_sendable σ os req hs pc.host
      have hexchanged := exchanged_of_answers hs.outcmd_length hanswers hok
      have hlimit : req.outcmd.length ≤ requestBuffer := by
        rw [hs.outcmd_length]
        cases req.command <;> decide
      have hserve : (serve os pc req.outcmd).feed (pieces req.outdata).flatten =
          some { sent := replyPackets command reply.1, result := { pc with host := reply.2 },
                 rest := [] } := by
        rw [serve_hostfs hpc, pieces_flatten]
        refine (feed_bind_done _ (fun h => ({ pc with host := h } : Pc σ)) _).trans ?_
        rw [hexchanged.served, Option.map_some]
      obtain ⟨n, hsteps⟩ := @exchange_steps UInt8 XchgResult (Pc σ) (serve os) requestBuffer cs ss
        acc req.outcmd (pieces req.outdata) (readResponse sizes req) pc _ _ _ hlimit
        (pieces_proper _) hexchanged.proper hserve (hexchanged.received sizes)
      rw [← commandXchg_eq sizes (hlimit.trans (by decide))] at hsteps
      refine ⟨n, { pc with host := reply.2 }, _, _, _, ⟨rfl, ?_⟩, steps_bind (fun _ => .done ()) hsteps⟩
      intro d
      have hsame : (fun b : Bytes => b ++ ((Section.piece d (.exchange req sizes)).getD [])) = id := by
        funext b
        exact List.append_nil b
      rw [hsame, Option.map_id, id]

theorem sections_steps {sections : List Section} (hsections : ∀ s ∈ sections, Section.Valid s)
    (hpc : pc.attached = true) (cs ss acc : List Bytes) :
    ∃ n pc' cs' ss' acc', pc'.attached = true ∧
      (∀ d, pc'.clientsocks d =
        (pc.clientsocks d).map (· ++ (sections.filterMap (Section.piece d)).flatten)) ∧
      Steps (Step (serve os) requestBuffer) n (idle (proc sections) pc cs ss acc)
        (idle (.done ()) pc' cs' ss' acc') := by
  induction sections generalizing pc cs ss acc with
  | nil =>
      refine ⟨0, pc, cs, ss, acc, hpc, ?_, .refl _⟩
      simp
  | cons s sections ih =>
      obtain ⟨n, pc₁, cs₁, ss₁, acc₁, htook, hsteps⟩ :=
        @section_steps σ os pc s (hsections s List.mem_cons_self) hpc cs ss acc
      obtain ⟨m, pc₂, cs₂, ss₂, acc₂, hpc₂, hsocks, hrest⟩ :=
        ih (fun s hs => hsections s (List.mem_cons_of_mem _ hs)) (htook.attached.trans hpc)
          cs₁ ss₁ acc₁
      refine ⟨n + m, pc₂, cs₂, ss₂, acc₂, hpc₂, ?_,
        (steps_bind (fun _ => proc sections) hsteps).trans hrest⟩
      intro d
      rw [hsocks, htook.clientsocks, Option.map_map, List.filterMap_cons]
      cases Section.piece d s with
      | none => simp [Function.comp_def]
      | some piece => simp [Function.comp_def]

/-- Any number of threads make calls that succeed, and the sections of the calls come in any
order that keeps those of each thread. However the steps of PSP and PC interleave, all comes to
an end, and then the client of each channel has been sent the data of the calls for it: the
packets of `usbAsyncWrite` and the whole data of `usbWriteBulkData`, those of a thread in
their order. -/
theorem channel_delivery {T : Type} [DecidableEq T] (os : HostOs σ) (calls : T → List Call)
    (hcalls : ∀ t, ∀ call ∈ calls t, Call.Valid call) (order : List (T × Section))
    (horder : Interleaves order fun t => (calls t).flatMap Call.sections) (pc : Pc σ)
    (hpc : pc.attached = true) :
    ∃ pc' cs ss acc,
      Settles (Step (serve os) requestBuffer) (idle (proc (order.map Prod.snd)) pc [] [] [])
        (idle (.done ()) pc' cs ss acc) ∧
      ∀ d written, pc.clientsocks d = some written →
        ∃ pieces : List (T × Bytes),
          Interleaves pieces (fun t => (calls t).flatMap (Call.pieces d)) ∧
          pc'.clientsocks d = some (written ++ (pieces.map Prod.snd).flatten) := by
  have hvalid : ∀ s ∈ order.map Prod.snd, Section.Valid s := by
    intro s hs
    obtain ⟨⟨t, s⟩, hmem, rfl⟩ := List.mem_map.mp hs
    obtain ⟨call, hcall, hs⟩ := List.mem_flatMap.mp (horder.mem_iff.mp hmem)
    exact sections_valid (hcalls t call hcall) s hs
  obtain ⟨n, pc', cs, ss, acc, -, hsocks, hsteps⟩ :=
    @sections_steps σ os pc _ hvalid hpc [] [] []
  refine ⟨pc', cs, ss, acc, settles_of_steps step_diamond hsteps (idle_terminal () pc' cs ss acc), ?_⟩
  intro d written hwritten
  refine ⟨order.filterMap fun p => (Section.piece d p.2).map fun piece => (p.1, piece), ?_, ?_⟩
  · intro t
    rw [track_filterMap, horder t, List.filterMap_flatMap]
    exact List.flatMap_congr fun call _ => filterMap_piece d call
  · have hpieces : (order.filterMap fun p => (Section.piece d p.2).map fun piece => (p.1, piece)).map
        Prod.snd = (order.map Prod.snd).filterMap (Section.piece d) := by
      rw [List.map_filterMap, List.filterMap_map]
      refine List.filterMap_congr fun p _ => ?_
      simp [Function.comp_def]
    rw [hsocks, hwritten, Option.map_some, hpieces]

def shellChannel : Channel := ⟨0, by decide⟩

def firstPacket : Bytes := List.replicate 504 0x41

def lastPacket : Bytes := List.replicate 96 0x41

def bulkData : Bytes := List.replicate 700 0x42

/-- One thread prints a text of two packets and then reads from a file; the other writes bulk
data and a letter to the same channel. -/
def twoCalls (t : Bool) : List Call :=
  if t then [.writeBulkData shellChannel bulkData, .asyncWrite shellChannel [0x43]]
  else
    [.asyncWrite shellChannel (firstPacket ++ lastPacket), .command (readRequest 3 2) ⟨id, id⟩]

/-- What the second thread writes comes between the packets of the first. -/
def twoOrder : List (Bool × Section) :=
  [(false, .async shellChannel firstPacket), (true, .bulk shellChannel bulkData),
    (true, .async shellChannel [0x43]), (false, .async shellChannel lastPacket),
    (false, .exchange (readRequest 3 2) ⟨id, id⟩)]

theorem twoOrder_interleaves : Interleaves twoOrder fun t => (twoCalls t).flatMap Call.sections := by
  have hfirst : firstPacket.length = asyncPayload := List.length_replicate
  have hlast : chunks asyncPayload lastPacket = [lastPacket] :=
    chunks_of_le (by decide) (List.cons_ne_nil _ _) (by decide)
  have htext : chunks asyncPayload (firstPacket ++ lastPacket) = [firstPacket, lastPacket] := by
    have hne : firstPacket ++ lastPacket ≠ [] := List.cons_ne_nil _ _
    rw [chunks_of_ne_nil (by decide) hne, ← hfirst, List.take_left, List.drop_left, hfirst, hlast]
  have hletter : chunks asyncPayload [(0x43 : UInt8)] = [[0x43]] :=
    chunks_of_le (by decide) (by decide) (by decide)
  intro t
  cases t with
  | true => simp [twoOrder, twoCalls, track, Call.sections, hletter]
  | false => simp [twoOrder, twoCalls, track, Call.sections, htext]

theorem channel_delivery_two :
    ∃ pc' cs ss acc,
      Settles (Step (serve fileOs) requestBuffer)
        (idle (proc (twoOrder.map Prod.snd)) ⟨oneFile [1, 2, 3] [], fun _ => some [], true⟩ [] [] [])
        (idle (.done ()) pc' cs ss acc) ∧
      ∀ d written, some [] = some written →
        ∃ pieces : List (Bool × Bytes),
          Interleaves pieces (fun t => (twoCalls t).flatMap (Call.pieces d)) ∧
          pc'.clientsocks d = some (written ++ (pieces.map Prod.snd).flatten) := by
  have hbulk : bulkData.length = 700 := List.length_replicate
  refine channel_delivery fileOs twoCalls ?_ twoOrder twoOrder_interleaves
    ⟨oneFile [1, 2, 3] [], fun _ => some [], true⟩ rfl
  intro t call hcall
  cases t with
  | true =>
      rcases List.mem_cons.mp hcall with rfl | hcall
      · exact ⟨hbulk ▸ by decide, hbulk ▸ by decide⟩
      · rw [List.mem_singleton.mp hcall]
        trivial
  | false =>
      rcases List.mem_cons.mp hcall with rfl | hcall
      · trivial
      · rw [List.mem_singleton.mp hcall]
        exact sendable_read (by decide) (by decide)

end PsplinkUsb.HostFs.ChannelDelivery
