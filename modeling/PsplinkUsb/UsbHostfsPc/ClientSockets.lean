import PsplinkUsb.UsbHostfs.AsyncChannel
import PsplinkUsb.UsbHostfsPc.Handlers

/-!
`do_async`, `do_bulk` and the loop of `start_hostfs` in `usbhostfs_pc/main.c`: what comes from
the PSP for a channel goes to the socket of its client.
-/

namespace PsplinkUsb.UsbHostfsPc.ClientSockets

open PsplinkUsb.Library.Duplex
open PsplinkUsb.HostFs.Wire
open PsplinkUsb.UsbHostfs.AsyncChannel
open PsplinkUsb.UsbHostfsPc.OsCalls
open PsplinkUsb.UsbHostfsPc.HostFiles
open PsplinkUsb.UsbHostfsPc.Handlers

variable {σ : Type}

/-- The files of the PC, what was written to each of `g_clientsocks` (`none` without a client),
and whether the loop over the requests goes on. -/
structure Pc (σ : Type) where
  host : Host σ
  clientsocks : Channel → Option Bytes
  attached : Bool

/-- A write to the socket of a channel, which takes all of it. -/
def Pc.write (pc : Pc σ) (chan : Word) (data : Bytes) : Pc σ :=
  match toChannel chan with
  | none => pc
  | some c =>
      { pc with
        clientsocks := Function.update pc.clientsocks c ((pc.clientsocks c).map (· ++ data)) }

def doAsync (pc : Pc σ) (cmd : Bytes) : Pc σ :=
  if sizeofAsyncCommand < cmd.length then
    pc.write (field32 cmd 4) (cmd.drop sizeofAsyncCommand)
  else pc

def sizeofBulkCommand : ℕ := 12

/-- The loop of `do_bulk`, with the bytes in `block`. -/
def readBlock (missing : ℕ) (block : Bytes) (next : Bytes → Proc UInt8 (Pc σ)) :
    Proc UInt8 (Pc σ) :=
  if missing = 0 then next block
  else
    .recv (min missing hostfsMaxBlock) fun data =>
      readBlock (missing - min missing hostfsMaxBlock) (block ++ data) next
termination_by missing
decreasing_by
  simp only [hostfsMaxBlock]
  omega

def doBulk (pc : Pc σ) (cmd : Bytes) : Proc UInt8 (Pc σ) :=
  readBlock (field32 cmd 8).toInt.toNat [] fun block => .done (pc.write (field32 cmd 4) block)

/-- One round of the loop of `start_hostfs`. A read too short for its header ends the loop. -/
def serve (os : HostOs σ) (pc : Pc σ) (data : Bytes) : Proc UInt8 (Pc σ) :=
  if ¬pc.attached then .done pc
  else if data.length < 4 then .done { pc with attached := false }
  else if field32 data 0 = hostfsMagic then
    if data.length < sizeofHostFsCmd then .done { pc with attached := false }
    else (doHostfs os pc.host data).bind fun h => .done { pc with host := h }
  else if field32 data 0 = asyncMagic then
    if data.length < sizeofAsyncCommand then .done { pc with attached := false }
    else .done (doAsync pc data)
  else if field32 data 0 = bulkMagic then
    if data.length < sizeofBulkCommand then .done { pc with attached := false }
    else doBulk pc data
  else .done pc

variable {os : HostOs σ} {pc : Pc σ}

theorem feed_readBlock (next : Bytes → Proc UInt8 (Pc σ)) (missing : ℕ) (block input : Bytes) :
    (readBlock missing block next).feed input =
      if missing ≤ input.length then
        (next (block ++ input.take missing)).feed (input.drop missing)
      else none := by
  induction missing using Nat.strongRecOn generalizing block input with
  | _ missing ih =>
      rw [readBlock]
      split
      · rename_i hzero
        simp [hzero]
      · rename_i hpos
        have hless : missing - min missing hostfsMaxBlock < missing := by
          simp only [hostfsMaxBlock]
          omega
        have hle : min missing hostfsMaxBlock ≤ missing := min_le_left _ _
        generalize min missing hostfsMaxBlock = size at hless hle ⊢
        rw [Proc.feed, ih _ hless]
        by_cases hroom : missing ≤ input.length
        · rw [if_pos (hle.trans hroom), if_pos (by rw [List.length_drop]; omega), if_pos hroom,
            List.drop_drop, List.append_assoc, ← List.take_add, Nat.add_sub_cancel' hle]
        · rw [if_neg hroom]
          split
          · rw [if_neg (by rw [List.length_drop]; omega)]
          · rfl

theorem Pc.write_attached (chan : Word) (data : Bytes) :
    (pc.write chan data).attached = pc.attached := by
  rw [Pc.write]
  split <;> rfl

theorem Pc.write_channel (c d : Channel) (data : Bytes) :
    (pc.write (BitVec.ofNat 32 c.val) data).clientsocks d =
      (pc.clientsocks d).map (· ++ if d = c then data else []) := by
  have hchan : toChannel (BitVec.ofNat 32 c.val) = some c := by
    revert c
    decide
  rw [Pc.write, hchan]
  dsimp only
  rcases eq_or_ne d c with rfl | hne
  · rw [Function.update_self, if_pos rfl]
  · rw [Function.update_of_ne hne, if_neg hne]
    simp

end PsplinkUsb.UsbHostfsPc.ClientSockets
