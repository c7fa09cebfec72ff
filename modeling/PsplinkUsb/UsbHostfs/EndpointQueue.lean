import PsplinkUsb.Library.RingQueue
import PsplinkUsb.UsbHostfs.AsyncChannel

namespace PsplinkUsb.UsbHostfs.EndpointQueue

open PsplinkUsb.Library.RingQueue
open PsplinkUsb.UsbHostfs.AsyncChannel

/-- The counters of an endpoint agree. -/
structure Ring (e : AsyncEndpoint) : Prop where
  size_nonneg : 0 ≤ e.size
  size_le : e.size ≤ maxAsyncBuffer
  readPos_nonneg : 0 ≤ e.readPos
  readPos_lt : e.readPos < maxAsyncBuffer
  writePos_eq : e.writePos = (e.readPos + e.size) % maxAsyncBuffer

/-- The bytes waiting in an endpoint, the oldest first. -/
def queued (e : AsyncEndpoint) : List UInt8 :=
  contents maxAsyncBuffer e.buffer e.readPos e.size.toNat

variable {e : AsyncEndpoint}

theorem Ring.writePos_nonneg (h : Ring e) : 0 ≤ e.writePos := by
  rw [h.writePos_eq]
  exact Int.emod_nonneg _ (by decide)

theorem Ring.writePos_lt (h : Ring e) : e.writePos < maxAsyncBuffer := by
  rw [h.writePos_eq]
  exact Int.emod_lt_of_pos _ (by decide)

theorem ring_empty (buffer : ℤ → UInt8) :
    Ring { buffer := buffer, readPos := 0, writePos := 0, size := 0 } := by
  constructor <;> simp [maxAsyncBuffer]

theorem pushByte_ring (h : Ring e) (hfree : e.size < maxAsyncBuffer) (x : UInt8) :
    Ring (pushByte e x) where
  size_nonneg := by
    have := h.size_nonneg
    simp only [pushByte]
    omega
  size_le := by
    simp only [pushByte]
    omega
  readPos_nonneg := h.readPos_nonneg
  readPos_lt := h.readPos_lt
  writePos_eq := by
    have hnonneg := h.writePos_nonneg
    simp only [pushByte]
    rw [Int.tmod_eq_emod_of_nonneg (by omega), h.writePos_eq, Int.emod_add_emod, add_assoc]

theorem queued_pushByte (h : Ring e) (hfree : e.size < maxAsyncBuffer) (x : UInt8) :
    queued (pushByte e x) = queued e ++ [x] := by
  have hsize : (e.size.toNat : ℤ) = e.size := Int.toNat_of_nonneg h.size_nonneg
  have hsucc : (e.size + 1).toNat = e.size.toNat + 1 := by
    have := h.size_nonneg
    omega
  simp only [queued, pushByte]
  rw [hsucc, h.writePos_eq, ← hsize]
  exact contents_push e.readPos (by omega) x

theorem foldl_pushByte (h : Ring e) {data : List UInt8}
    (hfit : e.size + data.length ≤ maxAsyncBuffer) :
    Ring (data.foldl pushByte e) ∧ queued (data.foldl pushByte e) = queued e ++ data := by
  induction data generalizing e with
  | nil => exact ⟨h, by simp⟩
  | cons x data ih =>
      simp only [List.length_cons, Nat.cast_succ] at hfit
      have hfree : e.size < maxAsyncBuffer := by omega
      have hfit' : (pushByte e x).size + data.length ≤ maxAsyncBuffer := by
        simp only [pushByte]
        omega
      obtain ⟨hring, hqueued⟩ := ih (pushByte_ring h hfree x) hfit'
      refine ⟨hring, ?_⟩
      rw [List.foldl_cons, hqueued, queued_pushByte h hfree, List.append_assoc,
        List.singleton_append]

theorem popByte_ring (h : Ring e) (hpos : 0 < e.size) : Ring (popByte e).2 where
  size_nonneg := by
    simp only [popByte]
    omega
  size_le := by
    have := h.size_le
    simp only [popByte]
    omega
  readPos_nonneg := by
    have := h.readPos_nonneg
    simp only [popByte]
    rw [Int.tmod_eq_emod_of_nonneg (by omega)]
    exact Int.emod_nonneg _ (by decide)
  readPos_lt := by
    have := h.readPos_nonneg
    simp only [popByte]
    rw [Int.tmod_eq_emod_of_nonneg (by omega)]
    exact Int.emod_lt_of_pos _ (by decide)
  writePos_eq := by
    have := h.readPos_nonneg
    simp only [popByte]
    rw [Int.tmod_eq_emod_of_nonneg (by omega), h.writePos_eq, Int.emod_add_emod]
    congr 1
    omega

theorem queued_popByte (h : Ring e) (hpos : 0 < e.size) :
    queued e = (popByte e).1 :: queued (popByte e).2 := by
  have hnonneg := h.readPos_nonneg
  have hsucc : e.size.toNat = (e.size - 1).toNat + 1 := by omega
  have hpos : e.readPos % maxAsyncBuffer = e.readPos :=
    Int.emod_eq_of_lt hnonneg h.readPos_lt
  simp only [queued, popByte]
  rw [hsucc, contents_succ, hpos, Int.tmod_eq_emod_of_nonneg (by omega), contents_emod]

theorem popBytes_spec (h : Ring e) {n : ℕ} (hn : n ≤ e.size) :
    Ring (popBytes n e).2 ∧ queued e = (popBytes n e).1 ++ queued (popBytes n e).2 ∧
      (popBytes n e).1.length = n := by
  induction n generalizing e with
  | zero => exact ⟨h, rfl, rfl⟩
  | succ n ih =>
      have hpos : 0 < e.size := by omega
      have hrest : n ≤ (popByte e).2.size := by
        simp only [popByte]
        omega
      obtain ⟨hring, hqueued, hlength⟩ := ih (popByte_ring h hpos) hrest
      refine ⟨hring, ?_, by simp [popBytes, hlength]⟩
      rw [queued_popByte h hpos, hqueued]
      rfl

def afterRead (len : ℤ) (e : AsyncEndpoint) : AsyncEndpoint :=
  (popBytes (readLength len e).toNat e).2

theorem readLength_toNat_le (h : Ring e) (len : ℤ) : (readLength len e).toNat ≤ e.size := by
  have := h.size_nonneg
  rw [readLength]
  split <;> omega

theorem afterRead_ring (h : Ring e) (len : ℤ) : Ring (afterRead len e) :=
  (popBytes_spec h (readLength_toNat_le h len)).1

theorem queued_eq_readBytes (h : Ring e) (len : ℤ) :
    queued e = readBytes len e ++ queued (afterRead len e) :=
  (popBytes_spec h (readLength_toNat_le h len)).2.1

def afterFill (packet : List UInt8) (e : AsyncEndpoint) : AsyncEndpoint :=
  (acceptedBytes e packet).foldl pushByte e

theorem acceptedBytes_eq (h : Ring e) (packet : List UInt8) :
    acceptedBytes e packet = (payload packet).take (maxAsyncBuffer - e.size).toNat := by
  have := h.size_le
  rw [acceptedBytes, sizeleft]
  split
  · rw [List.take_of_length_le (by omega), List.take_of_length_le (by omega)]
  · rfl

theorem afterFill_spec (h : Ring e) (packet : List UInt8) :
    Ring (afterFill packet e) ∧
      queued (afterFill packet e) = queued e ++ acceptedBytes e packet := by
  have hle := h.size_le
  have hlength : (acceptedBytes e packet).length ≤ (maxAsyncBuffer - e.size).toNat := by
    rw [acceptedBytes_eq h]
    exact List.length_take_le ..
  exact foldl_pushByte h (by omega)

end PsplinkUsb.UsbHostfs.EndpointQueue
