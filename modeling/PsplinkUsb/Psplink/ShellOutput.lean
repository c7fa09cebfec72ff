import PsplinkUsb.Library.Chunks
import PsplinkUsb.UsbHostfs.BulkRequests

namespace PsplinkUsb.Psplink.ShellOutput

open PsplinkUsb.Library.Chunks
open PsplinkUsb.UsbHostfs.BulkRequests (asyncPayload)

abbrev Bytes := List UInt8

def ctxBufSize : ℕ := 128

def newline : UInt8 := 0x0A
def carriageReturn : UInt8 := 0x0D

/-- The buffer of `struct prnt_ctx`, as far as it is filled, and the data of the calls of
`usbAsyncWrite` so far. -/
structure PrntCtx where
  buf : Bytes
  sent : List Bytes

/-- What `prnt` calls `cb` with: `0x200`, `0x201` or a character. -/
inductive CbType where
  | start
  | finish
  | char (c : UInt8)

def PrntCtx.flush (ctx : PrntCtx) : PrntCtx := { buf := [], sent := ctx.sent ++ [ctx.buf] }

/-- A character goes to the buffer, a full buffer out. -/
def PrntCtx.put (ctx : PrntCtx) (c : UInt8) : PrntCtx :=
  let ctx := { ctx with buf := ctx.buf ++ [c] }
  if ctx.buf.length = ctxBufSize then ctx.flush else ctx

def cb (ctx : PrntCtx) : CbType → PrntCtx
  | .start => { ctx with buf := [] }
  | .finish => ctx.flush
  | .char c => if c = newline then (ctx.put carriageReturn).put c else ctx.put c

/-- The data of the calls of `usbAsyncWrite` in a `shprintf` whose format comes to `printed`:
`prnt` calls `cb` when it starts, for each character, and at the end. -/
def shprintf (printed : Bytes) : List Bytes :=
  (cb ((printed.map .char).foldl cb (cb { buf := [], sent := [] } .start)) .finish).sent

/-- The payloads of the packets a `shprintf` comes to. A call without data sends none. -/
def payloads (printed : Bytes) : List Bytes := (shprintf printed).flatMap (chunks asyncPayload)

/-- Each newline as a carriage return and a newline. -/
def crlf (text : Bytes) : Bytes :=
  text.flatMap fun c => if c = newline then [carriageReturn, c] else [c]

variable {ctx : PrntCtx} {printed text : Bytes} {c : UInt8}

/-- What has been printed: what is out and what the buffer holds, which is not full. -/
structure Printed (ctx : PrntCtx) (out : Bytes) : Prop where
  bytes : ctx.sent.flatten ++ ctx.buf = out
  room : ctx.buf.length < ctxBufSize
  full : ∀ data ∈ ctx.sent, data.length = ctxBufSize

theorem Printed.put {out : Bytes} (h : Printed ctx out) (c : UInt8) :
    Printed (ctx.put c) (out ++ [c]) := by
  have hbytes : ctx.sent.flatten ++ (ctx.buf ++ [c]) = out ++ [c] := by
    rw [← List.append_assoc, h.bytes]
  rw [PrntCtx.put]
  dsimp only
  split
  · rename_i hfull
    refine ⟨by simpa [PrntCtx.flush] using hbytes, by simp [PrntCtx.flush, ctxBufSize], ?_⟩
    intro data hdata
    rcases List.mem_append.mp hdata with hdata | hdata
    · exact h.full data hdata
    · exact List.mem_singleton.mp hdata ▸ hfull
  · rename_i hroom
    have hlength : (ctx.buf ++ [c]).length = ctx.buf.length + 1 := by simp
    have hless := h.room
    exact ⟨hbytes, by simp only [] at hroom ⊢; omega, h.full⟩

theorem Printed.char {out : Bytes} (h : Printed ctx out) (c : UInt8) :
    Printed (cb ctx (.char c)) (out ++ if c = newline then [carriageReturn, c] else [c]) := by
  rw [cb]
  split
  · simpa using (h.put carriageReturn).put c
  · exact h.put c

theorem Printed.chars {out : Bytes} (h : Printed ctx out) (text : Bytes) :
    Printed ((text.map .char).foldl cb ctx) (out ++ crlf text) := by
  induction text generalizing ctx out with
  | nil => rwa [crlf, List.flatMap_nil, List.append_nil]
  | cons c text ih =>
      rw [List.map_cons, List.foldl_cons, crlf, List.flatMap_cons, ← List.append_assoc]
      exact ih (h.char c)

theorem shprintf_eq (printed : Bytes) :
    ∃ ctx, Printed ctx (crlf printed) ∧ shprintf printed = ctx.sent ++ [ctx.buf] := by
  have hstart : Printed { buf := [], sent := [] } [] := ⟨rfl, by decide, by simp⟩
  exact ⟨_, hstart.chars printed, rfl⟩

theorem flatten_flatMap_chunks (calls : List Bytes) :
    (calls.flatMap (chunks asyncPayload)).flatten = calls.flatten := by
  induction calls with
  | nil => rfl
  | cons data calls ih =>
      rw [List.flatMap_cons, List.flatten_append, ih, flatten_chunks (by decide), List.flatten_cons]

/-- The packets carry what is printed, with its carriage returns. -/
theorem flatten_payloads (printed : Bytes) : (payloads printed).flatten = crlf printed := by
  obtain ⟨ctx, hctx, hsent⟩ := shprintf_eq printed
  rw [payloads, flatten_flatMap_chunks, hsent, List.flatten_concat]
  exact hctx.bytes

theorem crlf_append (text more : Bytes) : crlf (text ++ more) = crlf text ++ crlf more :=
  List.flatMap_append

theorem crlf_cons (hc : c ≠ newline) (text : Bytes) : crlf (c :: text) = c :: crlf text := by
  rw [crlf, List.flatMap_cons, if_neg hc]
  rfl

theorem crlf_ne_nil (h : text ≠ []) : crlf text ≠ [] := by
  obtain ⟨c, rest, rfl⟩ := List.exists_cons_of_ne_nil h
  rw [crlf, List.flatMap_cons]
  split
  · exact List.cons_ne_nil _ _
  · exact List.cons_ne_nil _ _

/-- A byte other than a carriage return is printed as often as it stands in the text. -/
theorem mem_crlf (hc : c ≠ carriageReturn) : c ∈ crlf text ↔ c ∈ text := by
  rw [crlf, List.mem_flatMap]
  constructor
  · rintro ⟨x, hx, hmem⟩
    split at hmem
    · rcases List.mem_cons.mp hmem with rfl | hmem
      · exact absurd rfl hc
      · exact List.mem_singleton.mp hmem ▸ hx
    · exact List.mem_singleton.mp hmem ▸ hx
  · intro hmem
    refine ⟨c, hmem, ?_⟩
    split
    · exact List.mem_cons_of_mem _ List.mem_cons_self
    · exact List.mem_cons_self

theorem payloads_of_le (hsome : printed ≠ []) (hle : (crlf printed).length ≤ ctxBufSize) :
    payloads printed = [crlf printed] := by
  obtain ⟨⟨buf, sent⟩, ⟨hbytes, hroom, hfull⟩, hsent⟩ := shprintf_eq printed
  have hne := crlf_ne_nil hsome
  have hchunk : chunks asyncPayload (crlf printed) = [crlf printed] :=
    chunks_of_le (by decide) hne (Nat.le_trans hle (by decide))
  rw [payloads, hsent]
  cases sent with
  | nil =>
      obtain rfl : buf = crlf printed := hbytes
      simp [hchunk]
  | cons data sent =>
      have hdata := hfull data List.mem_cons_self
      have hlength := congrArg List.length hbytes
      simp only [List.flatten_cons, List.length_append] at hlength
      obtain rfl : buf = [] := List.length_eq_zero_iff.mp (by omega)
      obtain rfl : sent = [] := by
        cases sent with
        | nil => rfl
        | cons data' sent =>
            have hdata' := hfull data' (List.mem_cons_of_mem _ List.mem_cons_self)
            simp only [List.flatten_cons, List.length_append, ctxBufSize] at hlength hdata hdata' hle
            omega
      obtain rfl : data = crlf printed := by simpa using hbytes
      simp [hchunk]

end PsplinkUsb.Psplink.ShellOutput
