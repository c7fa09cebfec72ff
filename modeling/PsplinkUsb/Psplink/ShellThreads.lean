import PsplinkUsb.Library.Interleaving
import PsplinkUsb.Psplink.ShellOutput
import PsplinkUsb.Pspsh.ReadSocket

namespace PsplinkUsb.Psplink.ShellThreads

open PsplinkUsb.Library.Chunks
open PsplinkUsb.Library.Frames
open PsplinkUsb.Library.Interleaving
open PsplinkUsb.Psplink.ShellOutput
open PsplinkUsb.Pspsh.ReadSocket hiding Bytes
open PsplinkUsb.UsbHostfs.BulkRequests (asyncPayload)

/-- What `SHELL_PRINT` gives `shprintf` to print. For `SHELL_PRINT_CMD` the byte of the command
is the first of the text. -/
def framed (text : Bytes) : Bytes := shellCmdBegin :: (text ++ [shellCmdEnd])

/-- The payloads of the packets of a message. -/
def packets (text : Bytes) : List Bytes := payloads (framed text)

/-- A text that says something, without a zero byte or a delimiter. -/
structure Clean (text : Bytes) : Prop where
  some : text ≠ []
  nul : 0 ∉ text
  plain : Plain shellCmdBegin shellCmdEnd text

variable {T : Type*} {text : Bytes}

/-- The bytes of the packets, in the order the packets are sent. -/
def stream (sched : List (T × Bytes)) : Bytes := (sched.map Prod.snd).flatten

/-- A packet with the thread that sends it, for each packet of the message of a thread. -/
def sends (p : T × Bytes) : List (T × Bytes) := (packets p.2).map fun payload => (p.1, payload)

/-- A piece of what is sent: a message all at once, or a packet of some other. -/
inductive Part (T : Type*) where
  | message (p : T × Bytes)
  | packet (p : T × Bytes)

def Part.sends : Part T → List (T × Bytes)
  | .message p => ShellThreads.sends p
  | .packet p => [p]

/-- The string a message should be to `process_cmd`. -/
def Part.string : Part T → Option Bytes
  | .message p => some (crlf p.2)
  | .packet _ => none

theorem crlf_framed (text : Bytes) :
    crlf (framed text) = shellCmdBegin :: (crlf text ++ [shellCmdEnd]) := by
  rw [framed, crlf_cons (by decide), crlf_append]
  rfl

theorem Clean.crlf (h : Clean text) : Clean (ShellOutput.crlf text) where
  some := crlf_ne_nil h.some
  nul := by
    rw [mem_crlf (by decide)]
    exact h.nul
  plain := by
    rw [Plain, mem_crlf (by decide), mem_crlf (by decide)]
    exact h.plain

theorem stream_append (s t : List (T × Bytes)) : stream (s ++ t) = stream s ++ stream t := by
  rw [stream, List.map_append, List.flatten_append, stream, stream]

theorem stream_sends (p : T × Bytes) :
    stream (sends p) = shellCmdBegin :: (crlf p.2 ++ [shellCmdEnd]) := by
  have hpayloads : (sends p).map Prod.snd = packets p.2 := by simp [sends, Function.comp_def]
  rw [stream, hpayloads, packets, flatten_payloads, crlf_framed]

/-- A message that is sent all at once is a frame, whatever is sent before and after. -/
theorem strings_sublist_frames (parts : List (Part T))
    (hclean : ∀ p, .message p ∈ parts → Clean p.2) :
    (parts.filterMap Part.string).Sublist
      (frames shellCmdBegin shellCmdEnd (stream (parts.flatMap Part.sends))) := by
  induction parts with
  | nil => exact List.nil_sublist _
  | cons part parts ih =>
      have hrest := ih fun p hp => hclean p (List.mem_cons_of_mem _ hp)
      rw [List.flatMap_cons, stream_append]
      cases part with
      | packet p => exact hrest.trans (frames_sublist_append _ _)
      | message p =>
          have hp := (hclean p List.mem_cons_self).crlf
          rw [Part.sends, stream_sends, List.cons_append, List.append_assoc, List.singleton_append,
            frames_frame begin_ne_end hp.plain hp.some]
          exact hrest.cons_cons _

theorem allFit_inside {s w : Bytes} (hs : AllFit s) (hw : Plain shellCmdBegin shellCmdEnd w)
    (hlength : w.length ≤ sizeofLinebuf) : AllFit (s ++ shellCmdBegin :: w) := by
  induction w using List.reverseRecOn with
  | nil =>
      refine allFit_concat.mpr ⟨hs, ?_, ?_⟩
      · exact fun _ _ _ hne => absurd rfl hne
      · exact fun _ _ _ heq => absurd heq begin_ne_end
  | append_singleton w c ih =>
      obtain ⟨hplain, hc⟩ := plain_append.mp hw
      rw [List.length_append, List.length_singleton] at hlength
      rw [← List.cons_append, ← List.append_assoc]
      have hopen : Open (s ++ shellCmdBegin :: w) 0 w := ⟨hplain, s, rfl⟩
      refine allFit_concat.mpr ⟨ih hplain (by omega), ?_, ?_⟩
      · intro n w' hopen' _ _
        obtain ⟨-, rfl⟩ := hopen.unique begin_ne_end hopen'
        omega
      · exact fun _ _ _ heq => absurd heq (plain_singleton.mp hc).2

theorem allFit_frame {s w : Bytes} (hs : AllFit s) (hw : Plain shellCmdBegin shellCmdEnd w)
    (hlength : w.length < sizeofLinebuf) :
    AllFit (s ++ shellCmdBegin :: (w ++ [shellCmdEnd])) := by
  have hopen : Open (s ++ shellCmdBegin :: w) 0 w := ⟨hw, s, rfl⟩
  rw [← List.cons_append, ← List.append_assoc]
  refine allFit_concat.mpr ⟨allFit_inside hs hw hlength.le, ?_, ?_⟩
  · intro n w' hopen' _ _
    obtain ⟨-, rfl⟩ := hopen.unique begin_ne_end hopen'
    exact hlength
  · exact fun n w' hopen' _ _ => (hopen.unique begin_ne_end hopen').1.symm

theorem messages_framed (order : List (T × Bytes)) (hclean : ∀ p ∈ order, Clean p.2)
    (hlength : ∀ p ∈ order, (crlf p.2).length < sizeofLinebuf) :
    frames shellCmdBegin shellCmdEnd (stream (order.flatMap sends)) =
        order.map (fun p => crlf p.2) ∧
      AllFit (stream (order.flatMap sends)) := by
  induction order using List.reverseRecOn with
  | nil =>
      refine ⟨rfl, ?_⟩
      intro p c q hsplit
      simp [stream] at hsplit
  | append_singleton order p ih =>
      obtain ⟨hframes, hfit⟩ := ih (fun p hp => hclean p (List.mem_append_left _ hp))
        fun p hp => hlength p (List.mem_append_left _ hp)
      have hp := (hclean p List.mem_concat_self).crlf
      rw [List.flatMap_append, stream_append, List.flatMap_singleton, stream_sends]
      refine ⟨?_, allFit_frame hfit hp.plain (hlength p List.mem_concat_self)⟩
      rw [frames_append_open begin_ne_end, hframes, frames_frame begin_ne_end hp.plain hp.some,
        List.map_append]
      rfl

variable [DecidableEq T] {texts : T → List Bytes} {sched : List (T × Bytes)} {reads : List Bytes}

/-- No packet comes between the packets of a message. -/
def Uncut (texts : T → List Bytes) (sched : List (T × Bytes)) : Prop :=
  ∃ order, Interleaves order texts ∧ sched = order.flatMap sends

/-- Each message of each thread is one of the strings processed, the messages of a thread in
their order, with nothing else in between; and `linebuf` is not overrun. -/
def Delivered (texts : T → List Bytes) (r : Reader) : Prop :=
  ∃ order, Interleaves order texts ∧ r.processed = order.map (fun p => crlf p.2) ∧
    ∀ i ∈ r.written, i < sizeofLinebuf

theorem zero_not_mem_stream (hclean : ∀ t, ∀ text ∈ texts t, Clean text)
    (hsched : Interleaves sched fun t => (texts t).flatMap packets) : 0 ∉ stream sched := by
  intro hzero
  obtain ⟨payload, hpayload, hmem⟩ := List.mem_flatten.mp hzero
  obtain ⟨⟨t, payload⟩, hsent, rfl⟩ := List.mem_map.mp hpayload
  obtain ⟨text, htext, hpacket⟩ := List.mem_flatMap.mp (hsched.mem_iff.mp hsent)
  have hflatten : 0 ∈ (packets text).flatten := List.mem_flatten.mpr ⟨payload, hpacket, hmem⟩
  rw [packets, flatten_payloads, crlf_framed] at hflatten
  rcases List.mem_cons.mp hflatten with hbegin | hrest
  · exact absurd hbegin (by decide)
  · rcases List.mem_append.mp hrest with htext' | hend
    · exact (hclean t text htext).crlf.nul htext'
    · exact absurd (List.mem_singleton.mp hend) (by decide)

theorem delivered_of_uncut (hclean : ∀ t, ∀ text ∈ texts t, Clean text)
    (hlength : ∀ t, ∀ text ∈ texts t, (crlf text).length < sizeofLinebuf)
    (hsched : Interleaves sched fun t => (texts t).flatMap packets)
    (hreads : reads.flatten = stream sched) (huncut : Uncut texts sched) :
    Delivered texts (readAll reads) := by
  have hnul := zero_not_mem_stream hclean hsched
  obtain ⟨order, horder, rfl⟩ := huncut
  obtain ⟨hframes, hfit⟩ := messages_framed order
    (fun p hp => hclean p.1 p.2 (horder.mem_iff.mp hp))
    fun p hp => hlength p.1 p.2 (horder.mem_iff.mp hp)
  rw [← hreads] at hnul hframes hfit
  obtain ⟨hprocessed, hwritten⟩ := (read_socket_framed_iff reads hnul).mpr hfit
  exact ⟨order, horder, hprocessed.trans hframes, hwritten⟩

theorem uncut_of_short (hlength : ∀ t, ∀ text ∈ texts t, (crlf text).length ≤ 126)
    (hsched : Interleaves sched fun t => (texts t).flatMap packets) : Uncut texts sched := by
  have hone : ∀ text, (crlf text).length ≤ 126 → packets text = [crlf (framed text)] := by
    intro text hle
    refine payloads_of_le (List.cons_ne_nil _ _) ?_
    rw [crlf_framed, List.length_cons, List.length_append, List.length_singleton, ctxBufSize]
    omega
  have hmap : (fun t => (texts t).flatMap packets) =
      fun t => (texts t).map fun text => crlf (framed text) := by
    funext t
    rw [← List.flatMap_pure_eq_map, List.flatMap_congr fun text htext => hone text (hlength t text htext)]
    rfl
  rw [hmap] at hsched
  obtain ⟨order, horder, rfl⟩ := hsched.of_map
  refine ⟨order, horder, ?_⟩
  rw [← List.flatMap_pure_eq_map]
  refine List.flatMap_congr fun p hp => ?_
  rw [sends, hone p.2 (hlength p.1 p.2 (horder.mem_iff.mp hp))]
  rfl

/-- Texts that say something, without zero bytes and delimiters, of any length and number, in
any interleaving of the packets and any split into reads: messages that are sent all at once
are processed as they are and in their order, as long as `linebuf` is not overrun; when no
message is cut, all are delivered; and none is cut when each fits one packet. -/
theorem shprintf_delivery (texts : T → List Bytes) (hclean : ∀ t, ∀ text ∈ texts t, Clean text)
    (sched : List (T × Bytes)) (hsched : Interleaves sched fun t => (texts t).flatMap packets)
    (reads : List Bytes) (hreads : reads.flatten = stream sched) :
    (∀ parts : List (Part T), sched = parts.flatMap Part.sends →
      (∀ p, .message p ∈ parts → p.2 ∈ texts p.1) →
      (∀ i ∈ (readAll reads).written, i < sizeofLinebuf) →
      (parts.filterMap Part.string).Sublist (readAll reads).processed) ∧
    ((∀ t, ∀ text ∈ texts t, (crlf text).length < sizeofLinebuf) → Uncut texts sched →
      Delivered texts (readAll reads)) ∧
    ((∀ t, ∀ text ∈ texts t, (crlf text).length ≤ 126) → Delivered texts (readAll reads)) := by
  have hnul := zero_not_mem_stream hclean hsched
  have huncut : (∀ t, ∀ text ∈ texts t, (crlf text).length < sizeofLinebuf) →
      Uncut texts sched → Delivered texts (readAll reads) :=
    fun hlength => delivered_of_uncut hclean hlength hsched hreads
  refine ⟨?_, huncut, ?_⟩
  · rintro parts rfl hparts -
    rw [readAll_eq_scan reads (hreads ▸ hnul), hreads]
    exact (strings_sublist_frames parts fun p hp => hclean p.1 p.2 (hparts p hp)).trans
      (frames_sublist hnul)
  · intro hshort
    refine huncut (fun t text htext => ?_) (uncut_of_short hshort hsched)
    have hle := hshort t text htext
    rw [sizeofLinebuf]
    omega

/-- A text that takes two packets. -/
def longText (t : Bool) : Bytes := List.replicate 130 (if t then 0x42 else 0x41)

def firstPacket (t : Bool) : Bytes := 0xFF :: List.replicate 127 (if t then 0x42 else 0x41)

def lastPacket (t : Bool) : Bytes :=
  [if t then 0x42 else 0x41, if t then 0x42 else 0x41, if t then 0x42 else 0x41, 0xFE]

theorem packets_longText (t : Bool) : packets (longText t) = [firstPacket t, lastPacket t] := by
  have hcalls : ∀ t, shprintf (framed (longText t)) = [firstPacket t, lastPacket t] := by
    decide +kernel
  have hfirst : chunks asyncPayload (firstPacket t) = [firstPacket t] :=
    chunks_of_le (by decide) (List.cons_ne_nil _ _) (by simp [firstPacket, asyncPayload])
  have hlast : chunks asyncPayload (lastPacket t) = [lastPacket t] :=
    chunks_of_le (by decide) (List.cons_ne_nil _ _) (by simp [lastPacket, asyncPayload])
  rw [packets, payloads, hcalls, List.flatMap_cons, List.flatMap_cons, List.flatMap_nil, hfirst,
    hlast]
  rfl

/-- Two threads, one with a text of two packets and then `C`, one with `B` and a newline. -/
def twoTexts (t : Bool) : List Bytes := if t then [[0x42, 0x0A]] else [longText false, [0x43]]

def oneByOne : List (Bool × Bytes) :=
  [(false, firstPacket false), (false, lastPacket false), (true, [0xFF, 0x42, 0x0D, 0x0A, 0xFE]),
    (false, [0xFF, 0x43, 0xFE])]

/-- The line of the second thread comes between the packets of the long text. -/
def cutIn : List (Bool × Bytes) :=
  [(false, firstPacket false), (true, [0xFF, 0x42, 0x0D, 0x0A, 0xFE]), (false, lastPacket false),
    (false, [0xFF, 0x43, 0xFE])]

theorem clean_twoTexts (t : Bool) : ∀ text ∈ twoTexts t, Clean text := by
  intro text htext
  cases t with
  | true =>
      obtain rfl := List.mem_singleton.mp htext
      exact ⟨by decide, by decide, by decide, by decide⟩
  | false =>
      rcases List.mem_cons.mp htext with rfl | htext
      · exact ⟨by decide, by decide +kernel, by decide +kernel, by decide +kernel⟩
      · obtain rfl := List.mem_singleton.mp htext
        exact ⟨by decide, by decide, by decide, by decide⟩

theorem packets_twoTexts (t : Bool) : (twoTexts t).flatMap packets =
    if t then [[0xFF, 0x42, 0x0D, 0x0A, 0xFE]]
    else [firstPacket false, lastPacket false, [0xFF, 0x43, 0xFE]] := by
  have hline : packets [0x42, 0x0A] = [[0xFF, 0x42, 0x0D, 0x0A, 0xFE]] :=
    payloads_of_le (by decide) (by decide)
  have hletter : packets [0x43] = [[0xFF, 0x43, 0xFE]] := payloads_of_le (by decide) (by decide)
  cases t with
  | true => simp [twoTexts, hline]
  | false => simp [twoTexts, hletter, packets_longText]

/-- When the messages are not cut all are delivered, however what is sent is read; when the long
one is, the others are. -/
theorem shprintf_delivery_two :
    Delivered twoTexts (readAll [(stream oneByOne).take 100, (stream oneByOne).drop 100]) ∧
      [[0x42, 0x0D, 0x0A], [0x43]].Sublist (readAll (cutIn.map Prod.snd)).processed := by
  constructor
  · have hsched : Interleaves oneByOne fun t => (twoTexts t).flatMap packets := by
      intro t
      refine Eq.trans ?_ (packets_twoTexts t).symm
      cases t with
      | true => rfl
      | false => rfl
    refine (shprintf_delivery twoTexts clean_twoTexts oneByOne hsched _ (by simp)).2.1 ?_ ?_
    · intro t text htext
      revert text
      cases t with
      | true => decide
      | false => decide +kernel
    · refine ⟨[(false, longText false), (true, [0x42, 0x0A]), (false, [0x43])], ?_, ?_⟩
      · intro t
        cases t with
        | true => rfl
        | false => rfl
      · have hline := packets_twoTexts true
        have hletter : packets [0x43] = [[0xFF, 0x43, 0xFE]] :=
          payloads_of_le (by decide) (by decide)
        simp only [twoTexts, if_true, List.flatMap_singleton] at hline
        simp [sends, hline, hletter, packets_longText, oneByOne]
  · have hsched : Interleaves cutIn fun t => (twoTexts t).flatMap packets := by
      intro t
      refine Eq.trans ?_ (packets_twoTexts t).symm
      cases t with
      | true => rfl
      | false => rfl
    have hline := packets_twoTexts true
    have hletter : packets [0x43] = [[0xFF, 0x43, 0xFE]] :=
      payloads_of_le (by decide) (by decide)
    simp only [twoTexts, if_true, List.flatMap_singleton] at hline
    refine (shprintf_delivery twoTexts clean_twoTexts cutIn hsched _ rfl).1
      [.packet (false, firstPacket false), .message (true, [0x42, 0x0A]),
        .packet (false, lastPacket false), .message (false, [0x43])] ?_ ?_ (by decide +kernel)
    · simp [Part.sends, sends, hline, hletter, cutIn]
    · intro p hp
      simp only [List.mem_cons, reduceCtorEq, Part.message.injEq, List.not_mem_nil, false_or,
        or_false] at hp
      rcases hp with rfl | rfl
      · exact List.mem_cons_self
      · exact List.mem_cons_of_mem _ List.mem_cons_self

theorem Delivered.mem {r : Reader} (h : Delivered texts r) {t : T} (htext : text ∈ texts t) :
    crlf text ∈ r.processed := by
  obtain ⟨order, horder, hstrings, -⟩ := h
  rw [hstrings]
  exact List.mem_map_of_mem (f := fun p => crlf p.2) (horder.mem_iff.mpr htext)

/-- Two threads with a message of two packets each, sent in turns: the second message begins
inside the first and takes its rest for its own. And messages that are not delivered although
nothing else is sent: an empty one, and with a delimiter or a zero byte in the text. -/
theorem messages_mixed :
    (let text : Bool → Bytes := fun t => List.replicate 130 (if t then 0x42 else 0x41)
    let sched := [(false, 0xFF :: List.replicate 127 0x41), (true, 0xFF :: List.replicate 127 0x42),
      (false, [0x41, 0x41, 0x41, 0xFE]), (true, [0x42, 0x42, 0x42, 0xFE])]
    Interleaves sched (fun t => [text t].flatMap packets) ∧
      ¬Delivered (fun t => [text t]) (readAll (sched.map Prod.snd))) ∧
    ∀ text ∈ [[], [0x41, 0xFE], [0x41, 0xFF], [0x41, 0]],
      Interleaves [((), crlf (framed text))] (fun _ => [text].flatMap packets) ∧
      ¬Delivered (fun _ : Unit => [text]) (readAll [crlf (framed text)]) := by
  constructor
  · intro text sched
    have hpackets : ∀ t, packets (text t) = [firstPacket t, lastPacket t] := packets_longText
    have hlost : crlf (text false) ∉ (readAll (sched.map Prod.snd)).processed := by
      decide +kernel
    refine ⟨fun t => ?_, fun h => hlost (h.mem (t := false) List.mem_cons_self)⟩
    have hruns : [text t].flatMap packets = packets (text t) := List.flatMap_singleton ..
    show track t sched = [text t].flatMap packets
    rw [hruns, hpackets]
    cases t <;> rfl
  · intro text htext
    have hshort : ∀ text ∈ [[], [0x41, 0xFE], [0x41, 0xFF], [0x41, 0]],
        (crlf (framed text)).length ≤ ctxBufSize ∧
          crlf text ∉ (readAll [crlf (framed text)]).processed := by
      decide
    obtain ⟨hlength, hlost⟩ := hshort text htext
    refine ⟨fun t => ?_, fun h => hlost (h.mem (t := ()) List.mem_cons_self)⟩
    have hruns : [text].flatMap packets = packets text := List.flatMap_singleton ..
    show track t [((), crlf (framed text))] = [text].flatMap packets
    have hpackets : packets text = [crlf (framed text)] :=
      payloads_of_le (List.cons_ne_nil _ _) hlength
    rw [hruns, hpackets]
    rfl

end PsplinkUsb.Psplink.ShellThreads
