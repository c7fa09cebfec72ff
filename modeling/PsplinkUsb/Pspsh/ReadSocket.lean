import PsplinkUsb.Library.CString
import PsplinkUsb.Library.Frames

namespace PsplinkUsb.Pspsh.ReadSocket

open PsplinkUsb.Library.CString
open PsplinkUsb.Library.Frames

abbrev Bytes := List UInt8

def shellCmdBegin : UInt8 := 0xFF
def shellCmdEnd : UInt8 := 0xFE

/-- `sizeof(linebuf)`. -/
def sizeofLinebuf : ℕ := 16 * 1024

/-- The static variables of `read_socket`, with the strings handed to `process_cmd` and the
places of `linebuf` written so far. The buffer is the memory behind it as well. -/
structure Reader where
  linebuf : Buffer
  pos : ℕ
  processed : List Bytes
  written : List ℕ

namespace Reader

def start : Reader := { linebuf := fun _ => 0, pos := 0, processed := [], written := [] }

def write (r : Reader) (index : ℕ) (value : UInt8) : Reader :=
  { r with linebuf := Function.update r.linebuf index value, written := r.written ++ [index] }

/-- The string in the first `pos` bytes of `linebuf`. -/
def line (r : Reader) : Bytes := cstr ((List.range r.pos).map r.linebuf)

/-- One round of the loop over the bytes read. -/
def byte (r : Reader) (curr : UInt8) : Reader :=
  if curr = shellCmdBegin then { r with pos := 1 }
  else if curr = shellCmdEnd then
    if 1 < r.pos then
      let r := r.write (r.pos - 1) 0
      { r with pos := 0, processed := r.processed ++ [r.line] }
    else r
  else if 0 < r.pos then { r.write (r.pos - 1) curr with pos := r.pos + 1 }
  else r

end Reader

/-- `read_socket`, by what `read` gives: `none` is an error, no bytes the end of the file. The
loop stops at a zero byte. -/
def readSocket (read : Option Bytes) (r : Reader) : ℤ × Reader :=
  match read with
  | none => (-1, r)
  | some [] => (-1, r)
  | some data => (data.length, (cstr data).foldl Reader.byte r)

/-- One call after the other. -/
def readAll (reads : List Bytes) : Reader :=
  reads.foldl (fun r data => (readSocket (some data) r).2) .start

variable {p q stream w : Bytes} {c : UInt8} {n : ℕ} {r : Reader}

/-- The bytes read end with an opening byte, `n` closing ones and `w`. -/
abbrev Open (p : Bytes) (n : ℕ) (w : Bytes) : Prop := Opened shellCmdBegin shellCmdEnd p n w

theorem begin_ne_end : shellCmdBegin ≠ shellCmdEnd := by decide

/-- `pos` and `linebuf` after the bytes `p`. -/
structure Scanned (p : Bytes) (r : Reader) : Prop where
  opened : ∀ n w, Open p n w → r.pos = w.length + 1 ∧ Holds r.linebuf 0 w
  idle : (∀ n w, ¬Open p n w) → r.pos = 0

theorem start_scanned : Scanned [] .start :=
  ⟨fun _ _ h => absurd h opened_nil, fun _ => rfl⟩

theorem Scanned.open_or_idle (h : Scanned p r) :
    (∃ n w, Open p n w ∧ r.pos = w.length + 1 ∧ Holds r.linebuf 0 w) ∨
      (∀ n w, ¬Open p n w) ∧ r.pos = 0 := by
  rcases Classical.em (∃ n w, Open p n w) with ⟨n, w, hopen⟩ | hidle
  · exact .inl ⟨n, w, hopen, h.opened n w hopen⟩
  · have hidle : ∀ n w, ¬Open p n w := fun n w hopen => hidle ⟨n, w, hopen⟩
    exact .inr ⟨hidle, h.idle hidle⟩

section

variable (r)

theorem byte_begin : r.byte shellCmdBegin = { r with pos := 1 } := if_pos rfl

theorem byte_end : r.byte shellCmdEnd =
    if 1 < r.pos then
      let r := r.write (r.pos - 1) 0
      { r with pos := 0, processed := r.processed ++ [r.line] }
    else r :=
  (if_neg begin_ne_end.symm).trans (if_pos rfl)

theorem byte_plain (hb : c ≠ shellCmdBegin) (he : c ≠ shellCmdEnd) : r.byte c =
    if 0 < r.pos then { r.write (r.pos - 1) c with pos := r.pos + 1 } else r :=
  (if_neg hb).trans (if_neg he)

end

theorem Scanned.byte (h : Scanned p r) (c : UInt8) : Scanned (p ++ [c]) (r.byte c) := by
  rcases eq_or_ne c shellCmdBegin with rfl | hb
  · rw [byte_begin]
    constructor
    · intro n w hopen
      obtain ⟨-, rfl⟩ := (opened_open begin_ne_end).mp hopen
      exact ⟨rfl, holds_nil⟩
    · exact fun hidle => absurd ((opened_open begin_ne_end).mpr ⟨rfl, rfl⟩) (hidle 0 [])
  · rcases eq_or_ne c shellCmdEnd with rfl | he
    · rw [byte_end]
      constructor
      · intro n w hopen
        obtain ⟨rfl, m, rfl, hm⟩ := (opened_close begin_ne_end).mp hopen
        have hpos : r.pos = 1 := (h.opened m [] hm).1
        rw [if_neg (by omega)]
        exact ⟨hpos, holds_nil⟩
      · intro hidle
        split
        · rfl
        · rename_i hpos
          rcases h.open_or_idle with ⟨n, w, hopen, hw, -⟩ | ⟨-, hzero⟩
          · obtain rfl : w = [] := List.length_eq_zero_iff.mp (by omega)
            exact absurd ((opened_close begin_ne_end).mpr ⟨rfl, n, rfl, hopen⟩) (hidle _ _)
          · exact hzero
    · rw [byte_plain r hb he]
      constructor
      · intro n w hopen
        obtain ⟨w, rfl, hw⟩ := (opened_concat hb he).mp hopen
        obtain ⟨hpos, hholds⟩ := h.opened n w hw
        have hstored := hholds.store c
        rw [if_pos (by omega)]
        simp only [Reader.write, hpos, Nat.add_sub_cancel, List.length_append,
          List.length_singleton, true_and]
        rwa [Nat.zero_add] at hstored
      · intro hidle
        rcases h.open_or_idle with ⟨n, w, hopen, -⟩ | ⟨-, hzero⟩
        · exact absurd ((opened_concat hb he).mpr ⟨w, rfl, hopen⟩) (hidle _ _)
        · rw [if_neg (by omega)]
          exact hzero

/-- The state after the bytes `p`. -/
def scan (p : Bytes) : Reader := p.foldl Reader.byte .start

theorem scan_concat (p : Bytes) (c : UInt8) : scan (p ++ [c]) = (scan p).byte c := by
  rw [scan, List.foldl_append]
  rfl

theorem scan_scanned (p : Bytes) : Scanned p (scan p) := by
  induction p using List.reverseRecOn with
  | nil => exact start_scanned
  | append_singleton p c ih =>
      rw [scan_concat]
      exact ih.byte c

theorem line_of_holds (hholds : Holds r.linebuf 0 w) (hpos : r.pos = w.length + 1)
    (hnul : 0 ∉ w) : (r.write w.length 0).line = w := by
  have hstored := hholds.store 0
  rw [Nat.zero_add] at hstored
  have hmap : (List.range (w.length + 1)).map (r.write w.length 0).linebuf = w ++ [0] := by
    apply List.ext_getElem
    · simp
    · intro i hi hi'
      rw [List.getElem_map, List.getElem_range]
      have := hstored i hi'
      rwa [Nat.zero_add] at this
  have hline : (r.write w.length 0).pos = w.length + 1 := hpos
  rw [Reader.line, hline, hmap, cstr, List.takeWhile_append_of_pos]
  · simp
  · intro x hx
    rw [decide_eq_true_eq]
    rintro rfl
    exact hnul hx

theorem byte_close (h : Scanned p r) (hopen : Open p n w) (hsome : w ≠ []) (hnul : 0 ∉ w) :
    (r.byte shellCmdEnd).processed = r.processed ++ [w] ∧
      (r.byte shellCmdEnd).written = r.written ++ [w.length] := by
  obtain ⟨hpos, hholds⟩ := h.opened n w hopen
  have hlength := List.length_pos_of_ne_nil hsome
  have hline := line_of_holds hholds hpos hnul
  have hindex : r.pos - 1 = w.length := by omega
  rw [byte_end, if_pos (by omega), hindex]
  dsimp only
  rw [hline]
  exact ⟨rfl, rfl⟩

theorem byte_stray (h : Scanned p r) (hempty : ∀ n w, Open p n w → w = []) :
    r.byte shellCmdEnd = r := by
  rw [byte_end, if_neg]
  rcases h.open_or_idle with ⟨n, w, hopen, hpos, -⟩ | ⟨-, hpos⟩
  · rw [hempty n w hopen, List.length_nil] at hpos
    omega
  · omega

theorem byte_inside (h : Scanned p r) (hopen : Open p n w) (hb : c ≠ shellCmdBegin)
    (he : c ≠ shellCmdEnd) :
    (r.byte c).processed = r.processed ∧ (r.byte c).written = r.written ++ [w.length] := by
  have hpos := (h.opened n w hopen).1
  have hindex : r.pos - 1 = w.length := by omega
  rw [byte_plain r hb he, if_pos (by omega), hindex]
  exact ⟨rfl, rfl⟩

theorem byte_outside (h : Scanned p r) (hidle : ∀ n w, ¬Open p n w) (hb : c ≠ shellCmdBegin)
    (he : c ≠ shellCmdEnd) : r.byte c = r := by
  have hpos := h.idle hidle
  rw [byte_plain r hb he, if_neg (by omega)]

theorem processed_concat (hnul : 0 ∉ p) (c : UInt8) :
    (∃ n w, Open p n w ∧ w ≠ [] ∧ c = shellCmdEnd ∧
        (scan (p ++ [c])).processed = (scan p).processed ++ [w]) ∨
      (scan (p ++ [c])).processed = (scan p).processed := by
  have hscan := scan_scanned p
  rw [scan_concat]
  rcases eq_or_ne c shellCmdBegin with rfl | hb
  · rw [byte_begin]
    exact .inr rfl
  rcases eq_or_ne c shellCmdEnd with rfl | he
  · rcases Classical.em (∃ n w, Open p n w ∧ w ≠ []) with ⟨n, w, hopen, hsome⟩ | hstray
    · obtain ⟨before, hsplit⟩ := hopen.split
      have hmem : 0 ∉ w := fun hmem => hnul (hsplit ▸ by simp [hmem])
      exact .inl ⟨n, w, hopen, hsome, rfl, (byte_close hscan hopen hsome hmem).1⟩
    · have hempty : ∀ n w, Open p n w → w = [] := by
        intro n w hopen
        by_contra hsome
        exact hstray ⟨n, w, hopen, hsome⟩
      exact .inr (congrArg Reader.processed (byte_stray hscan hempty))
  · rcases hscan.open_or_idle with ⟨n, w, hopen, -⟩ | ⟨hidle, -⟩
    · exact .inr (byte_inside hscan hopen hb he).1
    · exact .inr (congrArg Reader.processed (byte_outside hscan hidle hb he))

/-- What is processed has no delimiter in it. -/
theorem processed_plain (hnul : 0 ∉ p) :
    ∀ line ∈ (scan p).processed, Plain shellCmdBegin shellCmdEnd line := by
  induction p using List.reverseRecOn with
  | nil => exact fun line hline => absurd hline List.not_mem_nil
  | append_singleton p c ih =>
      have hp : 0 ∉ p := fun hmem => hnul (List.mem_append_left _ hmem)
      rcases processed_concat hp c with ⟨n, w, hopen, -, -, hprocessed⟩ | hprocessed
      · rw [hprocessed, List.forall_mem_append]
        exact ⟨ih hp, fun line hline => List.mem_singleton.mp hline ▸ hopen.plain⟩
      · rw [hprocessed]
        exact ih hp

theorem processed_of_not_closed (hnul : 0 ∉ p) (hend : shellCmdEnd ∉ p) :
    (scan p).processed = [] := by
  induction p using List.reverseRecOn with
  | nil => rfl
  | append_singleton p c ih =>
      simp only [List.mem_append, List.mem_singleton, not_or] at hnul hend
      rcases processed_concat hnul.1 c with ⟨n, w, -, -, hc, -⟩ | hprocessed
      · exact absurd hc.symm hend.2
      · rw [hprocessed, ih hnul.1 hend.1]

/-- One frame alone. -/
theorem scan_frame (hplain : Plain shellCmdBegin shellCmdEnd w) (hsome : w ≠ []) (hnul : 0 ∉ w) :
    (scan (shellCmdBegin :: w ++ [shellCmdEnd])).processed = [w] := by
  have hopen : Open (shellCmdBegin :: w) 0 w := ⟨hplain, [], rfl⟩
  have hnul' : 0 ∉ shellCmdBegin :: w := List.not_mem_cons_of_ne_of_not_mem (by decide) hnul
  have hend : shellCmdEnd ∉ shellCmdBegin :: w :=
    List.not_mem_cons_of_ne_of_not_mem begin_ne_end.symm hplain.2
  have hclose := (byte_close (scan_scanned (shellCmdBegin :: w)) hopen hsome hnul).1
  rw [processed_of_not_closed hnul' hend] at hclose
  rw [scan_concat]
  exact hclose

/-- The strings processed are those of the frames, and nothing is written past `linebuf`. -/
def Framed (stream : Bytes) (r : Reader) : Prop :=
  r.processed = frames shellCmdBegin shellCmdEnd stream ∧ ∀ i ∈ r.written, i < sizeofLinebuf

/-- The byte `c` behind `p` finds room in the buffer, and does not close what stands behind a
frame that was closed empty. -/
structure Fits (p : Bytes) (c : UInt8) : Prop where
  room : ∀ n w, Open p n w → c ≠ shellCmdBegin → (c = shellCmdEnd → w ≠ []) →
    w.length < sizeofLinebuf
  fresh : ∀ n w, Open p n w → c = shellCmdEnd → w ≠ [] → n = 0

def AllFit (stream : Bytes) : Prop := ∀ p c q, stream = p ++ c :: q → Fits p c

theorem allFit_concat : AllFit (p ++ [c]) ↔ AllFit p ∧ Fits p c := by
  constructor
  · intro h
    refine ⟨?_, h p c [] rfl⟩
    rintro p' c' q rfl
    exact h p' c' (q ++ [c]) (by rw [List.append_assoc, List.cons_append])
  · rintro ⟨hp, hc⟩ p' c' q hsplit
    rcases List.eq_nil_or_concat' q with rfl | ⟨q, x, rfl⟩
    · obtain ⟨rfl, hlast⟩ := List.append_inj' hsplit rfl
      exact List.singleton_inj.mp hlast ▸ hc
    · rw [← List.cons_append, ← List.append_assoc] at hsplit
      exact hp p' c' q (List.append_inj_left' hsplit rfl)

theorem scan_step (hnul : 0 ∉ p) (c : UInt8) :
    ∃ strings framed places,
      (scan (p ++ [c])).processed = (scan p).processed ++ strings ∧
      frames shellCmdBegin shellCmdEnd (p ++ [c]) =
        frames shellCmdBegin shellCmdEnd p ++ framed ∧
      (scan (p ++ [c])).written = (scan p).written ++ places ∧ framed.Sublist strings ∧
      (Fits p c ↔ strings = framed ∧ ∀ i ∈ places, i < sizeofLinebuf) := by
  have hscan := scan_scanned p
  rw [scan_concat]
  rcases eq_or_ne c shellCmdEnd with rfl | he
  · rcases Classical.em (∃ n w, Open p n w ∧ w ≠ []) with ⟨n, w, hopen, hsome⟩ | hstray
    · obtain ⟨before, hsplit⟩ := hopen.split
      have hmem : 0 ∉ w := fun hmem => hnul (hsplit ▸ by simp [hmem])
      obtain ⟨hprocessed, hwritten⟩ := byte_close hscan hopen hsome hmem
      have hfits : Fits p shellCmdEnd ↔ n = 0 ∧ w.length < sizeofLinebuf := by
        constructor
        · intro h
          exact ⟨h.fresh n w hopen rfl hsome, h.room n w hopen begin_ne_end.symm fun _ => hsome⟩
        · rintro ⟨rfl, hlength⟩
          refine ⟨fun n' w' hopen' _ _ => ?_, fun n' w' hopen' _ _ => ?_⟩
          · obtain ⟨-, rfl⟩ := hopen.unique begin_ne_end hopen'
            exact hlength
          · exact (hopen.unique begin_ne_end hopen').1.symm
      cases n with
      | zero =>
          refine ⟨[w], [w], [w.length], hprocessed, ?_, hwritten, .refl _, ?_⟩
          · exact frames_concat_close begin_ne_end hopen hsome
          · rw [hfits]
            simp
      | succ n =>
          refine ⟨[w], [], [w.length], hprocessed, ?_, hwritten, List.nil_sublist _, ?_⟩
          · rw [List.append_nil]
            apply frames_concat_stray begin_ne_end
            intro w' hopen'
            exact absurd (hopen.unique begin_ne_end hopen').1 (Nat.succ_ne_zero n)
          · rw [hfits]
            simp
    · have hempty : ∀ n w, Open p n w → w = [] := by
        intro n w hopen
        by_contra hsome
        exact hstray ⟨n, w, hopen, hsome⟩
      rw [byte_stray hscan hempty]
      refine ⟨[], [], [], by simp, ?_, by simp, .refl _, ?_⟩
      · rw [List.append_nil]
        exact frames_concat_stray begin_ne_end fun w hopen => hempty 0 w hopen
      · refine iff_of_true ⟨?_, ?_⟩ (by simp)
        · exact fun n w hopen _ hsome => absurd (hempty n w hopen) (hsome rfl)
        · exact fun n w hopen _ hsome => absurd (hempty n w hopen) hsome
  · have hframes : frames shellCmdBegin shellCmdEnd (p ++ [c]) =
        frames shellCmdBegin shellCmdEnd p ++ [] := by
      rw [List.append_nil]
      exact frames_concat begin_ne_end he
    rcases eq_or_ne c shellCmdBegin with rfl | hb
    · rw [byte_begin]
      refine ⟨[], [], [], by simp, hframes, by simp, .refl _, iff_of_true ⟨?_, ?_⟩ (by simp)⟩
      · exact fun n w hopen hne => absurd rfl hne
      · exact fun n w hopen heq => absurd heq he
    · rcases hscan.open_or_idle with ⟨n, w, hopen, -⟩ | ⟨hidle, -⟩
      · obtain ⟨hprocessed, hwritten⟩ := byte_inside hscan hopen hb he
        refine ⟨[], [], [w.length], by rw [hprocessed, List.append_nil], hframes, hwritten,
          .refl _, ?_⟩
        constructor
        · intro h
          simpa using h.room n w hopen hb fun heq => absurd heq he
        · rintro ⟨-, hplaces⟩
          refine ⟨fun n' w' hopen' _ _ => ?_, fun _ _ _ heq => absurd heq he⟩
          obtain ⟨-, rfl⟩ := hopen.unique begin_ne_end hopen'
          simpa using hplaces
      · rw [byte_outside hscan hidle hb he]
        refine ⟨[], [], [], by simp, hframes, by simp, .refl _, iff_of_true ⟨?_, ?_⟩ (by simp)⟩
        · exact fun n w hopen => absurd hopen (hidle n w)
        · exact fun n w hopen => absurd hopen (hidle n w)

theorem frames_sublist (hnul : 0 ∉ p) :
    (frames shellCmdBegin shellCmdEnd p).Sublist (scan p).processed := by
  induction p using List.reverseRecOn with
  | nil => exact List.nil_sublist _
  | append_singleton p c ih =>
      have hp : 0 ∉ p := fun hmem => hnul (List.mem_append_left _ hmem)
      obtain ⟨strings, framed, places, hprocessed, hframes, -, hsub, -⟩ := scan_step hp c
      rw [hprocessed, hframes]
      exact (ih hp).append hsub

theorem framed_concat (hnul : 0 ∉ p) (c : UInt8) :
    Framed (p ++ [c]) (scan (p ++ [c])) ↔ Framed p (scan p) ∧ Fits p c := by
  obtain ⟨strings, framed, places, hprocessed, hframes, hwritten, hsub, hfits⟩ := scan_step hnul c
  have hall := (frames_sublist hnul).length_le
  have hadded := hsub.length_le
  rw [Framed, Framed, hprocessed, hframes, hwritten, hfits, List.forall_mem_append]
  constructor
  · rintro ⟨hstrings, hplaces, hmore⟩
    have hlengths := congrArg List.length hstrings
    rw [List.length_append, List.length_append] at hlengths
    obtain ⟨hbefore, hnew⟩ := List.append_inj hstrings (by omega)
    exact ⟨⟨hbefore, hplaces⟩, hnew, hmore⟩
  · rintro ⟨⟨hbefore, hplaces⟩, hnew, hmore⟩
    exact ⟨by rw [hbefore, hnew], hplaces, hmore⟩

theorem framed_iff (hnul : 0 ∉ p) : Framed p (scan p) ↔ AllFit p := by
  induction p using List.reverseRecOn with
  | nil =>
      refine iff_of_true ⟨rfl, fun _ h => absurd h List.not_mem_nil⟩ ?_
      intro p c q h
      simp at h
  | append_singleton p c ih =>
      have hp : 0 ∉ p := fun hmem => hnul (List.mem_append_left _ hmem)
      rw [framed_concat hp, allFit_concat, ih hp]

/-- The bytes count, not the calls they come in. -/
theorem readAll_eq_scan (reads : List Bytes) (hnul : 0 ∉ reads.flatten) :
    readAll reads = scan reads.flatten := by
  have hfold : ∀ r : Reader, reads.foldl (fun r data => (readSocket (some data) r).2) r =
      reads.flatten.foldl Reader.byte r := by
    induction reads with
    | nil => exact fun _ => rfl
    | cons data reads ih =>
        intro r
        rw [List.flatten_cons, List.mem_append, not_or] at hnul
        rw [List.foldl_cons, List.flatten_cons, List.foldl_append, ih hnul.2]
        cases data with
        | nil => rfl
        | cons b data =>
            have hread : (readSocket (some (b :: data)) r).2 =
                (cstr (b :: data)).foldl Reader.byte r := rfl
            rw [hread, cstr_of_not_mem hnul.1]
  exact hfold .start

/-- However the output is split into reads, the strings processed are those of its frames and
the writes stay within `linebuf` exactly when every byte fits. -/
theorem read_socket_framed_iff (reads : List Bytes) (hnul : 0 ∉ reads.flatten) :
    Framed reads.flatten (readAll reads) ↔ AllFit reads.flatten := by
  rw [readAll_eq_scan reads hnul]
  exact framed_iff hnul

/-- The text `A` in one frame, in two reads. -/
theorem read_socket_framed_iff_text :
    Framed [[0xFF, 0x41], [0xFE]].flatten (readAll [[0xFF, 0x41], [0xFE]]) ↔
      AllFit [[0xFF, 0x41], [0xFE]].flatten :=
  read_socket_framed_iff [[0xFF, 0x41], [0xFE]] (by decide)

/-- After an empty frame the bytes behind it are taken for a frame. -/
theorem empty_frame_left_open :
    ¬Framed [[0xFF, 0xFE, 0x41, 0xFE]].flatten (readAll [[0xFF, 0xFE, 0x41, 0xFE]]) := by
  rintro ⟨hprocessed, -⟩
  revert hprocessed
  decide

end PsplinkUsb.Pspsh.ReadSocket
