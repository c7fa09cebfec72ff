import PsplinkUsb.UsbGdb.Packets

namespace PsplinkUsb.UsbGdb.PacketLaws

open PsplinkUsb.Library.CString
open PsplinkUsb.UsbGdb.Packets

/-- A start character with what is read after it: the payload, and the two digits behind
its `#` unless the payload fills the buffer. -/
structure Attempt where
  start : UInt8
  payload : Bytes
  digits : Option (UInt8 × UInt8)

def Attempt.bytes (a : Attempt) : Bytes :=
  a.start :: a.payload ++
    match a.digits with
    | none => []
    | some (d₁, d₂) => [sharp, d₁, d₂]

structure Attempt.Valid (a : Attempt) : Prop where
  start_eq : a.start &&& 0x7F = dollar
  no_hash : sharp ∉ a.payload
  length : if a.digits.isSome then a.payload.length < maxBuf else a.payload.length = maxBuf

/-- The two checksums of the code agree. -/
def Attempt.Closes (a : Attempt) : Prop :=
  checksumOf a.payload =
    match a.digits with
    | none => 0xFF
    | some (d₁, d₂) => xmitcsum d₁ d₂

def Quiet (noise : Bytes) : Prop := ∀ ch ∈ noise, ch &&& 0x7F ≠ dollar

/-- Reading a line from its beginning comes to these attempts, and leaves the rest. -/
inductive Scans : Bytes → List Attempt → Bytes → Prop
  | nil (input : Bytes) : Scans input [] input
  | cons {noise rest rest' : Bytes} {a : Attempt} {as : List Attempt} (hnoise : Quiet noise)
      (hvalid : a.Valid) (h : Scans rest as rest') :
      Scans (noise ++ (a.bytes ++ rest)) (a :: as) rest'

/-- The next attempt on a line that has one. -/
def nextAttempt (input : Bytes) : Option (Attempt × Bytes) :=
  match input.dropWhile fun ch => ch &&& 0x7F ≠ dollar with
  | [] => none
  | start :: line =>
      let payload := (line.take maxBuf).takeWhile fun ch => ch ≠ sharp
      if payload.length = maxBuf then some (⟨start, payload, none⟩, line.drop maxBuf)
      else
        match line.drop payload.length with
        | _ :: d₁ :: d₂ :: rest => some (⟨start, payload, some (d₁, d₂)⟩, rest)
        | _ => none

theorem dropWhile_noise {noise : Bytes} (hnoise : Quiet noise) {start : UInt8}
    (hstart : start &&& 0x7F = dollar) (line : Bytes) :
    (noise ++ start :: line).dropWhile (fun ch => ch &&& 0x7F ≠ dollar) = start :: line := by
  rw [List.dropWhile_append_of_pos (by simpa [Quiet] using hnoise)]
  simp [hstart]

theorem skipToStart_eq (input : Bytes) :
    skipToStart input = (input.dropWhile fun ch => ch &&& 0x7F ≠ dollar).tail? := by
  induction input with
  | nil => rfl
  | cons ch input ih =>
      rw [skipToStart]
      split
      · rename_i hch
        simp [hch]
      · rename_i hch
        simp [hch, ih]

theorem takeWhile_payload {payload : Bytes} (hpayload : sharp ∉ payload) (rest : Bytes) :
    (payload ++ sharp :: rest).takeWhile (fun ch => ch ≠ sharp) = payload := by
  have hall : ∀ ch ∈ payload, decide (ch ≠ sharp) = true := by
    intro ch hch
    rw [decide_eq_true_eq]
    rintro rfl
    exact hpayload hch
  rw [List.takeWhile_append_of_pos hall]
  simp

theorem nextAttempt_eq {noise : Bytes} (hnoise : Quiet noise) {a : Attempt} (hvalid : a.Valid)
    (rest : Bytes) : nextAttempt (noise ++ (a.bytes ++ rest)) = some (a, rest) := by
  obtain ⟨start, payload, digits⟩ := a
  obtain ⟨hstart, hpayload, hlength⟩ := hvalid
  cases digits with
  | none =>
      have hfull : payload.length = maxBuf := by simpa using hlength
      have htake : (payload ++ rest).take maxBuf = payload := List.take_left' hfull
      have hwhile : payload.takeWhile (fun ch => ch ≠ sharp) = payload := by
        rw [List.takeWhile_eq_self_iff]
        intro ch hch
        rw [decide_eq_true_eq]
        rintro rfl
        exact hpayload hch
      rw [nextAttempt, Attempt.bytes, List.append_nil, List.cons_append, dropWhile_noise hnoise hstart]
      simp only [htake, hwhile, if_pos hfull, List.drop_left' hfull]
  | some digits =>
      obtain ⟨d₁, d₂⟩ := digits
      have hshort : payload.length < maxBuf := by simpa using hlength
      have htake : ((payload ++ sharp :: d₁ :: d₂ :: rest).take maxBuf).takeWhile
          (fun ch => ch ≠ sharp) = payload := by
        rw [List.take_append, List.take_of_length_le hshort.le]
        obtain ⟨n, hn⟩ : ∃ n, maxBuf - payload.length = n + 1 :=
          ⟨maxBuf - payload.length - 1, by omega⟩
        rw [hn, List.take_succ_cons, takeWhile_payload hpayload]
      have hbytes : Attempt.bytes ⟨start, payload, some (d₁, d₂)⟩ ++ rest =
          start :: (payload ++ sharp :: d₁ :: d₂ :: rest) := by
        simp [Attempt.bytes]
      rw [nextAttempt, hbytes, dropWhile_noise hnoise hstart]
      simp only [htake, if_neg hshort.ne, List.drop_left]

theorem Scans.cases {input rest : Bytes} {as : List Attempt} (h : Scans input as rest) :
    (as = [] ∧ input = rest) ∨ ∃ a as' middle, as = a :: as' ∧
      nextAttempt input = some (a, middle) ∧ Scans middle as' rest := by
  cases h with
  | nil => exact .inl ⟨rfl, rfl⟩
  | cons hnoise hvalid hrest => exact .inr ⟨_, _, _, rfl, nextAttempt_eq hnoise hvalid _, hrest⟩

theorem Scans.length_le {input rest : Bytes} {as : List Attempt} (h : Scans input as rest) :
    rest.length + as.length ≤ input.length := by
  induction h with
  | nil input => exact le_rfl
  | cons hnoise hvalid hrest ih =>
      simp only [Attempt.bytes, List.length_append, List.length_cons]
      omega

/-- What was read determines the attempts. -/
theorem Scans.unique {input rest : Bytes} {as as' : List Attempt} (h : Scans input as rest)
    (h' : Scans input as' rest) : as = as' := by
  induction h generalizing as' with
  | nil input =>
      have hlength := h'.length_le
      exact (List.eq_nil_of_length_eq_zero (by omega)).symm
  | @cons noise middle rest a as hnoise hvalid hrest ih =>
      rcases h'.cases with ⟨rfl, heq⟩ | ⟨a', as'', middle', rfl, hnext, hrest'⟩
      · have hlength := (Scans.cons hnoise hvalid hrest).length_le
        rw [heq, List.length_cons] at hlength
        omega
      · rw [nextAttempt_eq hnoise hvalid middle] at hnext
        obtain ⟨rfl, rfl⟩ := Prod.mk.inj (Option.some.inj hnext)
        rw [ih hrest']

theorem skipToStart_noise {noise : Bytes} (hnoise : Quiet noise) {start : UInt8}
    (hstart : start &&& 0x7F = dollar) (line : Bytes) :
    skipToStart (noise ++ start :: line) = some line := by
  rw [skipToStart_eq, dropWhile_noise hnoise hstart]
  rfl

theorem readPayload_payload {front payload : Bytes} (hpayload : sharp ∉ payload)
    (hroom : front.length + payload.length ≤ maxBuf) {buffer : Buffer}
    (hfront : Holds buffer 0 front) (sum : UInt8) (line : Bytes) :
    ∃ stored, Holds stored 0 (front ++ payload) ∧
      (∀ j, front.length + payload.length ≤ j → stored j = buffer j) ∧
      readPayload buffer sum front.length (payload ++ line) =
        readPayload stored (payload.foldl (fun sum ch => sum + ch) sum)
          (front.length + payload.length) line := by
  induction payload generalizing front buffer sum with
  | nil => exact ⟨buffer, by simpa using hfront, fun _ _ => rfl, by simp⟩
  | cons ch payload ih =>
      have hch : ch ≠ sharp := by
        rintro rfl
        exact hpayload List.mem_cons_self
      have hless : front.length < maxBuf := by
        simp only [List.length_cons] at hroom
        omega
      have hfront' := hfront.store ch
      rw [Nat.zero_add] at hfront'
      have hroom' : (front ++ [ch]).length + payload.length ≤ maxBuf := by
        simp only [List.length_cons, List.length_append, List.length_nil] at hroom ⊢
        omega
      obtain ⟨stored, hstored, hkept, hread⟩ :=
        ih (fun hmem => hpayload (List.mem_cons_of_mem _ hmem)) hroom' hfront' (sum + ch)
      have hlength : (front ++ [ch]).length = front.length + 1 := by simp
      rw [hlength] at hread hkept
      refine ⟨stored, by simpa using hstored, fun j hj => ?_, ?_⟩
      · rw [List.length_cons] at hj
        rw [hkept j (by omega), Function.update_of_ne (by omega)]
      · rw [List.cons_append, readPayload, if_pos hless, if_neg hch, hread, List.foldl_cons,
          List.length_cons, Nat.add_assoc, Nat.add_comm 1]

section

variable {noise payload : Bytes} {start : UInt8} (hnoise : Quiet noise)
  (hstart : start &&& 0x7F = dollar) (hpayload : sharp ∉ payload)

include hnoise hstart hpayload

theorem getpacket_overlong (hfull : payload.length = maxBuf) (buffer : Buffer) (rest : Bytes) :
    ∃ stored, getpacket buffer (noise ++ start :: (payload ++ rest)) =
      if checksumOf payload = 0xFF then
        { ret := true, buffer := stored, sent := [], rest := rest }
      else getpacket stored rest := by
  obtain ⟨stored, -, -, hread⟩ := readPayload_payload hpayload (by simp [hfull])
    (holds_nil : Holds buffer 0 []) 0 rest
  have hend : readPayload buffer 0 0 (payload ++ rest) =
      .full (checksumOf payload) stored rest := by
    rw [List.length_nil, Nat.zero_add] at hread
    rw [hread, hfull, checksumOf]
    cases rest with
    | nil => rw [readPayload, if_neg (Nat.lt_irrefl _)]
    | cons ch rest => rw [readPayload, if_neg (Nat.lt_irrefl _)]
  exact ⟨stored, getpacket_of_full (skipToStart_noise hnoise hstart _) hend⟩

theorem getpacket_packet (hshort : payload.length < maxBuf) (buffer : Buffer) (d₁ d₂ : UInt8)
    (rest : Bytes) :
    ∃ stored, Holds stored 0 (payload ++ [0]) ∧
      (∀ j, payload.length < j → stored j = buffer j) ∧
      getpacket buffer (noise ++ start :: (payload ++ sharp :: d₁ :: d₂ :: rest)) =
        if checksumOf payload = xmitcsum d₁ d₂ then
          { ret := true, buffer := (dropSequence stored).1
            sent := plus :: (dropSequence stored).2, rest := rest }
        else (getpacket stored rest).after minus := by
  obtain ⟨stored, hstored, hkept, hread⟩ := readPayload_payload hpayload (by simpa using hshort.le)
    (holds_nil : Holds buffer 0 []) 0 (sharp :: d₁ :: d₂ :: rest)
  have hend : readPayload buffer 0 0 (payload ++ sharp :: d₁ :: d₂ :: rest) =
      .atHash (checksumOf payload) payload.length stored (d₁ :: d₂ :: rest) := by
    rw [List.length_nil, Nat.zero_add] at hread
    rw [hread, readPayload, if_pos hshort, if_pos rfl, checksumOf]
  have hended := (by simpa using hstored : Holds stored 0 payload).store 0
  rw [Nat.zero_add] at hended
  refine ⟨Function.update stored payload.length 0, hended, fun j hj => ?_,
    getpacket_of_hash (skipToStart_noise hnoise hstart _) hend⟩
  rw [Function.update_of_ne (by omega)]
  exact hkept j (by simpa using hj.le)

end

/-- The buffer after a packet: its bytes with a zero byte behind them, or, when they make
a string with a sequence id, that string without the id. -/
def HoldsPacket (buffer : Buffer) (payload : Bytes) : Prop :=
  if (cstr payload)[2]? = some colon then HoldsString buffer 0 ((cstr payload).drop 3)
  else Holds buffer 0 (payload ++ [0])

theorem dropSequence_holds {stored : Buffer} {payload : Bytes}
    (hstored : Holds stored 0 (payload ++ [0])) (hshort : payload.length < maxBuf) :
    HoldsPacket (dropSequence stored).1 payload := by
  have hlen : strlen stored 0 maxBuf = (cstr payload).length :=
    hstored.string.strlen_eq (length_cstr_le.trans_lt hshort)
  rw [HoldsPacket, dropSequence, hlen]
  by_cases hlong : 3 ≤ (cstr payload).length
  · have htwo : (cstr payload)[2]? = some (stored 2) := by
      rw [List.getElem?_eq_getElem hlong, ← hstored.getElem_cstr hlong]
    rw [htwo]
    by_cases hcolon : stored 2 = colon
    · rw [if_pos (congrArg some hcolon), if_pos hcolon]
      exact hstored.string.moveDown (by omega) hlong
    · rw [if_neg (fun h => hcolon (Option.some.inj h)), if_neg hcolon]
      exact hstored
  · have hnone : (cstr payload)[2]? = none := List.getElem?_eq_none (by omega)
    have hzero : (cstr payload).length + 1 - 3 = 0 := by omega
    rw [hnone, if_neg (by simp), hzero]
    split
    · exact hstored
    · exact hstored

theorem getpacket_closes {noise : Bytes} (hnoise : Quiet noise) {a : Attempt} (hvalid : a.Valid)
    (hcloses : a.Closes) (buffer : Buffer) (rest : Bytes) :
    (getpacket buffer (noise ++ (a.bytes ++ rest))).ret = true ∧
      (getpacket buffer (noise ++ (a.bytes ++ rest))).rest = rest ∧
      (a.digits.isSome → HoldsPacket (getpacket buffer (noise ++ (a.bytes ++ rest))).buffer
        a.payload) := by
  obtain ⟨start, payload, digits⟩ := a
  obtain ⟨hstart, hpayload, hlength⟩ := hvalid
  cases digits with
  | none =>
      obtain ⟨stored, hget⟩ :=
        getpacket_overlong hnoise hstart hpayload (by simpa using hlength) buffer rest
      have hbytes : Attempt.bytes ⟨start, payload, none⟩ ++ rest = start :: (payload ++ rest) := by
        simp [Attempt.bytes]
      have hsum : checksumOf payload = 0xFF := hcloses
      rw [hbytes, hget, if_pos hsum]
      simp
  | some digits =>
      obtain ⟨d₁, d₂⟩ := digits
      have hshort : payload.length < maxBuf := by simpa using hlength
      obtain ⟨stored, hstored, -, hget⟩ :=
        getpacket_packet hnoise hstart hpayload hshort buffer d₁ d₂ rest
      have hbytes : Attempt.bytes ⟨start, payload, some (d₁, d₂)⟩ ++ rest =
          start :: (payload ++ sharp :: d₁ :: d₂ :: rest) := by
        simp [Attempt.bytes]
      have hsum : checksumOf payload = xmitcsum d₁ d₂ := hcloses
      rw [hbytes, hget, if_pos hsum]
      exact ⟨rfl, rfl, fun _ => dropSequence_holds hstored hshort⟩

theorem getpacket_fails {noise : Bytes} (hnoise : Quiet noise) {a : Attempt} (hvalid : a.Valid)
    (hfails : ¬a.Closes) (buffer : Buffer) (rest : Bytes) :
    ∃ stored sent, getpacket buffer (noise ++ (a.bytes ++ rest)) =
      { getpacket stored rest with sent := sent ++ (getpacket stored rest).sent } := by
  obtain ⟨start, payload, digits⟩ := a
  obtain ⟨hstart, hpayload, hlength⟩ := hvalid
  cases digits with
  | none =>
      obtain ⟨stored, hget⟩ :=
        getpacket_overlong hnoise hstart hpayload (by simpa using hlength) buffer rest
      have hbytes : Attempt.bytes ⟨start, payload, none⟩ ++ rest = start :: (payload ++ rest) := by
        simp [Attempt.bytes]
      have hsum : checksumOf payload ≠ 0xFF := hfails
      exact ⟨stored, [], by rw [hbytes, hget, if_neg hsum]; rfl⟩
  | some digits =>
      obtain ⟨d₁, d₂⟩ := digits
      obtain ⟨stored, -, -, hget⟩ :=
        getpacket_packet hnoise hstart hpayload (by simpa using hlength) buffer d₁ d₂ rest
      have hbytes : Attempt.bytes ⟨start, payload, some (d₁, d₂)⟩ ++ rest =
          start :: (payload ++ sharp :: d₁ :: d₂ :: rest) := by
        simp [Attempt.bytes]
      have hsum : checksumOf payload ≠ xmitcsum d₁ d₂ := hfails
      exact ⟨stored, [minus], by rw [hbytes, hget, if_neg hsum]; rfl⟩

theorem exists_payload (n : ℕ) (line : Bytes) :
    ∃ payload rest, line = payload ++ rest ∧ sharp ∉ payload ∧
      (payload.length = n ∨
        payload.length < n ∧ (rest = [] ∨ ∃ rest', rest = sharp :: rest')) := by
  induction n generalizing line with
  | zero => exact ⟨[], line, rfl, List.not_mem_nil, .inl rfl⟩
  | succ n ih =>
      cases line with
      | nil => exact ⟨[], [], rfl, List.not_mem_nil, .inr ⟨Nat.succ_pos n, .inl rfl⟩⟩
      | cons ch line =>
          by_cases hch : ch = sharp
          · subst hch
            exact ⟨[], _, rfl, List.not_mem_nil, .inr ⟨Nat.succ_pos n, .inr ⟨line, rfl⟩⟩⟩
          · obtain ⟨payload, rest, rfl, hpayload, hend⟩ := ih line
            refine ⟨ch :: payload, rest, rfl, ?_, ?_⟩
            · rw [List.mem_cons, not_or]
              exact ⟨Ne.symm hch, hpayload⟩
            · rw [List.length_cons, Nat.add_right_cancel_iff, Nat.add_lt_add_iff_right]
              exact hend

theorem exists_noise (input : Bytes) :
    (∃ noise start line, Quiet noise ∧ start &&& 0x7F = dollar ∧
        input = noise ++ start :: line) ∨ skipToStart input = none := by
  induction input with
  | nil => exact .inr rfl
  | cons ch input ih =>
      by_cases hch : ch &&& 0x7F = dollar
      · exact .inl ⟨[], ch, input, by simp [Quiet], hch, rfl⟩
      · rcases ih with ⟨noise, start, line, hnoise, hstart, rfl⟩ | hnone
        · refine .inl ⟨ch :: noise, start, line, ?_, hstart, rfl⟩
          intro b hb
          rcases List.mem_cons.mp hb with rfl | hb
          · exact hch
          · exact hnoise b hb
        · exact .inr (by rw [skipToStart, if_neg hch, hnone])

theorem line_cases (input : Bytes) :
    (∃ noise a rest, Quiet noise ∧ Attempt.Valid a ∧ input = noise ++ (a.bytes ++ rest)) ∨
      ∀ buffer, (getpacket buffer input).ret = false := by
  rcases exists_noise input with ⟨noise, start, line, hnoise, hstart, rfl⟩ | hnone
  · obtain ⟨payload, rest, rfl, hpayload, hend⟩ := exists_payload maxBuf line
    have hskip := skipToStart_noise hnoise hstart (payload ++ rest)
    rcases hend with hfull | ⟨hshort, hstop⟩
    · refine .inl ⟨noise, ⟨start, payload, none⟩, rest, hnoise, ⟨hstart, hpayload, ?_⟩, ?_⟩
      · simpa using hfull
      · simp [Attempt.bytes]
    · have hread := fun buffer : Buffer => readPayload_payload hpayload
        (by simpa using hshort.le) (holds_nil : Holds buffer 0 []) 0 rest
      rcases hstop with rfl | ⟨rest', rfl⟩
      · refine .inr fun buffer => ?_
        obtain ⟨stored, -, -, hpayload'⟩ := hread buffer
        rw [List.length_nil, Nat.zero_add, readPayload, if_pos hshort] at hpayload'
        rw [getpacket_of_closed hskip hpayload']
        rfl
      · by_cases hdigits : rest'.length < 2
        · refine .inr fun buffer => ?_
          obtain ⟨stored, -, -, hpayload'⟩ := hread buffer
          rw [List.length_nil, Nat.zero_add, readPayload, if_pos hshort, if_pos rfl] at hpayload'
          exact getpacket_of_short hskip hpayload' hdigits
        · rcases rest' with _ | ⟨d₁, _ | ⟨d₂, rest'⟩⟩
          · simp at hdigits
          · simp at hdigits
          · refine .inl ⟨noise, ⟨start, payload, some (d₁, d₂)⟩, rest', hnoise,
              ⟨hstart, hpayload, ?_⟩, ?_⟩
            · simpa using hshort
            · simp [Attempt.bytes]
  · exact .inr fun buffer => by rw [getpacket_of_no_start hnone]; rfl

theorem Scans.cons_inv {input rest : Bytes} {a : Attempt} {as : List Attempt}
    (h : Scans input (a :: as) rest) :
    ∃ noise middle, Quiet noise ∧ a.Valid ∧ input = noise ++ (a.bytes ++ middle) ∧
      Scans middle as rest := by
  cases h with
  | cons hnoise hvalid hrest => exact ⟨_, _, hnoise, hvalid, rfl, hrest⟩

theorem ret_of_scans {input rest : Bytes} {before : List Attempt} {a : Attempt}
    (h : Scans input (before ++ [a]) rest) (hbefore : ∀ b ∈ before, ¬b.Closes)
    (hcloses : a.Closes) (buffer : Buffer) :
    (getpacket buffer input).ret = true ∧ (getpacket buffer input).rest = rest := by
  induction before generalizing input buffer with
  | nil =>
      obtain ⟨noise, middle, hnoise, hvalid, rfl, hrest⟩ := h.cons_inv
      obtain rfl : middle = rest := by
        rcases hrest.cases with ⟨-, heq⟩ | ⟨_, _, _, hnil, -⟩
        · exact heq
        · simp at hnil
      obtain ⟨hret, hleft, -⟩ := getpacket_closes hnoise hvalid hcloses buffer middle
      exact ⟨hret, hleft⟩
  | cons b before ih =>
      obtain ⟨noise, middle, hnoise, hvalid, rfl, hrest⟩ := h.cons_inv
      obtain ⟨stored, sent, hget⟩ :=
        getpacket_fails hnoise hvalid (hbefore b List.mem_cons_self) buffer middle
      rw [hget]
      exact ih hrest (fun b hb => hbefore b (List.mem_cons_of_mem _ hb)) stored

theorem scans_of_ret {buffer : Buffer} {input : Bytes}
    (hret : (getpacket buffer input).ret = true) :
    ∃ before a, Scans input (before ++ [a]) (getpacket buffer input).rest ∧
      (∀ b ∈ before, ¬b.Closes) ∧ a.Closes ∧ a.Valid ∧
      (a.digits.isSome → HoldsPacket (getpacket buffer input).buffer a.payload) := by
  induction hlength : input.length using Nat.strongRecOn generalizing input buffer with
  | _ length ih =>
      rcases line_cases input with ⟨noise, a, rest, hnoise, hvalid, rfl⟩ | hclosed
      · by_cases hcloses : a.Closes
        · obtain ⟨-, hrest, hholds⟩ := getpacket_closes hnoise hvalid hcloses buffer rest
          refine ⟨[], a, ?_, by simp, hcloses, hvalid, hholds⟩
          rw [hrest]
          exact .cons hnoise hvalid (.nil rest)
        · obtain ⟨stored, sent, hget⟩ := getpacket_fails hnoise hvalid hcloses buffer rest
          rw [hget] at hret ⊢
          have hless : rest.length < length := by
            simp only [← hlength, Attempt.bytes, List.length_append, List.length_cons]
            omega
          obtain ⟨before, a', hscans, hbefore, hcloses', hvalid', hholds⟩ :=
            ih rest.length hless hret rfl
          refine ⟨a :: before, a', .cons hnoise hvalid hscans, ?_, hcloses', hvalid', hholds⟩
          intro b hb
          rcases List.mem_cons.mp hb with rfl | hb
          · exact hcloses
          · exact hbefore b hb
      · rw [hclosed buffer] at hret
        simp at hret

end PsplinkUsb.UsbGdb.PacketLaws
