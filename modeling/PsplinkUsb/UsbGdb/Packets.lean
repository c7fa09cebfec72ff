import PsplinkUsb.Library.CString

/-!
`putpacket` and `getpacket` of `usbgdb/gdb-stub.c`: packets `$<data>#<checksum>` on a
line of characters. A line that has no more characters is closed.
-/

namespace PsplinkUsb.UsbGdb.Packets

open PsplinkUsb.Library.CString

abbrev Bytes := List UInt8

def dollar : UInt8 := 0x24
def sharp : UInt8 := 0x23
def colon : UInt8 := 0x3A
def plus : UInt8 := 0x2B
def minus : UInt8 := 0x2D

def maxBuf : ℕ := 2048

def hexchars : List UInt8 :=
  [0x30, 0x31, 0x32, 0x33, 0x34, 0x35, 0x36, 0x37, 0x38, 0x39, 0x61, 0x62, 0x63, 0x64, 0x65, 0x66]

def hexchar (n : UInt8) : UInt8 := hexchars.getD (n &&& 0xF).toNat 0

def checksumOf (data : Bytes) : UInt8 := data.foldl (fun sum ch => sum + ch) 0

/-- What one turn of the loop of `putpacket` appends to `outputbuffer`. -/
def framed (payload : Bytes) : Bytes :=
  dollar :: payload ++
    [sharp, hexchar (checksumOf payload >>> 4), hexchar (checksumOf payload)]

structure PutResult where
  ret : Bool
  written : List Bytes
  rest : Bytes

/-- `putpacket` of a string. Its index into `outputbuffer` is not set back, so what a
retransmission writes still starts with the transmissions before. -/
def putpacket (payload outputbuffer : Bytes) : Bytes → PutResult
  | [] => { ret := false, written := [outputbuffer ++ framed payload], rest := [] }
  | ch :: answers =>
      let output := outputbuffer ++ framed payload
      if ch &&& 0x7F = plus then { ret := true, written := [output], rest := answers }
      else
        let r := putpacket payload output answers
        { r with written := output :: r.written }

/-- The value of a hex digit, or -1. -/
def hex (ch : UInt8) : ℤ :=
  if 0x61 ≤ ch ∧ ch ≤ 0x66 then ch.toNat - 0x61 + 10
  else if 0x30 ≤ ch ∧ ch ≤ 0x39 then ch.toNat - 0x30
  else if 0x41 ≤ ch ∧ ch ≤ 0x46 then ch.toNat - 0x41 + 10
  else -1

/-- The transmitted checksum; what `hex` says of a digit is kept to 8 bits. -/
def xmitcsum (d₁ d₂ : UInt8) : UInt8 :=
  UInt8.ofInt (hex (d₁ &&& 0x7F)) <<< 4 ||| UInt8.ofInt (hex (d₂ &&& 0x7F))

/-- Wait for the start character; the result is the line after it. -/
def skipToStart : Bytes → Option Bytes
  | [] => none
  | ch :: input => if ch &&& 0x7F = dollar then some input else skipToStart input

/-- How reading a payload ends. -/
inductive PayloadEnd where
  | closed (buffer : Buffer)
  | full (checksum : UInt8) (buffer : Buffer) (rest : Bytes)
  | atHash (checksum : UInt8) (count : ℕ) (buffer : Buffer) (rest : Bytes)

def readPayload (buffer : Buffer) (checksum : UInt8) (count : ℕ) : Bytes → PayloadEnd
  | [] => if count < maxBuf then .closed buffer else .full checksum buffer []
  | ch :: input =>
      if count < maxBuf then
        if ch = sharp then .atHash checksum count buffer input
        else readPayload (Function.update buffer count ch) (checksum + ch) (count + 1) input
      else .full checksum buffer (ch :: input)

def PayloadEnd.rest : PayloadEnd → Bytes
  | .closed _ => []
  | .full _ _ rest => rest
  | .atHash _ _ _ rest => rest

/-- Answer and remove a sequence id. The third byte may be one of an earlier packet. -/
def dropSequence (buffer : Buffer) : Buffer × Bytes :=
  if buffer 2 = colon then
    (moveDown 3 3 (strlen buffer 0 maxBuf + 1 - 3) buffer, [buffer 0, buffer 1])
  else (buffer, [])

structure GetResult where
  ret : Bool
  buffer : Buffer
  sent : Bytes
  rest : Bytes

def GetResult.closed (buffer : Buffer) : GetResult :=
  { ret := false, buffer := buffer, sent := [], rest := [] }

/-- A result with a character sent before. -/
def GetResult.after (ch : UInt8) (r : GetResult) : GetResult := { r with sent := ch :: r.sent }

theorem length_skipToStart {input rest : Bytes} (h : skipToStart input = some rest) :
    rest.length < input.length := by
  induction input with
  | nil => simp [skipToStart] at h
  | cons ch input ih =>
      rw [skipToStart] at h
      split at h
      · obtain rfl := Option.some.inj h
        exact Nat.lt_succ_self _
      · exact (ih h).trans (Nat.lt_succ_self _)

theorem length_rest_le (buffer : Buffer) (checksum : UInt8) (count : ℕ) (input : Bytes) :
    (readPayload buffer checksum count input).rest.length ≤ input.length := by
  induction input generalizing buffer checksum count with
  | nil =>
      rw [readPayload]
      split
      · exact le_rfl
      · exact le_rfl
  | cons ch input ih =>
      rw [readPayload]
      split
      · split
        · exact Nat.le_succ _
        · exact (ih _ _ _).trans (Nat.le_succ _)
      · exact le_rfl

/-- `getpacket`. An over-long packet goes to the test of the loop with `xmitcsum` -1. -/
def getpacket (buffer : Buffer) (input : Bytes) : GetResult :=
  match _hstart : skipToStart input with
  | none => .closed buffer
  | some line =>
      match _hend : readPayload buffer 0 0 line with
      | .closed stored => .closed stored
      | .full checksum stored rest =>
          if checksum ≠ 0xFF then getpacket stored rest
          else { ret := true, buffer := stored, sent := [], rest := rest }
      | .atHash checksum count stored (d₁ :: d₂ :: rest) =>
          let ended := Function.update stored count 0
          if checksum ≠ xmitcsum d₁ d₂ then (getpacket ended rest).after minus
          else
            let (kept, sequence) := dropSequence ended
            { ret := true, buffer := kept, sent := plus :: sequence, rest := rest }
      | .atHash _ count stored _ => .closed (Function.update stored count 0)
termination_by input.length
decreasing_by
  · have hless := length_skipToStart _hstart
    have hle := length_rest_le buffer 0 0 line
    rw [_hend] at hle
    exact hle.trans_lt hless
  · have hless := length_skipToStart _hstart
    have hle := length_rest_le buffer 0 0 line
    rw [_hend] at hle
    simp only [PayloadEnd.rest, List.length_cons] at hle
    omega

section

variable {buffer stored : Buffer} {input line rest : Bytes} {checksum d₁ d₂ : UInt8} {count : ℕ}

theorem getpacket_of_no_start (hstart : skipToStart input = none) :
    getpacket buffer input = .closed buffer := by
  rw [getpacket]
  split
  · rfl
  · simp_all

theorem getpacket_of_closed (hstart : skipToStart input = some line)
    (hend : readPayload buffer 0 0 line = .closed stored) :
    getpacket buffer input = .closed stored := by
  rw [getpacket]
  split
  · simp_all
  · split <;> simp_all

theorem getpacket_of_full (hstart : skipToStart input = some line)
    (hend : readPayload buffer 0 0 line = .full checksum stored rest) :
    getpacket buffer input =
      if checksum = 0xFF then { ret := true, buffer := stored, sent := [], rest := rest }
      else getpacket stored rest := by
  rw [getpacket]
  split
  · simp_all
  · split <;> simp_all

theorem getpacket_of_hash (hstart : skipToStart input = some line)
    (hend : readPayload buffer 0 0 line = .atHash checksum count stored (d₁ :: d₂ :: rest)) :
    getpacket buffer input =
      if checksum = xmitcsum d₁ d₂ then
        { ret := true, buffer := (dropSequence (Function.update stored count 0)).1
          sent := plus :: (dropSequence (Function.update stored count 0)).2, rest := rest }
      else (getpacket (Function.update stored count 0) rest).after minus := by
  rw [getpacket]
  split
  · simp_all
  · split
    · simp_all
    · simp_all
    · simp_all
    · rename_i hdigits heq
      simp_all only [Option.some.injEq, PayloadEnd.atHash.injEq]
      exact absurd heq.2.2.2.symm (hdigits d₁ d₂ rest)

theorem getpacket_of_short (hstart : skipToStart input = some line)
    (hend : readPayload buffer 0 0 line = .atHash checksum count stored rest)
    (hrest : rest.length < 2) : (getpacket buffer input).ret = false := by
  rw [getpacket]
  split
  · rfl
  · split
    · rfl
    · simp_all
    · rename_i heq
      simp_all only [Option.some.injEq, PayloadEnd.atHash.injEq]
      simp only [List.length_cons] at hrest
      omega
    · rfl

end

end PsplinkUsb.UsbGdb.Packets
