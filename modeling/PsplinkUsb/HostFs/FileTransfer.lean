import PsplinkUsb.HostFs.ChunkedTransfer

namespace PsplinkUsb.HostFs.FileTransfer

open PsplinkUsb.Library.Duplex
open PsplinkUsb.Library.Settling
open PsplinkUsb.HostFs.Wire
open PsplinkUsb.HostFs.Framing
open PsplinkUsb.HostFs.Accounting
open PsplinkUsb.HostFs.ChunkedTransfer
open PsplinkUsb.UsbHostfs.CommandXchg
open PsplinkUsb.UsbHostfs.HostDriver
open PsplinkUsb.UsbHostfsPc.OsCalls
open PsplinkUsb.UsbHostfsPc.HostFiles
open PsplinkUsb.UsbHostfsPc.Handlers
open PsplinkUsb.UsbHostfsPc.PlainFile

/-- Called while the link is empty, the transfer returns `ret`, with the caller's memory
then `buf` and the PC in `h'`, whatever the sizes of the USB transfers and the order of
the parties' steps. -/
def Returns (prog : TransferProg) (h : Host FileState) (ret : ℤ) (buf : Buffer)
    (h' : Host FileState) : Prop :=
  ∀ sizes before, ∃ log,
    Settles (Step (startHostfs fileOs) requestBuffer) (atRest (prog.toProc sizes 0) h before)
      (atRest (.done (ret, some buf)) h' log)

variable {prog : TransferProg} {h h' : Host FileState} {fd : Word} {fid : Fin maxFiles} {ret : ℤ}
  {buf : Buffer}

theorem returns_of_runs (hruns : Runs fileOs prog h (ret, some buf) h') :
    Returns prog h ret buf h' := by
  intro sizes before
  obtain ⟨log, hran⟩ := hruns
  exact ⟨before ++ log, (hran.concludes sizes 0 before).settles⟩

theorem Returns.unique {ret' : ℤ} {buf' : Buffer} {h'' : Host FileState}
    (hreturns : Returns prog h ret buf h') (hreturns' : Returns prog h ret' buf' h'') :
    ret = ret' ∧ buf = buf' ∧ h' = h'' := by
  obtain ⟨log, hsettles⟩ := hreturns (fun _ => ⟨id, id⟩) []
  obtain ⟨log', hsettles'⟩ := hreturns' (fun _ => ⟨id, id⟩) []
  have hend := hsettles.unique hsettles'
  have hclient := congrArg Config.client hend
  have hserver := congrArg Config.server hend
  simp only [atRest, idle, Proc.done.injEq, Prod.mk.injEq, Option.some.injEq] at hclient hserver
  exact ⟨hclient.1, hclient.2, hserver⟩

theorem Returns.exists_iff {P : ℤ → Buffer → Host FileState → Prop}
    (hreturns : Returns prog h ret buf h') :
    (∃ ret' buf' h'', Returns prog h ret' buf' h'' ∧ P ret' buf' h'') ↔ P ret buf h' := by
  constructor
  · rintro ⟨ret', buf', h'', hreturns', hP⟩
    obtain ⟨rfl, rfl, rfl⟩ := hreturns.unique hreturns'
    exact hP
  · exact fun hP => ⟨ret, buf, h', hreturns, hP⟩

theorem write_returns (hfd : toSlot fd = some fid) (hopen : (h.openFiles fid).opened = true)
    (buf : Buffer) (n : ℕ) :
    ∃ moved script, (tally (requestSizes n) n h.os.script 0).moved = moved ∧
      Returns (usbWriteData true fd (some buf) n) h (tally (requestSizes n) n h.os.script 0).ret buf
        { h with os :=
          { content := overwrite h.os.content h.os.offset (bytesAt buf 0 moved)
            offset := h.os.offset + moved, script := script } } := by
  obtain ⟨moved, script, hmoved, hruns⟩ := @runs_writes fd fid hfd buf (requestSizes n)
    (fun n hn => ⟨requestSizes_pos hn, requestSizes_le hn⟩) n (sum_requestSizes n).le 0 h hopen
  refine ⟨moved, script, hmoved.trans (Nat.zero_add _), returns_of_runs ?_⟩
  rw [usbWriteData, transferData_eq]
  exact hruns

theorem read_returns (hfd : toSlot fd = some fid) (hopen : (h.openFiles fid).opened = true)
    (buf : Buffer) (n : ℕ) :
    ∃ stored moved script,
      (tally (requestSizes n) h.os.left h.os.script 0).stored = stored ∧
      (tally (requestSizes n) h.os.left h.os.script 0).moved = moved ∧
      Returns (usbReadData true fd (some buf) n) h
        (tally (requestSizes n) h.os.left h.os.script 0).ret
        (storeAt buf 0 ((h.os.content.drop h.os.offset).take stored))
        { h with os := { h.os with offset := h.os.offset + moved, script := script } } := by
  obtain ⟨stored, moved, script, hstored, hmoved, hruns⟩ := @runs_reads fd fid hfd buf
    (requestSizes n) (fun n hn => ⟨requestSizes_pos hn, requestSizes_le hn⟩) 0 h hopen
  refine ⟨stored, moved, script, hstored.trans (Nat.zero_add _), hmoved.trans (Nat.zero_add _),
    returns_of_runs ?_⟩
  rw [usbReadData, transferData_eq]
  exact hruns

/-- With short transfers and interruptions only, a write stores the whole of its data at
the offset, and a read comes to the bytes that are there. -/
theorem transfers_refine_file (hfd : toSlot fd = some fid) (hopen : (h.openFiles fid).opened = true)
    (hscript : Smooth h.os.script) (buf : Buffer) (n : ℕ) :
    (∃ script, Returns (usbWriteData true fd (some buf) n) h n buf
      { h with os :=
        { content := overwrite h.os.content h.os.offset (bytesAt buf 0 n)
          offset := h.os.offset + n, script := script } }) ∧
    ∃ script, Returns (usbReadData true fd (some buf) n) h (min n h.os.left : ℕ)
      (storeAt buf 0 ((h.os.content.drop h.os.offset).take (min n h.os.left)))
      { h with os :=
        { h.os with offset := h.os.offset + min n h.os.left, script := script } } := by
  have htally : ∀ room, tally (requestSizes n) room h.os.script 0 =
      { ret := (min n room : ℕ), stored := min n room, moved := min n room } := by
    intro room
    rw [tally_smooth hscript (fun _ => requestSizes_pos), sum_requestSizes, Nat.zero_add]
  constructor
  · obtain ⟨moved, script, hmoved, hreturns⟩ := write_returns hfd hopen buf n
    simp only [htally, Nat.min_self] at hmoved hreturns
    subst hmoved
    exact ⟨script, hreturns⟩
  · obtain ⟨stored, moved, script, hstored, hmoved, hreturns⟩ := read_returns hfd hopen buf n
    simp only [htally] at hstored hmoved hreturns
    subst hstored hmoved
    exact ⟨script, hreturns⟩

theorem transfers_refine_file_interrupted :
    (∃ script, Returns (usbWriteData true 3 (some fun _ => 7) (2 : ℕ))
      (oneFile [1, 2, 3] [.upto 1, .fail eintr]) (2 : ℕ) (fun _ => 7)
      { oneFile [1, 2, 3] [.upto 1, .fail eintr] with os :=
        { content := overwrite [1, 2, 3] 0 (bytesAt (fun _ => 7) 0 2)
          offset := 0 + 2, script := script } }) ∧
    ∃ script, Returns (usbReadData true 3 (some fun _ => 7) (2 : ℕ))
      (oneFile [1, 2, 3] [.upto 1, .fail eintr]) (min 2 3 : ℕ)
      (storeAt (fun _ => 7) 0 (([1, 2, 3].drop 0).take (min 2 3)))
      { oneFile [1, 2, 3] [.upto 1, .fail eintr] with os :=
        { content := [1, 2, 3], offset := 0 + min 2 3, script := script } } := by
  have hscript : Smooth [.upto 1, .fail eintr] := by
    rintro outcome houtcome
    rcases List.mem_cons.mp houtcome with rfl | houtcome
    · exact .inr ⟨1, by decide, rfl⟩
    · exact .inl (List.mem_singleton.mp houtcome)
  exact @transfers_refine_file (oneFile [1, 2, 3] [.upto 1, .fail eintr]) 3 3 rfl rfl hscript
    (fun _ => 7) 2

/-- A write keeps its accounts: a count that is not negative is the number of bytes stored,
and how far the offset has moved. -/
def WriteAccounted (fd : Word) (buf : Buffer) (len : ℤ) (h : Host FileState) : Prop :=
  ∃ ret buf' h', Returns (usbWriteData true fd (some buf) len) h ret buf' h' ∧
    (0 ≤ ret →
      (h'.os.offset : ℤ) = h.os.offset + ret ∧
        h'.os.content = overwrite h.os.content h.os.offset (bytesAt buf 0 ret.toNat))

/-- A read keeps its accounts: a count that is not negative is the number of bytes the
caller is given, and how far the offset has moved. -/
def ReadAccounted (fd : Word) (buf : Buffer) (len : ℤ) (h : Host FileState) : Prop :=
  ∃ ret buf' h', Returns (usbReadData true fd (some buf) len) h ret buf' h' ∧
    (0 ≤ ret →
      (h'.os.offset : ℤ) = h.os.offset + ret ∧ h'.os.content = h.os.content ∧
        buf' = storeAt buf 0 ((h.os.content.drop h.os.offset).take ret.toNat))

theorem writeAccounted_iff (hfd : toSlot fd = some fid) (hopen : (h.openFiles fid).opened = true)
    (buf : Buffer) (n : ℕ) :
    WriteAccounted fd buf n h ↔ undisturbedFrom h.os.script n false (requestSizes n) = true := by
  obtain ⟨moved, script, hmoved, hreturns⟩ := write_returns hfd hopen buf n
  rw [WriteAccounted, hreturns.exists_iff, ← ret_eq_moved_iff (fun _ => requestSizes_pos), hmoved]
  refine forall_congr' fun _ => ⟨fun ⟨hoffset, _⟩ => ?_, fun hret => ?_⟩
  · simp only at hoffset
    omega
  · rw [hret, Int.toNat_natCast]
    exact ⟨Nat.cast_add .., rfl⟩

theorem readAccounted_iff (hfd : toSlot fd = some fid) (hopen : (h.openFiles fid).opened = true)
    (buf : Buffer) (n : ℕ) :
    ReadAccounted fd buf n h ↔
      undisturbedFrom h.os.script h.os.left false (requestSizes n) = true := by
  obtain ⟨stored, moved, script, hstored, hmoved, hreturns⟩ := read_returns hfd hopen buf n
  rw [ReadAccounted, hreturns.exists_iff, ← ret_eq_moved_iff (fun _ => requestSizes_pos), hmoved]
  refine forall_congr' fun hnonneg => ⟨fun ⟨hoffset, _⟩ => ?_, fun hret => ?_⟩
  · simp only at hoffset
    omega
  · have hcount := (ret_eq_stored hnonneg).symm.trans hret
    rw [hstored, Nat.cast_inj] at hcount
    rw [hret, Int.toNat_natCast, hcount]
    exact ⟨Nat.cast_add .., rfl, rfl⟩

/-- The counts of both transfers are exact under exactly the results of the operating
system in which no error but EINTR strikes a block that has begun to move, after an
earlier block of the call has moved. -/
theorem transfers_accounted_iff (hfd : toSlot fd = some fid)
    (hopen : (h.openFiles fid).opened = true) (buf : Buffer) (len : ℤ) :
    (WriteAccounted fd buf len h ↔
      undisturbedFrom h.os.script len.toNat false (requestSizes len.toNat) = true) ∧
    (ReadAccounted fd buf len h ↔
      undisturbedFrom h.os.script h.os.left false (requestSizes len.toNat) = true) := by
  rcases lt_or_ge len 0 with hneg | hnonneg
  · -- a negative length is refused without a request
    have hfailed : ∀ request, transferData request (some buf) len = .ret (-1, some buf) := by
      intro request
      unfold transferData
      rw [if_pos hneg]
    have hnone : requestSizes len.toNat = [] := by
      rw [Int.toNat_of_nonpos hneg.le]
      rfl
    have hreturns : ∀ request, Returns (transferData request (some buf) len) h (-1) buf h := by
      intro request
      rw [hfailed]
      exact returns_of_runs (runs_ret _ h)
    rw [hnone]
    exact ⟨iff_of_true ⟨-1, buf, h, hreturns _, by omega⟩ rfl,
      iff_of_true ⟨-1, buf, h, hreturns _, by omega⟩ rfl⟩
  · obtain ⟨n, rfl⟩ := Int.eq_ofNat_of_zero_le hnonneg
    rw [Int.toNat_natCast]
    exact ⟨writeAccounted_iff hfd hopen buf n, readAccounted_iff hfd hopen buf n⟩

theorem transfers_accounted_iff_interrupted :
    (WriteAccounted 3 (fun _ => 7) 2 (oneFile [1, 2, 3] [.fail eintr, .upto 1]) ↔
      undisturbedFrom [.fail eintr, .upto 1] 2 false (requestSizes 2) = true) ∧
    (ReadAccounted 3 (fun _ => 7) 2 (oneFile [1, 2, 3] [.fail eintr, .upto 1]) ↔
      undisturbedFrom [.fail eintr, .upto 1] 3 false (requestSizes 2) = true) :=
  @transfers_accounted_iff (oneFile [1, 2, 3] [.fail eintr, .upto 1]) 3 3 rfl rfl (fun _ => 7) 2

/-- A write of one whole block and two bytes, of which the operating system takes the
block and one byte before it reports an error: the count leaves the byte out. -/
theorem write_miscounted :
    ¬ WriteAccounted 3 (fun _ => 7) 65538 (oneFile [] [.upto 65536, .upto 1, .fail 5]) := by
  rintro ⟨ret, buf', h', hreturns, haccount⟩
  obtain ⟨moved, script, hmoved, hreturns'⟩ :=
    @write_returns (oneFile [] [.upto 65536, .upto 1, .fail 5]) 3 3 rfl rfl (fun _ => 7) 65538
  have htally : tally (requestSizes 65538) 65538 [.upto 65536, .upto 1, .fail 5] 0 =
      { ret := 65536, stored := 65536, moved := 65537 } := by
    decide
  have hscript : (oneFile [] [.upto 65536, .upto 1, .fail 5]).os.script =
      [.upto 65536, .upto 1, .fail 5] := rfl
  rw [hscript, htally] at hmoved hreturns'
  subst hmoved
  obtain ⟨rfl, -, rfl⟩ := hreturns'.unique hreturns
  have hoffset : ((0 + 65537 : ℕ) : ℤ) = (0 : ℕ) + 65536 := (haccount (by decide)).1
  exact absurd hoffset (by decide)

end PsplinkUsb.HostFs.FileTransfer
