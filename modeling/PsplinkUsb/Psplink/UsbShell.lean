import Mathlib.Data.List.ReduceOption
import PsplinkUsb.Library.CString

/-!
`usbShellReadInput` of `psplink/usbshell.c`: commands come as strings, with a byte 1
behind the last.
-/

namespace PsplinkUsb.Psplink.UsbShell

open PsplinkUsb.Library.CString

abbrev Bytes := List UInt8

def maxCli : ℕ := 4096
def maxArg : ℕ := 16

/-- What each `usbAsyncRead` of one byte gives; `none` is a failed one. -/
abbrev Reads := List (Option UInt8)

/-- The buffer, the place in it, and where the arguments and the next one start. -/
structure ReadInput where
  cli : Buffer
  cliPos : ℕ
  argv : List ℕ
  argstart : ℕ

def ReadInput.start (cli : Buffer) : ReadInput :=
  { cli := cli, cliPos := 0, argv := [], argstart := 0 }

/-- A byte that is not 1. The last place of the buffer is written again and again. -/
def ReadInput.store (maxCli maxArg : ℕ) (s : ReadInput) (ch : UInt8) : ReadInput :=
  let cli := Function.update s.cli s.cliPos ch
  if s.cliPos < maxCli - 1 then
    if ch = 0 ∧ s.argv.length < maxArg then
      { cli := cli, cliPos := s.cliPos + 1, argv := s.argv ++ [s.argstart]
        argstart := s.cliPos + 1 }
    else { s with cli := cli, cliPos := s.cliPos + 1 }
  else { s with cli := cli }

/-- `none` while the command has no end yet. -/
def readInput (maxCli maxArg : ℕ) (s : ReadInput) : Reads → Option (ReadInput × Reads)
  | [] => none
  | none :: reads => readInput maxCli maxArg s reads
  | some ch :: reads =>
      if ch = 1 then some ({ s with cli := Function.update s.cli s.cliPos 0 }, reads)
      else readInput maxCli maxArg (s.store maxCli maxArg ch) reads

def usbShellReadInput (cli : Buffer) (maxCli maxArg : ℕ) (reads : Reads) :
    Option (ReadInput × Reads) :=
  readInput maxCli maxArg (.start cli) reads

section

variable (maxCli maxArg : ℕ) {s : ReadInput} {reads : Reads} {data more : Bytes}

theorem readInput_append (hone : 1 ∉ data) (hreads : reads.reduceOption = data ++ more) :
    ∃ later : Reads, later.reduceOption = more ∧
      readInput maxCli maxArg s reads =
        readInput maxCli maxArg (data.foldl (ReadInput.store maxCli maxArg) s) later := by
  induction reads generalizing s data with
  | nil =>
      obtain ⟨rfl, rfl⟩ := List.append_eq_nil_iff.mp hreads.symm
      exact ⟨[], rfl, rfl⟩
  | cons read reads ih =>
      cases read with
      | none =>
          rw [List.reduceOption_cons_of_none] at hreads
          exact ih hone hreads
      | some ch =>
          cases data with
          | nil => exact ⟨some ch :: reads, hreads, rfl⟩
          | cons b data =>
              rw [List.reduceOption_cons_of_some, List.cons_append] at hreads
              obtain ⟨rfl, hrest⟩ := List.cons.inj hreads
              obtain ⟨later, hlater, heq⟩ :=
                ih (List.not_mem_of_not_mem_cons hone) hrest
              refine ⟨later, hlater, ?_⟩
              rw [readInput, if_neg (List.ne_of_not_mem_cons hone).symm, heq, List.foldl_cons]

theorem readInput_one (hreads : reads.reduceOption = 1 :: more) :
    ∃ later : Reads, later.reduceOption = more ∧
      readInput maxCli maxArg s reads =
        some ({ s with cli := Function.update s.cli s.cliPos 0 }, later) := by
  induction reads with
  | nil => simp at hreads
  | cons read reads ih =>
      cases read with
      | none =>
          rw [List.reduceOption_cons_of_none] at hreads
          exact ih hreads
      | some ch =>
          rw [List.reduceOption_cons_of_some] at hreads
          obtain ⟨rfl, hrest⟩ := List.cons.inj hreads
          exact ⟨reads, hrest, by rw [readInput, if_pos rfl]⟩

/-- The bytes taken so far stand at the beginning of the buffer. -/
def Took (s : ReadInput) (data : Bytes) : Prop := s.cliPos = data.length ∧ Holds s.cli 0 data

theorem took_store (ch : UInt8) (h : Took s data) (hroom : data.length < maxCli - 1) :
    Took (s.store maxCli maxArg ch) (data ++ [ch]) := by
  obtain ⟨hpos, hholds⟩ := h
  have hstored := hholds.store ch
  rw [Nat.zero_add, ← hpos] at hstored
  rw [ReadInput.store, if_pos (by omega)]
  split
  · exact ⟨by rw [List.length_append, hpos, List.length_singleton], hstored⟩
  · exact ⟨by rw [List.length_append, hpos, List.length_singleton], hstored⟩

theorem took_string {str : Bytes} (h : Took s data) (hnul : 0 ∉ str)
    (hroom : data.length + str.length < maxCli) :
    ∃ t, str.foldl (ReadInput.store maxCli maxArg) s = t ∧ Took t (data ++ str) ∧
      t.argv = s.argv ∧ t.argstart = s.argstart := by
  induction str generalizing s data with
  | nil => exact ⟨s, rfl, by rwa [List.append_nil], rfl, rfl⟩
  | cons ch str ih =>
      have hch := (List.ne_of_not_mem_cons hnul).symm
      rw [List.length_cons] at hroom
      have hless : s.cliPos < maxCli - 1 := by
        have := h.1
        omega
      have hnext := took_store maxCli maxArg ch h (by omega)
      obtain ⟨t, ht, htook, hargv, hstart⟩ := ih hnext (List.not_mem_of_not_mem_cons hnul) (by
        rw [List.length_append, List.length_singleton]
        omega)
      rw [List.append_assoc, List.singleton_append] at htook
      have hplain : s.store maxCli maxArg ch =
          { s with cli := Function.update s.cli s.cliPos ch, cliPos := s.cliPos + 1 } := by
        rw [ReadInput.store, if_pos hless, if_neg (fun hzero => hch hzero.1)]
      rw [hplain] at hargv hstart
      exact ⟨t, ht, htook, hargv, hstart⟩

theorem took_strings {ss : List Bytes} (h : Took s data) (hss : ∀ str ∈ ss, 0 ∉ str)
    (hstart : s.argstart = s.cliPos) (hargs : s.argv.length + ss.length ≤ maxArg)
    (hroom : data.length + (strings ss).length < maxCli) :
    ∃ t, (strings ss).foldl (ReadInput.store maxCli maxArg) s = t ∧
      Took t (data ++ strings ss) ∧ t.argv = s.argv ++ starts data.length ss := by
  induction ss generalizing s data with
  | nil => exact ⟨s, rfl, by rwa [strings, List.append_nil], by rw [starts, List.append_nil]⟩
  | cons str ss ih =>
      simp only [strings, List.length_append, List.length_cons] at hroom hargs ⊢
      obtain ⟨t, ht, htook, hargv, hargstart⟩ := took_string maxCli maxArg h
        (hss str List.mem_cons_self) (by omega)
      have hpos := htook.1
      have hended := took_store maxCli maxArg 0 htook (by
        rw [List.length_append]
        omega)
      rw [List.length_append] at hpos
      have hmore : t.argv.length < maxArg := by
        rw [hargv]
        omega
      have hstore : t.store maxCli maxArg 0 =
          { cli := Function.update t.cli t.cliPos 0, cliPos := t.cliPos + 1
            argv := t.argv ++ [t.argstart], argstart := t.cliPos + 1 } := by
        rw [ReadInput.store, if_pos (by omega), if_pos ⟨rfl, hmore⟩]
      obtain ⟨u, hu, hutook, huargv⟩ := ih hended (fun s hs => hss s (List.mem_cons_of_mem _ hs))
        (by rw [hstore]) (by
          rw [hstore, List.length_append, List.length_singleton, hargv]
          omega) (by
          simp only [List.length_append, List.length_singleton]
          omega)
      refine ⟨u, ?_, ?_, ?_⟩
      · rw [List.foldl_append, ht, List.foldl_cons, hu]
      · simpa only [List.append_assoc, List.singleton_append] using hutook
      · rw [huargv, hstore, hargv, hargstart, hstart, h.1, starts]
        simp only [List.length_append, List.length_singleton, List.append_assoc,
          List.singleton_append, Nat.add_assoc]

/-- Strings without a byte 1 and a byte 1 behind them, in a buffer with room for all, are
the arguments, and nothing more is read. -/
theorem usbShellReadInput_strings {ss : List Bytes} (cli : Buffer)
    (hss : ∀ str ∈ ss, 0 ∉ str ∧ 1 ∉ str) (hargs : ss.length ≤ maxArg)
    (hroom : (strings ss).length < maxCli)
    (hreads : reads.reduceOption = strings ss ++ 1 :: more) :
    ∃ t later, usbShellReadInput cli maxCli maxArg reads = some (t, later) ∧
      List.Forall₂ (HoldsString t.cli) t.argv ss ∧ later.reduceOption = more := by
  have hone : 1 ∉ strings ss :=
    not_mem_strings (by decide) fun str hstr => (hss str hstr).2
  obtain ⟨later, hlater, heq⟩ := readInput_append maxCli maxArg hone hreads
  have hempty : Took (.start cli) [] := ⟨rfl, holds_nil⟩
  obtain ⟨t, ht, htook, hargv⟩ := took_strings maxCli maxArg hempty
    (fun str hstr => (hss str hstr).1) rfl (by simpa [ReadInput.start] using hargs)
    (by simpa using hroom)
  obtain ⟨last, hlast, hstop⟩ := readInput_one maxCli maxArg (s := t) hlater
  have hstored := htook.2.store 0
  rw [Nat.zero_add, ← htook.1] at hstored
  refine ⟨_, last, by rw [usbShellReadInput, heq, ht, hstop], ?_, hlast⟩
  rw [List.nil_append] at hstored
  simp only [hargv, ReadInput.start, List.nil_append, List.length_nil]
  exact (holds_append.mp hstored).1.strings fun s hs => (hss s hs).1

end

end PsplinkUsb.Psplink.UsbShell
