import PsplinkUsb.Pspsh.ParseArgsLaws
import PsplinkUsb.Psplink.UsbShell

namespace PsplinkUsb.Pspsh.ShellTransport

open PsplinkUsb.Library.CString
open PsplinkUsb.Pspsh.ParseArgs
open PsplinkUsb.Pspsh.ParseArgsLaws
open PsplinkUsb.Psplink.UsbShell hiding Bytes

/-- The size of `argv` in `execute_line`. -/
def maxArgs : ℕ := 16

variable {env : Env} {line : CStr} {args : List Bytes} {more : Bytes} {reads : Reads}

/-- The tokens of the line are the arguments, and nothing else is put out. -/
structure ParsesTo (env : Env) (line : CStr) (args : List Bytes) : Prop where
  len : (parseCli env maxArgs line).1 = (parseCli env maxArgs line).2.out.length
  argv : (parseCli env maxArgs line).2.argv = starts 0 args
  out : (parseCli env maxArgs line).2.out = strings args ++ [1]

/-- The arguments are there, and only what comes after the command is left to read. -/
def Delivered (args : List Bytes) (more : Bytes) (result : Option (ReadInput × Reads)) : Prop :=
  ∃ t later, result = some (t, later) ∧ List.Forall₂ (HoldsString t.cli) t.argv args ∧
    later.reduceOption = more

/-- The line that is typed for the arguments is read so. -/
theorem parsesTo_typed (env : Env) (hargs : ∀ arg ∈ args, 0 ∉ arg) (hsome : args ≠ [])
    (hcount : args.length < maxArgs) :
    ParsesTo env ⟨typed args, zero_not_mem_typed args⟩ args := by
  have hparse := parseCli_typed env hargs hsome hcount
  refine ⟨?_, ?_, ?_⟩
  · simp [hparse]
  · rw [hparse]
  · rw [hparse]

/-- With a byte 1 in an argument the command ends early. -/
theorem not_delivered {cli : Buffer} (hone : 1 ∈ strings args)
    (hreads : reads.reduceOption = strings args ++ 1 :: more) :
    ¬Delivered args more (usbShellReadInput cli maxCli maxArg reads) := by
  obtain ⟨before, after, hsplit, hbefore⟩ := List.eq_append_cons_of_mem hone
  rw [hsplit, List.append_assoc, List.cons_append] at hreads
  obtain ⟨later, hlater, heq⟩ := readInput_append maxCli maxArg (s := .start cli) hbefore hreads
  obtain ⟨last, hlast, hstop⟩ := readInput_one maxCli maxArg
    (s := before.foldl (ReadInput.store maxCli maxArg) (.start cli)) hlater
  rintro ⟨t, left, hresult, -, hleft⟩
  rw [usbShellReadInput, heq, hstop] at hresult
  obtain ⟨-, rfl⟩ := Prod.mk.inj (Option.some.inj hresult)
  have hlength := congrArg List.length (hlast.symm.trans hleft)
  simp only [List.length_append, List.length_cons] at hlength
  omega

/-- A command that fits arrives exactly when no argument has a byte 1. -/
theorem delivered_iff (hargs : ∀ arg ∈ args, 0 ∉ arg)
    (hcount : 1 ≤ args.length ∧ args.length ≤ 15) (hparse : ParsesTo env line args)
    (hfits : (parseCli env maxArgs line).1 ≤ maxCli) (cli : Buffer)
    (hreads : reads.reduceOption = (parseCli env maxArgs line).2.out ++ more) :
    Delivered args more (usbShellReadInput cli maxCli maxArg reads) ↔ ∀ arg ∈ args, 1 ∉ arg := by
  rw [hparse.len, hparse.out, List.length_append, List.length_singleton] at hfits
  rw [hparse.out, List.append_assoc, List.singleton_append] at hreads
  constructor
  · intro hdelivered arg harg hone
    exact not_delivered (mem_strings harg hone) hreads hdelivered
  · intro hone
    exact usbShellReadInput_strings maxCli maxArg cli (fun arg harg => ⟨hargs arg harg, hone arg harg⟩)
      (hcount.2.trans (by decide)) hfits hreads

/-- No variable is set and there is no script. -/
def noEnv : Env where
  getenv _ := none
  sargc := 0
  sargv := none

/-- `cp`, `a b` and `c`. -/
def copyArgs : List Bytes := [[0x63, 0x70], [0x61, 0x20, 0x62], [0x63]]

/-- The line `cp 'a b' c`, with the next command behind it. -/
theorem delivered_iff_cp :
    Delivered copyArgs [0x6C] (usbShellReadInput (fun _ => 0) maxCli maxArg
      [some 0x63, none, some 0x70, some 0, some 0x61, some 0x20, none, none, some 0x62, some 0,
        some 0x63, some 0, none, some 1, some 0x6C]) := by
  have hline : parseCli noEnv maxArgs
      ⟨[0x63, 0x70, 0x20, 0x27, 0x61, 0x20, 0x62, 0x27, 0x20, 0x63], by simp⟩ =
      (10, { out := [0x63, 0x70, 0, 0x61, 0x20, 0x62, 0, 0x63, 0, 1], argv := [0, 3, 7]
             type := .none, redir := [] }) := by
    decide +kernel
  have hparse : ParsesTo noEnv
      ⟨[0x63, 0x70, 0x20, 0x27, 0x61, 0x20, 0x62, 0x27, 0x20, 0x63], by simp⟩ copyArgs := by
    refine ⟨?_, ?_, ?_⟩
    · rw [hline]
      rfl
    · rw [hline]
      rfl
    · rw [hline]
      rfl
  refine (delivered_iff (by decide) (by decide) hparse ?_ _ ?_).mpr (by decide)
  · rw [hline]
    decide
  · rw [hline]
    rfl

/-- The line `\x01`: its argument is not delivered. -/
theorem byte_one_ends_command :
    ParsesTo noEnv ⟨[0x5C, 0x78, 0x30, 0x31], by simp⟩ [[1]] ∧
      ¬Delivered [[1]] [] (usbShellReadInput (fun _ => 0) maxCli maxArg
        ((parseCli noEnv maxArgs ⟨[0x5C, 0x78, 0x30, 0x31], by simp⟩).2.out.map some)) := by
  have hline : parseCli noEnv maxArgs ⟨[0x5C, 0x78, 0x30, 0x31], by simp⟩ =
      (3, { out := [1, 0, 1], argv := [0], type := .none, redir := [] }) := by
    decide +kernel
  refine ⟨⟨?_, ?_, ?_⟩, not_delivered ?_ ?_⟩
  · rw [hline]
    rfl
  · rw [hline]
    rfl
  · rw [hline]
    rfl
  · decide
  · rw [hline]
    rfl

end PsplinkUsb.Pspsh.ShellTransport
