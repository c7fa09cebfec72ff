import PsplinkUsb.Library.Numerals
import PsplinkUsb.Psplink.UsbShell

namespace PsplinkUsb.Psplink.ParseThread

open PsplinkUsb.Library.CString
open PsplinkUsb.Library.Numerals
open PsplinkUsb.Psplink.UsbShell

abbrev Word := BitVec 32

def numberSign : UInt8 := 0x23
def shellCmdSuccess : UInt8 := 0xFD
def shellCmdError : UInt8 := 0xFC

/-- The size of `argv` in `shellParseThread`. -/
def maxArgs : ℕ := 16

structure ShCommand where
  name : Bytes
  syn : Option Bytes
  minArgs : ℕ

/-- The values the functions of the commands return. -/
inductive CmdResult where
  | ok
  | error
  | exitShell
deriving DecidableEq, Repr

/-- How the function of a command ends, and what it leaves in `vRet`: it returns, or an exception
takes the thread back to `setjmp`. -/
inductive Outcome where
  | returns (ret : CmdResult) (vRet : Word)
  | exception (vRet : Word)
deriving DecidableEq, Repr

def findCommand (commands : List ShCommand) (cmd : Bytes) : Option ShCommand :=
  commands.find? fun c => cmd = c.name ∨ some cmd = c.syn

/-- `shellExecute` under `setjmp`: the result and `vRet`. -/
def shellExecute (commands : List ShCommand) (argv : List Bytes) (outcome : Outcome) :
    CmdResult × Word :=
  match argv with
  | [] => (.ok, 0)
  | cmd :: args =>
      if cmd.head? = some numberSign then (.ok, 0)
      else if (findCommand commands cmd).any fun found => found.minArgs ≤ args.length then
        match outcome with
        | .returns ret vRet => (ret, vRet)
        | .exception vRet => (.error, vRet)
      else (.error, 0)

def hexWord (w : Word) : Bytes := zero :: lowerX :: padded 8 16 w.toNat

/-- The frame that ends a command, unless the shell is left. -/
def reply : CmdResult × Word → Option Bytes
  | (.ok, vRet) => some (shellCmdSuccess :: hexWord vRet)
  | (.error, vRet) => some (shellCmdError :: hexWord vRet)
  | (.exitShell, _) => none

/-- Where the thread is: before the prompt of `usbShellInit`, in `usbShellReadInput`, at a
command, or gone with one. -/
inductive Phase where
  | starting
  | reading
  | executing (argv : List Bytes)
  | exited (argv : List Bytes)
deriving DecidableEq, Repr

/-- The strings in the buffer that `argv` points to. -/
def argvOf (t : ReadInput) : List Bytes :=
  t.argv.map fun i => (List.range (strlen t.cli i maxCli)).map fun j => t.cli (i + j)

variable {s : ReadInput} {data left more : Bytes} {ss : List Bytes} {reads : Reads} {cli : Buffer}

theorem range_of_holdsString {buf : Buffer} {offset room : ℕ} {str : Bytes}
    (h : HoldsString buf offset str) (hroom : str.length < room) :
    ((List.range (strlen buf offset room)).map fun j => buf (offset + j)) = str := by
  rw [h.strlen_eq hroom]
  apply List.ext_getElem
  · simp
  · intro i hi hi'
    rw [List.getElem_map, List.getElem_range]
    have hat := h.2 i (by simp; omega)
    rwa [List.getElem_append_left hi'] at hat

theorem length_le_strings {str : Bytes} (h : str ∈ ss) : str.length ≤ (strings ss).length := by
  induction ss with
  | nil => exact absurd h List.not_mem_nil
  | cons s ss ih =>
      rw [strings, List.length_append, List.length_cons]
      rcases List.mem_cons.mp h with rfl | h
      · omega
      · have hle := ih h
        omega

theorem argvOf_eq {t : ReadInput} (h : List.Forall₂ (HoldsString t.cli) t.argv ss)
    (hroom : (strings ss).length < maxCli) : argvOf t = ss := by
  have hshort : ∀ str ∈ ss, str.length < maxCli :=
    fun str hstr => (length_le_strings hstr).trans_lt hroom
  rw [argvOf]
  clear hroom
  generalize t.argv = argv at h
  induction h with
  | nil => rfl
  | cons hstr _ ih =>
      rw [List.map_cons, range_of_holdsString hstr (hshort _ List.mem_cons_self),
        ih fun str hstr => hshort str (List.mem_cons_of_mem _ hstr)]

theorem argv_foldl_store (hleft : 0 ∉ left) :
    (left.foldl (ReadInput.store maxCli maxArgs) s).argv = s.argv := by
  induction left generalizing s with
  | nil => rfl
  | cons ch left ih =>
      have hch := (List.ne_of_not_mem_cons hleft).symm
      rw [List.foldl_cons, ih (List.not_mem_of_not_mem_cons hleft), ReadInput.store]
      split
      · rw [if_neg fun h => hch h.1]
      · rfl

theorem readInput_command (hss : ∀ str ∈ ss, 0 ∉ str ∧ 1 ∉ str) (hargs : ss.length ≤ maxArgs)
    (hzero : 0 ∉ left) (hone : 1 ∉ left) (hroom : (strings ss).length + left.length < maxCli)
    (hreads : reads.reduceOption = strings ss ++ left ++ 1 :: more) :
    ∃ t later, usbShellReadInput cli maxCli maxArgs reads = some (t, later) ∧ argvOf t = ss ∧
      later.reduceOption = more := by
  have hclean : 1 ∉ strings ss ++ left := by
    rw [List.mem_append, not_or]
    exact ⟨not_mem_strings (by decide) fun str hstr => (hss str hstr).2, hone⟩
  obtain ⟨later, hlater, heq⟩ := readInput_append maxCli maxArgs hclean hreads
  have hempty : Took (.start cli) [] := ⟨rfl, holds_nil⟩
  obtain ⟨t, ht, htook, hargv⟩ := took_strings maxCli maxArgs hempty
    (fun str hstr => (hss str hstr).1) rfl (by simpa [ReadInput.start] using hargs)
    (by simp only [List.length_nil]; omega)
  rw [List.nil_append] at htook
  obtain ⟨u, hu, hutook, huargv, -⟩ := took_string maxCli maxArgs htook hzero (by omega)
  obtain ⟨last, hlast, hstop⟩ := readInput_one maxCli maxArgs (s := u) hlater
  have hholds : List.Forall₂ (HoldsString u.cli) u.argv ss := by
    rw [huargv, hargv]
    exact (holds_append.mp hutook.2).1.strings fun s hs => (hss s hs).1
  have hstored := hutook.2.store 0
  rw [Nat.zero_add, ← hutook.1, List.append_assoc] at hstored
  refine ⟨_, last, by rw [usbShellReadInput, heq, List.foldl_append, ht, hu, hstop], ?_, hlast⟩
  refine argvOf_eq ?_ (by omega)
  have hfront : Holds (Function.update u.cli u.cliPos 0) 0 (strings ss) :=
    (holds_append.mp hstored).1
  have hsame : u.argv = starts 0 ss := by
    rw [huargv, hargv]
    rfl
  simp only [hsame]
  exact hfront.strings fun s hs => (hss s hs).1

theorem readInput_empty (hzero : 0 ∉ left) (hone : 1 ∉ left)
    (hreads : reads.reduceOption = left ++ 1 :: more) :
    ∃ t later, usbShellReadInput cli maxCli maxArgs reads = some (t, later) ∧ argvOf t = [] ∧
      later.reduceOption = more := by
  obtain ⟨later, hlater, heq⟩ := readInput_append maxCli maxArgs (s := .start cli) hone hreads
  obtain ⟨last, hlast, hstop⟩ := readInput_one maxCli maxArgs
    (s := left.foldl (ReadInput.store maxCli maxArgs) (.start cli)) hlater
  refine ⟨_, last, by rw [usbShellReadInput, heq, hstop], ?_, hlast⟩
  simp only [argvOf, argv_foldl_store hzero, ReadInput.start, List.map_nil]

end PsplinkUsb.Psplink.ParseThread
