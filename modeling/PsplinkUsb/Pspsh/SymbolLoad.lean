import PsplinkUsb.Library.Numerals
import PsplinkUsb.Psplink.ProgramMemory
import PsplinkUsb.Psplink.ShellOutput
import PsplinkUsb.Pspsh.Operands
import PsplinkUsb.Pspsh.ReadSocket

namespace PsplinkUsb.Pspsh.SymbolLoad

open PsplinkUsb.Library.Ascii
open PsplinkUsb.Library.CString
open PsplinkUsb.Library.Frames
open PsplinkUsb.Library.Numerals
open PsplinkUsb.Psplink.ProgramMemory (Word)
open PsplinkUsb.Psplink.ShellOutput (payloads crlf newline carriageReturn)
open PsplinkUsb.Pspsh.Operands (text)
open PsplinkUsb.Pspsh.ReadSocket

def shellCmdSymload : UInt8 := 0xF7

/-- What `print_sym_info` prints about a module, for the `SHELL_PRINT_CMD` of
`"%08X%08X%s"`. -/
def printSymInfo (textAddr devkitVersion : Word) (name : CStr) : Bytes :=
  shellCmdBegin :: shellCmdSymload :: (padded 8 16 textAddr.toNat ++
    padded 8 16 devkitVersion.toNat ++ name.val) ++ [shellCmdEnd]

/-- What `process_cmd` shows of a symbol load message. -/
structure Symload where
  sha1 : Bytes
  addr : Bytes
  name : Bytes
  deriving DecidableEq

/-- The last branch of `process_cmd`. -/
def readSymload (str : Bytes) : Option Symload :=
  if str.head? = some shellCmdSymload then
    let str := str.drop 1
    if 40 + 8 < str.length then
      some { sha1 := str.take 40, addr := (str.drop 40).take 8, name := str.drop (40 + 8) }
    else none
  else none

/-- One of the strings processed is a message about that module at that address. -/
def Decoded (reads : List Bytes) (textAddr : Word) (name : CStr) : Prop :=
  ∃ str ∈ (readAll reads).processed, ∃ load, readSymload str = some load ∧
    load.addr = padded 8 16 textAddr.toNat ∧ load.name = name.val

instance (reads : List Bytes) (textAddr : Word) (name : CStr) :
    Decidable (Decoded reads textAddr name) :=
  decidable_of_iff (∃ str ∈ (readAll reads).processed, ∃ load ∈ readSymload str,
      load.addr = padded 8 16 textAddr.toNat ∧ load.name = name.val) Iff.rfl

section

variable {t : Bytes} {c : UInt8} {w : Word}

theorem length_padded_word (w : Word) : (padded 8 16 w.toNat).length = 8 :=
  length_padded (by decide) (by decide) w.isLt

theorem crlf_of_not_mem (h : newline ∉ t) : crlf t = t := by
  induction t with
  | nil => rfl
  | cons c t ih =>
      rw [List.mem_cons, not_or] at h
      rw [Psplink.ShellOutput.crlf_cons (Ne.symm h.1), ih h.2]

theorem crlf_newline (t : Bytes) : crlf (newline :: t) = carriageReturn :: newline :: crlf t :=
  rfl

theorem length_crlf (t : Bytes) :
    (crlf t).length = t.length + t.count newline ∧
      (crlf t).count newline = t.count newline ∧
      (crlf t).count carriageReturn = t.count carriageReturn + t.count newline := by
  have hne : newline ≠ carriageReturn := by decide
  induction t with
  | nil => exact ⟨rfl, rfl, rfl⟩
  | cons c t ih =>
      obtain ⟨hlength, hnewline, hreturn⟩ := ih
      rcases eq_or_ne c newline with rfl | hc
      · rw [crlf_newline]
        simp only [List.length_cons, List.count_cons_self, List.count_cons_of_ne hne,
          List.count_cons_of_ne hne.symm]
        omega
      · rw [Psplink.ShellOutput.crlf_cons hc]
        rw [List.count_cons_of_ne hc, List.count_cons_of_ne hc, List.count_cons, List.count_cons]
        simp only [List.length_cons]
        omega

theorem takeWhile_crlf_le (t : Bytes) :
    ((crlf t).takeWhile fun c => c = carriageReturn).length ≤
      (t.takeWhile fun c => c = carriageReturn).length + 1 := by
  induction t with
  | nil => exact Nat.zero_le _
  | cons c t ih =>
      rcases eq_or_ne c newline with rfl | hc
      · exact Nat.le_add_left _ _
      · rw [Psplink.ShellOutput.crlf_cons hc, List.takeWhile_cons, List.takeWhile_cons]
        split
        · exact Nat.succ_le_succ ih
        · exact Nat.zero_le _

theorem drop_crlf_ne {k : ℕ} (hk : 2 ≤ k) (h : k ≤ (crlf t).length) : (crlf t).drop k ≠ t := by
  intro hdrop
  have hsplit : crlf t = (crlf t).take k ++ t := by
    conv_lhs => rw [← List.take_append_drop k (crlf t), hdrop]
  have hk' : ((crlf t).take k).length = k := by
    rw [List.length_take]
    omega
  obtain ⟨hlength, -, hreturn⟩ := length_crlf t
  have hcount := congrArg (List.count carriageReturn) hsplit
  have hlength' := congrArg List.length hsplit
  rw [List.count_append] at hcount
  rw [List.length_append] at hlength'
  have hall : ∀ c ∈ (crlf t).take k, carriageReturn = c :=
    List.count_eq_length.mp (by omega)
  have hrun := takeWhile_crlf_le t
  rw [hsplit, List.takeWhile_append_of_pos, List.length_append] at hrun
  · omega
  · intro c hc
    exact decide_eq_true (hall c hc).symm

theorem mem_printed {name : CStr} {v : Word} (hc : isAlnum c = false) :
    c ∈ padded 8 16 w.toNat ++ padded 8 16 v.toNat ++ crlf name.val ↔ c ∈ crlf name.val := by
  have hno : ∀ w : Word, c ∉ padded 8 16 w.toNat := by
    intro w hmem
    have halnum := isAlnum_of_mem_padded (by decide) (by decide) 8 hmem
    rw [hc] at halnum
    cases halnum
  rw [List.mem_append, List.mem_append, or_iff_right (hno w), or_iff_right (hno v)]

/-- The output of `print_sym_info`, newlines as they are sent. -/
theorem crlf_printSymInfo (addr version : Word) (name : CStr) :
    crlf (printSymInfo addr version name) =
      shellCmdBegin :: (shellCmdSymload :: (padded 8 16 addr.toNat ++ padded 8 16 version.toNat ++
        crlf name.val)) ++ [shellCmdEnd] := by
  have hno : ∀ w : Word, crlf (padded 8 16 w.toNat) = padded 8 16 w.toNat := by
    intro w
    apply crlf_of_not_mem
    intro hmem
    have halnum := isAlnum_of_mem_padded (by decide) (by decide) 8 hmem
    revert halnum
    decide
  rw [printSymInfo, Psplink.ShellOutput.crlf_append, Psplink.ShellOutput.crlf_cons (by decide),
    Psplink.ShellOutput.crlf_cons (by decide), Psplink.ShellOutput.crlf_append,
    Psplink.ShellOutput.crlf_append, hno, hno]
  rfl

theorem mem_of_readSymload {str : Bytes} {load : Symload} (h : readSymload str = some load)
    (hc : c ∈ load.name) : c ∈ str := by
  rw [readSymload] at h
  split at h
  · dsimp only at h
    split at h
    · rw [← Option.some.inj h] at hc
      exact List.mem_of_mem_drop (List.mem_of_mem_drop hc)
    · cases h
  · cases h

/-- In the frame itself 16 characters stand before the name, where 48 are read. -/
theorem readSymload_frame {v : Word} {name : CStr} {load : Symload}
    (h : readSymload (shellCmdSymload :: (padded 8 16 w.toNat ++ padded 8 16 v.toNat ++
      crlf name.val)) = some load) : load.name ≠ name.val := by
  have hfront : (padded 8 16 w.toNat ++ padded 8 16 v.toNat).length = 16 := by
    rw [List.length_append, length_padded_word, length_padded_word]
  have hdrop : (padded 8 16 w.toNat ++ padded 8 16 v.toNat ++ crlf name.val).drop (40 + 8) =
      (crlf name.val).drop 32 := by
    calc (padded 8 16 w.toNat ++ padded 8 16 v.toNat ++ crlf name.val).drop (40 + 8) =
          (padded 8 16 w.toNat ++ padded 8 16 v.toNat ++ crlf name.val).drop
            ((padded 8 16 w.toNat ++ padded 8 16 v.toNat).length + 32) := by rw [hfront]
      _ = (crlf name.val).drop 32 := List.drop_length_add_append 32
  rw [readSymload, if_pos List.head?_cons] at h
  simp only [List.drop_succ_cons, List.drop_zero] at h
  split at h
  · rename_i hlong
    rw [List.length_append, hfront] at hlong
    rw [← Option.some.inj h]
    dsimp only
    rw [hdrop]
    exact drop_crlf_ne (by decide) (by omega)
  · cases h

end

/-- However the packets about a module are split into reads, no string processed gives its name. -/
theorem symload_not_decoded (textAddr devkitVersion : Word) (name : CStr) (reads : List Bytes)
    (h : reads.flatten = (payloads (printSymInfo textAddr devkitVersion name)).flatten) :
    ¬Decoded reads textAddr name := by
  rw [Psplink.ShellOutput.flatten_payloads, crlf_printSymInfo] at h
  have hnul : 0 ∉ shellCmdSymload :: (padded 8 16 textAddr.toNat ++
      padded 8 16 devkitVersion.toNat ++ crlf name.val) := by
    apply List.not_mem_cons_of_ne_of_not_mem (by decide)
    rw [mem_printed (by decide), Psplink.ShellOutput.mem_crlf (by decide)]
    exact name.property
  have hnul' : 0 ∉ reads.flatten := by
    rw [h]
    intro hmem
    rcases List.mem_append.mp hmem with hmem | hmem
    · exact List.not_mem_cons_of_ne_of_not_mem (by decide) hnul hmem
    · exact absurd (List.mem_singleton.mp hmem) (by decide)
  rintro ⟨str, hstr, load, hload, -, hname⟩
  rw [readAll_eq_scan reads hnul'] at hstr
  -- a name with a delimiter in it comes in no string, and without one there is one frame
  have hdelimiter : ∀ c, c = shellCmdBegin ∨ c = shellCmdEnd → c ∉ str → c ∉
      shellCmdSymload :: (padded 8 16 textAddr.toNat ++ padded 8 16 devkitVersion.toNat ++
        crlf name.val) := by
    intro c hc hnone
    have hspecial : c ≠ shellCmdSymload ∧ isAlnum c = false ∧ c ≠ carriageReturn := by
      rcases hc with rfl | rfl
      · decide
      · decide
    apply List.not_mem_cons_of_ne_of_not_mem hspecial.1
    rw [mem_printed hspecial.2.1, Psplink.ShellOutput.mem_crlf hspecial.2.2, ← hname]
    exact fun hmem => hnone (mem_of_readSymload hload hmem)
  obtain ⟨hbegin, hend⟩ := processed_plain hnul' str hstr
  have hplain : Plain shellCmdBegin shellCmdEnd (shellCmdSymload :: (padded 8 16 textAddr.toNat ++
      padded 8 16 devkitVersion.toNat ++ crlf name.val)) :=
    ⟨hdelimiter _ (.inl rfl) hbegin, hdelimiter _ (.inr rfl) hend⟩
  rw [h, scan_frame hplain (List.cons_ne_nil _ _) hnul] at hstr
  rw [List.mem_singleton.mp hstr] at hload
  exact readSymload_frame hload hname

/-- The module `main` at 0x08900000, in one read. -/
theorem symload_not_decoded_main :
    ¬Decoded [(payloads (printSymInfo 0x08900000 0x06060110 ⟨text "main", by decide⟩)).flatten]
      0x08900000 ⟨text "main", by decide⟩ :=
  symload_not_decoded 0x08900000 0x06060110 ⟨text "main", by decide⟩ _ (List.append_nil _)

/-- A name of four characters is not even taken for a message. -/
theorem symload_dropped :
    (readAll [(payloads (printSymInfo 0x08900000 0x06060110 ⟨text "main", by decide⟩)).flatten]).processed =
        [shellCmdSymload :: text "0890000006060110main"] ∧
      readSymload (shellCmdSymload :: text "0890000006060110main") = none := by
  decide +kernel

end PsplinkUsb.Pspsh.SymbolLoad
