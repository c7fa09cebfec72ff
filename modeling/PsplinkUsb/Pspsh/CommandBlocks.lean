import PsplinkUsb.Pspsh.LineParts
import PsplinkUsb.Pspsh.PlainWords

namespace PsplinkUsb.Pspsh.CommandBlocks

open PsplinkUsb.Library.Ascii
open PsplinkUsb.Library.CString
open PsplinkUsb.Pspsh.ExecuteLine
open PsplinkUsb.Pspsh.LineParts
open PsplinkUsb.Pspsh.ParseArgs
open PsplinkUsb.Pspsh.ParseArgsLaws
open PsplinkUsb.Pspsh.PlainWords

/-- One or more arguments, each with its zero byte, and a byte 1. -/
def Block (result : ℕ × Cli) : Prop :=
  ∃ args : List Bytes, args ≠ [] ∧ (∀ arg ∈ args, 0 ∉ arg) ∧ result.2.argv = starts 0 args ∧
    result.2.out = strings args ++ [1] ∧ result.1 = result.2.out.length

/-- `read_string` finds something and cannot read it. -/
def Malformed (env : Env) (p : LinePart) : Prop :=
  (readString env p.line).len = 0 ∧ p.line.dropWhile isSpace ≠ []

/-- A block, or nothing; and nothing if some token is malformed. -/
def BlockOrRefused (env : Env) (max : ℕ) (line : CStr) (tokens : List LinePart) : Prop :=
  ((parseCli env max line).1 ≠ 0 → Block (parseCli env max line)) ∧
    ((∃ p ∈ tokens, Malformed env p) → (parseCli env max line).1 = 0)

/-- The parts of a line behind its leading white space. -/
def lineParts (env : Env) (line : CStr) : List LinePart := parts env (line.val.dropWhile isSpace)

/-- There is nothing to parse; or the output goes to a file without a name; or there is an
argument and every token can be read. -/
def Parsable (env : Env) (max : ℕ) (line : CStr) (tokens : List LinePart) : Prop :=
  max = 0 ∨ line.val.dropWhile isSpace = [] ∨
    (∃ file, .file file ∈ taken (max - 1) (lineParts env line) ∧ (readString env file).len = 0) ∨
    (∃ arg, .arg arg ∈ taken (max - 1) (lineParts env line)) ∧ ∀ p ∈ tokens, ¬Malformed env p

variable {env : Env} {max : ℕ} {line : CStr} {tokens : List LinePart}

theorem refused_iff :
    (parseWords env max .empty (line.val.dropWhile isSpace)).1 = false ↔
      ∃ file, .file file ∈ taken (max - 1) (lineParts env line) ∧ (readString env file).len = 0 :=
  parseWords_refused max .empty _

theorem parseCli_run (hmax : max ≠ 0) (hskip : line.val.dropWhile isSpace ≠ []) :
    parseCli env max line =
      let r := parseWords env max .empty (line.val.dropWhile isSpace)
      if r.1 then (r.2.out.length + 1, { r.2 with out := r.2.out ++ [1] }) else (0, r.2) := by
  obtain ⟨ch, input, hcons⟩ := List.exists_cons_of_ne_nil hskip
  rw [parseCli, if_neg hmax, hcons]

theorem parseCli_zero_iff :
    (parseCli env max line).1 = 0 ↔
      max = 0 ∨ line.val.dropWhile isSpace = [] ∨
        ∃ file, .file file ∈ taken (max - 1) (lineParts env line) ∧
          (readString env file).len = 0 := by
  rcases eq_or_ne max 0 with rfl | hmax
  · exact iff_of_true rfl (.inl rfl)
  rcases eq_or_ne (line.val.dropWhile isSpace) [] with hskip | hskip
  · rw [parseCli, if_neg hmax, hskip]
    exact iff_of_true rfl (.inr (.inl rfl))
  rw [parseCli_run hmax hskip, or_iff_right hmax, or_iff_right hskip, ← refused_iff]
  dsimp only
  split
  · rename_i hok
    exact iff_of_false (Nat.succ_ne_zero _) (by rw [hok]; exact Bool.noConfusion)
  · rename_i hfail
    exact iff_of_true rfl (Bool.eq_false_of_not_eq_true hfail)

theorem not_block {result : ℕ × Cli} (h : result.2.argv = []) : ¬Block result := by
  rintro ⟨args, hargs, -, hargv, -⟩
  obtain ⟨arg, args, rfl⟩ := List.exists_cons_of_ne_nil hargs
  cases h.symm.trans hargv

theorem block_iff (hsome : (parseCli env max line).1 ≠ 0)
    (hgood : ∀ p ∈ taken (max - 1) (lineParts env line), ¬Malformed env p) :
    Block (parseCli env max line) ↔ ∃ arg, .arg arg ∈ taken (max - 1) (lineParts env line) := by
  rw [ne_eq, parseCli_zero_iff, not_or, not_or, ← refused_iff, Bool.not_eq_false] at hsome
  obtain ⟨hmax, hskip, hok⟩ := hsome
  have hnul : 0 ∉ line.val.dropWhile isSpace :=
    fun hmem => line.2 ((List.dropWhile_suffix _).mem hmem)
  have htrim : (line.val.dropWhile isSpace).dropWhile isSpace = line.val.dropWhile isSpace := by
    rw [List.dropWhile_idempotent]
  have hread : ∀ arg, .arg arg ∈ taken (max - 1) (lineParts env line) →
      (readString env arg).len ≠ 0 := fun arg harg hlen =>
    hgood _ harg ⟨hlen, arg_nonblank htrim arg ((taken_sublist _ _).mem harg)⟩
  obtain ⟨words, ⟨hout, hargv, hwords⟩, hnone⟩ :=
    parseWords_strings max hnul emits_empty hread
  rw [List.append_nil] at hout
  have harg : words ≠ [] ↔ ∃ arg, .arg arg ∈ taken (max - 1) (lineParts env line) := by
    rw [ne_eq, hnone, not_forall_not]
    rfl
  rw [parseCli_run hmax hskip, ← harg]
  simp only [hok, if_true]
  constructor
  · intro hblock hempty
    rw [hempty] at hargv
    exact not_block hargv hblock
  · intro hne
    exact ⟨words, hne, hwords, hargv, congrArg (· ++ [1]) hout, by simp⟩

theorem blockOrRefused_iff (htaken : ∀ p ∈ taken (max - 1) (lineParts env line), p ∈ tokens) :
    BlockOrRefused env max line tokens ↔ Parsable env max line tokens := by
  have hzero := @parseCli_zero_iff env max line
  rcases eq_or_ne (parseCli env max line).1 0 with hnone | hsome
  · have hparsable : Parsable env max line tokens := by
      rcases hzero.mp hnone with hmax | hskip | hfile
      · exact .inl hmax
      · exact .inr (.inl hskip)
      · exact .inr (.inr (.inl hfile))
    exact iff_of_true ⟨fun hsome => absurd hnone hsome, fun _ => hnone⟩ hparsable
  · have hopen := hzero.not.mp hsome
    rw [not_or, not_or] at hopen
    rw [Parsable, or_iff_right hopen.1, or_iff_right hopen.2.1, or_iff_right hopen.2.2]
    constructor
    · rintro ⟨hblock, hrefused⟩
      have hgood : ∀ p ∈ tokens, ¬Malformed env p := fun p hp hbad =>
        hsome (hrefused ⟨p, hp, hbad⟩)
      exact ⟨(block_iff hsome fun p hp => hgood p (htaken p hp)).mp (hblock hsome), hgood⟩
    · rintro ⟨harg, hgood⟩
      refine ⟨fun _ => (block_iff hsome fun p hp => hgood p (htaken p hp)).mpr harg, ?_⟩
      rintro ⟨p, hp, hbad⟩
      exact absurd hbad (hgood p hp)

/-- `execute_line` never follows the null pointer in `argv[0]`, and sends nothing for a line with
a malformed token. -/
def Unharmed (s : GlobalContext) (line : CStr) : Prop :=
  (∀ out, parsed s.env line ≠ some (out, [])) ∧
    ((∃ p ∈ lineParts s.env line, Malformed s.env p) →
      ∀ script, executeLine script line s = (false, s))

theorem unharmed {s : GlobalContext}
    (h : BlockOrRefused s.env maxArgs line (lineParts s.env line)) : Unharmed s line := by
  obtain ⟨hblock, hrefused⟩ := h
  constructor
  · intro out hparsed
    rw [parsed] at hparsed
    split at hparsed
    · rename_i hsome
      have hargv := (Prod.mk.inj (Option.some.inj hparsed)).2
      rw [argvStrings, List.map_eq_nil_iff] at hargv
      exact not_block hargv (hblock (Nat.ne_of_gt hsome.1))
    · cases hparsed
  · intro hbad script
    have hnone : parsed s.env line = none := by
      rw [parsed, if_neg]
      rw [hrefused hbad]
      exact fun hsome => Nat.lt_irrefl 0 hsome.1
    rw [executeLine, executeLineWith, hnone]

/-- `parse_cli` gives a block or nothing exactly for the lines that can be parsed, whether or not
the tokens behind the last argument there is room for count. -/
theorem parse_cli_block_iff (env : Env) (max : ℕ) (line : CStr) :
    (BlockOrRefused env max line (lineParts env line) ↔
        Parsable env max line (lineParts env line)) ∧
      (BlockOrRefused env max line (taken (max - 1) (lineParts env line)) ↔
        Parsable env max line (taken (max - 1) (lineParts env line))) ∧
      ∀ s : GlobalContext, s.env = env → max = maxArgs →
        Parsable env max line (lineParts env line) → Unharmed s line := by
  have hall := @blockOrRefused_iff env max line _ fun p hp => (taken_sublist _ _).mem hp
  refine ⟨hall, blockOrRefused_iff fun p hp => hp, ?_⟩
  rintro s rfl rfl hparsable
  exact unharmed (hall.mpr hparsable)

/-- The line `"abc` is a command without arguments, and so is `>f`. -/
theorem command_without_arguments :
    let env : Env := { getenv := fun _ => none, sargc := 0, sargv := none }
    let quote : CStr := ⟨[0x22, 0x61, 0x62, 0x63], by decide⟩
    let file : CStr := ⟨[0x3E, 0x66], by decide⟩
    (¬BlockOrRefused env maxArgs quote (lineParts env quote) ∧
        parsed env quote = some ([0x61, 0x62, 0x63, 1], [])) ∧
      ¬BlockOrRefused env maxArgs file (lineParts env file) ∧ parsed env file = some ([1], []) := by
  intro env quote file
  have hquote : parseCli env maxArgs quote =
      (4, { out := [0x61, 0x62, 0x63, 1], argv := [], type := .none, redir := [] }) := by
    decide +kernel
  have hfile : parseCli env maxArgs file =
      (1, { out := [1], argv := [], type := .new, redir := [0x66, 0] }) := by
    decide +kernel
  refine ⟨⟨fun h => ?_, ?_⟩, fun h => ?_, ?_⟩
  · have hsome : (parseCli env maxArgs quote).1 ≠ 0 := by rw [hquote]; decide
    exact not_block (by rw [hquote]) (h.1 hsome)
  · rw [parsed, hquote]
    rfl
  · have hsome : (parseCli env maxArgs file).1 ≠ 0 := by rw [hfile]; decide
    exact not_block (by rw [hfile]) (h.1 hsome)
  · rw [parsed, hfile]
    rfl

end PsplinkUsb.Pspsh.CommandBlocks
