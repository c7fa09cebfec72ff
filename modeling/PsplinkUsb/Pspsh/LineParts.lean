import Mathlib.Data.List.DropRight
import PsplinkUsb.Pspsh.ParseArgsLaws

namespace PsplinkUsb.Pspsh.LineParts

open PsplinkUsb.Library.Ascii
open PsplinkUsb.Library.CString
open PsplinkUsb.Pspsh.ParseArgs
open PsplinkUsb.Pspsh.ParseArgsLaws
open PsplinkUsb.Pspsh.Tokens

variable {env : Env} {inQuote ch : UInt8} {input rest : Bytes}

theorem ofDigits_ne_done (i : ℕ × UInt8) : Turn.ofDigits inQuote input i ≠ .done rest := by
  rw [Turn.ofDigits]
  split
  · exact Turn.noConfusion
  · exact Turn.noConfusion

theorem escape_ne_done : escape inQuote input ≠ .done rest := by
  cases input with
  | nil => exact Turn.noConfusion
  | cons ch input =>
      rw [escape]
      split_ifs
      · exact Turn.noConfusion
      · exact Turn.noConfusion
      · exact ofDigits_ne_done _
      · exact ofDigits_ne_done _
      · exact Turn.noConfusion

theorem turn_done (h : turn env inQuote ch input = .done rest) :
    isSpace ch = true ∧ rest = input.dropWhile isSpace ∨ ch = greater ∧ rest = ch :: input := by
  rw [turn] at h
  split_ifs at h with _ _ hspace hgreater
  · exact absurd h escape_ne_done
  · exact .inl ⟨hspace.1, (Turn.done.inj h).symm⟩
  · exact .inr ⟨hgreater.1, (Turn.done.inj h).symm⟩

theorem dropWhile_readChars (h : (readChars env inQuote input).error = false) :
    (readChars env inQuote input).rest.dropWhile isSpace = (readChars env inQuote input).rest := by
  induction inQuote, input using readChars.induct env with
  | case1 inQuote => rw [readChars, List.dropWhile_nil]
  | case2 inQuote ch input bytes q rest hturn ih =>
      rw [readChars_of_more hturn] at h ⊢
      exact ih h
  | case3 inQuote ch input rest hturn =>
      rw [readChars_of_done hturn]
      rcases turn_done hturn with ⟨-, rfl⟩ | ⟨rfl, rfl⟩
      · rw [List.dropWhile_idempotent]
      · rfl
  | case4 inQuote ch input rest hturn =>
      rw [readChars_of_error hturn] at h
      cases h

theorem dropWhile_readString (h : (readString env input).len ≠ 0) :
    (readString env input).rest.dropWhile isSpace = (readString env input).rest := by
  rw [readString] at h ⊢
  cases hskip : input.dropWhile isSpace with
  | nil => rfl
  | cons ch rest =>
      rw [hskip] at h
      dsimp only at h ⊢
      split at h
      · exact absurd rfl h
      · rename_i hgood
        rw [if_neg hgood]
        apply dropWhile_readChars
        exact Bool.eq_false_of_not_eq_true fun herror => hgood (.inr herror)

theorem length_readString_lt (h : ch ≠ greater) :
    (readString env (ch :: input)).rest.length < (ch :: input).length := by
  apply Nat.lt_succ_of_le
  by_cases hspace : isSpace ch = true
  · have hskip : readString env (ch :: input) = readString env input := by
      rw [readString, List.dropWhile_cons_of_pos hspace, ← readString]
    rw [hskip]
    exact length_readString_le env input
  · have hrest : (readString env (ch :: input)).rest = (readChars env 0 (ch :: input)).rest := by
      rw [readString_start (Bool.eq_false_of_not_eq_true hspace)]
      dsimp only
      split
      · rfl
      · rfl
    rw [hrest]
    rcases length_turn_le env 0 ch input with hle | hdone
    · cases hturn : turn env 0 ch input with
      | more bytes q rest =>
          rw [readChars_of_more hturn]
          rw [hturn] at hle
          exact (length_readChars_le env q rest).trans hle
      | done rest =>
          rw [readChars_of_done hturn]
          rwa [hturn] at hle
      | error rest =>
          rw [readChars_of_error hturn]
          rwa [hturn] at hle
    · rcases turn_done hdone with ⟨htrue, -⟩ | ⟨heq, -⟩
      · exact absurd htrue hspace
      · exact absurd heq h

/-- A call of `read_string`, with the line it is given. -/
inductive LinePart where
  | arg (line : Bytes)
  | file (line : Bytes)

def LinePart.line : LinePart → Bytes
  | .arg line => line
  | .file line => line

/-- The parts of a line, up to the first that `read_string` fails for. -/
def parts (env : Env) : Bytes → List LinePart
  | [] => []
  | ch :: input =>
      if _hch : ch = greater then
        .file (redirType input).2 ::
          if (readString env (redirType input).2).len = 0 then []
          else parts env (readString env (redirType input).2).rest
      else
        .arg (ch :: input) ::
          if (readString env (ch :: input)).len = 0 then []
          else parts env (readString env (ch :: input)).rest
termination_by input => input.length
decreasing_by
  · exact Nat.lt_succ_of_le ((length_readString_le env _).trans (length_redirType_le input))
  · exact length_readString_lt _hch

theorem parts_redir :
    parts env (greater :: input) =
      .file (redirType input).2 ::
        if (readString env (redirType input).2).len = 0 then []
        else parts env (readString env (redirType input).2).rest := by
  rw [parts, dif_pos rfl]

theorem parts_word (hch : ch ≠ greater) :
    parts env (ch :: input) =
      .arg (ch :: input) ::
        if (readString env (ch :: input)).len = 0 then []
        else parts env (readString env (ch :: input)).rest := by
  rw [parts, dif_neg hch]

/-- The parts that `parse_cli` gets to with room for so many arguments. -/
def taken : ℕ → List LinePart → List LinePart
  | 0, _ => []
  | _ + 1, [] => []
  | room + 1, .arg line :: ps => .arg line :: taken room ps
  | room + 1, .file line :: ps => .file line :: taken (room + 1) ps

theorem taken_sublist (room : ℕ) (ps : List LinePart) : (taken room ps).Sublist ps := by
  induction ps generalizing room with
  | nil =>
      cases room with
      | zero => exact .slnil
      | succ room => exact .slnil
  | cons p ps ih =>
      cases room with
      | zero => exact List.nil_sublist _
      | succ room =>
          cases p with
          | arg line => exact (ih room).cons_cons _
          | file line => exact (ih (room + 1)).cons_cons _

theorem arg_nonblank (hskip : input.dropWhile isSpace = input) :
    ∀ line, .arg line ∈ parts env input → line.dropWhile isSpace ≠ [] := by
  induction input using parts.induct env with
  | case1 =>
      intro line hline
      rw [parts] at hline
      exact absurd hline List.not_mem_nil
  | case2 input ih =>
      intro line hline
      rw [parts_redir] at hline
      have hline := (List.mem_cons.mp hline).resolve_left LinePart.noConfusion
      split at hline
      · exact absurd hline List.not_mem_nil
      · rename_i hlen
        exact ih (dropWhile_readString hlen) line hline
  | case3 ch input hch ih =>
      intro line hline
      rw [parts_word hch] at hline
      rcases List.mem_cons.mp hline with heq | hline
      · rw [LinePart.arg.inj heq, hskip]
        exact List.cons_ne_nil ch input
      · split at hline
        · exact absurd hline List.not_mem_nil
        · rename_i hlen
          exact ih (dropWhile_readString hlen) line hline

theorem room_of_lt {maxArgs argc : ℕ} (h : argc + 1 < maxArgs) :
    maxArgs - 1 - argc = maxArgs - 1 - (argc + 1) + 1 := by
  omega

theorem parseWords_refused (maxArgs : ℕ) (cli : Cli) (input : Bytes) :
    (parseWords env maxArgs cli input).1 = false ↔
      ∃ line, .file line ∈ taken (maxArgs - 1 - cli.argv.length) (parts env input) ∧
        (readString env line).len = 0 := by
  induction cli, input using parseWords.induct env maxArgs with
  | case1 cli hroom input r =>
      rename_i hlen
      rw [parseWords_redir hroom, if_pos hlen, parts_redir, room_of_lt hroom, taken]
      exact iff_of_true rfl ⟨_, List.mem_cons_self, hlen⟩
  | case2 cli hroom input r cli' hlen =>
      rename_i ih
      rw [parseWords_redir hroom, if_neg hlen, parts_redir, if_neg hlen, room_of_lt hroom, taken,
        ← room_of_lt hroom]
      refine ih.trans ⟨?_, ?_⟩
      · rintro ⟨line, hline, hfail⟩
        exact ⟨line, List.mem_cons_of_mem _ hline, hfail⟩
      · rintro ⟨line, hline, hfail⟩
        rcases List.mem_cons.mp hline with heq | hline
        · rw [LinePart.file.inj heq] at hfail
          exact absurd hfail hlen
        · exact ⟨line, hline, hfail⟩
  | case3 cli hroom ch input hch r =>
      rename_i hlen
      rw [parseWords_fail hroom hch hlen, parts_word hch, if_pos hlen, room_of_lt hroom, taken]
      refine iff_of_false Bool.noConfusion ?_
      rintro ⟨line, hline, -⟩
      have hline := (List.mem_cons.mp hline).resolve_left LinePart.noConfusion
      exact List.not_mem_nil ((taken_sublist _ _).mem hline)
  | case4 cli hroom ch input hch r argv hlen =>
      rename_i ih
      rw [List.length_append, List.length_singleton] at ih
      rw [parseWords_word hroom hch hlen, parts_word hch, if_neg hlen, room_of_lt hroom, taken]
      refine ih.trans ⟨?_, ?_⟩
      · rintro ⟨line, hline, hfail⟩
        exact ⟨line, List.mem_cons_of_mem _ hline, hfail⟩
      · rintro ⟨line, hline, hfail⟩
        exact ⟨line, (List.mem_cons.mp hline).resolve_left LinePart.noConfusion, hfail⟩
  | case5 cli hroom =>
      rw [parseWords_nil, parts]
      refine iff_of_false Bool.noConfusion ?_
      rintro ⟨line, hline, -⟩
      exact List.not_mem_nil ((taken_sublist _ _).mem hline)
  | case6 cli input hfull =>
      have hnone : maxArgs - 1 - cli.argv.length = 0 := by omega
      rw [parseWords_full hfull, hnone, taken]
      refine iff_of_false Bool.noConfusion ?_
      rintro ⟨line, hline, -⟩
      exact List.not_mem_nil hline

theorem parseWords_strings (maxArgs : ℕ) {cli : Cli} {args : List Bytes} {input : Bytes}
    (hnul : 0 ∉ input) (hemits : Emits cli args [])
    (hread : ∀ line, .arg line ∈ taken (maxArgs - 1 - cli.argv.length) (parts env input) →
      (readString env line).len ≠ 0) :
    ∃ words, Emits (parseWords env maxArgs cli input).2 (args ++ words) [] ∧
      (words = [] ↔
        ∀ line, .arg line ∉ taken (maxArgs - 1 - cli.argv.length) (parts env input)) := by
  induction cli, input using parseWords.induct env maxArgs generalizing args with
  | case1 cli hroom input r =>
      rename_i hlen
      rw [parseWords_redir hroom, if_pos hlen, parts_redir, if_pos hlen, room_of_lt hroom, taken,
        taken]
      refine ⟨[], by rwa [List.append_nil], iff_of_true rfl fun line hline => ?_⟩
      exact List.not_mem_nil ((List.mem_cons.mp hline).resolve_left LinePart.noConfusion)
  | case2 cli hroom input r cli' hlen =>
      rename_i ih
      have htarget : 0 ∉ (redirType input).2 := fun hmem =>
        hnul (List.mem_cons_of_mem _ ((redirType_suffix input).mem hmem))
      rw [parts_redir, if_neg hlen, room_of_lt hroom, taken, ← room_of_lt hroom] at hread ⊢
      rw [parseWords_redir hroom, if_neg hlen]
      obtain ⟨words, hwords, hnone⟩ := ih (readString_out env htarget).1 hemits
        fun line hline => hread line (List.mem_cons_of_mem _ hline)
      refine ⟨words, hwords, hnone.trans ⟨?_, ?_⟩⟩
      · intro hall line hline
        exact hall line ((List.mem_cons.mp hline).resolve_left LinePart.noConfusion)
      · intro hall line hline
        exact hall line (List.mem_cons_of_mem _ hline)
  | case3 cli hroom ch input hch r =>
      rename_i hlen
      rw [parts_word hch, if_pos hlen, room_of_lt hroom, taken] at hread
      exact absurd hlen (hread _ List.mem_cons_self)
  | case4 cli hroom ch input hch r argv hlen =>
      rename_i ih
      obtain ⟨hrest, hout⟩ := readString_out env hnul
      rw [if_neg hlen] at hout
      obtain ⟨word, hword, hout⟩ := hout
      have hnext := hemits.word hword
      rw [← hout] at hnext
      rw [List.length_append, List.length_singleton] at ih
      rw [parts_word hch, if_neg hlen, room_of_lt hroom, taken] at hread ⊢
      rw [parseWords_word hroom hch hlen]
      obtain ⟨words, hwords, -⟩ := ih hrest hnext
        fun line hline => hread line (List.mem_cons_of_mem _ hline)
      rw [List.append_assoc] at hwords
      refine ⟨word :: words, hwords, iff_of_false (List.cons_ne_nil _ _) ?_⟩
      intro hall
      exact hall _ List.mem_cons_self
  | case5 cli hroom =>
      rw [parseWords_nil, parts]
      refine ⟨[], by rwa [List.append_nil], iff_of_true rfl fun line hline => ?_⟩
      exact List.not_mem_nil ((taken_sublist _ _).mem hline)
  | case6 cli input hfull =>
      have hnone : maxArgs - 1 - cli.argv.length = 0 := by omega
      rw [parseWords_full hfull, hnone, taken]
      exact ⟨[], by rwa [List.append_nil], iff_of_true rfl fun line => List.not_mem_nil⟩

end PsplinkUsb.Pspsh.LineParts
