import Mathlib.Algebra.GroupWithZero.Nat
import PsplinkUsb.Pspsh.InstructionTable

namespace PsplinkUsb.Pspsh.FormatCodes

open PsplinkUsb.Pspsh.InstructionTable

inductive FormatCode where
  | rd | rt | rs | imm | immu | ofs | pcofs | ofsRs | jump | jumpr | sa | cop0 | cop1
  | cop2d | cop2s | cop | extSize | insSize | debug | cache | fd | ft | fs
  | vt (kind : Char) | vs (kind : Char) | vd (kind : Char) | vo (kind : Char)
  | vofs | vcc | vcond | vi3 | vi5 | vi8 | vconst | vimm | vhalf | vrot | vpfx (pos : Char)
  | breakCode | syscallCode | vmmul
  deriving DecidableEq

namespace FormatCode

def letters : FormatCode → List Char
  | rd => ['d']
  | rt => ['t']
  | rs => ['s']
  | imm => ['i']
  | immu => ['I']
  | ofs => ['o']
  | pcofs => ['O']
  | ofsRs => ['V']
  | jump => ['j']
  | jumpr => ['J']
  | sa => ['a']
  | cop0 => ['0']
  | cop1 => ['1']
  | cop2d => ['2', 'd']
  | cop2s => ['2', 's']
  | cop => ['p']
  | extSize => ['n', 'e']
  | insSize => ['n', 'i']
  | debug => ['r']
  | cache => ['k']
  | fd => ['D']
  | ft => ['T']
  | fs => ['S']
  | vt kind => ['x', kind]
  | vs kind => ['y', kind]
  | vd kind => ['z', kind]
  | vo kind => ['X', kind]
  | vofs => ['Y']
  | vcc => ['Z', 'c']
  | vcond => ['Z', 'n']
  | vi3 => ['v', '3']
  | vi5 => ['v', '5']
  | vi8 => ['v', '8']
  | vconst => ['v', 'k']
  | vimm => ['v', 'i']
  | vhalf => ['v', 'h']
  | vrot => ['v', 'r']
  | vpfx pos => ['v', 'p', pos]
  | breakCode => ['c']
  | syscallCode => ['C']
  | vmmul => ['?']

def all : List FormatCode :=
  ['s', 'q', 'p', 't', 'n', 'm', 'o'].flatMap (fun kind => [vd kind, vs kind, vt kind]) ++
  [rt, rs, rd, imm, immu, ofs, pcofs, ofsRs, jump, jumpr, sa, cop0, cop1, cop2d, cop2s, cop,
   extSize, insSize, debug, cache, fd, ft, fs, vo 's', vo 'q', vofs, vcc, vcond, vi3, vi5, vi8,
   vconst, vimm, vhalf, vrot, breakCode, syscallCode, vmmul] ++
  ['0', '1', '2', '3', '4', '5', '6', '7'].map vpfx

/-- The code that a text starts with. No code starts another. -/
def ofChars (fmt : List Char) : Option FormatCode :=
  all.find? fun code => code.letters.isPrefixOf fmt

end FormatCode

/-- A part of a format: a character that stands for itself, or a `%` with its code. -/
inductive Piece where
  | literal (c : Char)
  | operand (code : FormatCode)
  deriving DecidableEq

def Piece.chars : Piece → List Char
  | .literal c => [c]
  | .operand code => '%' :: code.letters

def chars (ps : List Piece) : List Char := ps.flatMap Piece.chars

/-- The pieces of a format behind the letters of a code. -/
def piecesFrom : ℕ → List Char → List Piece
  | _, [] => []
  | n + 1, _ :: fmt => piecesFrom n fmt
  | 0, c :: fmt =>
      if c = '%' then
        match FormatCode.ofChars fmt with
        | some code => .operand code :: piecesFrom code.letters.length fmt
        | none => .literal c :: piecesFrom 0 fmt
      else .literal c :: piecesFrom 0 fmt

def pieces (fmt : String) : List Piece := piecesFrom 0 fmt.toList

def Piece.room (most : ℕ) : Piece → ℕ
  | .literal _ => 1
  | .operand _ => most

/-- The most that the pieces print, when no operand prints more than `most`. -/
def room (most : ℕ) (ps : List Piece) : ℕ := (ps.map (Piece.room most)).sum

/-- What all formats of the tables have in common. -/
structure Formed (ps : List Piece) : Prop where
  literals : ∀ c, .literal c ∈ ps → c ∈ [',', ' ', '[', ']']
  vmmul_first : .operand .vmmul ∉ ps.tail
  vrot_last : .operand .vrot ∉ ps.dropLast
  room_lt : room 127 ps < 1024

instance (ps : List Piece) : Decidable (Formed ps) :=
  decidable_of_iff ((ps.all fun
        | .literal c => decide (c ∈ [',', ' ', '[', ']'])
        | .operand _ => true) = true ∧
      .operand .vmmul ∉ ps.tail ∧ .operand .vrot ∉ ps.dropLast ∧ room 127 ps < 1024)
    ⟨fun ⟨h₁, h₂, h₃, h₄⟩ => ⟨fun _ hc => of_decide_eq_true (List.all_eq_true.mp h₁ _ hc), h₂, h₃, h₄⟩,
      fun ⟨h₁, h₂, h₃, h₄⟩ => ⟨List.all_eq_true.mpr fun
        | .literal c, hp => decide_eq_true (h₁ c hp)
        | .operand _, _ => rfl, h₂, h₃, h₄⟩⟩

/-- The formats of the tables, each once. -/
def formatChars : List (List Char) :=
  [[], ['%','t',',',' ','%','i'], ['%','t',',',' ','%','I'], ['%','d',',',' ','%','s'], ['%','O'],
   ['%','s',',',' ','%','O'], ['%','d',',',' ','%','t'], ['%','J'],
   ['%','d',',',' ','%','s',',',' ','%','t'], ['%','t',',',' ','%','s',',',' ','%','i'],
   ['%','t',',',' ','%','s',',',' ','%','I'], ['%','s',',',' ','%','t',',',' ','%','O'],
   ['%','s',',',' ','%','0'], ['%','c'], ['%','k',',',' ','%','o'], ['%','t',',',' ','%','p'],
   ['%','s',',',' ','%','t'], ['%','t',',',' ','%','s',',',' ','%','a',',',' ','%','n','e'],
   ['%','t',',',' ','%','s',',',' ','%','a',',',' ','%','n','i'], ['%','j'],
   ['%','J',',',' ','%','d'], ['%','t',',',' ','%','o'], ['%','t',',',' ','%','O'],
   ['%','t',',',' ','%','0'], ['%','t',',',' ','%','r'], ['%','d'], ['%','s'],
   ['%','d',',',' ','%','t',',',' ','%','a'], ['%','d',',',' ','%','t',',',' ','%','s'], ['%','C'],
   ['%','D',',',' ','%','S'], ['%','D',',',' ','%','S',',',' ','%','T'], ['%','S',',',' ','%','T'],
   ['%','T',',',' ','%','o'], ['%','t',',',' ','%','1'], ['%','Z','c',',',' ','%','O'],
   ['%','X','q',',',' ','%','Y'], ['%','X','s',',',' ','%','Y'], ['%','t',',',' ','%','z','s'],
   ['%','t',',',' ','%','2','d'], ['%','z','p',',',' ','%','y','p'],
   ['%','z','q',',',' ','%','y','q'], ['%','z','s',',',' ','%','y','s'],
   ['%','z','t',',',' ','%','y','t'], ['%','z','p',',',' ','%','y','p',',',' ','%','x','p'],
   ['%','z','q',',',' ','%','y','q',',',' ','%','x','q'],
   ['%','z','s',',',' ','%','y','s',',',' ','%','x','s'],
   ['%','z','t',',',' ','%','y','t',',',' ','%','x','t'],
   ['%','z','p',',',' ','%','y','p',',',' ','%','v','3'],
   ['%','z','q',',',' ','%','y','q',',',' ','%','v','3'],
   ['%','z','s',',',' ','%','y','s',',',' ','%','v','3'],
   ['%','z','t',',',' ','%','y','t',',',' ','%','v','3'],
   ['%','Z','n',',',' ','%','y','p',',',' ','%','x','p'], ['%','Z','n',',',' ','%','y','p'],
   ['%','Z','n'], ['%','Z','n',',',' ','%','y','q',',',' ','%','x','q'],
   ['%','Z','n',',',' ','%','y','q'], ['%','Z','n',',',' ','%','y','s',',',' ','%','x','s'],
   ['%','Z','n',',',' ','%','y','s'], ['%','Z','n',',',' ','%','y','t',',',' ','%','x','t'],
   ['%','Z','n',',',' ','%','y','t'], ['%','z','p',',',' ','%','v','k'],
   ['%','z','q',',',' ','%','v','k'], ['%','z','s',',',' ','%','v','k'],
   ['%','z','t',',',' ','%','v','k'], ['%','z','s',',',' ','%','y','p',',',' ','%','x','p'],
   ['%','z','s',',',' ','%','y','q',',',' ','%','x','q'],
   ['%','z','s',',',' ','%','y','t',',',' ','%','x','t'], ['%','z','s',',',' ','%','y','p'],
   ['%','z','p',',',' ','%','y','q'], ['%','z','p',',',' ','%','y','p',',',' ','%','v','5'],
   ['%','z','q',',',' ','%','y','q',',',' ','%','v','5'],
   ['%','z','s',',',' ','%','y','s',',',' ','%','v','5'],
   ['%','z','t',',',' ','%','y','t',',',' ','%','v','5'], ['%','x','s',',',' ','%','v','h'],
   ['%','z','q',',',' ','%','y','p'], ['%','z','p',',',' ','%','y','s'],
   ['%','z','p',',',' ','%','y','m',',',' ','%','x','p'],
   ['%','z','t',',',' ','%','y','n',',',' ','%','x','t'],
   ['%','z','q',',',' ','%','y','o',',',' ','%','x','q'], ['%','z','s',',',' ','%','y','q'],
   ['%','z','p'], ['%','z','q'], ['%','x','s',',',' ','%','v','i'],
   ['%','z','s',',',' ','%','2','s'], ['%','z','m'], ['%','z','o'], ['%','z','n'],
   ['%','z','m',',',' ','%','y','m'], ['%','z','o',',',' ','%','y','o'],
   ['%','z','n',',',' ','%','y','n'],
   ['%','?','%','z','m',',',' ','%','y','m',',',' ','%','x','m'],
   ['%','?','%','z','o',',',' ','%','y','o',',',' ','%','x','o'],
   ['%','?','%','z','n',',',' ','%','y','n',',',' ','%','x','n'], ['%','z','t'],
   ['%','z','m',',',' ','%','y','m',',',' ','%','x','s'],
   ['%','z','o',',',' ','%','y','o',',',' ','%','x','s'],
   ['%','z','n',',',' ','%','y','n',',',' ','%','x','s'], ['%','2','d',',',' ','%','y','s'],
   ['%','z','s'],
   ['[','%','v','p','4',',',' ','%','v','p','5',',',' ','%','v','p','6',',',' ','%','v','p','7',']'],
   ['[','%','v','p','0',',',' ','%','v','p','1',',',' ','%','v','p','2',',',' ','%','v','p','3',']'],
   ['%','y','s'], ['%','z','p',',',' ','%','y','s',',',' ','%','v','r'],
   ['%','z','q',',',' ','%','y','s',',',' ','%','v','r'],
   ['%','z','t',',',' ','%','y','s',',',' ','%','v','r'],
   ['%','z','p',',',' ','%','y','p',',',' ','%','x','s'],
   ['%','z','q',',',' ','%','y','q',',',' ','%','x','s'],
   ['%','z','t',',',' ','%','y','t',',',' ','%','x','s'], ['%','I'],
   ['%','z','s',',',' ','%','x','s',',',' ','%','I']]

/-- Which of the formats each instruction has. -/
def formatOf : List ℕ :=
  [0, 1, 2, 3, 3, 4, 4, 4, 5, 5, 5, 5, 6, 6, 3, 7, 8, 9, 9, 8, 8, 10, 11, 11, 5, 12, 5, 5, 5, 6, 5,
   5, 5, 5, 5, 5, 11, 11, 13, 14, 15, 3, 3, 15, 8, 8, 0, 16, 16, 0, 0, 17, 18, 19, 7, 20, 19, 21,
   21, 21, 21, 22, 2, 21, 21, 21, 16, 16, 23, 24, 25, 15, 25, 8, 8, 6, 6, 23, 24, 15, 0, 26, 26,
   16, 16, 8, 8, 10, 27, 28, 6, 6, 21, 21, 28, 27, 8, 9, 9, 8, 27, 28, 28, 27, 21, 21, 21, 8, 8, 0,
   29, 8, 10, 6, 6, 30, 31, 4, 4, 4, 4, 32, 32, 32, 32, 32, 32, 32, 32, 32, 32, 32, 32, 32, 32, 32,
   32, 30, 15, 15, 30, 30, 31, 30, 33, 34, 30, 34, 31, 30, 30, 30, 31, 33, 30, 35, 35, 35, 35, 36,
   37, 36, 36, 38, 39, 38, 39, 36, 37, 36, 36, 40, 41, 42, 43, 44, 45, 46, 47, 40, 41, 42, 43, 40,
   41, 43, 40, 41, 41, 48, 49, 50, 51, 48, 49, 50, 51, 52, 53, 54, 55, 56, 54, 57, 58, 54, 59, 60,
   54, 40, 41, 42, 43, 47, 47, 61, 62, 63, 64, 65, 44, 45, 46, 47, 65, 66, 67, 40, 41, 42, 43, 68,
   69, 70, 71, 72, 73, 70, 71, 72, 73, 70, 71, 72, 73, 70, 71, 72, 73, 40, 41, 43, 74, 0, 75, 76,
   65, 66, 67, 77, 78, 79, 80, 70, 71, 72, 73, 68, 69, 41, 41, 41, 81, 82, 83, 42, 40, 41, 42, 43,
   44, 45, 46, 47, 84, 85, 86, 87, 44, 45, 46, 47, 88, 89, 90, 91, 92, 93, 81, 82, 94, 40, 41, 42,
   43, 95, 96, 97, 98, 44, 45, 46, 47, 85, 86, 87, 40, 41, 42, 43, 0, 40, 41, 42, 43, 40, 41, 42,
   43, 40, 41, 42, 43, 81, 82, 99, 94, 100, 101, 101, 45, 40, 41, 42, 43, 40, 41, 42, 43, 81, 82,
   99, 94, 81, 82, 99, 94, 81, 82, 99, 94, 102, 103, 104, 105, 40, 41, 42, 43, 75, 76, 40, 41, 42,
   43, 40, 41, 42, 43, 46, 42, 106, 107, 108, 44, 45, 46, 47, 44, 45, 46, 47, 40, 41, 42, 43, 40,
   41, 42, 43, 44, 45, 46, 47, 75, 76, 40, 41, 42, 43, 41, 41, 41, 41, 44, 45, 46, 47, 109, 0, 41,
   41, 41, 77, 78, 79, 75, 76, 36, 110, 81, 82, 99, 94, 1, 1]

theorem map_fmt : (gMacro ++ gInst).map Instruction.fmt =
    formatOf.map fun i => String.ofList (formatChars.getD i []) := by
  decide +kernel

theorem formed_formatChars : ∀ fmt ∈ formatChars, Formed (piecesFrom 0 fmt) := by decide +kernel

/-- The pieces are found in the characters: a text is slow to take apart. -/
theorem formed_pieces : ∀ inst ∈ gMacro ++ gInst, Formed (pieces inst.fmt) := by
  intro inst hinst
  have hfmt : inst.fmt ∈ formatOf.map fun i => String.ofList (formatChars.getD i []) := by
    rw [← map_fmt]
    exact List.mem_map_of_mem hinst
  obtain ⟨i, -, hi⟩ := List.mem_map.mp hfmt
  rw [← hi, pieces, String.toList_ofList, List.getD_eq_getElem?_getD]
  cases hget : formatChars[i]? with
  | none => decide
  | some fmt => exact formed_formatChars fmt (List.mem_of_getElem? hget)

section

variable {code : FormatCode} {fmt : List Char}

theorem eq_of_ofChars (h : FormatCode.ofChars fmt = some code) :
    ∃ rest, code.letters ++ rest = fmt := by
  have hstarts : code.letters.isPrefixOf fmt = true := (List.find?_eq_some_iff_append.mp h).1
  exact List.isPrefixOf_iff_prefix.mp hstarts

theorem chars_piecesFrom (n : ℕ) (fmt : List Char) : chars (piecesFrom n fmt) = fmt.drop n := by
  induction fmt generalizing n with
  | nil => cases n <;> rfl
  | cons c fmt ih =>
      cases n with
      | zero =>
          rw [piecesFrom, List.drop_zero]
          split
          · rename_i hc
            split
            · rename_i code hcode
              obtain ⟨rest, rfl⟩ := eq_of_ofChars hcode
              show '%' :: code.letters ++ chars (piecesFrom code.letters.length _) = _
              rw [ih, List.drop_left, hc]
              rfl
            · exact congrArg (c :: ·) (ih 0)
          · exact congrArg (c :: ·) (ih 0)
      | succ n => exact ih n

theorem chars_pieces (fmt : String) : chars (pieces fmt) = fmt.toList := chars_piecesFrom 0 _

theorem mem_all_of_mem_piecesFrom {n : ℕ} (h : .operand code ∈ piecesFrom n fmt) :
    code ∈ FormatCode.all := by
  induction fmt generalizing n with
  | nil => cases n <;> exact absurd h List.not_mem_nil
  | cons c fmt ih =>
      cases n with
      | zero =>
          rw [piecesFrom] at h
          split at h
          · split at h
            · rename_i found hfound
              rcases List.mem_cons.mp h with heq | h
              · rw [Piece.operand.inj heq]
                exact List.mem_of_find?_eq_some hfound
              · exact ih h
            · exact ih (List.mem_of_ne_of_mem Piece.noConfusion h)
          · exact ih (List.mem_of_ne_of_mem Piece.noConfusion h)
      | succ n => exact ih h

end

end PsplinkUsb.Pspsh.FormatCodes
