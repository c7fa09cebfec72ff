import Mathlib.Data.UInt

namespace PsplinkUsb.Library.Ascii

def isSpace (ch : UInt8) : Bool := ch = 0x20 ∨ 0x09 ≤ ch ∧ ch ≤ 0x0D

def isDigit (ch : UInt8) : Bool := 0x30 ≤ ch ∧ ch ≤ 0x39

def isLower (ch : UInt8) : Bool := 0x61 ≤ ch ∧ ch ≤ 0x7A

def isUpper (ch : UInt8) : Bool := 0x41 ≤ ch ∧ ch ≤ 0x5A

def isAlnum (ch : UInt8) : Bool := isDigit ch ∨ isLower ch ∨ isUpper ch

def isXDigit (ch : UInt8) : Bool :=
  isDigit ch ∨ 0x61 ≤ ch ∧ ch ≤ 0x66 ∨ 0x41 ≤ ch ∧ ch ≤ 0x46

def isCntrl (ch : UInt8) : Bool := ch < 0x20 ∨ ch = 0x7F

def isPunct (ch : UInt8) : Bool := 0x21 ≤ ch ∧ ch ≤ 0x7E ∧ ¬isAlnum ch

def toUpper (ch : UInt8) : UInt8 := if isLower ch then ch - 0x20 else ch

def toLower (ch : UInt8) : UInt8 := if isUpper ch then ch + 0x20 else ch

/-- `strcasecmp` finds no difference. -/
def SameLetters (a b : List UInt8) : Prop := a.map toLower = b.map toLower

instance : DecidableRel SameLetters := fun _ _ => inferInstanceAs (Decidable (_ = _))

/-- The value of a run of decimal digits. -/
def decimal (digits : List UInt8) : ℕ := digits.foldl (fun n ch => 10 * n + (ch.toNat - 0x30)) 0

section

variable {p : UInt8 → Prop} {q : Char → Prop} [DecidablePred p] [DecidablePred q]

/-- What all characters of a text have in common is decided along the text, and not over all
characters there are. -/
instance decidableForallMem (s : List UInt8) : Decidable (∀ ch ∈ s, p ch) := List.decidableBAll p s

instance decidableForallMemChar (s : List Char) : Decidable (∀ ch ∈ s, q ch) := List.decidableBAll q s

end

theorem not_mem_of_class {class' : UInt8 → Bool} {s : List UInt8} (hs : ∀ ch ∈ s, class' ch = false)
    {ch : UInt8} (h : class' ch = true) : ch ∉ s :=
  fun hmem => Bool.false_ne_true ((hs ch hmem).symm.trans h)

theorem not_isCntrl_of_isAlnum {ch : UInt8} (h : isAlnum ch = true) : isCntrl ch = false := by
  grind [isAlnum, isCntrl, isDigit, isLower, isUpper]

end PsplinkUsb.Library.Ascii
