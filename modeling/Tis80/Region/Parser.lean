import Tis80.MemoryMap

/-!
# Regions as text

    region  :=  blank* number ".." number blank*
              | blank* number "+" number blank*
    number  :=  ("0x" | "0X") hex+  |  ("0o" | "0O") octal+  |  ("0b" | "0B") binary+  |  decimal+

A blank is a space or a tab, and a number lies below 2^64. The second form gives a start and a
length; a region that would end past the greatest number ends there.
-/

namespace Tis80.Region

inductive ParseError
  | malformed
  | reversed (start stop : Nat)
deriving DecidableEq, Repr

/-- The text of an error. What is wrong with a malformed text is told in the words of `account`. -/
def ParseError.message (account : String) : ParseError → String
  | .malformed => "could not parse memory range: " ++ account
  | .reversed start stop => "range end 0x" ++ hex 1 stop ++ " is before its start 0x" ++ hex 1 start

/-- The greatest number that can be written. -/
def greatest : Nat := 0xFFFFFFFFFFFFFFFF

def isBlank (c : Char) : Bool := c == ' ' || c == '\t'

/-- The value of a digit in the given base, at most sixteen. -/
def digit? (base : Nat) (c : Char) : Option Nat :=
  let value :=
    if c.isDigit then some (c.toNat - '0'.toNat)
    else if 'a' ≤ c ∧ c ≤ 'f' then some (c.toNat - 'a'.toNat + 10)
    else if 'A' ≤ c ∧ c ≤ 'F' then some (c.toNat - 'A'.toNat + 10)
    else none
  value.filter (· < base)

/-- The number that digits stand for, the highest one first. -/
def ofDigits (base : Nat) (digits : List Nat) : Nat :=
  digits.foldl (fun n d => n * base + d) 0

/-- As many digits as there are, at least one, and what follows them. -/
def digits (base : Nat) (cs : List Char) : Option (Nat × List Char) :=
  let ds := cs.takeWhile fun c => (digit? base c).isSome
  let n := ofDigits base (ds.filterMap (digit? base))
  if ds.isEmpty ∨ greatest < n then none else some (n, cs.drop ds.length)

/-- Digits behind a zero and the letter of their base, which may be a capital. -/
def prefixed (letter : Char) (base : Nat) : List Char → Option (Nat × List Char)
  | '0' :: c :: cs => if c = letter ∨ c = letter.toUpper then digits base cs else none
  | _ => none

/-- The first form that can be read. Where digits are missing behind a letter, or are too many, there is
still a decimal zero in front of it. -/
def number (cs : List Char) : Option (Nat × List Char) :=
  prefixed 'x' 16 cs <|> prefixed 'o' 8 cs <|> prefixed 'b' 2 cs <|> digits 10 cs

/-- A number with nothing but blanks behind it. -/
def lastNumber (cs : List Char) : Option Nat :=
  match number cs with
  | some (n, rest) => if rest.all isBlank then some n else none
  | none => none

/-- Both numbers of a region: its start, and where it stops. -/
def bounds (cs : List Char) : Option (Nat × Nat) :=
  match number (cs.dropWhile isBlank) with
  | some (start, '.' :: '.' :: rest) => (lastNumber rest).map fun stop => (start, stop)
  | some (start, '+' :: rest) => (lastNumber rest).map fun n => (start, min (start + n) greatest)
  | _ => none

def parse (text : String) : Except ParseError Region :=
  match bounds text.toList with
  | none => .error .malformed
  | some (start, stop) => if stop < start then .error (.reversed start stop) else .ok ⟨start, stop⟩

end Tis80.Region
