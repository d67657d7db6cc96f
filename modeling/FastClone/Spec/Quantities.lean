import FastClone.Spec.Durations

/-!
# Sizes and durations of the command line

`ParseSizeBytesStrict` and `ParseDurationMsStrict` (`cli.cpp`) are one function but for the units and the
message about them.
-/

namespace FastClone.Quantities

open FastClone.Endpoint FastClone.Durations

/-- A number and a unit, in the words of the two functions: `units` gives the multiplier of a lower-case suffix. -/
def parseUnitsStrict (units : Text → Option ℕ) (expected : String) (value : Text) (name : String) :
    Except String ℕ :=
  if value = [] then .error (name ++ " is empty")
  else
    match stoull value with
    | none => .error ("Invalid " ++ name)
    | some (base, rest) =>
      let suffix := rest.map Char.toLower
      match units suffix with
      | none => .error ("Invalid " ++ name ++ ", expected suffix " ++ expected)
      | some multiplier =>
        -- the product fits exactly if the number is at most this
        let maxValue := uint64Max / multiplier
        if base > maxValue then .error (name ++ " is too large") else .ok (base * multiplier)

/-- The bytes of one unit. -/
def unitBytes (suffix : Text) : Option ℕ :=
  if suffix = [] ∨ suffix = ['b'] then some 1
  else if suffix = ['k'] ∨ suffix = ['k', 'b'] then some 1024
  else if suffix = ['m'] ∨ suffix = ['m', 'b'] then some (1024 * 1024)
  else if suffix = ['g'] ∨ suffix = ['g', 'b'] then some (1024 * 1024 * 1024)
  else none

/-- `ParseSizeBytesStrict`. -/
def parseSizeBytesStrict (value : Text) (name : String) : Except String ℕ :=
  parseUnitsStrict unitBytes "[K|M|G]" value name

/-! ### What the two functions are meant to accept -/

/-- One or more digits and a suffix in any letter case, with the product below `2^64`. -/
def Denotes (units : Text → Option ℕ) (value : Text) (v : ℕ) : Prop :=
  ∃ digits suffix multiplier, value = digits ++ suffix ∧ digits ≠ [] ∧ (∀ c ∈ digits, c.isDigit = true) ∧
    units (suffix.map Char.toLower) = some multiplier ∧ v = Nat.ofDigitChars 10 digits 0 * multiplier ∧ v < 2 ^ 64

/-- What follows white space and a sign. -/
def unsigned (value : Text) : Bool × Text := takeSign (value.dropWhile isSpace)

/-- The text begins with a digit or with something that no number begins with. -/
def Bare (value : Text) : Prop := (unsigned value).2 = value

/-- The number that `std::stoull` makes of a magnitude: a minus sign negates it modulo `2^64`. -/
def negated (minus : Bool) (magnitude : ℕ) : ℕ := if minus then (2 ^ 64 - magnitude) % 2 ^ 64 else magnitude

/-- Behind white space and a sign: digits below `2^64` and a suffix, with the product of the negated number
below `2^64`. -/
def ReadBehind (units : Text → Option ℕ) (value : Text) (v : ℕ) : Prop :=
  ∃ digits suffix multiplier, (unsigned value).2 = digits ++ suffix ∧ digits ≠ [] ∧ (∀ c ∈ digits, c.isDigit = true) ∧
    units (suffix.map Char.toLower) = some multiplier ∧ Nat.ofDigitChars 10 digits 0 < 2 ^ 64 ∧
    v = negated (unsigned value).1 (Nat.ofDigitChars 10 digits 0) * multiplier ∧ v < 2 ^ 64

end FastClone.Quantities
