import Mathlib.Data.Nat.Digits.Defs
import Mathlib.Data.Rat.Defs
import Mathlib.Algebra.Field.Rat

/-! # Decimal numerals

A numeral is an optional sign, digits with an optional point among or around
them, and an optional exponent. It is kept as it is written: the parser accepts
exactly the written forms of numerals, and returns the numeral a text is the
written form of.
-/

namespace Decimal

/-! ## Digits and signs -/

abbrev Digit := Fin 10

def Digit.char (digit : Digit) : Char := Char.ofNat ('0'.toNat + digit)

/-- The digit a character stands for. -/
def readDigit (char : Char) : Option Digit :=
  (List.finRange 10).find? fun digit => digit.char = char

theorem readDigit_char (digit : Digit) : readDigit digit.char = some digit := by
  revert digit
  decide

theorem char_of_readDigit {char : Char} {digit : Digit} (h : readDigit char = some digit) :
    digit.char = char := by
  simpa using List.find?_some h

/-- The longest run of digits at the beginning of a text, and what follows it. -/
def takeDigits : List Char → List Digit × List Char
  | [] => ([], [])
  | char :: rest =>
      match readDigit char with
      | none => ([], char :: rest)
      | some digit => (digit :: (takeDigits rest).1, (takeDigits rest).2)

def digitChars (digits : List Digit) : List Char := digits.map Digit.char

theorem digitChars_takeDigits (text : List Char) :
    digitChars (takeDigits text).1 ++ (takeDigits text).2 = text := by
  induction text with
  | nil => rfl
  | cons char rest ih =>
      rw [takeDigits]
      cases hdigit : readDigit char with
      | none => rfl
      | some digit =>
          rw [← char_of_readDigit hdigit]
          exact congrArg (List.cons digit.char) ih

/-- A text does not begin with a digit. -/
def NoDigit (text : List Char) : Prop := ∀ char ∈ text.head?, readDigit char = none

theorem takeDigits_append (digits : List Digit) {rest : List Char} (hrest : NoDigit rest) :
    takeDigits (digitChars digits ++ rest) = (digits, rest) := by
  induction digits with
  | nil =>
      cases rest with
      | nil => rfl
      | cons char rest =>
          rw [digitChars, List.map_nil, List.nil_append, takeDigits, hrest char rfl]
  | cons digit digits ih =>
      rw [digitChars, List.map_cons, List.cons_append, takeDigits, readDigit_char]
      exact congrArg (fun taken => (digit :: taken.1, taken.2)) ih

inductive Sign where
  | plus
  | minus
  deriving DecidableEq

def signChars : Option Sign → List Char
  | none => []
  | some .plus => ['+']
  | some .minus => ['-']

def takeSign : List Char → Option Sign × List Char
  | '+' :: rest => (some .plus, rest)
  | '-' :: rest => (some .minus, rest)
  | text => (none, text)

theorem signChars_takeSign (text : List Char) :
    signChars (takeSign text).1 ++ (takeSign text).2 = text := by
  unfold takeSign
  split <;> rfl

/-- A text does not begin with a sign. -/
def NoSign (text : List Char) : Prop := ∀ char ∈ text.head?, char ≠ '+' ∧ char ≠ '-'

theorem takeSign_append (sign : Option Sign) {rest : List Char} (hrest : NoSign rest) :
    takeSign (signChars sign ++ rest) = (sign, rest) := by
  cases sign with
  | some sign => cases sign <;> rfl
  | none =>
      rw [signChars, List.nil_append]
      unfold takeSign
      split
      next => exact absurd rfl (hrest _ rfl).1
      next => exact absurd rfl (hrest _ rfl).2
      next => rfl

/-! ## Numerals -/

structure Exponent where
  capital : Bool
  sign : Option Sign
  digits : List Digit
  digits_ne_nil : digits ≠ []
  deriving DecidableEq

/-- A numeral as it is written; the fraction is present when the point is. -/
structure Numeral where
  sign : Option Sign
  integral : List Digit
  fraction : Option (List Digit)
  exponent : Option Exponent
  digits_ne_nil : integral ++ fraction.getD [] ≠ []
  deriving DecidableEq

def fractionChars : Option (List Digit) → List Char
  | none => []
  | some digits => '.' :: digitChars digits

def exponentChars : Option Exponent → List Char
  | none => []
  | some exponent =>
      (if exponent.capital then 'E' else 'e') :: (signChars exponent.sign ++
        digitChars exponent.digits)

/-- The written form of a numeral. -/
def Numeral.render (numeral : Numeral) : List Char :=
  signChars numeral.sign ++ (digitChars numeral.integral ++
    (fractionChars numeral.fraction ++ exponentChars numeral.exponent))

/-- The number a sequence of digits stands for. -/
def digitsValue (digits : List Digit) : ℕ := Nat.ofDigits 10 (digits.reverse.map Fin.val)

def exponentValue : Option Exponent → ℤ
  | none => 0
  | some exponent =>
      if exponent.sign = some .minus then -digitsValue exponent.digits
      else digitsValue exponent.digits

/-- The exact number a numeral stands for. -/
def Numeral.value (numeral : Numeral) : ℚ :=
  let fraction := numeral.fraction.getD []
  let magnitude : ℚ := digitsValue (numeral.integral ++ fraction) *
    10 ^ (exponentValue numeral.exponent - fraction.length)
  if numeral.sign = some .minus then -magnitude else magnitude

/-! ## Parsing -/

def parseFraction : List Char → Option (List Digit) × List Char
  | '.' :: rest => (some (takeDigits rest).1, (takeDigits rest).2)
  | text => (none, text)

/-- Read the end of a numeral: nothing, or an exponent and nothing after it. -/
def parseExponent : List Char → Option (Option Exponent)
  | [] => some none
  | char :: rest =>
      let (sign, rest) := takeSign rest
      let (digits, rest) := takeDigits rest
      if h : (char = 'e' ∨ char = 'E') ∧ digits ≠ [] ∧ rest = [] then
        some (some ⟨char = 'E', sign, digits, h.2.1⟩)
      else none

def Numeral.parse (text : List Char) : Option Numeral :=
  let (sign, text) := takeSign text
  let (integral, text) := takeDigits text
  let (fraction, text) := parseFraction text
  match parseExponent text with
  | none => none
  | some exponent =>
      if h : integral ++ fraction.getD [] ≠ [] then some ⟨sign, integral, fraction, exponent, h⟩
      else none

theorem fractionChars_parseFraction (text : List Char) :
    fractionChars (parseFraction text).1 ++ (parseFraction text).2 = text := by
  unfold parseFraction
  split
  next rest => exact congrArg (List.cons '.') (digitChars_takeDigits rest)
  next => rfl

theorem exponentChars_of_parseExponent {text : List Char} {exponent : Option Exponent}
    (h : parseExponent text = some exponent) : exponentChars exponent = text := by
  cases text with
  | nil =>
      cases h
      rfl
  | cons char rest =>
      simp only [parseExponent] at h
      split at h
      next hform =>
        cases h
        obtain ⟨hchar, -, hrest⟩ := hform
        have hdigits := digitChars_takeDigits (takeSign rest).2
        rw [hrest, List.append_nil] at hdigits
        rw [exponentChars, hdigits, signChars_takeSign]
        congr 1
        rcases hchar with rfl | rfl <;> rfl
      next => cases h

/-- What is parsed is what was written. -/
theorem Numeral.render_of_parse {text : List Char} {numeral : Numeral}
    (h : Numeral.parse text = some numeral) : numeral.render = text := by
  unfold Numeral.parse at h
  simp only at h
  split at h
  next => cases h
  next exponent hexponent =>
    split at h
    next =>
      cases h
      rw [render, exponentChars_of_parseExponent hexponent, fractionChars_parseFraction,
        digitChars_takeDigits, signChars_takeSign]
    next => cases h

/-! ## Written forms are parsed -/

theorem Digit.char_ne_sign (digit : Digit) : digit.char ≠ '+' ∧ digit.char ≠ '-' := by
  revert digit
  decide

theorem noSign_of_digitChars {digits : List Digit} (hne : digits ≠ []) (rest : List Char) :
    NoSign (digitChars digits ++ rest) := by
  cases digits with
  | nil => exact absurd rfl hne
  | cons digit digits =>
      rintro char ⟨⟩
      exact digit.char_ne_sign

theorem noDigit_exponentChars (exponent : Option Exponent) : NoDigit (exponentChars exponent) := by
  cases exponent with
  | none => exact fun _ h => nomatch h
  | some exponent =>
      rintro char ⟨⟩
      cases exponent.capital <;> decide

theorem parseExponent_exponentChars (exponent : Option Exponent) :
    parseExponent (exponentChars exponent) = some exponent := by
  cases exponent with
  | none => rfl
  | some exponent =>
      obtain ⟨capital, sign, digits, hne⟩ := exponent
      have hsign : takeSign (signChars sign ++ digitChars digits) = (sign, digitChars digits) :=
        takeSign_append sign (by simpa using noSign_of_digitChars hne [])
      have hdigits : takeDigits (digitChars digits) = (digits, []) := by
        simpa using takeDigits_append digits (show NoDigit [] from fun _ h => nomatch h)
      simp only [exponentChars, parseExponent, hsign, hdigits]
      cases capital <;> simp [hne]

theorem parseFraction_append (fraction : Option (List Digit)) (exponent : Option Exponent) :
    parseFraction (fractionChars fraction ++ exponentChars exponent) =
      (fraction, exponentChars exponent) := by
  cases fraction with
  | some digits =>
      rw [fractionChars, List.cons_append, parseFraction,
        takeDigits_append digits (noDigit_exponentChars exponent)]
  | none =>
      cases exponent with
      | none => rfl
      | some exponent =>
          rw [fractionChars, List.nil_append, exponentChars]
          cases exponent.capital <;> rfl

theorem noDigit_fractionChars_append (fraction : Option (List Digit))
    (exponent : Option Exponent) :
    NoDigit (fractionChars fraction ++ exponentChars exponent) := by
  cases fraction with
  | none => exact noDigit_exponentChars exponent
  | some digits =>
      rintro char ⟨⟩
      decide

theorem Numeral.noSign_body (numeral : Numeral) :
    NoSign (digitChars numeral.integral ++
      (fractionChars numeral.fraction ++ exponentChars numeral.exponent)) := by
  obtain ⟨sign, integral, fraction, exponent, hne⟩ := numeral
  cases integral with
  | cons digit digits => exact noSign_of_digitChars (List.cons_ne_nil _ _) _
  | nil =>
      cases fraction with
      | none => exact absurd rfl hne
      | some digits =>
          -- the text begins with the point
          rintro char ⟨⟩
          decide

/-- Every written form is parsed to the numeral it is the written form of. -/
theorem Numeral.parse_render (numeral : Numeral) : Numeral.parse numeral.render = some numeral := by
  -- each stage stops where the next one begins, since no two of them share a first character
  have hsign := takeSign_append numeral.sign numeral.noSign_body
  have hintegral := takeDigits_append numeral.integral
    (noDigit_fractionChars_append numeral.fraction numeral.exponent)
  have hfraction := parseFraction_append numeral.fraction numeral.exponent
  simp only [parse, render, hsign, hintegral, hfraction, parseExponent_exponentChars]
  exact dif_pos numeral.digits_ne_nil

theorem Numeral.parse_eq_some_iff (text : List Char) (numeral : Numeral) :
    Numeral.parse text = some numeral ↔ numeral.render = text :=
  ⟨render_of_parse, fun h => h ▸ parse_render numeral⟩

end Decimal
