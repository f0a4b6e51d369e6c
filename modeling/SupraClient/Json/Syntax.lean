import SupraClient.Decimal.Numeral

/-! # JSON texts

Values are kept as they are written. A string literal is a sequence of pieces,
plain characters and escapes, since readers that borrow from the text treat a
literal with escapes differently from one without. Numbers are decimal numerals
of a restricted form. A value is written as a sequence of tokens with nothing
between them.
-/

namespace Json

/-! ## String literals -/

/-- Characters that stand for themselves: everything except quotes, backslashes
and control characters. -/
def isPlain (char : Char) : Bool := char ≠ '"' && char ≠ '\\' && 0x20 ≤ char.toNat

/-- The escapes with a letter of their own. -/
inductive Escape where
  | quote
  | backslash
  | slash
  | backspace
  | formFeed
  | lineFeed
  | carriageReturn
  | tab
  deriving DecidableEq

namespace Escape

def all : List Escape :=
  [quote, backslash, slash, backspace, formFeed, lineFeed, carriageReturn, tab]

def letter : Escape → Char
  | quote => '"'
  | backslash => '\\'
  | slash => '/'
  | backspace => 'b'
  | formFeed => 'f'
  | lineFeed => 'n'
  | carriageReturn => 'r'
  | tab => 't'

/-- The character an escape stands for. -/
def char : Escape → Char
  | quote => '"'
  | backslash => '\\'
  | slash => '/'
  | backspace => '\x08'
  | formFeed => '\x0c'
  | lineFeed => '\n'
  | carriageReturn => '\r'
  | tab => '\t'

def read (letter : Char) : Option Escape := all.find? fun escape => escape.letter = letter

theorem read_letter (escape : Escape) : read escape.letter = some escape := by
  cases escape <;> decide

theorem letter_ne_u (escape : Escape) : escape.letter ≠ 'u' := by
  cases escape <;> decide

end Escape

def hexDigit (digit : Fin 16) : Char := Nat.digitChar digit

/-- Hexadecimal digits are read in both cases. -/
def readHexDigit (char : Char) : Option (Fin 16) :=
  (List.finRange 16).find? fun digit => hexDigit digit = char.toLower

theorem readHexDigit_hexDigit (digit : Fin 16) : readHexDigit (hexDigit digit) = some digit := by
  revert digit
  decide

/-- A code unit of UTF-16, which an escape gives by four hexadecimal digits. -/
abbrev CodeUnit := Fin (2 ^ 16)

/-- The digit of a code unit at a position, counted from the least significant one. -/
def unitDigit (unit : CodeUnit) (position : ℕ) : Char :=
  hexDigit ⟨unit / 16 ^ position % 16, Nat.mod_lt _ (by decide)⟩

def unitOfDigits (first second third fourth : Fin 16) : CodeUnit :=
  ⟨first * 16 ^ 3 + second * 16 ^ 2 + third * 16 + fourth, by omega⟩

def readUnit (first second third fourth : Char) : Option CodeUnit := do
  return unitOfDigits (← readHexDigit first) (← readHexDigit second) (← readHexDigit third)
    (← readHexDigit fourth)

theorem readUnit_unitDigit (unit : CodeUnit) :
    readUnit (unitDigit unit 3) (unitDigit unit 2) (unitDigit unit 1) (unitDigit unit 0) =
      some unit := by
  have hunit : unitOfDigits ⟨unit / 16 ^ 3 % 16, Nat.mod_lt _ (by decide)⟩
      ⟨unit / 16 ^ 2 % 16, Nat.mod_lt _ (by decide)⟩
      ⟨unit / 16 ^ 1 % 16, Nat.mod_lt _ (by decide)⟩
      ⟨unit / 16 ^ 0 % 16, Nat.mod_lt _ (by decide)⟩ = unit := by
    apply Fin.ext
    simp only [unitOfDigits]
    omega
  simp only [readUnit, unitDigit, readHexDigit_hexDigit, Option.pure_def, Option.bind_eq_bind,
    Option.bind_some, hunit]

def isLeadingSurrogate (unit : CodeUnit) : Bool := 0xD800 ≤ unit.val && unit.val < 0xDC00

def isTrailingSurrogate (unit : CodeUnit) : Bool := 0xDC00 ≤ unit.val && unit.val < 0xE000

/-- What a string literal is made of. -/
inductive Piece where
  | plain (char : Char) (isPlain_char : isPlain char = true)
  | short (escape : Escape)
  | unicode (unit : CodeUnit)
  deriving DecidableEq

/-- Surrogates come in pairs, a leading one right before a trailing one. -/
def wellPaired : List Piece → Bool
  | [] => true
  | .plain _ _ :: pieces => wellPaired pieces
  | .short _ :: pieces => wellPaired pieces
  | .unicode unit :: pieces =>
      if isLeadingSurrogate unit then
        match pieces with
        | .unicode trailing :: pieces => isTrailingSurrogate trailing && wellPaired pieces
        | _ => false
      else !isTrailingSurrogate unit && wellPaired pieces

/-- What stands between the quotes of a string literal. -/
structure Literal where
  pieces : List Piece
  wellPaired_pieces : wellPaired pieces = true
  deriving DecidableEq

def Piece.render : Piece → List Char
  | .plain char _ => [char]
  | .short escape => ['\\', escape.letter]
  | .unicode unit =>
      ['\\', 'u', unitDigit unit 3, unitDigit unit 2, unitDigit unit 1, unitDigit unit 0]

/-- A string literal with its closing quote. -/
def Literal.renderTail (literal : Literal) : List Char :=
  literal.pieces.flatMap Piece.render ++ ['"']

/-- Read the pieces behind an opening quote, up to the closing one. -/
def scanPieces : List Char → Option (List Piece × List Char)
  | [] => none
  | '"' :: rest => some ([], rest)
  | '\\' :: 'u' :: first :: second :: third :: fourth :: rest => do
      let unit ← readUnit first second third fourth
      let (pieces, rest) ← scanPieces rest
      return (.unicode unit :: pieces, rest)
  | '\\' :: letter :: rest => do
      let escape ← Escape.read letter
      let (pieces, rest) ← scanPieces rest
      return (.short escape :: pieces, rest)
  | char :: rest =>
      if hplain : isPlain char = true then do
        let (pieces, rest) ← scanPieces rest
        return (.plain char hplain :: pieces, rest)
      else none

theorem scanPieces_plain {char : Char} (hplain : isPlain char = true) (text : List Char) :
    scanPieces (char :: text) =
      (scanPieces text).map fun (pieces, rest) => (.plain char hplain :: pieces, rest) := by
  rw [scanPieces.eq_def]
  split
  next heq => cases heq
  next heq =>
    cases heq
    cases hplain
  next heq =>
    cases heq
    cases hplain
  next heq =>
    cases heq
    cases hplain
  next heq =>
    cases heq
    rw [dif_pos hplain]
    cases scanPieces text <;> rfl

theorem scanPieces_short (escape : Escape) (text : List Char) :
    scanPieces ('\\' :: escape.letter :: text) =
      (scanPieces text).map fun (pieces, rest) => (.short escape :: pieces, rest) := by
  rw [scanPieces.eq_def]
  split
  next heq => cases heq
  next heq => cases heq
  next heq =>
    injection heq with _ htail
    injection htail with hletter
    exact absurd hletter escape.letter_ne_u
  next heq =>
    cases heq
    rw [escape.read_letter]
    cases scanPieces text <;> rfl
  next hshort heq =>
    cases heq
    exact absurd rfl (hshort _ _ rfl)

theorem scanPieces_unicode (unit : CodeUnit) (text : List Char) :
    scanPieces ((Piece.unicode unit).render ++ text) =
      (scanPieces text).map fun (pieces, rest) => (.unicode unit :: pieces, rest) := by
  simp only [Piece.render, List.cons_append, List.nil_append, scanPieces, readUnit_unitDigit]
  cases scanPieces text <;> rfl

theorem scanPieces_piece (piece : Piece) (text : List Char) :
    scanPieces (piece.render ++ text) =
      (scanPieces text).map fun (pieces, rest) => (piece :: pieces, rest) := by
  cases piece with
  | plain char hplain => exact scanPieces_plain hplain text
  | short escape => exact scanPieces_short escape text
  | unicode unit => exact scanPieces_unicode unit text

theorem scanPieces_render (pieces : List Piece) (rest : List Char) :
    scanPieces (pieces.flatMap Piece.render ++ ['"'] ++ rest) = some (pieces, rest) := by
  induction pieces with
  | nil => rfl
  | cons piece pieces ih =>
      rw [List.flatMap_cons, List.append_assoc, List.append_assoc, scanPieces_piece,
        ← List.append_assoc, ih, Option.map_some]

/-- Read a string literal behind its opening quote, up to the closing one. -/
def scanLiteral (text : List Char) : Option (Literal × List Char) := do
  let (pieces, rest) ← scanPieces text
  if hpaired : wellPaired pieces = true then some (⟨pieces, hpaired⟩, rest) else none

/-- Literals are read back as they were written. -/
theorem scanLiteral_renderTail (literal : Literal) (rest : List Char) :
    scanLiteral (literal.renderTail ++ rest) = some (literal, rest) := by
  simp only [scanLiteral, Literal.renderTail, scanPieces_render, Option.bind_eq_bind,
    Option.bind_some, dif_pos literal.wellPaired_pieces]

/-! ## Numbers -/

/-- No plus sign in front, no leading zeros, and digits on both sides of a point. -/
def isNumber (numeral : Decimal.Numeral) : Bool :=
  numeral.sign ≠ some .plus && numeral.fraction ≠ some [] &&
    match numeral.integral with
    | [] => false
    | [_] => true
    | first :: _ => first ≠ 0

structure Number where
  numeral : Decimal.Numeral
  isNumber_numeral : isNumber numeral = true
  deriving DecidableEq

namespace Number

def render (number : Number) : List Char := number.numeral.render

def read (lexeme : List Char) : Option Number := do
  let numeral ← Decimal.Numeral.parse lexeme
  if hnumber : isNumber numeral = true then some ⟨numeral, hnumber⟩ else none

theorem read_render (number : Number) : read number.render = some number := by
  simp only [read, render, Decimal.Numeral.parse_render, Option.bind_eq_bind, Option.bind_some,
    dif_pos number.isNumber_numeral]

end Number

/-! ## Values and tokens -/

inductive Scalar where
  | null
  | bool (value : Bool)
  | number (value : Number)
  | string (literal : Literal)
  deriving DecidableEq

inductive Value where
  | scalar (value : Scalar)
  | array (elements : List Value)
  | object (members : List (Literal × Value))

inductive Mark where
  | openBrace
  | closeBrace
  | openBracket
  | closeBracket
  | colon
  | comma
  deriving DecidableEq

namespace Mark

def all : List Mark := [openBrace, closeBrace, openBracket, closeBracket, colon, comma]

def char : Mark → Char
  | openBrace => '{'
  | closeBrace => '}'
  | openBracket => '['
  | closeBracket => ']'
  | colon => ':'
  | comma => ','

def read (char : Char) : Option Mark := all.find? fun mark => mark.char = char

theorem read_char (mark : Mark) : read mark.char = some mark := by
  cases mark <;> decide

end Mark

inductive Token where
  | mark (sign : Mark)
  | scalar (value : Scalar)
  deriving DecidableEq

def Scalar.render : Scalar → List Char
  | .null => ['n', 'u', 'l', 'l']
  | .bool true => ['t', 'r', 'u', 'e']
  | .bool false => ['f', 'a', 'l', 's', 'e']
  | .number value => value.render
  | .string literal => '"' :: literal.renderTail

def Token.render : Token → List Char
  | .mark sign => [sign.char]
  | .scalar value => value.render

mutual

def Value.tokens : Value → List Token
  | .scalar value => [.scalar value]
  | .array [] => [.mark .openBracket, .mark .closeBracket]
  | .array (first :: elements) =>
      .mark .openBracket :: (first.tokens ++ elementsTokens elements)
  | .object [] => [.mark .openBrace, .mark .closeBrace]
  | .object ((key, value) :: members) =>
      .mark .openBrace :: .scalar (.string key) :: .mark .colon ::
        (value.tokens ++ membersTokens members)

/-- The elements of an array behind the first one, up to the closing bracket. -/
def elementsTokens : List Value → List Token
  | [] => [.mark .closeBracket]
  | value :: elements => .mark .comma :: (value.tokens ++ elementsTokens elements)

/-- The members of an object behind the first one, up to the closing brace. -/
def membersTokens : List (Literal × Value) → List Token
  | [] => [.mark .closeBrace]
  | (key, value) :: members =>
      .mark .comma :: .scalar (.string key) :: .mark .colon ::
        (value.tokens ++ membersTokens members)

end

/-- The text of a value, without spaces. -/
def Value.render (value : Value) : List Char := value.tokens.flatMap Token.render

end Json
