import Mathlib.Data.List.Chain
import SupraClient.Json.Syntax

/-! # Reading JSON texts

A text is cut into tokens, with spaces allowed between them, and the tokens are
put together to a value by a machine with a stack of unfinished arrays and
objects. Every value is read back from its written form.
-/

namespace Json

/-! ## Cutting a text into tokens -/

def isSpace (char : Char) : Bool := char = ' ' || char = '\n' || char = '\t' || char = '\r'

/-- Characters of numbers and of the words `null`, `true` and `false`; other
texts of such characters are no tokens. -/
def isWordChar (char : Char) : Bool := !isSpace char && char ≠ '"' && Mark.read char = none

def readWord (lexeme : List Char) : Option Scalar :=
  match Number.read lexeme with
  | some number => some (.number number)
  | none => [Scalar.null, .bool true, .bool false].find? fun scalar => scalar.render = lexeme

def scanToken : List Char → Option (Token × List Char)
  | [] => none
  | char :: rest =>
      match Mark.read char with
      | some mark => some (.mark mark, rest)
      | none =>
          if char = '"' then
            (scanLiteral rest).map fun (literal, rest) => (.scalar (.string literal), rest)
          else
            (readWord ((char :: rest).takeWhile isWordChar)).map fun scalar =>
              (.scalar scalar, (char :: rest).dropWhile isWordChar)

/-- Read at most the given number of tokens, which have to be all. -/
def lexWith : ℕ → List Char → Option (List Token)
  | 0, text => if text.dropWhile isSpace = [] then some [] else none
  | fuel + 1, text =>
      if text.dropWhile isSpace = [] then some []
      else do
        let (token, rest) ← scanToken (text.dropWhile isSpace)
        let tokens ← lexWith fuel rest
        return token :: tokens

/-- The tokens of a text; there are no more of them than characters. -/
def lex (text : List Char) : Option (List Token) := lexWith text.length text

theorem length_of_scanPieces {text rest : List Char} {pieces : List Piece}
    (hscan : scanPieces text = some (pieces, rest)) : rest.length < text.length := by
  fun_induction scanPieces text generalizing pieces rest with
  | case1 => cases hscan
  | case2 text =>
      cases hscan
      exact Nat.lt_succ_self _
  | case3 first second third fourth text ih =>
      simp only [Option.bind_eq_bind, Option.bind_eq_some_iff] at hscan
      obtain ⟨_, -, ⟨_, _⟩, htail, hpair⟩ := hscan
      cases hpair
      have := ih htail
      simp only [List.length_cons]
      omega
  | case4 letter text _ ih =>
      simp only [Option.bind_eq_bind, Option.bind_eq_some_iff] at hscan
      obtain ⟨_, -, ⟨_, _⟩, htail, hpair⟩ := hscan
      cases hpair
      have := ih htail
      simp only [List.length_cons]
      omega
  | case5 char text _ _ _ hplain ih =>
      simp only [Option.bind_eq_bind, Option.bind_eq_some_iff] at hscan
      obtain ⟨⟨_, _⟩, htail, hpair⟩ := hscan
      cases hpair
      exact (ih htail).trans (Nat.lt_succ_self _)
  | case6 => cases hscan

theorem length_of_scanLiteral {text rest : List Char} {literal : Literal}
    (hscan : scanLiteral text = some (literal, rest)) : rest.length < text.length := by
  obtain ⟨⟨pieces, after⟩, hpieces, htail⟩ := Option.bind_eq_some_iff.mp hscan
  dsimp only at htail
  split at htail
  next =>
    cases htail
    exact length_of_scanPieces hpieces
  next => cases htail

theorem length_of_scanToken {text rest : List Char} {token : Token}
    (hscan : scanToken text = some (token, rest)) : rest.length < text.length := by
  cases text with
  | nil => cases hscan
  | cons char text =>
      rw [scanToken] at hscan
      split at hscan
      next =>
        cases hscan
        exact Nat.lt_succ_self _
      next hmark =>
        split at hscan
        next =>
          obtain ⟨⟨_, _⟩, hliteral, hpair⟩ := Option.map_eq_some_iff.mp hscan
          cases hpair
          exact (length_of_scanLiteral hliteral).trans (Nat.lt_succ_self _)
        next hquote =>
          obtain ⟨scalar, hword, hpair⟩ := Option.map_eq_some_iff.mp hscan
          cases hpair
          -- a text that begins with no word character has no word, so a character is dropped
          cases hchar : isWordChar char with
          | false =>
              rw [List.takeWhile_cons_of_neg (by simp [hchar])] at hword
              have hempty : readWord [] = none := by decide
              rw [hempty] at hword
              cases hword
          | true =>
              rw [List.dropWhile_cons_of_pos hchar]
              exact Nat.lt_succ_of_le (List.dropWhile_suffix isWordChar).length_le

/-- More fuel than characters changes nothing. -/
theorem lexWith_succ {fuel : ℕ} {text : List Char} (hfuel : text.length ≤ fuel) :
    lexWith (fuel + 1) text = lexWith fuel text := by
  induction fuel generalizing text with
  | zero =>
      obtain rfl := List.eq_nil_of_length_eq_zero (Nat.le_zero.mp hfuel)
      rfl
  | succ fuel ih =>
      rw [lexWith, lexWith]
      congr 1
      cases hscan : scanToken (text.dropWhile isSpace) with
      | none => rfl
      | some scanned =>
          have hlength := length_of_scanToken hscan
          have hspaces := (List.dropWhile_suffix (l := text) isSpace).length_le
          simp only [Option.bind_eq_bind, Option.bind_some]
          rw [ih (by omega)]

theorem lexWith_eq_lex {fuel : ℕ} {text : List Char} (hfuel : text.length ≤ fuel) :
    lexWith fuel text = lex text := by
  induction fuel, hfuel using Nat.le_induction with
  | base => rfl
  | succ fuel hfuel ih => rw [lexWith_succ hfuel, ih]

/-! ## Putting tokens together -/

/-- An unfinished array or object around the current place. -/
inductive Frame where
  | array (elements : List Value)
  | object (members : List (Literal × Value)) (key : Literal)

/-- What has just been read, and so what may come next. -/
inductive Place where
  /-- A value has to come. -/
  | value
  /-- Behind an opening bracket. -/
  | firstElement
  /-- Behind an opening brace. -/
  | firstKey
  /-- Behind a comma of an object. -/
  | key (members : List (Literal × Value))
  | colon (members : List (Literal × Value)) (key : Literal)
  /-- Behind a value. -/
  | done (value : Value)

structure ParserState where
  frames : List Frame
  place : Place

namespace ParserState

def startValue (frames : List Frame) : Token → Option ParserState
  | .scalar scalar => some ⟨frames, .done (.scalar scalar)⟩
  | .mark .openBracket => some ⟨frames, .firstElement⟩
  | .mark .openBrace => some ⟨frames, .firstKey⟩
  | _ => none

def step : ParserState → Token → Option ParserState
  | ⟨frames, .value⟩, token => startValue frames token
  | ⟨frames, .firstElement⟩, .mark .closeBracket => some ⟨frames, .done (.array [])⟩
  | ⟨frames, .firstElement⟩, token => startValue (.array [] :: frames) token
  | ⟨frames, .firstKey⟩, .mark .closeBrace => some ⟨frames, .done (.object [])⟩
  | ⟨frames, .firstKey⟩, .scalar (.string key) => some ⟨frames, .colon [] key⟩
  | ⟨frames, .key members⟩, .scalar (.string key) => some ⟨frames, .colon members key⟩
  | ⟨frames, .colon members key⟩, .mark .colon => some ⟨.object members key :: frames, .value⟩
  | ⟨.array elements :: frames, .done value⟩, .mark .comma =>
      some ⟨.array (elements ++ [value]) :: frames, .value⟩
  | ⟨.array elements :: frames, .done value⟩, .mark .closeBracket =>
      some ⟨frames, .done (.array (elements ++ [value]))⟩
  | ⟨.object members key :: frames, .done value⟩, .mark .comma =>
      some ⟨frames, .key (members ++ [(key, value)])⟩
  | ⟨.object members key :: frames, .done value⟩, .mark .closeBrace =>
      some ⟨frames, .done (.object (members ++ [(key, value)]))⟩
  | _, _ => none

def run (state : ParserState) (tokens : List Token) : Option ParserState := tokens.foldlM step state

/-- The value of a finished text. -/
def result : ParserState → Option Value
  | ⟨[], .done value⟩ => some value
  | _ => none

theorem run_cons (state : ParserState) (token : Token) (tokens : List Token) :
    state.run (token :: tokens) = (state.step token).bind fun next => next.run tokens :=
  rfl

end ParserState

def parse (text : List Char) : Option Value := do
  let tokens ← lex text
  let state ← ParserState.run ⟨[], .value⟩ tokens
  state.result

/-! ## Tokens are read back -/

def Token.isWord : Token → Bool
  | .mark _ => false
  | .scalar (.string _) => false
  | .scalar _ => true

theorem Token.exists_string_of_isWord_eq_false {scalar : Scalar}
    (hword : (Token.scalar scalar).isWord = false) : ∃ literal, scalar = .string literal := by
  cases scalar with
  | string literal => exact ⟨literal, rfl⟩
  | null => cases hword
  | bool value => cases hword
  | number value => cases hword

theorem isWordChar_digit (digit : Decimal.Digit) : isWordChar digit.char = true := by
  revert digit
  decide

theorem isWordChar_of_mem_digitChars {digits : List Decimal.Digit} {char : Char}
    (hmem : char ∈ Decimal.digitChars digits) : isWordChar char = true := by
  obtain ⟨digit, -, rfl⟩ := List.mem_map.mp hmem
  exact isWordChar_digit digit

theorem isWordChar_of_mem_signChars {sign : Option Decimal.Sign} {char : Char}
    (hmem : char ∈ Decimal.signChars sign) : isWordChar char = true := by
  have hall : (Decimal.signChars sign).all isWordChar = true := by
    cases sign with
    | none => rfl
    | some sign => cases sign <;> decide
  exact List.all_eq_true.mp hall char hmem

theorem isWordChar_of_mem_render {numeral : Decimal.Numeral} {char : Char}
    (hmem : char ∈ numeral.render) : isWordChar char = true := by
  simp only [Decimal.Numeral.render, List.mem_append] at hmem
  rcases hmem with hsign | hintegral | hfraction | hexponent
  · exact isWordChar_of_mem_signChars hsign
  · exact isWordChar_of_mem_digitChars hintegral
  · cases hdigits : numeral.fraction with
    | none => simp [hdigits, Decimal.fractionChars] at hfraction
    | some digits =>
        rw [hdigits, Decimal.fractionChars, List.mem_cons] at hfraction
        rcases hfraction with rfl | hdigit
        · decide
        · exact isWordChar_of_mem_digitChars hdigit
  · cases hdigits : numeral.exponent with
    | none => simp [hdigits, Decimal.exponentChars] at hexponent
    | some exponent =>
        rw [hdigits, Decimal.exponentChars, List.mem_cons, List.mem_append] at hexponent
        rcases hexponent with rfl | hsign | hdigit
        · cases exponent.capital <;> decide
        · exact isWordChar_of_mem_signChars hsign
        · exact isWordChar_of_mem_digitChars hdigit

theorem render_ne_nil (numeral : Decimal.Numeral) : numeral.render ≠ [] := by
  intro hnil
  have hparse := numeral.parse_render
  rw [hnil] at hparse
  cases hparse

/-- Words are texts of word characters, and are read back. -/
theorem word_spec {scalar : Scalar} (hword : (Token.scalar scalar).isWord = true) :
    scalar.render ≠ [] ∧ (∀ char ∈ scalar.render, isWordChar char = true) ∧
      readWord scalar.render = some scalar := by
  cases scalar with
  | null => exact ⟨by decide, List.all_eq_true.mp (by decide), by decide⟩
  | bool value =>
      cases value with
      | false => exact ⟨by decide, List.all_eq_true.mp (by decide), by decide⟩
      | true => exact ⟨by decide, List.all_eq_true.mp (by decide), by decide⟩
  | string literal => cases hword
  | number number =>
      refine ⟨render_ne_nil number.numeral, fun char hmem => isWordChar_of_mem_render hmem, ?_⟩
      rw [readWord, Scalar.render, number.read_render]

/-- A text does not begin with a word character. -/
def NoWord (text : List Char) : Prop := ∀ char ∈ text.head?, isWordChar char = false

theorem scanToken_word {lexeme rest : List Char} (hne : lexeme ≠ [])
    (hlexeme : ∀ char ∈ lexeme, isWordChar char = true) (hrest : NoWord rest) :
    scanToken (lexeme ++ rest) =
      (readWord lexeme).map fun scalar => (.scalar scalar, rest) := by
  have htake : (lexeme ++ rest).takeWhile isWordChar = lexeme := by
    rw [List.takeWhile_append_of_pos hlexeme]
    cases rest with
    | nil => simp
    | cons char rest => rw [List.takeWhile_cons_of_neg (by simp [hrest char rfl]), List.append_nil]
  have hdrop : (lexeme ++ rest).dropWhile isWordChar = rest := by
    rw [List.dropWhile_append_of_pos hlexeme]
    cases rest with
    | nil => rfl
    | cons char rest => exact List.dropWhile_cons_of_neg (by simp [hrest char rfl])
  cases lexeme with
  | nil => exact absurd rfl hne
  | cons first lexeme =>
      have hfirst := hlexeme first List.mem_cons_self
      simp only [isWordChar, Bool.and_eq_true, decide_eq_true_eq] at hfirst
      rw [List.cons_append] at htake hdrop ⊢
      rw [scanToken, hfirst.2, htake, hdrop]
      exact if_neg hfirst.1.2

/-- A token is read back from the beginning of a text. Two words need something
between them. -/
theorem scanToken_render (token : Token) {rest : List Char}
    (hrest : token.isWord = true → NoWord rest) :
    scanToken (token.render ++ rest) = some (token, rest) := by
  cases token with
  | mark mark => rw [Token.render, List.singleton_append, scanToken, mark.read_char]
  | scalar scalar =>
      cases hword : (Token.scalar scalar).isWord with
      | true =>
          obtain ⟨hne, hlexeme, hread⟩ := word_spec hword
          rw [Token.render, scanToken_word hne hlexeme (hrest hword), hread, Option.map_some]
      | false =>
          obtain ⟨literal, rfl⟩ := Token.exists_string_of_isWord_eq_false hword
          have hquote : Mark.read '"' = none := by decide
          rw [Token.render, Scalar.render, List.cons_append, scanToken, hquote]
          simp only [if_true, scanLiteral_renderTail, Option.map_some]

/-- The first character of a token is no space, and it tells words from other
tokens. -/
theorem exists_first (token : Token) :
    ∃ first tail, token.render = first :: tail ∧ isSpace first = false ∧
      isWordChar first = token.isWord := by
  cases token with
  | mark mark => exact ⟨mark.char, [], rfl, by cases mark <;> decide, by cases mark <;> decide⟩
  | scalar scalar =>
      cases hword : (Token.scalar scalar).isWord with
      | true =>
          obtain ⟨hne, hlexeme, -⟩ := word_spec hword
          obtain ⟨first, tail, heq⟩ := List.exists_cons_of_ne_nil hne
          have hfirst := hlexeme first (by rw [heq]; exact List.mem_cons_self)
          refine ⟨first, tail, heq, ?_, hfirst⟩
          simp only [isWordChar, Bool.and_eq_true, Bool.not_eq_true'] at hfirst
          exact hfirst.1.1
      | false =>
          obtain ⟨literal, rfl⟩ := Token.exists_string_of_isWord_eq_false hword
          exact ⟨'"', literal.renderTail, rfl, by decide, by decide⟩

/-- No two words next to each other. -/
def Separated (tokens : List Token) : Prop :=
  tokens.IsChain fun left right => left.isWord = true → right.isWord = false

theorem noWord_flatMap_render {tokens : List Token}
    (hhead : ∀ token ∈ tokens.head?, token.isWord = false) :
    NoWord (tokens.flatMap Token.render) := by
  cases tokens with
  | nil => simp [NoWord]
  | cons token tokens =>
      obtain ⟨first, tail, heq, -, hfirst⟩ := exists_first token
      rw [List.flatMap_cons, heq]
      intro char hchar
      cases hchar
      rw [hfirst]
      exact hhead token rfl

theorem lexWith_render {tokens : List Token} (hseparated : Separated tokens) {fuel : ℕ}
    (hfuel : tokens.length ≤ fuel) :
    lexWith fuel (tokens.flatMap Token.render) = some tokens := by
  induction tokens generalizing fuel with
  | nil => cases fuel <;> rfl
  | cons token tokens ih =>
      obtain ⟨hhead, htail⟩ := List.isChain_cons.mp hseparated
      obtain ⟨first, tail, heq, hfirst, -⟩ := exists_first token
      have hspaces : (token.render ++ tokens.flatMap Token.render).dropWhile isSpace =
          token.render ++ tokens.flatMap Token.render := by
        rw [heq, List.cons_append]
        exact List.dropWhile_cons_of_neg (by simp [hfirst])
      have hscan : scanToken (token.render ++ tokens.flatMap Token.render) =
          some (token, tokens.flatMap Token.render) :=
        scanToken_render token fun hword =>
          noWord_flatMap_render fun next hnext => hhead next hnext hword
      cases fuel with
      | zero => simp at hfuel
      | succ fuel =>
          rw [List.length_cons, Nat.add_le_add_iff_right] at hfuel
          have hne : token.render ++ tokens.flatMap Token.render ≠ [] := by simp [heq]
          rw [List.flatMap_cons, lexWith, hspaces, if_neg hne, hscan]
          simp only [Option.bind_eq_bind, Option.bind_some, ih htail hfuel, Option.pure_def]

/-! ## Values are read back -/

/-- Tokens that may stand behind a value. -/
def Continues (tokens : List Token) : Prop :=
  Separated tokens ∧ ∀ token ∈ tokens.head?, token.isWord = false

theorem continues_mark (mark : Mark) {tokens : List Token} (hseparated : Separated tokens) :
    Continues (.mark mark :: tokens) := by
  refine ⟨List.isChain_cons.mpr ⟨fun _ _ hword => absurd hword Bool.false_ne_true, hseparated⟩, ?_⟩
  intro token htoken
  cases htoken
  rfl

theorem separated_string (literal : Literal) {tokens : List Token} (hseparated : Separated tokens) :
    Separated (.scalar (.string literal) :: tokens) :=
  List.isChain_cons.mpr ⟨fun _ _ hword => absurd hword Bool.false_ne_true, hseparated⟩

mutual

theorem separated_tokens (value : Value) {rest : List Token} (hrest : Continues rest) :
    Separated (value.tokens ++ rest) := by
  match value with
  | .scalar scalar =>
      rw [Value.tokens, List.singleton_append]
      exact List.isChain_cons.mpr ⟨fun token htoken _ => hrest.2 token htoken, hrest.1⟩
  | .array [] => exact (continues_mark _ (continues_mark _ hrest.1).1).1
  | .array (first :: elements) =>
      rw [Value.tokens, List.cons_append, List.append_assoc]
      exact (continues_mark _ (separated_tokens first (continues_elements elements hrest.1))).1
  | .object [] => exact (continues_mark _ (continues_mark _ hrest.1).1).1
  | .object ((key, first) :: members) =>
      rw [Value.tokens, List.cons_append, List.cons_append, List.cons_append, List.append_assoc]
      exact (continues_mark _ (separated_string _ (continues_mark _
        (separated_tokens first (continues_members members hrest.1))).1)).1

theorem continues_elements (elements : List Value) {rest : List Token} (hrest : Separated rest) :
    Continues (elementsTokens elements ++ rest) := by
  match elements with
  | [] => exact continues_mark _ hrest
  | value :: elements =>
      rw [elementsTokens, List.cons_append, List.append_assoc]
      exact continues_mark _ (separated_tokens value (continues_elements elements hrest))

theorem continues_members (members : List (Literal × Value)) {rest : List Token}
    (hrest : Separated rest) : Continues (membersTokens members ++ rest) := by
  match members with
  | [] => exact continues_mark _ hrest
  | (key, value) :: members =>
      rw [membersTokens, List.cons_append, List.cons_append, List.cons_append, List.append_assoc]
      exact continues_mark _ (separated_string _ (continues_mark _
        (separated_tokens value (continues_members members hrest))).1)

end

namespace ParserState

/-- No value begins with a closing bracket. -/
theorem run_firstElement (value : Value) (frames : List Frame) (rest : List Token) :
    run ⟨frames, .firstElement⟩ (value.tokens ++ rest) =
      run ⟨.array [] :: frames, .value⟩ (value.tokens ++ rest) := by
  match value with
  | .scalar _ => rfl
  | .array [] => rfl
  | .array (_ :: _) => rw [Value.tokens]; rfl
  | .object [] => rfl
  | .object (_ :: _) => rw [Value.tokens]; rfl

mutual

/-- The tokens of a value bring the machine from the place where a value has to
come to the place behind it, whatever is around. -/
theorem run_tokens (value : Value) (frames : List Frame) (rest : List Token) :
    run ⟨frames, .value⟩ (value.tokens ++ rest) = run ⟨frames, .done value⟩ rest := by
  match value with
  | .scalar scalar => rfl
  | .array [] => rfl
  | .array (first :: elements) =>
      rw [Value.tokens, List.cons_append, List.append_assoc]
      exact (run_firstElement first frames _).trans
        ((run_tokens first _ _).trans (run_elements elements [] first frames rest))
  | .object [] => rfl
  | .object ((key, first) :: members) =>
      rw [Value.tokens, List.cons_append, List.cons_append, List.cons_append, List.append_assoc]
      exact (run_tokens first _ _).trans (run_members members [] key first frames rest)

theorem run_elements (elements done : List Value) (value : Value) (frames : List Frame)
    (rest : List Token) :
    run ⟨.array done :: frames, .done value⟩ (elementsTokens elements ++ rest) =
      run ⟨frames, .done (.array (done ++ value :: elements))⟩ rest := by
  match elements with
  | [] => rfl
  | next :: elements =>
      rw [elementsTokens, List.cons_append, List.append_assoc]
      refine (run_tokens next _ _).trans ((run_elements elements _ next frames rest).trans ?_)
      rw [List.append_assoc, List.singleton_append]

theorem run_members (members done : List (Literal × Value)) (key : Literal) (value : Value)
    (frames : List Frame) (rest : List Token) :
    run ⟨.object done key :: frames, .done value⟩ (membersTokens members ++ rest) =
      run ⟨frames, .done (.object (done ++ (key, value) :: members))⟩ rest := by
  match members with
  | [] => rfl
  | (name, next) :: members =>
      rw [membersTokens, List.cons_append, List.cons_append, List.cons_append, List.append_assoc]
      refine (run_tokens next _ _).trans ((run_members members _ name next frames rest).trans ?_)
      rw [List.append_assoc, List.singleton_append]

end

end ParserState

/-- Every value is read back from its written form. -/
theorem parse_render (value : Value) : parse value.render = some value := by
  have hseparated : Separated value.tokens := by
    rw [← List.append_nil value.tokens]
    exact separated_tokens value ⟨List.isChain_nil, by simp⟩
  have hlex : lex value.render = some value.tokens := by
    rw [← lexWith_eq_lex (Nat.le_add_left _ value.tokens.length)]
    exact lexWith_render hseparated (Nat.le_add_right _ _)
  have hrun : ParserState.run ⟨[], .value⟩ value.tokens = some ⟨[], .done value⟩ := by
    have hrun := ParserState.run_tokens value [] []
    rw [List.append_nil] at hrun
    exact hrun
  rw [parse, hlex, Option.bind_eq_bind, Option.bind_some, hrun]
  rfl

end Json
