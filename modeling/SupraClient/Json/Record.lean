import Mathlib.Data.Nat.Digits.Lemmas
import SupraClient.Json.Parser

/-! # Texts, natural numbers and records as JSON values

A text is written with escapes where it needs them. It can be read in two ways:
decoded, or borrowed from the place where it is written, which works only for
literals without escapes. Records are written as objects; they are read from
objects with the members in any order, or from arrays of their fields.
-/

namespace Json

/-- Items that are read one by one are read together, if all of them can be read. -/
theorem mapM_map_eq_ite {Item Raw Result : Type} {write : Item → Raw}
    {read : Raw → Option Result} {good : Item → Bool} {view : Item → Result} {items : List Item}
    (hread : ∀ item ∈ items, read (write item) = if good item then some (view item) else none) :
    (items.map write).mapM read = if items.all good then some (items.map view) else none := by
  induction items with
  | nil => rfl
  | cons item items ih =>
      have htail := ih fun other hother => hread other (List.mem_cons_of_mem _ hother)
      rw [List.map_cons, List.mapM_cons, hread item List.mem_cons_self, htail, List.all_cons]
      cases good item <;> cases items.all good <;> rfl

theorem mapM_map_eq_some {Item Raw Result : Type} {write : Item → Raw}
    {read : Raw → Option Result} {view : Item → Result} {items : List Item}
    (hread : ∀ item ∈ items, read (write item) = some (view item)) :
    (items.map write).mapM read = some (items.map view) := by
  have hall : (items.map write).mapM read =
      if items.all fun _ => true then some (items.map view) else none :=
    mapM_map_eq_ite hread
  simpa using hall

/-! ## Texts -/

/-- How a character is written: as it is, with a short escape, or with its code. -/
def Piece.ofChar (char : Char) : Piece :=
  if hplain : isPlain char = true then .plain char hplain
  else
    match Escape.all.find? fun escape => escape.char = char with
    | some escape => .short escape
    | none => .unicode (Fin.ofNat (2 ^ 16) char.toNat)

/-- The character of a piece that is written as it is. -/
def Piece.plain? : Piece → Option Char
  | .plain char _ => some char
  | _ => none

/-- The characters that pieces stand for. -/
def charsOf : List Piece → List Char
  | [] => []
  | .plain char _ :: pieces => char :: charsOf pieces
  | .short escape :: pieces => escape.char :: charsOf pieces
  | .unicode unit :: pieces =>
      if isLeadingSurrogate unit then
        match pieces with
        | .unicode trailing :: pieces =>
            Char.ofNat (0x10000 + (unit.val - 0xD800) * 0x400 + (trailing.val - 0xDC00)) ::
              charsOf pieces
        | pieces => charsOf pieces
      else Char.ofNat unit :: charsOf pieces

/-- A character that is written by a piece of its own is read back, and it does
not disturb the pairs behind it. -/
theorem charsOf_ofChar (char : Char) (pieces : List Piece) :
    charsOf (Piece.ofChar char :: pieces) = char :: charsOf pieces ∧
      wellPaired (Piece.ofChar char :: pieces) = wellPaired pieces := by
  unfold Piece.ofChar
  split
  next => exact ⟨by rw [charsOf], by rw [wellPaired]⟩
  next hplain =>
    split
    next escape hfind =>
      have hchar : escape.char = char := by simpa using List.find?_some hfind
      exact ⟨by rw [charsOf, hchar], by rw [wellPaired]⟩
    next hnone =>
      -- what is left are control characters, far below the surrogates
      have hescape : ∀ escape ∈ Escape.all, escape.char ≠ char := by
        simpa using List.find?_eq_none.mp hnone
      have hquote : char ≠ '"' := (hescape .quote (by decide)).symm
      have hbackslash : char ≠ '\\' := (hescape .backslash (by decide)).symm
      have hcontrol : char.toNat < 0x20 := by
        simpa [isPlain, hquote, hbackslash] using hplain
      have hunit : (Fin.ofNat (2 ^ 16) char.toNat).val = char.toNat := Nat.mod_eq_of_lt (by omega)
      have hleading : isLeadingSurrogate (Fin.ofNat (2 ^ 16) char.toNat) = false := by
        rw [isLeadingSurrogate, hunit, Bool.and_eq_false_iff]
        exact Or.inl (decide_eq_false (by omega))
      have htrailing : isTrailingSurrogate (Fin.ofNat (2 ^ 16) char.toNat) = false := by
        rw [isTrailingSurrogate, hunit, Bool.and_eq_false_iff]
        exact Or.inl (decide_eq_false (by omega))
      rw [charsOf.eq_def, wellPaired.eq_def]
      simp only [hleading, htrailing, hunit, Char.ofNat_toNat, Bool.false_eq_true, if_false,
        Bool.not_false, Bool.true_and, and_self]

theorem charsOf_map_ofChar (chars : List Char) :
    charsOf (chars.map Piece.ofChar) = chars ∧ wellPaired (chars.map Piece.ofChar) = true := by
  induction chars with
  | nil => exact ⟨rfl, rfl⟩
  | cons char chars ih =>
      obtain ⟨hchars, hpaired⟩ := charsOf_ofChar char (chars.map Piece.ofChar)
      rw [List.map_cons, hchars, hpaired, ih.1]
      exact ⟨rfl, ih.2⟩

namespace Literal

def ofString (text : String) : Literal where
  pieces := text.toList.map Piece.ofChar
  wellPaired_pieces := (charsOf_map_ofChar text.toList).2

/-- The text between the quotes, if it is written without escapes. -/
def borrowed? (literal : Literal) : Option String :=
  (literal.pieces.mapM Piece.plain?).map String.ofList

/-- The text a literal stands for. -/
def text (literal : Literal) : String := String.ofList (charsOf literal.pieces)

/-- Decoding undoes escaping. -/
theorem text_ofString (text : String) : (ofString text).text = text := by
  rw [Literal.text, ofString, (charsOf_map_ofChar text.toList).1, String.ofList_toList]

theorem plain?_ofChar (char : Char) :
    (Piece.ofChar char).plain? = if isPlain char = true then some char else none := by
  unfold Piece.ofChar
  split
  next => rfl
  next => split <;> rfl

/-- A text can be borrowed exactly when it is written without escapes. -/
theorem borrowed?_ofString (text : String) :
    (ofString text).borrowed? = if text.toList.all isPlain = true then some text else none := by
  have hchars : (text.toList.map Piece.ofChar).mapM Piece.plain? =
      if text.toList.all isPlain then some (text.toList.map id) else none :=
    mapM_map_eq_ite fun char _ => plain?_ofChar char
  rw [borrowed?, ofString, hchars, List.map_id]
  split
  next => rw [Option.map_some, String.ofList_toList]
  next => rfl

end Literal

/-! ## Natural numbers -/

namespace Number

def lastDigit (value : ℕ) : Decimal.Digit := ⟨value % 10, Nat.mod_lt value (by decide)⟩

/-- The digits of a natural number, most significant first. -/
def decimalDigits (value : ℕ) : List Decimal.Digit :=
  if value = 0 then [lastDigit 0] else ((Nat.digits 10 value).map lastDigit).reverse

theorem digitsValue_decimalDigits (value : ℕ) :
    Decimal.digitsValue (decimalDigits value) = value := by
  unfold decimalDigits
  split
  next hzero =>
    rw [hzero]
    rfl
  next =>
    have hdigits : ((Nat.digits 10 value).map lastDigit).map Fin.val =
        Nat.digits 10 value := by
      rw [List.map_map]
      refine (List.map_congr_left fun digit hdigit => ?_).trans (List.map_id _)
      exact Nat.mod_eq_of_lt (Nat.digits_lt_base (by decide) hdigit)
    rw [Decimal.digitsValue, List.reverse_reverse, hdigits, Nat.ofDigits_digits]

/-- No leading zeros. -/
theorem head?_decimalDigits {value : ℕ} (hvalue : value ≠ 0) :
    ∃ first rest, decimalDigits value = first :: rest ∧ first ≠ 0 := by
  have hne : Nat.digits 10 value ≠ [] := Nat.digits_ne_nil_iff_ne_zero.mpr hvalue
  have hlast := Nat.getLast_digit_ne_zero 10 hvalue
  obtain ⟨init, last, hsplit⟩ := (List.eq_nil_or_concat' (Nat.digits 10 value)).resolve_left hne
  refine ⟨lastDigit last, (init.map lastDigit).reverse, ?_, ?_⟩
  · rw [decimalDigits, if_neg hvalue, hsplit, List.map_append, List.reverse_append]
    rfl
  · have hmem : last ∈ Nat.digits 10 value := by simp [hsplit]
    have hlt : last < 10 := Nat.digits_lt_base (by decide) hmem
    have hlast : last ≠ 0 := by simpa [hsplit] using hlast
    intro hzero
    have hmod : last % 10 = 0 := congrArg Fin.val hzero
    omega

def ofNat (value : ℕ) : Number where
  numeral :=
    { sign := none
      integral := decimalDigits value
      fraction := none
      exponent := none
      digits_ne_nil := by
        rcases eq_or_ne value 0 with rfl | hvalue
        · decide
        · obtain ⟨first, rest, heq, -⟩ := head?_decimalDigits hvalue
          simp [heq] }
  isNumber_numeral := by
    rcases eq_or_ne value 0 with rfl | hvalue
    · decide
    · obtain ⟨first, rest, heq, hfirst⟩ := head?_decimalDigits hvalue
      simp only [isNumber, heq]
      cases rest <;> simp [hfirst]

/-- The value of a number that is written with digits only; a zero may have a minus
sign. -/
def natural? (number : Number) : Option ℕ :=
  match number.numeral with
  | { sign := none, integral, fraction := none, exponent := none, .. } =>
      some (Decimal.digitsValue integral)
  | { sign := some .minus, integral, fraction := none, exponent := none, .. } =>
      if Decimal.digitsValue integral = 0 then some 0 else none
  | _ => none

theorem natural?_ofNat (value : ℕ) : (ofNat value).natural? = some value :=
  congrArg some (digitsValue_decimalDigits value)

end Number

/-! ## Values -/

namespace Value

def ofString (text : String) : Value := .scalar (.string (Literal.ofString text))

def ofNat (value : ℕ) : Value := .scalar (.number (Number.ofNat value))

def encodeName (field : String × Value) : Literal × Value := (Literal.ofString field.1, field.2)

def decodeName (member : Literal × Value) : String × Value := (member.1.text, member.2)

/-- A record with named fields, in the order given. -/
def record (fields : List (String × Value)) : Value := .object (fields.map encodeName)

def borrowed? : Value → Option String
  | .scalar (.string literal) => literal.borrowed?
  | _ => none

def text? : Value → Option String
  | .scalar (.string literal) => some literal.text
  | _ => none

def natural? : Value → Option ℕ
  | .scalar (.number number) => number.natural?
  | _ => none

def elements? : Value → Option (List Value)
  | .array elements => some elements
  | _ => none

/-- The only member with a name; there is none if the name is missing or repeated. -/
def uniqueMember (members : List (String × Value)) (name : String) : Option Value :=
  match members.filter fun member => member.1 = name with
  | [member] => some member.2
  | _ => none

/-- The member of an object with a name. -/
def member? (name : String) : Value → Option Value
  | .object members => uniqueMember (members.map decodeName) name
  | _ => none

/-- The fields of a record with the given names. Members with other names are
ignored. An array has to consist of the fields in their order. -/
def fields? (names : List String) : Value → Option (List Value)
  | .object members => names.mapM (uniqueMember (members.map decodeName))
  | .array elements => if elements.length = names.length then some elements else none
  | .scalar _ => none

theorem borrowed?_ofString (text : String) :
    (ofString text).borrowed? = if text.toList.all isPlain = true then some text else none :=
  Literal.borrowed?_ofString text

theorem text?_ofString (text : String) : (ofString text).text? = some text :=
  congrArg some (Literal.text_ofString text)

theorem natural?_ofNat (value : ℕ) : (ofNat value).natural? = some value :=
  Number.natural?_ofNat value

theorem decodeName_encodeName (field : String × Value) : decodeName (encodeName field) = field := by
  rw [decodeName, encodeName, Literal.text_ofString]

theorem uniqueMember_of_mem {members : List (String × Value)}
    (hnames : (members.map Prod.fst).Nodup) {member : String × Value} (hmem : member ∈ members) :
    uniqueMember members member.1 = some member.2 := by
  have hfilter : members.filter (fun other => other.1 = member.1) = [member] := by
    induction members with
    | nil => cases hmem
    | cons first members ih =>
        obtain ⟨hfirst, hrest⟩ := List.nodup_cons.mp hnames
        rcases List.mem_cons.mp hmem with rfl | htail
        · rw [List.filter_cons_of_pos (by simp), List.filter_eq_nil_iff.mpr]
          intro other hother heq
          exact hfirst (decide_eq_true_eq.mp heq ▸ List.mem_map_of_mem hother)
        · rw [List.filter_cons_of_neg, ih hrest htail]
          intro heq
          exact hfirst (decide_eq_true_eq.mp heq ▸ List.mem_map_of_mem htail)
  rw [uniqueMember, hfilter]

theorem map_decodeName_map_encodeName (fields : List (String × Value)) :
    (fields.map encodeName).map decodeName = fields := by
  rw [List.map_map]
  exact List.map_id'' decodeName_encodeName fields

theorem member?_record {fields : List (String × Value)} (hnames : (fields.map Prod.fst).Nodup)
    {field : String × Value} (hfield : field ∈ fields) :
    member? field.1 (record fields) = some field.2 := by
  rw [record, member?, map_decodeName_map_encodeName]
  exact uniqueMember_of_mem hnames hfield

/-- The fields of a record are read back from it. -/
theorem fields?_record {fields : List (String × Value)}
    (hnames : (fields.map Prod.fst).Nodup) :
    fields? (fields.map Prod.fst) (record fields) = some (fields.map Prod.snd) := by
  rw [record, fields?, map_decodeName_map_encodeName]
  exact mapM_map_eq_some fun field hfield => uniqueMember_of_mem hnames hfield

end Value

end Json
