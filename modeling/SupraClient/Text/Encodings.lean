import Mathlib.Data.Nat.Digits.Lemmas
import SupraClient.Json.Record
import SupraClient.Scale.Codec

/-! # Bytes as text

Base 58 writes bytes as one large number, so zeros in front have to be kept apart
from it. Written as a change of base that keeps every leading zero, reading back
is the same function the other way round. Hexadecimal text has two digits for
each byte, in either case.

What programs need to know of such encodings are the laws they obey. The encodings
defined here are instances of them.
-/

namespace Text

open Scale

/-! ## Laws -/

/-- Bytes are written as text, and can be read back. -/
structure Encoding where
  encode : Bytes → List Char
  decode : List Char → Option Bytes
  decode_encode : ∀ bytes, decode (encode bytes) = some bytes

/-- Every text that can be read is the text of the bytes that are read. -/
structure ExactEncoding extends Encoding where
  encode_of_decode : ∀ {text bytes}, decode text = some bytes → encode bytes = text

/-- There are two digits for each byte, in either case, and lower case is written. -/
structure HexEncoding extends Encoding where
  encode_of_decode : ∀ {text bytes}, decode text = some bytes →
    encode bytes = text.map Char.toLower
  length_encode : ∀ bytes, (encode bytes).length = 2 * bytes.length
  isSome_decode_iff : ∀ text, (decode text).isSome = true ↔
    Even text.length ∧ ∀ char ∈ text, (Json.readHexDigit char).isSome = true

/-! ## Change of base -/

/-- The digits of a number in another base, most significant first; every zero in
front stays one. -/
def convert (source target : ℕ) : List ℕ → List ℕ
  | 0 :: rest => 0 :: convert source target rest
  | digits => (Nat.digits target (Nat.ofDigits source digits.reverse)).reverse

variable {source target : ℕ}

/-- Without zeros in front only the number counts. -/
theorem convert_of_head {digits : List ℕ} (hhead : digits.head? ≠ some 0) :
    convert source target digits =
      (Nat.digits target (Nat.ofDigits source digits.reverse)).reverse := by
  match digits with
  | [] => rfl
  | 0 :: rest => exact absurd rfl hhead
  | (_ + 1) :: rest => rfl

theorem head?_reverse_digits (base value : ℕ) : (Nat.digits base value).reverse.head? ≠ some 0 := by
  intro hhead
  rw [List.head?_reverse, List.getLast?_eq_some_iff] at hhead
  obtain ⟨front, hdigits⟩ := hhead
  have hne : Nat.digits base value ≠ [] := by simp [hdigits]
  have hlast := Nat.getLast_digit_ne_zero base (Nat.digits_ne_nil_iff_ne_zero.mp hne)
  simp [hdigits] at hlast

theorem lt_of_mem_convert (htarget : 1 < target) {digits : List ℕ} {digit : ℕ}
    (hdigit : digit ∈ convert source target digits) : digit < target := by
  induction digits with
  | nil => simp [convert] at hdigit
  | cons first rest ih =>
      by_cases hfirst : first = 0
      · subst first
        rcases List.mem_cons.mp hdigit with rfl | hrest
        · exact Nat.zero_lt_of_lt htarget
        · exact ih hrest
      · rw [convert_of_head (by simpa using hfirst), List.mem_reverse] at hdigit
        exact Nat.digits_lt_base htarget hdigit

/-- Digits are recovered from their form in the other base. -/
theorem convert_convert (hsource : 1 < source) {digits : List ℕ}
    (hdigits : ∀ digit ∈ digits, digit < source) :
    convert target source (convert source target digits) = digits := by
  induction digits with
  | nil => simp [convert]
  | cons first rest ih =>
      by_cases hfirst : first = 0
      · subst first
        rw [convert, convert, ih fun digit hmem => hdigits digit (List.mem_cons_of_mem _ hmem)]
      · have hhead : (first :: rest).head? ≠ some 0 := by simpa using hfirst
        rw [convert_of_head hhead, convert_of_head (head?_reverse_digits _ _),
          List.reverse_reverse, Nat.ofDigits_digits, Nat.digits_ofDigits source hsource]
        · exact List.reverse_reverse _
        · exact fun digit hmem => hdigits digit (List.mem_reverse.mp hmem)
        · simpa using hfirst

/-! ## Base 58 -/

def alphabet : List Char :=
  "123456789ABCDEFGHJKLMNPQRSTUVWXYZabcdefghijkmnopqrstuvwxyz".toList

def base58Char (digit : ℕ) : Char := alphabet.getD digit '1'

def encodeBase58 (bytes : Bytes) : List Char :=
  (convert 256 58 (bytes.map UInt8.toNat)).map base58Char

/-- Characters outside the alphabet are rejected. -/
def decodeBase58 (text : List Char) : Option Bytes :=
  (text.mapM alphabet.idxOf?).map fun digits => (convert 58 256 digits).map UInt8.ofNat

theorem idxOf?_base58Char : ∀ digit < 58, alphabet.idxOf? (base58Char digit) = some digit := by
  decide +kernel

theorem base58Char_of_idxOf? {char : Char} {digit : ℕ}
    (hdigit : alphabet.idxOf? char = some digit) : digit < 58 ∧ base58Char digit = char := by
  obtain ⟨hlength, hchar, -⟩ := List.idxOf?_eq_some_iff.mp hdigit
  refine ⟨hlength, ?_⟩
  rw [base58Char, List.getD_eq_getElem?_getD, List.getElem?_eq_getElem hlength]
  exact hchar

theorem decodeBase58_encodeBase58 (bytes : Bytes) :
    decodeBase58 (encodeBase58 bytes) = some bytes := by
  have hdigits : (encodeBase58 bytes).mapM alphabet.idxOf? =
      some ((convert 256 58 (bytes.map UInt8.toNat)).map id) :=
    Json.mapM_map_eq_some fun digit hmem =>
      idxOf?_base58Char digit (lt_of_mem_convert (by decide) hmem)
  have hbytes : ∀ digit ∈ bytes.map UInt8.toNat, digit < 256 := by
    intro digit hmem
    obtain ⟨byte, -, rfl⟩ := List.mem_map.mp hmem
    exact byte.toNat_lt
  rw [decodeBase58, hdigits, Option.map_some, List.map_id, convert_convert (by decide) hbytes,
    List.map_map]
  exact congrArg some (List.map_id'' (fun byte => UInt8.ofNat_toNat) bytes)

theorem of_mapM_idxOf? {text : List Char} {digits : List ℕ}
    (hdigits : text.mapM alphabet.idxOf? = some digits) :
    digits.map base58Char = text ∧ ∀ digit ∈ digits, digit < 58 := by
  induction text generalizing digits with
  | nil =>
      cases hdigits
      exact ⟨rfl, fun _ hmem => absurd hmem List.not_mem_nil⟩
  | cons char rest ih =>
      simp only [List.mapM_cons, Option.pure_def, Option.bind_eq_bind,
        Option.bind_eq_some_iff] at hdigits
      obtain ⟨digit, hdigit, others, hothers, hsplit⟩ := hdigits
      cases hsplit
      obtain ⟨hlt, hchar⟩ := base58Char_of_idxOf? hdigit
      obtain ⟨hrest, hall⟩ := ih hothers
      exact ⟨by rw [List.map_cons, hchar, hrest], List.forall_mem_cons.mpr ⟨hlt, hall⟩⟩

/-- Every text that can be read is the text of the bytes that are read. -/
theorem encodeBase58_of_decodeBase58 {text : List Char} {bytes : Bytes}
    (hbytes : decodeBase58 text = some bytes) : encodeBase58 bytes = text := by
  obtain ⟨digits, hdigits, rfl⟩ := Option.map_eq_some_iff.mp hbytes
  obtain ⟨htext, hlt⟩ := of_mapM_idxOf? hdigits
  have hvalues : ((convert 58 256 digits).map UInt8.ofNat).map UInt8.toNat =
      convert 58 256 digits := by
    rw [List.map_map]
    refine (List.map_congr_left fun digit hmem => ?_).trans (List.map_id _)
    exact UInt8.toNat_ofNat_of_lt' (lt_of_mem_convert (by decide) hmem)
  rw [encodeBase58, hvalues, convert_convert (by decide) hlt, htext]

def base58 : ExactEncoding where
  encode := encodeBase58
  decode := decodeBase58
  decode_encode := decodeBase58_encodeBase58
  encode_of_decode := encodeBase58_of_decodeBase58

/-! ## Hexadecimal -/

/-- The hexadecimal digit of a byte at a position, counted from the low one. -/
def byteDigit (byte : UInt8) (position : ℕ) : Fin 16 :=
  ⟨byte.toNat / 16 ^ position % 16, Nat.mod_lt _ (by decide)⟩

def encodeHex (bytes : Bytes) : List Char :=
  bytes.flatMap fun byte => [Json.hexDigit (byteDigit byte 1), Json.hexDigit (byteDigit byte 0)]

/-- Every byte has two digits; an odd digit at the end is rejected. -/
def decodeHex : List Char → Option Bytes
  | [] => some []
  | [_] => none
  | high :: low :: rest => do
      let high ← Json.readHexDigit high
      let low ← Json.readHexDigit low
      let bytes ← decodeHex rest
      return UInt8.ofNat (16 * high + low) :: bytes

theorem ofNat_byteDigit (byte : UInt8) :
    UInt8.ofNat (16 * (byteDigit byte 1 : ℕ) + (byteDigit byte 0 : ℕ)) = byte := by
  have hbyte := byte.toNat_lt
  have hdigits : 16 * (byteDigit byte 1 : ℕ) + (byteDigit byte 0 : ℕ) = byte.toNat := by
    simp only [byteDigit]
    omega
  rw [hdigits, UInt8.ofNat_toNat]

theorem decodeHex_encodeHex (bytes : Bytes) : decodeHex (encodeHex bytes) = some bytes := by
  induction bytes with
  | nil => rfl
  | cons byte rest ih =>
      rw [encodeHex, List.flatMap_cons]
      change decodeHex (_ :: _ :: encodeHex rest) = _
      simp only [decodeHex, Json.readHexDigit_hexDigit, ih, Option.pure_def, Option.bind_eq_bind,
        Option.bind_some, ofNat_byteDigit]

theorem hexDigit_of_readHexDigit {char : Char} {digit : Fin 16}
    (hdigit : Json.readHexDigit char = some digit) : Json.hexDigit digit = char.toLower := by
  simpa using List.find?_some hdigit

theorem byteDigit_ofNat (high low : Fin 16) :
    byteDigit (UInt8.ofNat (16 * (high : ℕ) + low)) 1 = high ∧
      byteDigit (UInt8.ofNat (16 * (high : ℕ) + low)) 0 = low := by
  have hvalue : (UInt8.ofNat (16 * (high : ℕ) + low)).toNat = 16 * high + low :=
    UInt8.toNat_ofNat_of_lt' (by change _ < 256; omega)
  constructor
  · apply Fin.ext
    simp only [byteDigit, hvalue]
    omega
  · apply Fin.ext
    simp only [byteDigit, hvalue]
    omega

/-- Writing what was read changes nothing but the case. -/
theorem encodeHex_of_decodeHex {text : List Char} {bytes : Bytes}
    (hbytes : decodeHex text = some bytes) : encodeHex bytes = text.map Char.toLower := by
  fun_induction decodeHex text generalizing bytes with
  | case1 =>
      cases hbytes
      rfl
  | case2 => cases hbytes
  | case3 high low rest ih =>
      simp only [Option.pure_def, Option.bind_eq_bind, Option.bind_eq_some_iff] at hbytes
      obtain ⟨first, hfirst, second, hsecond, others, hothers, hsplit⟩ := hbytes
      cases hsplit
      obtain ⟨hhigh, hlow⟩ := byteDigit_ofNat first second
      rw [encodeHex, List.flatMap_cons, ← encodeHex, hhigh, hlow,
        hexDigit_of_readHexDigit hfirst, hexDigit_of_readHexDigit hsecond, ih hothers]
      rfl

theorem length_encodeHex (bytes : Bytes) : (encodeHex bytes).length = 2 * bytes.length := by
  induction bytes with
  | nil => rfl
  | cons byte rest ih =>
      rw [encodeHex, List.flatMap_cons, ← encodeHex, List.length_append, ih]
      simp only [List.length_cons, List.length_nil]
      omega

/-- Exactly the texts of an even number of digits can be read. -/
theorem decodeHex_isSome_iff (text : List Char) :
    (decodeHex text).isSome = true ↔
      Even text.length ∧ ∀ char ∈ text, (Json.readHexDigit char).isSome = true := by
  fun_induction decodeHex text with
  | case1 => simp
  | case2 => simp
  | case3 high low rest ih =>
      have heven : Even (rest.length + 1 + 1) ↔ Even rest.length := by
        rw [Nat.even_add_one, Nat.even_add_one, not_not]
      simp only [List.forall_mem_cons, List.length_cons, heven]
      cases Json.readHexDigit high with
      | none => simp
      | some first =>
          cases Json.readHexDigit low with
          | none => simp
          | some second =>
              simp only [Option.isSome_some, true_and, ← ih]
              cases decodeHex rest <;> rfl

def hexadecimal : HexEncoding where
  encode := encodeHex
  decode := decodeHex
  decode_encode := decodeHex_encodeHex
  encode_of_decode := encodeHex_of_decodeHex
  length_encode := length_encodeHex
  isSome_decode_iff := decodeHex_isSome_iff

end Text
