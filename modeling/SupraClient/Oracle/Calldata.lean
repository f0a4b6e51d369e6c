import SupraClient.Oracle.Pallet
import SupraClient.Binary.Rounding
import SupraClient.Decimal.Numeral

/-! # The calldata of a price

Before the worker posts a price to Ethereum it turns the fetched bytes into the
argument of a contract call: text, a single precision number, an unsigned
integer, sixty-four hexadecimal digits.
-/

namespace SupraClient.Oracle

open Scale

/-! ## Numbers of the standard library -/

/-- The words for numbers that are not finite, after an optional sign. These are the
spellings of Rust 1.54, the toolchain that the repository pins; later ones know
more. -/
def parseSpecial (text : List Char) : Option (Binary.Value ℚ) :=
  let (sign, word) := Decimal.takeSign text
  if word = ['N', 'a', 'N'] then some .nan
  else if word = ['i', 'n', 'f'] then some (.infinite (sign = some .minus))
  else none

/-- `parse::<f32>` as it is documented: the nearest single precision number of a
decimal numeral, or one of the special words. -/
def parseF32 (text : List Char) : Option (Binary.Value ℚ) :=
  match Decimal.Numeral.parse text with
  | some numeral => some (Binary.binary32.round numeral.value)
  | none => parseSpecial text

/-- `as u32`: truncation that saturates at both ends, and zero for `NaN`. -/
def asU32 : Binary.Value ℚ → UInt32
  | .nan => 0
  | .infinite negative => if negative then 0 else UInt32.ofNat (2 ^ 32 - 1)
  | .finite value => UInt32.ofNat (min ⌊value⌋₊ (2 ^ 32 - 1))

theorem toNat_asU32_finite (value : ℚ) :
    (asU32 (.finite value)).toNat = min ⌊value⌋₊ (2 ^ 32 - 1) := by
  rw [asU32, UInt32.toNat_ofNat', Nat.mod_eq_of_lt]
  omega

/-! ## Hexadecimal digits -/

/-- `format!("{:x}", ..)`: lower case hexadecimal digits without leading zeros. -/
def lowerHex (value : UInt32) : List Char := Nat.toDigits 16 value.toNat

/-- The selector of the contract method. -/
def selector : String := "0xd423740b"

/-- The selector and the price, filled up with zeros to a word of 256 bits. -/
def calldata (priceInt : UInt32) : String :=
  let param := lowerHex priceInt
  String.ofList (selector.toList ++ (List.replicate (64 - param.length) '0' ++ param))

def readHexDigit (char : Char) : Option ℕ :=
  (List.range 16).find? fun digit => Nat.digitChar digit = char

/-- The number a text of hexadecimal digits stands for, most significant first. -/
def readHex (text : List Char) : Option ℕ :=
  text.foldlM (fun value char => (readHexDigit char).map (16 * value + ·)) 0

/-- The argument of calldata with a selector and one word: the number written by
the sixty-four digits after the selector. -/
def argumentWord (data : String) : Option ℕ :=
  let word := data.toList.drop selector.length
  if word.length = 64 then readHex word else none

theorem readHexDigit_digitChar {digit : ℕ} (h : digit < 16) :
    readHexDigit (Nat.digitChar digit) = some digit := by
  revert digit
  decide

theorem readHex_concat (text : List Char) {digit : ℕ} (h : digit < 16) :
    readHex (text ++ [Nat.digitChar digit]) =
      (readHex text).map fun value => 16 * value + digit := by
  rw [readHex, readHex, List.foldlM_append]
  cases text.foldlM (fun value char => (readHexDigit char).map (16 * value + ·)) 0 with
  | none => rfl
  | some value => simp [readHexDigit_digitChar h]

theorem readHex_replicate_zero (zeros : ℕ) : readHex (List.replicate zeros '0') = some 0 := by
  induction zeros with
  | zero => rfl
  | succ zeros ih =>
      rw [List.replicate_succ']
      exact (readHex_concat _ (show 0 < 16 by decide)).trans (by rw [ih]; rfl)

/-- Leading zeros and the digits of a number are read as the number. -/
theorem readHex_toDigits (zeros value : ℕ) :
    readHex (List.replicate zeros '0' ++ Nat.toDigits 16 value) = some value := by
  induction value using Nat.strongRecOn with
  | _ value ih =>
      rcases lt_or_ge value 16 with hlt | hge
      · rw [Nat.toDigits_of_lt_base hlt, readHex_concat _ hlt, readHex_replicate_zero]
        simp
      · have hdigit : value % 16 < 16 := Nat.mod_lt _ (by decide)
        have hquotient : value / 16 < value := Nat.div_lt_self (by omega) (by decide)
        rw [Nat.toDigits_of_base_le (by decide) hge, ← List.append_assoc, readHex_concat _ hdigit,
          ih (value / 16) hquotient, Option.map_some, Nat.div_add_mod]

theorem length_lowerHex_le (value : UInt32) : (lowerHex value).length ≤ 8 :=
  (Nat.length_toDigits_le_iff (by decide) (by decide)).mpr value.toNat_lt

/-- The word behind the selector fills up sixty-four digits. -/
theorem length_word (priceInt : UInt32) :
    (List.replicate (64 - (lowerHex priceInt).length) '0' ++ lowerHex priceInt).length = 64 := by
  have hlength := length_lowerHex_le priceInt
  rw [List.length_append, List.length_replicate]
  omega

/-- The argument of the calldata of a price is the price. -/
theorem argumentWord_calldata (priceInt : UInt32) :
    argumentWord (calldata priceInt) = some priceInt.toNat := by
  have hdrop : (calldata priceInt).toList.drop selector.length =
      List.replicate (64 - (lowerHex priceInt).length) '0' ++ lowerHex priceInt := by
    rw [calldata, String.toList_ofList]
    exact List.drop_left' String.length_toList
  simp only [argumentWord, hdrop, length_word, if_true]
  exact readHex_toDigits _ _

theorem calldata_injective : Function.Injective calldata := by
  intro left right heq
  have hword := argumentWord_calldata left
  rw [heq, argumentWord_calldata, Option.some.injEq] at hword
  exact (UInt32.toNat_inj.mp hword).symm

/-- What is read as a digit is one of the sixteen digits in lower case. -/
theorem mem_of_readHexDigit {char : Char} {digit : ℕ} (h : readHexDigit char = some digit) :
    char ∈ "0123456789abcdef".toList := by
  have hlt : digit < 16 := List.mem_range.mp (List.mem_of_find?_eq_some h)
  have hchar : Nat.digitChar digit = char := by simpa using List.find?_some h
  rw [← hchar]
  clear h hchar
  revert digit
  decide

theorem mem_of_readHex {text : List Char} {value : ℕ} (h : readHex text = some value) :
    ∀ char ∈ text, char ∈ "0123456789abcdef".toList := by
  unfold readHex at h
  -- the number read so far does not matter
  generalize 0 = start at h
  induction text generalizing start with
  | nil => simp
  | cons first text ih =>
      rw [List.foldlM_cons, Option.bind_eq_bind, Option.bind_eq_some_iff] at h
      obtain ⟨next, hfirst, hrest⟩ := h
      obtain ⟨digit, hdigit, -⟩ := Option.map_eq_some_iff.mp hfirst
      intro char hmem
      rcases List.mem_cons.mp hmem with rfl | htail
      · exact mem_of_readHexDigit hdigit
      · exact ih next hrest char htail

/-- The calldata of a price is the selector and sixty-four digits in lower case
that stand for the price, so no two prices share their calldata. The number of
zeros in front never underflows. -/
theorem calldata_spec :
    (∀ priceInt : UInt32, (lowerHex priceInt).length ≤ 64 ∧
      ∃ word : List Char, (calldata priceInt).toList = "0xd423740b".toList ++ word ∧
        word.length = 64 ∧ (∀ char ∈ word, char ∈ "0123456789abcdef".toList) ∧
        readHex word = some priceInt.toNat) ∧
      Function.Injective calldata := by
  refine ⟨fun priceInt => ⟨(length_lowerHex_le priceInt).trans (by decide), ?_⟩,
    calldata_injective⟩
  have hread := readHex_toDigits (64 - (lowerHex priceInt).length) priceInt.toNat
  refine ⟨_, ?_, length_word priceInt, mem_of_readHex hread, hread⟩
  rw [calldata, String.toList_ofList]
  rfl

/-! ## From the fetched bytes to the calldata -/

/-- The first part of `submt_price_to_ethereum`, up to the calldata it sends, with
a function that parses single precision numbers. -/
def submtPriceCalldataWith (parse : List Char → Option (Binary.Value ℚ)) (price : Bytes) :
    Except Error String := do
  let some priceInString := String.fromUTF8? ⟨price.toArray⟩ | throw .httpFetchingError
  let some priceFloat := parse priceInString.toList | throw .parseFloatError
  let priceInt := asU32 priceFloat
  return calldata priceInt

/-- The same with the function of the standard library. -/
def submtPriceCalldata (price : Bytes) : Except Error String :=
  submtPriceCalldataWith parseF32 price

end SupraClient.Oracle
