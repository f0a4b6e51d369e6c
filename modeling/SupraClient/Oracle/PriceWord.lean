import SupraClient.Oracle.Calldata

/-! # The price that is sent

The worker sends a price to Ethereum by way of a single precision number. The
integer part of the fetched price survives that way for many prices and is lost
for others, and texts that are no price at all are sent as well. The results
here say for which texts the argument word is the integer part of the number
they denote.
-/

namespace SupraClient.Oracle

open Scale Binary

/-- The bytes are the text of a decimal numeral of the given value. -/
def Denotes (price : Bytes) (value : ℚ) : Prop :=
  ∃ text numeral, String.fromUTF8? ⟨price.toArray⟩ = some text ∧
    Decimal.Numeral.render numeral = text.toList ∧ numeral.value = value

/-- The calldata carries the integer part of the number the bytes denote, which
is not negative and fits into 32 bits. -/
def SendsIntegerPart (price : Bytes) (data : String) : Prop :=
  ∃ value, Denotes price value ∧ 0 ≤ value ∧ ⌊value⌋₊ < 2 ^ 32 ∧
    argumentWord data = some ⌊value⌋₊

/-- The integer part of a number is not disturbed by single precision. Below
`2 ^ 24` the number has to keep a distance from the next integer, half the
spacing of single precision numbers there; from there on its integer part has
to be a multiple of that spacing, or the greatest integer of 32 bits. -/
def SurvivesSinglePrecision (value : ℚ) : Prop :=
  if ⌊value⌋₊ < 2 ^ 24 then
    value < ⌊value⌋₊ + 1 - binary32.halfSpacingBelow ⌊value⌋₊ ∨
      value = ⌊value⌋₊ + 1 - binary32.halfSpacingBelow ⌊value⌋₊ ∧
        2 ^ 23 ≤ ⌊value⌋₊ ∧ Even ⌊value⌋₊
  else 2 ^ (Nat.log 2 ⌊value⌋₊ - 23) ∣ ⌊value⌋₊ ∨ ⌊value⌋₊ = 2 ^ 32 - 1

instance (value : ℚ) : Decidable (SurvivesSinglePrecision value) := by
  unfold SurvivesSinglePrecision
  infer_instance

/-! ## Rounding and truncation -/

theorem floor_nearest_iff {value : ℚ} (hvalue : 0 ≤ value) :
    ⌊binary32.nearest value⌋₊ = ⌊value⌋₊ ∨ ⌊value⌋₊ = 2 ^ 32 - 1 ↔
      SurvivesSinglePrecision value := by
  unfold SurvivesSinglePrecision
  split
  next hlt =>
    have hfit : ⌊value⌋₊ ≠ 2 ^ 32 - 1 := by omega
    rw [or_iff_left hfit]
    exact binary32.floor_nearest_iff_of_lt hvalue hlt
  next hge =>
    rw [binary32.floor_nearest_iff_of_le hvalue (not_lt.mp hge)]
    rfl

/-- The exponent of a number below `2 ^ 32`. -/
theorem exponent_le {value : ℚ} (hvalue : 0 ≤ value) (hfit : value < 2 ^ 32) :
    binary32.exponent value ≤ 31 := by
  have hmin : binary32.minExponent = -126 := rfl
  rw [Format.exponent, hmin]
  rcases hvalue.eq_or_lt with rfl | hpos
  · simp
  · have hlog : Int.log 2 value < 32 :=
      (Int.lt_zpow_iff_log_lt one_lt_two hpos).mp (by exact_mod_cast hfit)
    omega

theorem nearest_le_two_pow {value : ℚ} (hvalue : 0 ≤ value) (hfit : value < 2 ^ 32) :
    binary32.nearest value ≤ 2 ^ 32 := by
  have hexponent := exponent_le hvalue hfit
  have hprecision : binary32.precision = 24 := rfl
  exact binary32.nearest_le_two_zpow (j := 32) (by omega) hfit.le

/-- Numbers of 32 bits are rounded to finite ones. -/
theorem round_eq_finite {value : ℚ} (hvalue : 0 ≤ value) (hfit : value < 2 ^ 32) :
    binary32.round value = .finite (binary32.nearest value) := by
  have hle := nearest_le_two_pow hvalue hfit
  have hmax : binary32.maxExponent = 127 := rfl
  have hsmall : ¬ (2 : ℚ) ^ (binary32.maxExponent + 1) ≤ binary32.nearest value := by
    rw [hmax, not_le]
    exact hle.trans_lt (by norm_num)
  rw [Format.round, abs_of_nonneg hvalue, if_neg hsmall, if_neg (not_lt.mpr hvalue)]

/-- The greatest integer of 32 bits is rounded up, and saturation brings it back. -/
theorem le_floor_nearest_of_greatest {value : ℚ} (hvalue : 0 ≤ value)
    (hfloor : ⌊value⌋₊ = 2 ^ 32 - 1) : 2 ^ 32 - 1 ≤ ⌊binary32.nearest value⌋₊ := by
  have hlower : ((2 ^ 32 - 1 : ℕ) : ℚ) ≤ value := hfloor ▸ Nat.floor_le hvalue
  have hone : 1 ≤ value := le_trans (by norm_num) hlower
  have hlog : Nat.log 2 (2 ^ 32 - 1) = 31 := by decide
  have hspacing : binary32.spacing value = 2 ^ 8 := by
    have hprecision : binary32.precision = 24 := rfl
    rw [Format.spacing, binary32.exponent_of_one_le hone, hfloor, hlog, hprecision]
    norm_num
  have hround : ((2 ^ 24 : ℤ) : ℚ) * binary32.spacing value ≤ binary32.nearest value := by
    rw [Format.le_nearest_iff, hspacing]
    push_cast at hlower ⊢
    exact Or.inl (by linarith)
  apply Nat.le_floor
  refine le_trans ?_ hround
  rw [hspacing]
  norm_num

/-- What single precision and truncation leave of a number of 32 bits. -/
theorem toNat_asU32_round_iff {value : ℚ} (hvalue : 0 ≤ value) (hfit : ⌊value⌋₊ < 2 ^ 32) :
    (asU32 (binary32.round value)).toNat = ⌊value⌋₊ ↔ SurvivesSinglePrecision value := by
  have hlt : value < 2 ^ 32 := by exact_mod_cast (Nat.floor_lt hvalue).mp hfit
  rw [round_eq_finite hvalue hlt, toNat_asU32_finite, ← floor_nearest_iff hvalue]
  constructor
  · intro hmin
    omega
  · intro h
    rcases h with hfloor | hgreatest
    · omega
    · have hle := le_floor_nearest_of_greatest hvalue hgreatest
      omega

/-! ## From texts to words -/

/-- The number a text denotes is unique. -/
theorem Denotes.unique {price : Bytes} {left right : ℚ} (hleft : Denotes price left)
    (hright : Denotes price right) : left = right := by
  obtain ⟨text, numeral, htext, hrender, rfl⟩ := hleft
  obtain ⟨text', numeral', htext', hrender', rfl⟩ := hright
  obtain rfl : text = text' := Option.some.inj (htext.symm.trans htext')
  have hparse := (Decimal.Numeral.parse_eq_some_iff _ _).mpr hrender
  have hparse' := (Decimal.Numeral.parse_eq_some_iff _ _).mpr hrender'
  rw [Option.some.inj (hparse.symm.trans hparse')]

/-- A function that parses numbers gives every numeral it accepts the nearest single
precision number. -/
def RoundsNumerals (parse : List Char → Option (Value ℚ)) : Prop :=
  ∀ numeral result, parse (Decimal.Numeral.render numeral) = some result →
    result = binary32.round numeral.value

theorem roundsNumerals_parseF32 : RoundsNumerals parseF32 := by
  intro numeral result hresult
  rw [parseF32, (Decimal.Numeral.parse_eq_some_iff _ _).mpr rfl] at hresult
  exact (Option.some.inj hresult).symm

/-- A numeral that is accepted is sent by way of the nearest single precision
number. -/
theorem eq_calldata_of_denotes {parse : List Char → Option (Value ℚ)}
    (hrounds : RoundsNumerals parse) {price : Bytes} {value : ℚ} (hdenotes : Denotes price value)
    {data : String} (hdata : submtPriceCalldataWith parse price = .ok data) :
    data = calldata (asU32 (binary32.round value)) := by
  obtain ⟨text, numeral, htext, hrender, rfl⟩ := hdenotes
  simp only [submtPriceCalldataWith, htext, ← hrender] at hdata
  cases hparse : parse numeral.render with
  | none =>
      rw [hparse] at hdata
      cases hdata
  | some result =>
      rw [hparse, hrounds numeral result hparse] at hdata
      exact (Except.ok.inj hdata).symm

theorem submtPriceCalldata_of_denotes {price : Bytes} {value : ℚ} (hdenotes : Denotes price value) :
    submtPriceCalldata price = .ok (calldata (asU32 (binary32.round value))) := by
  obtain ⟨text, numeral, htext, hrender, rfl⟩ := hdenotes
  have hparse := (Decimal.Numeral.parse_eq_some_iff _ _).mpr hrender
  simp only [submtPriceCalldata, submtPriceCalldataWith, htext, parseF32, hparse]
  rfl

theorem sendsIntegerPart_iff_of_denotes {price : Bytes} {value : ℚ}
    (hdenotes : Denotes price value) {data : String}
    (hdata : submtPriceCalldata price = .ok data) :
    SendsIntegerPart price data ↔
      0 ≤ value ∧ ⌊value⌋₊ < 2 ^ 32 ∧ SurvivesSinglePrecision value := by
  rw [submtPriceCalldata_of_denotes hdenotes] at hdata
  obtain rfl := Except.ok.inj hdata
  simp only [SendsIntegerPart, argumentWord_calldata, Option.some.injEq]
  constructor
  · intro hsends
    obtain ⟨other, hother, hvalue, hfit, hword⟩ := hsends
    obtain rfl := hdenotes.unique hother
    exact ⟨hvalue, hfit, (toNat_asU32_round_iff hvalue hfit).mp hword⟩
  · intro hcondition
    obtain ⟨hvalue, hfit, hsurvives⟩ := hcondition
    exact ⟨value, hdenotes, hvalue, hfit, (toNat_asU32_round_iff hvalue hfit).mpr hsurvives⟩

/-- The calldata carries the integer part of the fetched price exactly when the
fetched bytes denote a number that is not negative, fits into 32 bits and
survives single precision. -/
theorem sendsIntegerPart_iff (price : Bytes) (data : String)
    (hdata : submtPriceCalldata price = .ok data) :
    SendsIntegerPart price data ↔
      ∃ value, Denotes price value ∧ 0 ≤ value ∧ ⌊value⌋₊ < 2 ^ 32 ∧
        SurvivesSinglePrecision value := by
  constructor
  · intro hsends
    obtain ⟨value, hdenotes, hrest⟩ := hsends
    exact ⟨value, hdenotes,
      (sendsIntegerPart_iff_of_denotes hdenotes hdata).mp ⟨value, hdenotes, hrest⟩⟩
  · intro hcondition
    obtain ⟨value, hdenotes, hrest⟩ := hcondition
    exact (sendsIntegerPart_iff_of_denotes hdenotes hdata).mpr hrest

/-- A usual price is sent with its integer part. -/
theorem sendsIntegerPart_usual :
    submtPriceCalldata (bytesOf "2846.37") = .ok (calldata 2846) ∧
      SendsIntegerPart (bytesOf "2846.37") (calldata 2846) := by
  have hdenotes : Denotes (bytesOf "2846.37") (284637 / 100) :=
    ⟨"2846.37", ⟨none, [2, 8, 4, 6], some [3, 7], none, by decide⟩, by decide +kernel, by decide,
      by decide +kernel⟩
  have hdata : submtPriceCalldata (bytesOf "2846.37") = .ok (calldata 2846) := by
    rw [submtPriceCalldata_of_denotes hdenotes]
    decide +kernel
  exact ⟨hdata, (sendsIntegerPart_iff _ _ hdata).mpr
    ⟨_, hdenotes, by decide +kernel, by decide +kernel, by decide +kernel⟩⟩

/-- A price just below an integer is sent as that integer. A text that is no
number at all is sent as the price zero. -/
theorem sendsIntegerPart_fails :
    (submtPriceCalldata (bytesOf "3999.99999") = .ok (calldata 4000) ∧
        argumentWord (calldata 4000) = some 4000 ∧
        Denotes (bytesOf "3999.99999") (399999999 / 100000) ∧
        ⌊(399999999 / 100000 : ℚ)⌋₊ = 3999 ∧
        ¬ SendsIntegerPart (bytesOf "3999.99999") (calldata 4000)) ∧
      submtPriceCalldata (bytesOf "NaN") = .ok (calldata 0) ∧
        ¬ SendsIntegerPart (bytesOf "NaN") (calldata 0) := by
  have hdenotes : Denotes (bytesOf "3999.99999") (399999999 / 100000) :=
    ⟨"3999.99999", ⟨none, [3, 9, 9, 9], some [9, 9, 9, 9, 9], none, by decide⟩,
      by decide +kernel, by decide, by decide +kernel⟩
  have hdata : submtPriceCalldata (bytesOf "3999.99999") = .ok (calldata 4000) := by
    rw [submtPriceCalldata_of_denotes hdenotes]
    decide +kernel
  refine ⟨⟨hdata, argumentWord_calldata 4000, hdenotes, by decide +kernel, ?_⟩,
    by decide +kernel, ?_⟩
  · rw [sendsIntegerPart_iff_of_denotes hdenotes hdata]
    decide +kernel
  · -- the parser finds no numeral in the text
    intro hsends
    obtain ⟨value, ⟨text, numeral, htext, hrender, -⟩, -⟩ := hsends
    have hparse := (Decimal.Numeral.parse_eq_some_iff _ _).mpr hrender
    obtain rfl : "NaN" = text :=
      Option.some.inj ((by decide +kernel : String.fromUTF8? _ = some "NaN").symm.trans htext)
    have hnone : Decimal.Numeral.parse "NaN".toList = none := by decide
    rw [hnone] at hparse
    cases hparse

end SupraClient.Oracle
