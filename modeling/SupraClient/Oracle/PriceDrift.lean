import SupraClient.Oracle.Posting
import SupraClient.Oracle.PriceWord

/-! # The two ledgers of a price

A run of the worker brings a price to two ledgers. The chain gets the text as it
was fetched, and Ethereum gets a word in a transaction, by way of a single
precision number and of a truncation. So the two are not the same, but they are
close. The word exceeds the price by no more than single precision allows, it
falls short of it by less than one beyond that, and a higher price never has a
lower word.
-/

namespace SupraClient.Oracle

open Scale Binary

/-! ## Words and numbers -/

/-- A word stands for a number: truncated, up to the precision of single
precision numbers, and within 32 bits. -/
structure Approximates (word : ℕ) (value : ℚ) : Prop where
  negative : value < 0 → word = 0
  lower : value < 2 ^ 32 - 1 → value - |value| / 2 ^ 24 - 1 < word
  upper : 0 ≤ value → (word : ℚ) ≤ value + value / 2 ^ 24
  saturated : 2 ^ 32 - 1 ≤ value → word = 2 ^ 32 - 1

/-- Truncation with saturation at both ends, whether single precision has room
for the number or not. -/
theorem toNat_asU32_round (value : ℚ) :
    (asU32 (binary32.round value)).toNat =
      min ⌊binary32.nearest (max value 0)⌋₊ (2 ^ 32 - 1) := by
  rcases lt_or_ge value 0 with hnegative | hvalue
  · have hnearest := binary32.nearest_nonneg (abs_nonneg value)
    have hzero : ⌊-binary32.nearest |value|⌋₊ = 0 := Nat.floor_of_nonpos (by linarith)
    rw [max_eq_right hnegative.le, binary32.nearest_zero, Format.round, if_pos hnegative]
    split
    next => simp [asU32, hnegative]
    next => rw [toNat_asU32_finite, hzero, Nat.floor_zero]
  · rw [max_eq_left hvalue, Format.round, abs_of_nonneg hvalue, if_neg (not_lt.mpr hvalue)]
    split
    next hlarge =>
      -- an infinity saturates, and so would the number
      have hmax : binary32.maxExponent = 127 := rfl
      have hfloor : 2 ^ 32 - 1 ≤ ⌊binary32.nearest value⌋₊ := by
        refine Nat.le_floor (le_trans ?_ hlarge)
        rw [hmax]
        norm_num
      rw [min_eq_right hfloor]
      simp [asU32, not_lt.mpr hvalue]
    next => exact toNat_asU32_finite _

/-- A higher number never has a lower word. -/
theorem toNat_asU32_round_mono {left right : ℚ} (hle : left ≤ right) :
    (asU32 (binary32.round left)).toNat ≤ (asU32 (binary32.round right)).toNat := by
  rw [toNat_asU32_round, toNat_asU32_round]
  refine min_le_min_right _ (Nat.floor_mono ?_)
  exact binary32.nearest_mono (le_max_right _ _) (max_le_max_right 0 hle)

/-- Single precision keeps normal numbers up to a small fraction of them. -/
theorem abs_nearest_sub_le_of_normal {value : ℚ} (hpos : 0 < value)
    (hnormal : 2 ^ binary32.minExponent ≤ value) :
    |binary32.nearest value - value| ≤ value / 2 ^ 24 := by
  have hspacing := binary32.spacing_le_of_normal hpos hnormal
  have hprecision : (2 : ℚ) ^ (1 - (binary32.precision : ℤ)) = 2 / 2 ^ 24 := by
    have hvalue : binary32.precision = 24 := rfl
    rw [hvalue]
    norm_num
  rw [hprecision] at hspacing
  have hhalf := binary32.abs_nearest_sub_le value
  linarith

/-- Numbers too small to be normal are cut off. -/
theorem floor_nearest_of_subnormal {value : ℚ} (hvalue : 0 ≤ value)
    (hsmall : value < 2 ^ binary32.minExponent) : ⌊binary32.nearest value⌋₊ = 0 := by
  have hmin : binary32.minExponent = -126 := rfl
  have hhalf : value ≤ 1 / 2 := hsmall.le.trans (by rw [hmin]; norm_num)
  have hnearest : binary32.nearest value ≤ binary32.nearest (1 / 2) :=
    binary32.nearest_mono hvalue hhalf
  have hself : binary32.nearest (1 / 2 : ℚ) < 1 := by decide +kernel
  exact Nat.floor_eq_zero.mpr (hnearest.trans_lt hself)

theorem floor_nearest_bounds {value : ℚ} (hvalue : 0 ≤ value) :
    value - value / 2 ^ 24 - 1 < ⌊binary32.nearest value⌋₊ ∧
      (⌊binary32.nearest value⌋₊ : ℚ) ≤ value + value / 2 ^ 24 := by
  rcases lt_or_ge value (2 ^ binary32.minExponent) with hsmall | hnormal
  · have hmin : binary32.minExponent = -126 := rfl
    have hone : value < 1 := hsmall.trans (by rw [hmin]; norm_num)
    rw [floor_nearest_of_subnormal hvalue hsmall, Nat.cast_zero]
    constructor <;> linarith
  · have hpos : 0 < value := (zpow_pos two_pos _).trans_le hnormal
    obtain ⟨hbelow, habove⟩ := abs_le.mp (abs_nearest_sub_le_of_normal hpos hnormal)
    have hfloor := Nat.floor_le (binary32.nearest_nonneg hvalue)
    have hceil := Nat.lt_floor_add_one (binary32.nearest value)
    constructor <;> linarith

/-- From the greatest integer of 32 bits on every word is that integer. -/
theorem le_floor_nearest_of_le {value : ℚ} (hle : 2 ^ 32 - 1 ≤ value) :
    2 ^ 32 - 1 ≤ ⌊binary32.nearest value⌋₊ := by
  have hfloor : ⌊(2 ^ 32 - 1 : ℚ)⌋₊ = 2 ^ 32 - 1 := by norm_num
  refine (le_floor_nearest_of_greatest (by norm_num) hfloor).trans (Nat.floor_mono ?_)
  exact binary32.nearest_mono (by norm_num) hle

theorem approximates_asU32_round (value : ℚ) :
    Approximates (asU32 (binary32.round value)).toNat value := by
  rw [toNat_asU32_round]
  rcases lt_or_ge value 0 with hnegative | hvalue
  · rw [max_eq_right hnegative.le, binary32.nearest_zero, Nat.floor_zero, Nat.zero_min]
    have habs := abs_nonneg value
    refine ⟨fun _ => rfl, fun _ => ?_, fun hvalue => ?_, fun hlarge => ?_⟩ <;>
      · push_cast
        linarith
  · rw [max_eq_left hvalue]
    obtain ⟨hlower, hupper⟩ := floor_nearest_bounds hvalue
    refine ⟨fun hnegative => absurd hvalue hnegative.not_ge, fun hfit => ?_, fun _ => ?_,
      fun hlarge => min_eq_right (le_floor_nearest_of_le hlarge)⟩
    · rw [abs_of_nonneg hvalue, Nat.cast_min, lt_min_iff]
      refine ⟨hlower, ?_⟩
      push_cast
      linarith
    · rw [Nat.cast_min]
      exact (min_le_left _ _).trans hupper

/-! ## Runs that submit a price -/

/-- A run of the worker: what it finds outside, what it is called with and what
is stored when it starts. The standard library may refuse numerals, but it rounds
those it accepts as it should. -/
structure WorkerRun where
  environment : Environment
  call : WorkerCall
  info : Option Bytes
  roundsNumerals : RoundsNumerals environment.readers.f32

/-- The world a run leaves behind. -/
def WorkerRun.world (run : WorkerRun) : World :=
  (Run.exec (updateEthereumPriceWorker run.environment run.call) (World.start run.info)).2

/-- A run submits the price it has to deliver if it gets that far: the price is
numeric, there is a usable estimate of the gas, and the transaction is answered
with a text. -/
theorem mem_submissions_iff_of_ends {environment : Environment} {call : WorkerCall}
    {info : Option Bytes} {result : Except Exit Unit} {world : World}
    (hends : Ends environment call info result world) (price : ByteVec) :
    price ∈ world.submissions ↔
      environment.offeredPrice info = some price ∧
        (∃ data, environment.calldataOf price = .ok data) ∧
        (∃ estimate, environment.gasEstimate = some estimate) ∧
        ∃ text, (environment.answer .transaction).body?.bind fromUtf8 = some text := by
  cases hends with
  | fetchFailed hlock herror =>
      simp [World.log, World.start, environment.offeredPrice_eq_none info hlock herror]
  | notNumeric hprepared herror =>
      rw [hprepared.submissions, hprepared.offeredPrice]
      refine iff_of_false List.not_mem_nil ?_
      rintro ⟨hprice, ⟨data, hdata⟩, -⟩
      cases hprice
      cases herror.symm.trans hdata
  | panicked hprepared hdata hestimate => simp [World.log, hprepared.submissions, hestimate]
  | notAnswered hprepared hdata hestimate hanswer =>
      simp [World.log, hprepared.submissions, hanswer]
  | submitted hprepared hdata hestimate hanswer =>
      simp only [World.submit, World.log, hprepared.submissions, hprepared.offeredPrice, hestimate,
        hanswer, List.nil_append, List.mem_singleton, Option.some.injEq, exists_eq', and_true]
      constructor
      · rintro rfl
        exact ⟨rfl, _, hdata⟩
      · exact fun hprice => hprice.1.symm

/-- A run that finds the lock taken and a price stored, and gets every request
answered in the same way. -/
def answeredRun (price : ByteVec) : WorkerRun where
  environment :=
    { readers := documentedReaders
      lockFree := false
      answer _ := .response 200
        (bytesOf "\x7b\"jsonrpc\":\"2.0\",\"id\":20,\"result\":\"0x5208\"\x7d")
      poolAccepts := true }
  call := ⟨"http://127.0.0.1:8545", "0x52", "0x7f"⟩
  info := some (LightClient.codec.encode ⟨price, ⟨[], by decide⟩⟩)
  roundsNumerals := roundsNumerals_parseF32

/-- Every price that is a numeral gets to the chain in some run. -/
theorem mem_submissions_answeredRun {price : ByteVec} {value : ℚ}
    (hdenotes : Denotes price.bytes value) :
    price ∈ (answeredRun price).world.submissions := by
  have hoffered : (answeredRun price).environment.offeredPrice (answeredRun price).info =
      some price := by
    change some (finalPrice (some (LightClient.codec.encode _))) = _
    rw [finalPrice, Option.map_some, Codec.read_encode]
  have hestimate : (answeredRun ⟨[], by decide⟩).environment.gasEstimate =
      some ⟨bytesOf "2.0", 20, bytesOf "0x5208"⟩ := by decide +kernel
  exact (mem_submissions_iff_of_ends (ends_updateEthereumPriceWorker _ _ _) price).mpr
    ⟨hoffered, ⟨_, submtPriceCalldata_of_denotes hdenotes⟩, ⟨_, hestimate⟩, _, fromUtf8_bytesOf _⟩

/-! ## Words in transactions -/

/-- The number in a transaction, as the receiver reads it. -/
def Request.postedWord? (request : Request) : Option ℕ := do
  let data ← request.transactionMember? "data"
  argumentWord (← fromUtf8 data)

/-- The numbers a run has posted. -/
def World.postedWords (world : World) : List (Option ℕ) :=
  world.transactions.map fun exchange => exchange.request.postedWord?

theorem postedWord?_transactionExchange {environment : Environment} {call : WorkerCall}
    {estimate : EthResult} (hestimate : environment.gasEstimate = some estimate)
    (priceInt : UInt32) :
    (environment.transactionExchange call (calldata priceInt) estimate).request.postedWord? =
      some priceInt.toNat := by
  have hdata : (environment.transactionExchange call (calldata priceInt)
      estimate).request.transactionMember? "data" = some (bytesOf (calldata priceInt)) :=
    transactionMember?_body (isUtf8_ethTransaction _ _ _
      (environment.isSome_fromUtf8_gasEstimate hestimate)) rfl (by simp [EthParams.record]) _
  simp only [Request.postedWord?, hdata, Option.bind_eq_bind, Option.bind_some, fromUtf8_bytesOf,
    argumentWord_calldata]

/-- A run that submits a price posts one word, that of the number the price
denotes. -/
theorem postedWords_of_ends {environment : Environment} {call : WorkerCall} {info : Option Bytes}
    {result : Except Exit Unit} {world : World} {price : ByteVec} {value : ℚ}
    (hrounds : RoundsNumerals environment.readers.f32)
    (hends : Ends environment call info result world) (hsubmitted : price ∈ world.submissions)
    (hdenotes : Denotes price.bytes value) :
    world.postedWords = [some (asU32 (binary32.round value)).toNat] := by
  rcases submissions_of_ends hends with
    hnone | ⟨offered, data, estimate, hone, -, -, hdata, hestimate, hposted⟩
  · rw [hnone] at hsubmitted
    cases hsubmitted
  · obtain rfl := List.mem_singleton.mp (hone ▸ hsubmitted)
    obtain rfl := eq_calldata_of_denotes hrounds hdenotes hdata
    rw [World.postedWords, hposted, List.map_singleton, postedWord?_transactionExchange hestimate]

theorem WorkerRun.postedWords_of_submission (run : WorkerRun) {price : ByteVec} {value : ℚ}
    (hsubmitted : price ∈ run.world.submissions) (hdenotes : Denotes price.bytes value) :
    run.world.postedWords = [some (asU32 (binary32.round value)).toNat] :=
  postedWords_of_ends run.roundsNumerals
    (ends_updateEthereumPriceWorker run.environment run.call run.info) hsubmitted hdenotes

/-- A run that brings a price to the chain has posted one transaction to
Ethereum, and its word is the price up to truncation and single precision. -/
theorem posted_price_close (run : WorkerRun) (price : ByteVec) (value : ℚ)
    (hsubmitted : price ∈ run.world.submissions) (hdenotes : Denotes price.bytes value) :
    ∃ word, run.world.postedWords = [some word] ∧ Approximates word value :=
  ⟨_, run.postedWords_of_submission hsubmitted hdenotes, approximates_asU32_round value⟩

/-- A price right below an integer. -/
theorem posted_price_close_of_rounded_up :
    let price : ByteVec := ⟨bytesOf "3999.99999", by decide⟩
    price ∈ (answeredRun price).world.submissions ∧
      ∃ word, (answeredRun price).world.postedWords = [some word] ∧
        Approximates word (399999999 / 100000) := by
  intro price
  have hdenotes : Denotes price.bytes (399999999 / 100000) :=
    ⟨"3999.99999", ⟨none, [3, 9, 9, 9], some [9, 9, 9, 9, 9], none, by decide⟩,
      by decide +kernel, by decide, by decide +kernel⟩
  have hsubmitted := mem_submissions_answeredRun hdenotes
  exact ⟨hsubmitted, posted_price_close _ price _ hsubmitted hdenotes⟩

/-- Whatever two runs bring to both ledgers has the same order on both. -/
theorem posted_prices_ordered (first second : WorkerRun) (lower higher : ByteVec)
    (low high : ℚ) (hfirst : lower ∈ first.world.submissions)
    (hsecond : higher ∈ second.world.submissions) (hlower : Denotes lower.bytes low)
    (hhigher : Denotes higher.bytes high) (hle : low ≤ high) :
    ∃ lowWord highWord, first.world.postedWords = [some lowWord] ∧
      second.world.postedWords = [some highWord] ∧ lowWord ≤ highWord :=
  ⟨_, _, first.postedWords_of_submission hfirst hlower,
    second.postedWords_of_submission hsecond hhigher, toNat_asU32_round_mono hle⟩

/-- Two prices of one integer part. -/
theorem posted_prices_ordered_of_fractions :
    let lower : ByteVec := ⟨bytesOf "2846.37", by decide⟩
    let higher : ByteVec := ⟨bytesOf "2846.5", by decide⟩
    lower ∈ (answeredRun lower).world.submissions ∧
      higher ∈ (answeredRun higher).world.submissions ∧
      ∃ lowWord highWord, (answeredRun lower).world.postedWords = [some lowWord] ∧
        (answeredRun higher).world.postedWords = [some highWord] ∧ lowWord ≤ highWord := by
  intro lower higher
  have hlower : Denotes lower.bytes (284637 / 100) :=
    ⟨"2846.37", ⟨none, [2, 8, 4, 6], some [3, 7], none, by decide⟩, by decide +kernel, by decide,
      by decide +kernel⟩
  have hhigher : Denotes higher.bytes (28465 / 10) :=
    ⟨"2846.5", ⟨none, [2, 8, 4, 6], some [5], none, by decide⟩, by decide +kernel, by decide,
      by decide +kernel⟩
  have hfirst := mem_submissions_answeredRun hlower
  have hsecond := mem_submissions_answeredRun hhigher
  exact ⟨hfirst, hsecond, posted_prices_ordered _ _ lower higher _ _ hfirst hsecond hlower hhigher
    (by norm_num)⟩

end SupraClient.Oracle
