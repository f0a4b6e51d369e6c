import Mathlib.Data.UInt
import Mathlib.Logic.Equiv.Defs
import Mathlib.Tactic.Linarith

/-! # SCALE codecs

A codec reads back what it wrote and leaves the bytes behind it alone, so that
tuples are encoded by plain concatenation. Values are read from the front of
the input; what follows them is not looked at. Fixed-width integers are
little endian, lengths are compact integers with four width modes, and byte
vectors are their length followed by their bytes.
-/

namespace Scale

abbrev Bytes := List UInt8

/-- A self-delimiting encoding together with its reader. -/
structure Codec (Value : Type) where
  encode : Value → Bytes
  /-- Read a value from the front of the input and return the remaining bytes. -/
  decode : Bytes → Option (Value × Bytes)
  decode_encode : ∀ value rest, decode (encode value ++ rest) = some (value, rest)

namespace Codec

variable {Value First Second : Type}

/-- Decode a whole buffer; trailing bytes are ignored. -/
def read (codec : Codec Value) (bytes : Bytes) : Option Value :=
  (codec.decode bytes).map Prod.fst

@[simp] theorem read_encode (codec : Codec Value) (value : Value) :
    codec.read (codec.encode value) = some value := by
  have h := codec.decode_encode value []
  rw [List.append_nil] at h
  rw [read, h, Option.map_some]

theorem encode_injective (codec : Codec Value) : Function.Injective codec.encode := by
  intro left right heq
  have h := codec.read_encode left
  rw [heq, codec.read_encode] at h
  exact (Option.some.inj h).symm

/-- Tuples are encoded by concatenation. -/
def pair (first : Codec First) (second : Codec Second) : Codec (First × Second) where
  encode value := first.encode value.1 ++ second.encode value.2
  decode bytes := do
    let (left, middle) ← first.decode bytes
    let (right, rest) ← second.decode middle
    pure ((left, right), rest)
  decode_encode value rest := by
    simp [List.append_assoc, first.decode_encode, second.decode_encode]

/-- A structure is encoded as the tuple of its fields. -/
def ofEquiv (codec : Codec First) (fields : Second ≃ First) : Codec Second where
  encode value := codec.encode (fields value)
  decode bytes := (codec.decode bytes).map fun (value, rest) => (fields.symm value, rest)
  decode_encode value rest := by simp [codec.decode_encode]

end Codec

/-! ## Fixed-width integers -/

/-- The lowest bytes of a number, least significant first. -/
def littleEndian : Nat → Nat → Bytes
  | 0, _ => []
  | width + 1, value => UInt8.ofNat value :: littleEndian width (value / 256)

def readLittleEndian : Nat → Bytes → Option (Nat × Bytes)
  | 0, bytes => some (0, bytes)
  | _ + 1, [] => none
  | width + 1, byte :: bytes =>
      (readLittleEndian width bytes).map fun (value, rest) => (byte.toNat + 256 * value, rest)

theorem readLittleEndian_append {width value : Nat} (hvalue : value < 256 ^ width)
    (rest : Bytes) :
    readLittleEndian width (littleEndian width value ++ rest) = some (value, rest) := by
  induction width generalizing value with
  | zero =>
      have hzero : value = 0 := by simpa using hvalue
      rw [hzero]
      rfl
  | succ width ih =>
      have hhigh : value / 256 < 256 ^ width :=
        Nat.div_lt_of_lt_mul (by rwa [pow_succ, mul_comm] at hvalue)
      have hlow : (UInt8.ofNat value).toNat = value % 256 := UInt8.toNat_ofNat'
      simp only [littleEndian, List.cons_append, readLittleEndian, ih hhigh, Option.map_some, hlow,
        Nat.mod_add_div]

/-- The fixed-width encoding of `u32`. -/
def u32 : Codec UInt32 where
  encode value := littleEndian 4 value.toNat
  decode bytes := (readLittleEndian 4 bytes).map fun (value, rest) => (UInt32.ofNat value, rest)
  decode_encode value rest := by
    have hbound : value.toNat < 256 ^ 4 := value.toNat_lt
    simp only [readLittleEndian_append hbound, Option.map_some, UInt32.ofNat_toNat]

/-! ## Compact integers -/

/-- The two low bits of the first byte give the mode: one byte, two bytes, four
bytes, or four bytes behind the mode byte. -/
def encodeCompact (value : UInt32) : Bytes :=
  if value.toNat < 2 ^ 6 then littleEndian 1 (value.toNat * 4)
  else if value.toNat < 2 ^ 14 then littleEndian 2 (value.toNat * 4 + 1)
  else if value.toNat < 2 ^ 30 then littleEndian 4 (value.toNat * 4 + 2)
  else 3 :: littleEndian 4 value.toNat

/-- A mode is accepted for the values that need it and for no smaller ones. -/
def decodeCompact : Bytes → Option (UInt32 × Bytes)
  | [] => none
  | first :: bytes =>
      match first.toNat % 4 with
      | 0 => some (UInt32.ofNat (first.toNat / 4), bytes)
      | 1 => do
          let (word, rest) ← readLittleEndian 2 (first :: bytes)
          if 2 ^ 6 ≤ word / 4 then pure (UInt32.ofNat (word / 4), rest) else none
      | 2 => do
          let (word, rest) ← readLittleEndian 4 (first :: bytes)
          if 2 ^ 14 ≤ word / 4 then pure (UInt32.ofNat (word / 4), rest) else none
      | _ =>
          if first.toNat / 4 = 0 then do
            let (word, rest) ← readLittleEndian 4 bytes
            if 2 ^ 30 ≤ word then pure (UInt32.ofNat word, rest) else none
          else none

/-- The mode bits of a little-endian word stand in its first byte. -/
theorem decodeCompact_littleEndian (width value : Nat) (rest : Bytes) :
    decodeCompact (littleEndian (width + 1) value ++ rest) =
      match value % 4 with
      | 0 => some (UInt32.ofNat (value % 256 / 4), littleEndian width (value / 256) ++ rest)
      | 1 => do
          let (word, rest) ← readLittleEndian 2 (littleEndian (width + 1) value ++ rest)
          if 2 ^ 6 ≤ word / 4 then pure (UInt32.ofNat (word / 4), rest) else none
      | 2 => do
          let (word, rest) ← readLittleEndian 4 (littleEndian (width + 1) value ++ rest)
          if 2 ^ 14 ≤ word / 4 then pure (UInt32.ofNat (word / 4), rest) else none
      | _ =>
          if value % 256 / 4 = 0 then do
            let (word, rest) ← readLittleEndian 4 (littleEndian width (value / 256) ++ rest)
            if 2 ^ 30 ≤ word then pure (UInt32.ofNat word, rest) else none
          else none := by
  have hlow : (UInt8.ofNat value).toNat = value % 256 := UInt8.toNat_ofNat'
  have hmode : value % 256 % 4 = value % 4 := Nat.mod_mod_of_dvd value (by decide)
  rw [littleEndian, List.cons_append, decodeCompact, hlow, hmode]

theorem decodeCompact_encodeCompact (value : UInt32) (rest : Bytes) :
    decodeCompact (encodeCompact value ++ rest) = some (value, rest) := by
  have hbound : value.toNat < 2 ^ 32 := value.toNat_lt
  unfold encodeCompact
  split_ifs with hone htwo hfour
  · have hmode : value.toNat * 4 % 4 = 0 := by omega
    have hvalue : value.toNat * 4 % 256 / 4 = value.toNat := by omega
    rw [decodeCompact_littleEndian, hmode, hvalue, UInt32.ofNat_toNat]
    rfl
  · have hmode : (value.toNat * 4 + 1) % 4 = 1 := by omega
    have hvalue : (value.toNat * 4 + 1) / 4 = value.toNat := by omega
    rw [decodeCompact_littleEndian, hmode, readLittleEndian_append (by omega)]
    simp only [Option.bind_eq_bind, Option.bind_some, hvalue, if_pos (not_lt.mp hone),
      UInt32.ofNat_toNat, Option.pure_def]
  · have hmode : (value.toNat * 4 + 2) % 4 = 2 := by omega
    have hvalue : (value.toNat * 4 + 2) / 4 = value.toNat := by omega
    rw [decodeCompact_littleEndian, hmode, readLittleEndian_append (by omega)]
    simp only [Option.bind_eq_bind, Option.bind_some, hvalue, if_pos (not_lt.mp htwo),
      UInt32.ofNat_toNat, Option.pure_def]
  · rw [List.cons_append, decodeCompact, readLittleEndian_append (by omega)]
    simpa using not_lt.mp hfour

/-- The compact encoding of `u32`. -/
def compact : Codec UInt32 where
  encode := encodeCompact
  decode := decodeCompact
  decode_encode := decodeCompact_encodeCompact

/-! ## Byte vectors -/

/-- A byte vector whose length has a compact encoding. -/
@[ext] structure ByteVec where
  bytes : Bytes
  length_lt : bytes.length < 2 ^ 32
  deriving DecidableEq

/-- Take a given number of bytes, all of which must be there. -/
def takeExact (count : Nat) (input : Bytes) : Option (Bytes × Bytes) :=
  if count ≤ input.length then some (input.splitAt count) else none

theorem takeExact_append (bytes rest : Bytes) :
    takeExact bytes.length (bytes ++ rest) = some (bytes, rest) := by
  simp [takeExact, List.splitAt_eq]

def encodeByteVec (value : ByteVec) : Bytes :=
  compact.encode (UInt32.ofNat value.bytes.length) ++ value.bytes

/-- The length is read first; an input that is shorter is rejected. -/
def decodeByteVec (input : Bytes) : Option (ByteVec × Bytes) := do
  let (length, body) ← compact.decode input
  let (bytes, rest) ← takeExact length.toNat body
  if hlength : bytes.length < 2 ^ 32 then pure (⟨bytes, hlength⟩, rest) else none

/-- The encoding of `Vec<u8>`. -/
def byteVec : Codec ByteVec where
  encode := encodeByteVec
  decode := decodeByteVec
  decode_encode value rest := by
    have hlength : (UInt32.ofNat value.bytes.length).toNat = value.bytes.length :=
      UInt32.toNat_ofNat_of_lt' value.length_lt
    rw [encodeByteVec, decodeByteVec, List.append_assoc, compact.decode_encode]
    simp only [Option.bind_eq_bind, Option.bind_some, hlength, takeExact_append,
      dif_pos value.length_lt, Option.pure_def]

/-- There is no byte vector in an empty input, not even an empty one. -/
@[simp] theorem byteVec_decode_nil : byteVec.decode [] = none := rfl

end Scale
