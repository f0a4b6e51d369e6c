import SupraClient.Json.Record
import SupraClient.Oracle.Pallet

/-! # Requests to the Ethereum node

The worker talks to the Ethereum node in JSON. Requests hold their texts as byte
vectors: on the way out each of them is turned into a string, with an `unwrap`
for bytes that are no text, and on the way in each of them is borrowed from the
string literal it is read from. The two directions fit together for texts that
are written without escapes, and for no others.
-/

namespace SupraClient.Oracle

open Scale

/-- How a function ends that returns no value: with an error of the pallet, or
not at all because of a panic. -/
inductive Exit where
  | error (error : Error)
  | panic
  deriving DecidableEq

/-- `unwrap`: nothing is a panic. -/
def unwrap {Value : Type} : Option Value → Except Exit Value
  | some value => .ok value
  | none => .error .panic

/-- `map_err` and `?`: nothing is an error. -/
def okOr {Value : Type} (error : Error) : Option Value → Except Exit Value
  | some value => .ok value
  | none => .error (.error error)

@[simp] theorem unwrap_some {Value : Type} (value : Value) : unwrap (some value) = .ok value := rfl

@[simp] theorem okOr_some {Value : Type} (error : Error) (value : Value) :
    okOr error (some value) = .ok value :=
  rfl

/-! ## Bytes and texts -/

def fromUtf8 (bytes : Bytes) : Option String := String.fromUTF8? ⟨bytes.toArray⟩

theorem fromUtf8_eq_some_iff (bytes : Bytes) (text : String) :
    fromUtf8 bytes = some text ↔ bytesOf text = bytes := by
  unfold fromUtf8 String.fromUTF8? bytesOf
  constructor
  · intro h
    split at h
    next hvalid =>
      cases h
      rfl
    next => cases h
  · intro h
    subst h
    have hbytes : (⟨text.toUTF8.data.toList.toArray⟩ : ByteArray) = text.toUTF8 := by simp
    rw [hbytes]
    exact dif_pos text.isValidUTF8

theorem fromUtf8_bytesOf (text : String) : fromUtf8 (bytesOf text) = some text :=
  (fromUtf8_eq_some_iff _ _).mpr rfl

/-- The bytes are those of a text that is written without escapes. -/
def isPlainText (bytes : Bytes) : Bool :=
  match fromUtf8 bytes with
  | some text => text.toList.all Json.isPlain
  | none => false

/-- `de_string_to_bytes`: the bytes of a borrowed string. -/
def deStringToBytes (value : Json.Value) : Option Bytes := value.borrowed?.map bytesOf

def readU8 (value : Json.Value) : Option UInt8 := do
  let number ← value.natural?
  if number < 2 ^ 8 then some (UInt8.ofNat number) else none

theorem readU8_ofNat (number : UInt8) : readU8 (.ofNat number.toNat) = some number := by
  rw [readU8, Json.Value.natural?_ofNat, Option.bind_eq_bind, Option.bind_some,
    if_pos number.toNat_lt, UInt8.ofNat_toNat]

/-- The string a byte vector is written as. -/
def textValue (bytes : Bytes) : Json.Value := .ofString ((fromUtf8 bytes).getD "")

theorem deStringToBytes_textValue {bytes : Bytes} (hutf8 : (fromUtf8 bytes).isSome = true) :
    deStringToBytes (textValue bytes) = if isPlainText bytes then some bytes else none := by
  obtain ⟨text, htext⟩ := Option.isSome_iff_exists.mp hutf8
  have hbytes := (fromUtf8_eq_some_iff bytes text).mp htext
  rw [deStringToBytes, textValue, isPlainText, htext, Option.getD_some,
    Json.Value.borrowed?_ofString]
  split
  next => rw [Option.map_some, hbytes]
  next => rfl

theorem text?_textValue {bytes : Bytes} (hutf8 : (fromUtf8 bytes).isSome = true) :
    (textValue bytes).text?.map bytesOf = some bytes := by
  obtain ⟨text, htext⟩ := Option.isSome_iff_exists.mp hutf8
  rw [textValue, htext, Option.getD_some, Json.Value.text?_ofString, Option.map_some,
    (fromUtf8_eq_some_iff bytes text).mp htext]

def serializeText (bytes : Bytes) : Except Exit Json.Value := do
  return .ofString (← unwrap (fromUtf8 bytes))

theorem serializeText_eq {bytes : Bytes} (hutf8 : (fromUtf8 bytes).isSome = true) :
    serializeText bytes = .ok (textValue bytes) := by
  obtain ⟨text, htext⟩ := Option.isSome_iff_exists.mp hutf8
  rw [serializeText, textValue, htext]
  rfl

/-! ## Records of texts -/

/-- The texts of the fields with the given names. -/
def deserializeTexts (names : List String) (value : Json.Value) : Option (List Bytes) := do
  let fields ← value.fields? names
  fields.mapM deStringToBytes

/-- A structure whose fields are all texts, with the two ways it passes through
JSON: the fields that are written, and the names of the fields that are read
together with the structure made of them. -/
structure TextRecord (Params : Type) where
  fields : Params → List (String × Bytes)
  names : List String
  build : List Bytes → Option Params
  names_nodup : names.Nodup
  map_fst_fields : ∀ params, (fields params).map Prod.fst = names
  build_fields : ∀ params, build ((fields params).map Prod.snd) = some params

/-- Items that are written one by one are written together. -/
theorem mapM_eq_ok {Item Result : Type} {write : Item → Except Exit Result}
    {view : Item → Result} {items : List Item}
    (hwrite : ∀ item ∈ items, write item = .ok (view item)) :
    items.mapM write = .ok (items.map view) := by
  induction items with
  | nil => rfl
  | cons item items ih =>
      have htail := ih fun other hother => hwrite other (List.mem_cons_of_mem _ hother)
      rw [List.mapM_cons, hwrite item List.mem_cons_self, htail]
      rfl

namespace TextRecord

variable {Params : Type} (record : TextRecord Params)

def serializeField (field : String × Bytes) : Except Exit (String × Json.Value) := do
  return (field.1, ← serializeText field.2)

def serialize (params : Params) : Except Exit Json.Value := do
  return .record (← (record.fields params).mapM serializeField)

def deserialize (value : Json.Value) : Option Params := do
  record.build (← deserializeTexts record.names value)

/-- All fields are valid UTF-8. -/
def isUtf8 (params : Params) : Bool :=
  (record.fields params).all fun field => (fromUtf8 field.2).isSome

/-- All fields are written without escapes. -/
def isPlain (params : Params) : Bool :=
  (record.fields params).all fun field => isPlainText field.2

/-- The value a structure of valid texts is written as. -/
def value (params : Params) : Json.Value :=
  .record ((record.fields params).map fun field => (field.1, textValue field.2))

theorem serialize_eq {params : Params} (hutf8 : record.isUtf8 params = true) :
    record.serialize params = .ok (record.value params) := by
  have hfields : (record.fields params).mapM serializeField =
      .ok ((record.fields params).map fun field => (field.1, textValue field.2)) := by
    apply mapM_eq_ok
    intro field hfield
    rw [serializeField, serializeText_eq (List.all_eq_true.mp hutf8 field hfield)]
    rfl
  rw [serialize, hfields]
  rfl

theorem map_fst_value (params : Params) :
    ((record.fields params).map fun field => (field.1, textValue field.2)).map Prod.fst =
      record.names := by
  rw [List.map_map]
  exact record.map_fst_fields params

theorem deserializeTexts_value {params : Params} (hutf8 : record.isUtf8 params = true) :
    deserializeTexts record.names (record.value params) =
      if record.isPlain params then some ((record.fields params).map Prod.snd) else none := by
  have hnames := record.map_fst_value params
  have hfields : (record.value params).fields? record.names =
      some ((record.fields params).map fun field => textValue field.2) := by
    have hread := Json.Value.fields?_record (by rw [hnames]; exact record.names_nodup)
    rw [hnames, List.map_map] at hread
    exact hread
  rw [deserializeTexts, hfields]
  exact Json.mapM_map_eq_ite fun field hfield =>
    deStringToBytes_textValue (List.all_eq_true.mp hutf8 field hfield)

theorem deserialize_value {params : Params} (hutf8 : record.isUtf8 params = true) :
    record.deserialize (record.value params) =
      if record.isPlain params then some params else none := by
  rw [deserialize, record.deserializeTexts_value hutf8]
  cases record.isPlain params with
  | true => exact record.build_fields params
  | false => rfl

end TextRecord

/-! ## Requests -/

/-- A JSON-RPC request. -/
structure RpcRequest (Params : Type) where
  jsonrpc : Bytes
  id : UInt8
  method : Bytes
  params : List Params
  deriving DecidableEq

namespace RpcRequest

variable {Params : Type} (record : TextRecord Params)

def serialize (request : RpcRequest Params) : Except Exit Json.Value := do
  return .record
    [("jsonrpc", ← serializeText request.jsonrpc),
      ("id", .ofNat request.id.toNat),
      ("method", ← serializeText request.method),
      ("params", .array (← request.params.mapM record.serialize))]

def deserialize (value : Json.Value) : Option (RpcRequest Params) := do
  let [jsonrpc, id, method, params] ← value.fields? ["jsonrpc", "id", "method", "params"] | none
  return {
    jsonrpc := ← deStringToBytes jsonrpc
    id := ← readU8 id
    method := ← deStringToBytes method
    params := ← (← params.elements?).mapM record.deserialize }

/-- `serde_json::to_string`. -/
def toText (request : RpcRequest Params) : Except Exit String := do
  return String.ofList (← request.serialize record).render

/-- `serde_json::from_str`. -/
def fromText (text : String) : Option (RpcRequest Params) := do
  deserialize record (← Json.parse text.toList)

def isUtf8 (request : RpcRequest Params) : Bool :=
  (fromUtf8 request.jsonrpc).isSome && (fromUtf8 request.method).isSome &&
    request.params.all record.isUtf8

def isPlain (request : RpcRequest Params) : Bool :=
  isPlainText request.jsonrpc && isPlainText request.method && request.params.all record.isPlain

/-- The value a request of valid texts is written as. -/
def value (request : RpcRequest Params) : Json.Value :=
  .record
    [("jsonrpc", textValue request.jsonrpc),
      ("id", .ofNat request.id.toNat),
      ("method", textValue request.method),
      ("params", .array (request.params.map record.value))]

theorem serialize_eq {request : RpcRequest Params} (hutf8 : request.isUtf8 record = true) :
    request.serialize record = .ok (request.value record) := by
  simp only [isUtf8, Bool.and_eq_true] at hutf8
  obtain ⟨⟨hjsonrpc, hmethod⟩, hparams⟩ := hutf8
  have hrecords : request.params.mapM record.serialize =
      .ok (request.params.map record.value) :=
    mapM_eq_ok fun params hmem => record.serialize_eq (List.all_eq_true.mp hparams params hmem)
  rw [serialize, serializeText_eq hjsonrpc, serializeText_eq hmethod, hrecords]
  rfl

theorem toText_eq {request : RpcRequest Params} (hutf8 : request.isUtf8 record = true) :
    request.toText record = .ok (String.ofList (request.value record).render) := by
  rw [toText, serialize_eq record hutf8]
  rfl

theorem deserialize_value {request : RpcRequest Params} (hutf8 : request.isUtf8 record = true) :
    deserialize record (request.value record) =
      if request.isPlain record then some request else none := by
  simp only [isUtf8, Bool.and_eq_true] at hutf8
  obtain ⟨⟨hjsonrpc, hmethod⟩, hparams⟩ := hutf8
  have hfields : (request.value record).fields? ["jsonrpc", "id", "method", "params"] =
      some [textValue request.jsonrpc, .ofNat request.id.toNat, textValue request.method,
        .array (request.params.map record.value)] :=
    Json.Value.fields?_record (show ["jsonrpc", "id", "method", "params"].Nodup by decide)
  have hrecords : (request.params.map record.value).mapM record.deserialize =
      if request.params.all record.isPlain then
        some (request.params.map fun params => params) else none :=
    Json.mapM_map_eq_ite fun params hmem =>
      record.deserialize_value (List.all_eq_true.mp hparams params hmem)
  rw [List.map_id'] at hrecords
  simp only [deserialize, hfields, Option.bind_eq_bind, Option.bind_some,
    deStringToBytes_textValue hjsonrpc, deStringToBytes_textValue hmethod, readU8_ofNat,
    Json.Value.elements?, hrecords, isPlain]
  by_cases hversion : isPlainText request.jsonrpc = true
  · by_cases hname : isPlainText request.method = true
    · by_cases hall : request.params.all record.isPlain = true <;> simp [hversion, hname, hall]
    · simp [hversion, hname]
  · simp [hversion]

/-- A request of valid texts is always written, and it is read back from the
text exactly when nothing in it had to be escaped. -/
theorem fromText_toText_iff {request : RpcRequest Params}
    (hutf8 : request.isUtf8 record = true) :
    ∃ text, request.toText record = .ok text ∧
      (fromText record text = some request ↔ request.isPlain record = true) := by
  refine ⟨_, toText_eq record hutf8, ?_⟩
  rw [fromText, String.toList_ofList, Json.parse_render, Option.bind_eq_bind, Option.bind_some,
    deserialize_value record hutf8]
  cases request.isPlain record <;> simp

end RpcRequest

/-! ## The requests of the pallet -/

structure EthParams where
  fromAddress : Bytes
  toAddress : Bytes
  data : Bytes
  value : Bytes
  gas : Bytes
  gasPrice : Bytes
  deriving DecidableEq

structure GasRequestParam where
  fromAddress : Bytes
  toAddress : Bytes
  data : Bytes
  value : Bytes
  deriving DecidableEq

def EthParams.record : TextRecord EthParams where
  fields params :=
    [("from", params.fromAddress), ("to", params.toAddress), ("data", params.data),
      ("value", params.value), ("gas", params.gas), ("gasPrice", params.gasPrice)]
  names := ["from", "to", "data", "value", "gas", "gasPrice"]
  build
    | [fromAddress, toAddress, data, value, gas, gasPrice] =>
        some { fromAddress, toAddress, data, value, gas, gasPrice }
    | _ => none
  names_nodup := by decide
  map_fst_fields _ := rfl
  build_fields _ := rfl

def GasRequestParam.record : TextRecord GasRequestParam where
  fields params :=
    [("from", params.fromAddress), ("to", params.toAddress), ("data", params.data),
      ("value", params.value)]
  names := ["from", "to", "data", "value"]
  build
    | [fromAddress, toAddress, data, value] => some { fromAddress, toAddress, data, value }
    | _ => none
  names_nodup := by decide
  map_fst_fields _ := rfl
  build_fields _ := rfl

abbrev EthTransaction := RpcRequest EthParams

abbrev EstimateGasRequest := RpcRequest GasRequestParam

/-- Both kinds of requests, with any valid texts in their fields and any number
of parameters, are written without a panic. They are read back from what was
written exactly when no field has a quote, a backslash or a control character:
these are escaped, and a literal with an escape cannot be borrowed. -/
theorem requests_read_back_iff (transaction : EthTransaction) (request : EstimateGasRequest) :
    (transaction.isUtf8 EthParams.record = true →
      ∃ text, transaction.toText EthParams.record = .ok text ∧
        (RpcRequest.fromText EthParams.record text = some transaction ↔
          transaction.isPlain EthParams.record = true)) ∧
    (request.isUtf8 GasRequestParam.record = true →
      ∃ text, request.toText GasRequestParam.record = .ok text ∧
        (RpcRequest.fromText GasRequestParam.record text = some request ↔
          request.isPlain GasRequestParam.record = true)) := by
  constructor
  · intro hutf8
    exact RpcRequest.fromText_toText_iff EthParams.record hutf8
  · intro hutf8
    exact RpcRequest.fromText_toText_iff GasRequestParam.record hutf8

/-- A transaction as the worker makes it. -/
def usualTransaction : EthTransaction where
  jsonrpc := bytesOf "2.0"
  id := 2
  method := bytesOf "eth_sendTransaction"
  params :=
    [{ fromAddress := bytesOf "0x52"
       toAddress := bytesOf "0x7f"
       data := bytesOf "0xd423740b"
       value := bytesOf "0x0"
       gas := bytesOf "0x5208"
       gasPrice := bytesOf "0x1" }]

theorem usualTransaction_read_back :
    let estimate : EstimateGasRequest := ⟨bytesOf "2.0", 20, bytesOf "eth_estimateGas", []⟩
    (∃ text, usualTransaction.toText EthParams.record = .ok text ∧
      RpcRequest.fromText EthParams.record text = some usualTransaction) ∧
    ∃ text, estimate.toText GasRequestParam.record = .ok text ∧
      RpcRequest.fromText GasRequestParam.record text = some estimate := by
  intro estimate
  obtain ⟨htransaction, hestimate⟩ := requests_read_back_iff usualTransaction estimate
  obtain ⟨first, hfirst, hreadFirst⟩ := htransaction (by decide +kernel)
  obtain ⟨second, hsecond, hreadSecond⟩ := hestimate (by decide +kernel)
  exact ⟨⟨first, hfirst, hreadFirst.mpr (by decide +kernel)⟩,
    ⟨second, hsecond, hreadSecond.mpr (by decide +kernel)⟩⟩

/-- A method name with a quote in it is escaped, and the request is not read back. -/
theorem quoted_method_not_read_back :
    let transaction : EthTransaction := ⟨bytesOf "2.0", 2, bytesOf "a\"b", []⟩
    let text := "\x7b\"jsonrpc\":\"2.0\",\"id\":2,\"method\":\"a\\\"b\",\"params\":[]\x7d"
    transaction.isUtf8 EthParams.record = true ∧
      transaction.toText EthParams.record = .ok text ∧
      RpcRequest.fromText EthParams.record text = none :=
  ⟨by decide +kernel, by decide +kernel, by decide +kernel⟩

end SupraClient.Oracle
