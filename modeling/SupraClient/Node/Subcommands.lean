import SupraClient.Authorization.Network
import SupraClient.Runtime.Executive
import SupraClient.Text.Encodings

/-! # The command that shows the peer identifier of a key

The command takes a secret key in hexadecimal and prints the identifier of the
node with that key in three forms, of which one goes into a chain specification
and another one into calls of the authorization pallet. It panics on anything
that is not a key.

The libraries are left open: any encodings with the laws of hexadecimal and of base
58 will do, any function from secret to public keys, and any identifiers that are
short enough for the pallet.
-/

namespace SupraClient.Node

open Frame Scale Text Authorization

/-- The bytes of an Ed25519 key. -/
structure Key where
  bytes : Bytes
  length_eq : bytes.length = 32
  deriving DecidableEq

/-- Secret keys are any 32 bytes. -/
def Key.fromBytes (bytes : Bytes) : Option Key :=
  if hlength : bytes.length = 32 then some ⟨bytes, hlength⟩ else none

/-- The libraries the command uses: `hex`, `bs58`, and the keys of `libp2p`. -/
structure Libraries where
  hex : HexEncoding
  bs58 : ExactEncoding
  /-- The public key of the pair that a secret key gives. -/
  publicOf : Key → Key
  intoPeerId : Key → Bytes
  length_intoPeerId : ∀ key, (intoPeerId key).length ≤ 64

/-- The public key as a message: its type, and the key with its length. -/
def Key.intoProtobufEncoding (key : Key) : Bytes := [8, 1, 18, 32] ++ key.bytes

/-- The identifier of a public key: its encoding under the identity hash, with the
code of that hash and the length in front. -/
def Key.intoPeerId (key : Key) : Bytes := [0, 36] ++ key.intoProtobufEncoding

/-- The libraries as they are documented. The identifier is the public key itself,
inlined with two headers since it is short. -/
def documentedLibraries (publicOf : Key → Key) : Libraries where
  hex := hexadecimal
  bs58 := base58
  publicOf := publicOf
  intoPeerId := Key.intoPeerId
  length_intoPeerId key := by simp [Key.intoPeerId, Key.intoProtobufEncoding, key.length_eq]

/-- What the command prints. -/
structure Report where
  nodeKey : List Char
  peerId : List Char
  peerIdHex : List Char
  peerIdVector : Bytes
  deriving DecidableEq

structure DecodePublicKeyCmd where
  publicKey : List Char

/-- The command; there is no report if an `unwrap` fails. -/
def DecodePublicKeyCmd.getPeerid (libraries : Libraries) (command : DecodePublicKeyCmd) :
    Option Report := do
  let bytes ← libraries.hex.decode command.publicKey
  let secret ← Key.fromBytes bytes
  let nodeKey := libraries.hex.encode secret.bytes
  let peerId := libraries.intoPeerId (libraries.publicOf secret)
  let vecOfPeer ← libraries.bs58.decode (libraries.bs58.encode peerId)
  return {
    nodeKey
    peerId := libraries.bs58.encode peerId
    peerIdHex := libraries.hex.encode vecOfPeer
    peerIdVector := vecOfPeer }

theorem Key.fromBytes_eq_some_iff {bytes : Bytes} {key : Key} :
    Key.fromBytes bytes = some key ↔ key.bytes = bytes := by
  unfold fromBytes
  split
  next hlength =>
    constructor
    · intro hkey
      cases hkey
      rfl
    · rintro rfl
      rfl
  next hlength =>
    refine ⟨fun hkey => (by cases hkey), fun hbytes => ?_⟩
    exact absurd (hbytes ▸ key.length_eq) hlength

variable {libraries : Libraries}

/-- The last `unwrap` never fails: what was written in base 58 can be read. -/
theorem DecodePublicKeyCmd.getPeerid_eq_some_iff {command : DecodePublicKeyCmd}
    {report : Report} :
    command.getPeerid libraries = some report ↔
      ∃ secret : Key, libraries.hex.decode command.publicKey = some secret.bytes ∧
        let peerId := libraries.intoPeerId (libraries.publicOf secret)
        report = ⟨libraries.hex.encode secret.bytes, libraries.bs58.encode peerId,
          libraries.hex.encode peerId, peerId⟩ := by
  simp only [getPeerid, libraries.bs58.decode_encode, Option.pure_def, Option.bind_eq_bind,
    Option.bind_some, Option.bind_eq_some_iff, Option.some.injEq, Key.fromBytes_eq_some_iff]
  constructor
  · rintro ⟨bytes, hbytes, secret, rfl, rfl⟩
    exact ⟨secret, hbytes, rfl⟩
  · rintro ⟨secret, hbytes, rfl⟩
    exact ⟨_, hbytes, secret, rfl, rfl⟩

/-- A key is given by exactly 64 hexadecimal digits. -/
theorem exists_key_iff (hex : HexEncoding) (text : List Char) :
    (∃ secret : Key, hex.decode text = some secret.bytes) ↔
      text.length = 64 ∧ ∀ char ∈ text, (Json.readHexDigit char).isSome = true := by
  constructor
  · rintro ⟨secret, hsecret⟩
    have hlength := congrArg List.length (hex.encode_of_decode hsecret)
    rw [hex.length_encode, secret.length_eq, List.length_map] at hlength
    exact ⟨hlength.symm, ((hex.isSome_decode_iff text).mp (Option.isSome_of_eq_some hsecret)).2⟩
  · rintro ⟨hlength, hdigits⟩
    have hsome := (hex.isSome_decode_iff text).mpr ⟨by rw [hlength]; decide, hdigits⟩
    obtain ⟨bytes, hbytes⟩ := Option.isSome_iff_exists.mp hsome
    have hcount := congrArg List.length (hex.encode_of_decode hbytes)
    rw [hex.length_encode, List.length_map, hlength] at hcount
    exact ⟨⟨bytes, by omega⟩, hbytes⟩

/-- The command panics exactly if it is not given 64 hexadecimal digits, in either
case. Otherwise it prints the key in lower case, and the identifier in forms that
all stand for the same bytes; no other text in base 58 does. The pallet takes an
identifier of these bytes as one to be claimed, and it is the one under which the
node with this identity looks up its authorized nodes. -/
theorem getPeerid_prints_one_peer {AccountId : Type} [DecidableEq AccountId] [Inhabited AccountId]
    (libraries : Libraries) (command : DecodePublicKeyCmd) :
    ((command.getPeerid libraries).isSome = true ↔
        command.publicKey.length = 64 ∧
          ∀ char ∈ command.publicKey, (Json.readHexDigit char).isSome = true) ∧
      ∀ report, command.getPeerid libraries = some report →
        report.nodeKey = command.publicKey.map Char.toLower ∧
        libraries.hex.decode report.peerIdHex = some report.peerIdVector ∧
        (∀ text, libraries.bs58.decode text = some report.peerIdVector ↔ text = report.peerId) ∧
        (∀ (chain : Chain AccountId) who,
          chain.store.owners.tryGet ⟨report.peerIdVector⟩ = none →
          ((Authorization.dispatch (Runtime.authorizationConfig AccountId)
            (.signed who, .claimNode ⟨report.peerIdVector⟩)).exec chain).1 = .ok ()) ∧
        ∀ (store : Store AccountId) (node : Identity), node.bytes = report.peerIdVector →
          Authorization.offchainWorker store (networkState node true) =
            some (getAuthorizedNodes store ⟨report.peerIdVector⟩, true) := by
  constructor
  · rw [← exists_key_iff, Option.isSome_iff_exists]
    simp only [DecodePublicKeyCmd.getPeerid_eq_some_iff]
    exact ⟨fun ⟨_, secret, hsecret, _⟩ => ⟨secret, hsecret⟩,
      fun ⟨secret, hsecret⟩ => ⟨_, secret, hsecret, rfl⟩⟩
  · intro report hreport
    obtain ⟨secret, hsecret, rfl⟩ := DecodePublicKeyCmd.getPeerid_eq_some_iff.mp hreport
    refine ⟨libraries.hex.encode_of_decode hsecret, libraries.hex.decode_encode _,
      fun text => ?_, ?_, ?_⟩
    · refine ⟨fun htext => (libraries.bs58.encode_of_decode htext).symm, ?_⟩
      rintro rfl
      exact libraries.bs58.decode_encode _
    · intro chain who hfree
      have hlength : (libraries.intoPeerId (libraries.publicOf secret)).length <
          (Runtime.authorizationConfig AccountId).maxPeerIdLength :=
        (libraries.length_intoPeerId _).trans_lt (by decide : 64 < 128)
      exact congrArg Prod.fst (exec_of_permits (.claim hlength hfree))
    · intro store node hnode
      rw [offchainWorker_networkState, if_pos rfl, Identity.peerId, hnode]

-- the key of zeros, and one digit less
example :
    (DecodePublicKeyCmd.getPeerid (documentedLibraries id) ⟨List.replicate 64 '0'⟩).isSome = true ∧
      DecodePublicKeyCmd.getPeerid (documentedLibraries id) ⟨List.replicate 63 '0'⟩ = none := by
  decide +kernel

end SupraClient.Node
