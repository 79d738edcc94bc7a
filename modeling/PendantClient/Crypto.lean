import PendantClient.Decode

/-! Keys (`crypto.py`): the pendant's public key, and the two ways to a key set. What the `cryptography` package does is left
    open. -/

namespace PendantClient

/-- What a PEM file with a private key is loaded as. -/
inductive LoadedKey (Priv : Type)
  | secp256r1 (key : Priv)
  /-- An elliptic-curve key on another curve. -/
  | otherCurve
  /-- No elliptic-curve key. -/
  | other
  deriving Repr, DecidableEq

/-- What is called of the package: keys are those of the curve SECP256R1. -/
structure EcLibrary (Priv Pub : Type) where
  /-- `from_encoded_point`, with `none` when it raises. -/
  fromEncodedPoint : Bytes → Option Pub
  /-- `public_bytes`, as an uncompressed point. -/
  publicBytes : Pub → Bytes
  /-- `public_key`. -/
  publicKey : Priv → Pub
  /-- `exchange` with `ECDH()`. -/
  exchange : Priv → Pub → Bytes
  /-- `HKDF` with SHA-256, 16 bytes, no salt and no info. -/
  hkdf : Bytes → Bytes
  /-- `private_bytes`, as unencrypted PKCS8 in PEM. -/
  privateBytes : Priv → Bytes
  /-- `load_pem_private_key` without a password, with `none` when it raises. -/
  loadPemPrivateKey : Bytes → Option (LoadedKey Priv)

/-- What raises in the import of keys. -/
inductive KeyError
  | value (message : String)
  | type (message : String)
  /-- The package raises. -/
  | library
  deriving Repr, DecidableEq

/-- The whole `AudioKeySet`. -/
structure ServerKeySet (Priv : Type) extends AudioKeySet where
  serverPriv : Priv
  serverPubBytes : Bytes
  pendantPubBytes : Bytes
  deriving Repr, DecidableEq

section
variable {Priv Pub : Type} (lib : EcLibrary Priv Pub)

/-- `import_pendant_pubkey`. -/
def importPendantPubkey (uncompressed65Bytes : Bytes) : Except KeyError Pub :=
  if uncompressed65Bytes.length ≠ 65 ∨ uncompressed65Bytes.head? ≠ some 0x04 then
    .error (.value s!"expected 65-byte uncompressed P-256 point starting with 0x04, got {uncompressed65Bytes.length} bytes")
  else
    match lib.fromEncodedPoint uncompressed65Bytes with
    | some pub => .ok pub
    | none => .error .library

/-- `export_server_pubkey`. -/
def exportServerPubkey (serverPriv : Priv) : Bytes := lib.publicBytes (lib.publicKey serverPriv)

/-- `generate_keyset`, with the key that `generate_private_key` gives. -/
def generateKeyset (generated : Priv) (pendantPubBytes : Bytes) : Except KeyError (ServerKeySet Priv) := do
  let pendantPub ← importPendantPubkey lib pendantPubBytes
  let shared := lib.exchange generated pendantPub
  .ok {
    serverPriv := generated
    serverPubBytes := exportServerPubkey lib generated
    pendantPubBytes
    aesKey := lib.hkdf shared }

/-- `keyset_from_existing`. The kind of key is checked before the point, its curve only by the exchange. -/
def keysetFromExisting (serverPrivPem pendantPubBytes : Bytes) : Except KeyError (ServerKeySet Priv) :=
  match lib.loadPemPrivateKey serverPrivPem with
  | none => .error .library
  | some .other => .error (.type "expected EC private key")
  | some .otherCurve => do
    let _ ← importPendantPubkey lib pendantPubBytes
    .error .library
  | some (.secp256r1 serverPriv) => do
    let pendantPub ← importPendantPubkey lib pendantPubBytes
    let shared := lib.exchange serverPriv pendantPub
    .ok {
      serverPriv
      serverPubBytes := exportServerPubkey lib serverPriv
      pendantPubBytes
      aesKey := lib.hkdf shared }

end

end PendantClient
