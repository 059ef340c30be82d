import PhantomProtocol.Lib.Borsh
import PhantomProtocol.Transport.Handshake

/-!
# The wire format of a hello and its pre-check

`ClientHello` as `borsh` decodes it (`transport::handshake`, `crypto::hybrid_kem`,
`crypto::hybrid_sign`), and `client_hello_lengths_within_bounds`, which walks over the same bytes
before they are decoded. `classicalPkBytes` is `CLASSICAL_PK_BYTES`, 32 in the default build and 65
under `fips`.
-/

namespace PhantomProtocol.Handshake

open Borsh (Decoder Cursor fixed u8 u64 vec option fromLeBytes)

variable (classicalPkBytes : Nat)

structure HybridKeyPackage where
  classicalPk : { b : Bytes // b.length = classicalPkBytes }
  mlKemPk : Bytes
deriving DecidableEq

structure HybridVerifyingKey where
  ed25519Pk : { b : Bytes // b.length = 32 }
  mlDsaPk : Bytes
deriving DecidableEq

/-- `ClientHello` with its two public keys, as it is sent. -/
structure HelloMessage extends ClientHello where
  clientKeyPackage : HybridKeyPackage classicalPkBytes
  clientVerifyKey : HybridVerifyingKey
deriving DecidableEq

/-! ## The derived decoders -/

def HybridKeyPackage.deserialize : Decoder (HybridKeyPackage classicalPkBytes) := do
  let classicalPk ← fixed classicalPkBytes
  let mlKemPk ← vec
  pure { classicalPk, mlKemPk }

def HybridVerifyingKey.deserialize : Decoder HybridVerifyingKey := do
  let ed25519Pk ← fixed 32
  let mlDsaPk ← vec
  pure { ed25519Pk, mlDsaPk }

def PoWSolution.deserialize : Decoder PoWSolution := do
  let nonce ← fixed 32
  let solution ← u64
  pure { nonce, solution }

def HelloMessage.deserialize : Decoder (HelloMessage classicalPkBytes) := do
  let clientKeyPackage ← HybridKeyPackage.deserialize classicalPkBytes
  let clientVerifyKey ← HybridVerifyingKey.deserialize
  let nonce ← fixed 32
  let version ← u8
  let cookie ← option (fixed 32)
  let powSolution ← option PoWSolution.deserialize
  let resumeSessionId ← option (fixed 32)
  let resumptionBinder ← option (fixed 32)
  let protocolVariant ← vec
  let earlyData ← option vec
  pure
    { clientKeyPackage, clientVerifyKey, nonce, version,
      cookie := cookie.map Subtype.val, powSolution, resumeSessionId,
      resumptionBinder := resumptionBinder.map Subtype.val, protocolVariant, earlyData }

/-! ## The pre-check -/

def mlKemPkMax : Nat := 1184
def mlDsaPkMax : Nat := 1952
def protocolVariantMax : Nat := 64

section

variable (bytes : Bytes)

/-- `skip`. Where the source's `checked_add` overflows, the end would be past the bytes. -/
def skip (n : Nat) : Cursor Unit := fun pos =>
  if pos + n ≤ bytes.length then some ((), pos + n) else none

def readLen : Cursor Nat := fun pos =>
  if bytes.length < pos + 4 then none else some (fromLeBytes ((bytes.drop pos).take 4), pos + 4)

def readOpt : Cursor Bool := fun pos =>
  match bytes[pos]? with
  | none => none
  | some tag =>
    if tag = 0 then some (false, pos + 1) else if tag = 1 then some (true, pos + 1) else none

def vecLe (max : Nat) : Cursor Unit := do
  let l ← readLen bytes
  if l ≤ max then skip bytes l else failure

def optFixed (n : Nat) : Cursor Unit := do
  if ← readOpt bytes then skip bytes n else pure ()

/-- The walk over the fields. -/
def walkHello : Cursor Unit := do
  skip bytes classicalPkBytes
  vecLe bytes mlKemPkMax
  skip bytes 32
  vecLe bytes mlDsaPkMax
  skip bytes (32 + 1)
  optFixed bytes 32
  optFixed bytes 40
  optFixed bytes 32
  optFixed bytes 32
  vecLe bytes protocolVariantMax
  if ← readOpt bytes then vecLe bytes earlyDataSealedMaxLen else pure ()

def clientHelloLengthsWithinBounds : Bool :=
  match walkHello classicalPkBytes bytes 0 with
  | some ((), pos) => pos == bytes.length
  | none => false

end

end PhantomProtocol.Handshake
