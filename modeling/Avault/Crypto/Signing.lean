import Avault.Crypto.Key
import Avault.Error
import Avault.Foundation.PrimeGroup

/-! The Taproot key path of the signer, over a curve of prime order. -/
namespace Avault.Crypto
open Foundation

structure SignatureResult where
  signature : Bytes
  recoveryId : Option UInt8

/-- `ProjectivePoint` and `Scalar` of `k256`: a group of prime order, whose scalars are read from
32 bytes, and whose coordinates are 32 bytes. -/
structure Curve (n : ℕ) (Point : Type) [AddCommGroup Point] extends PrimeGroup n Point Key where
  bound : n ≤ 256^keyBytes

section Scalar

variable {n : ℕ}

/-- The number of which 32 bytes are the big-endian digits. -/
def keyValue (bytes : Key) : ℕ := readBigEndian bytes.toList

/-- `Scalar::from_repr`. -/
def fromRepr (n : ℕ) (bytes : Key) : Option (ZMod n) :=
  if keyValue bytes < n then some (keyValue bytes : ZMod n) else none

/-- `Scalar::to_bytes`. -/
def scalarBytes (scalar : ZMod n) : Key := ⟨(bigEndian keyBytes scalar.val).toArray,by simp⟩

theorem keyValue_scalarBytes [NeZero n] {scalar : ZMod n} (h : n ≤ 256^keyBytes) :
    keyValue (scalarBytes scalar) = scalar.val := by
  rw [keyValue,scalarBytes,Vector.toList_mk]
  exact readBigEndian_bigEndian (lt_of_lt_of_le (ZMod.val_lt scalar) h)

def parsePrivateScalar (n : ℕ) (privateKey : Key) : Result (ZMod n) := do
  let scalar ← orError "invalid key" (fromRepr n privateKey)
  bailIf (scalar = 0) "invalid key"
  return scalar

end Scalar

def tapTweakTag : Bytes := utf8 "TapTweak"

def taggedHash (sha256 : Bytes → Key) (tag message : Bytes) : Key :=
  let tagHash := (sha256 tag).toList
  sha256 (tagHash ++ tagHash ++ message)

structure TaprootKeyMaterial where
  tweakedSecret : Key
  outputX : Key

section Taproot

variable {n : ℕ} {Point : Type} [AddCommGroup Point] [DecidableEq Point] (C : Curve n Point)
  (sha256 : Bytes → Key)

def taprootKeypathMaterialWithTweak (normalizedSecret : ZMod n) (internalPoint : Point) (tweakBytes : Key) :
    Result TaprootKeyMaterial := do
  let tweak ← orError "taproot tweak is out of range" (fromRepr n tweakBytes)
  let tweakedSecret := normalizedSecret + tweak
  bailIf (tweakedSecret = 0) "taproot tweaked secret is zero"
  let outputPoint := internalPoint + C.mul tweak
  bailIf (outputPoint = 0) "taproot output key is the point at infinity"
  return ⟨scalarBytes tweakedSecret,C.x outputPoint⟩

def taprootKeypathMaterial (privateKey : Key) : Result TaprootKeyMaterial := do
  let privateScalar ← parsePrivateScalar n privateKey
  let internalPoint := C.mul privateScalar
  let normalizedSecret := if C.yIsOdd internalPoint then -privateScalar else privateScalar
  let normalizedPoint := C.mul normalizedSecret
  let internalX := C.x normalizedPoint
  let tweakHash := taggedHash sha256 tapTweakTag internalX.toList
  taprootKeypathMaterialWithTweak C normalizedSecret normalizedPoint tweakHash

end Taproot

/-- `k256::schnorr`. What is signed with a key verifies with the `x` coordinate of its point. -/
structure Schnorr {n : ℕ} {Point : Type} [AddCommGroup Point] (C : Curve n Point) where
  SigningKey : Type
  VerifyingKey : Type
  Signature : Type
  signingKeyFromBytes : Key → Option SigningKey
  signPrehashWithAuxRand : SigningKey → Key → Key → Option Signature
  signatureBytes : Signature → Bytes
  verifyingKeyFromBytes : Key → Option VerifyingKey
  signatureTryFrom : Bytes → Option Signature
  verifyPrehash : VerifyingKey → Key → Signature → Bool
  verifyingKey_exists : ∀ secret : ZMod n, secret ≠ 0 →
    ∃ key, verifyingKeyFromBytes (C.x (C.mul secret)) = some key
  signature_roundtrip : ∀ signature, signatureTryFrom (signatureBytes signature) = some signature
  verifies : ∀ secret : ZMod n, secret ≠ 0 → ∀ signing verifying digest aux signature,
    signingKeyFromBytes (scalarBytes secret) = some signing →
    verifyingKeyFromBytes (C.x (C.mul secret)) = some verifying →
    signPrehashWithAuxRand signing digest aux = some signature →
    verifyPrehash verifying digest signature = true

section Sign

variable {n : ℕ} {Point : Type} [AddCommGroup Point] [DecidableEq Point] (C : Curve n Point)
  (schnorr : Schnorr C) (sha256 : Bytes → Key)

def signSchnorrWithAux (privateKey digest auxRand : Key) : Result SignatureResult := do
  let signingKey ← orError "invalid key" (schnorr.signingKeyFromBytes privateKey)
  let signature ← orError "signing failed" (schnorr.signPrehashWithAuxRand signingKey digest auxRand)
  return ⟨schnorr.signatureBytes signature,none⟩

def signSchnorrBip341KeypathWithAux (privateKey digest auxRand : Key) : Result SignatureResult := do
  let material ← taprootKeypathMaterial C sha256 privateKey
  let result ← signSchnorrWithAux C schnorr material.tweakedSecret digest auxRand
  let verifyingKey ← orError "invalid taproot output key" (schnorr.verifyingKeyFromBytes material.outputX)
  let signature ← orError "signing produced an invalid signature" (schnorr.signatureTryFrom result.signature)
  bailIf (schnorr.verifyPrehash verifyingKey digest signature = false) "taproot signature verification failed"
  return result

end Sign
end Avault.Crypto
