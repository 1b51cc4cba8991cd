import Avault.Agent.Operation
import Avault.Agent.State
import Avault.Fetch.Request
import Avault.Foundation.Hex
import Avault.Store.MacAuto

/-! The requests of the resident agent, and the pure checks on them. -/
namespace Avault.Agent
open Foundation Crypto Deliver Fetch

def defaultAgentGrantTtlSecs : UInt64 := 300
def maxAgentGrantTtlSecs : UInt64 := 24*60*60
def minApprovalNonceBytes : ℕ := 16
def maxApprovalNonceBytes : ℕ := 128

structure ApprovalContextInput where
  nonce : String
  expiresAtUnix : UInt64
deriving DecidableEq

structure ApprovalContext where
  nonce : Bytes
  expiresAtUnix : UInt64
deriving DecidableEq

structure AgentDekInput where
  name : String
  dekBlindbox : BlindBox
  approval : ApprovalContextInput
  scheme : Option String
  digest : Option String

structure AgentGrantRequest where
  grantId : String
  purpose : Option String
  ttlSecs : Option UInt64
  deks : List AgentDekInput

structure AgentGrantScopeRequest where
  grantId : String

structure AgentRunDeliverRequest where
  grantId : String
  command : List String
  secrets : List EnvSecretInput

structure AgentAuthSecretInput where
  name : String
  tier : SecretTier
  envelope : Sealed

structure AgentFetchDeliverRequest where
  grantId : String
  auth : AgentAuthSecretInput
  request : FetchRequest

structure AgentInjectDeliverRequest where
  grantId : String
  path : String
  format : String
  secrets : List NamedSecretInput

structure AgentSignRequest where
  grantId : String
  name : String
  keyEnvelope : Sealed
  digest : String
  scheme : String

inductive AgentRequest
  | pubkey
  | grant (request : AgentGrantRequest)
  | release (request : AgentGrantScopeRequest)
  | revoke (request : AgentGrantScopeRequest)
  | deliverRun (request : AgentRunDeliverRequest)
  | deliverFetch (request : AgentFetchDeliverRequest)
  | deliverInject (request : AgentInjectDeliverRequest)
  | sign (request : AgentSignRequest)

inductive SignatureScheme
  | ecdsaSecp256k1Recoverable
  | ecdsaSecp256k1Der
  | schnorrSecp256k1Bip340
  | schnorrSecp256k1Bip341Keypath
deriving DecidableEq, Repr

def SignatureScheme.asStr : SignatureScheme → String
  | ecdsaSecp256k1Recoverable => "ecdsa-secp256k1-recoverable"
  | ecdsaSecp256k1Der => "ecdsa-secp256k1-der"
  | schnorrSecp256k1Bip340 => "schnorr-secp256k1-bip340"
  | schnorrSecp256k1Bip341Keypath => "schnorr-secp256k1-bip341-keypath"

/-- `SignatureScheme::from_str`. -/
def SignatureScheme.fromStr (value : String) : Result SignatureScheme :=
  orError "unsupported signing scheme"
    ([ecdsaSecp256k1Recoverable,ecdsaSecp256k1Der,schnorrSecp256k1Bip340,
      schnorrSecp256k1Bip341Keypath].find? fun scheme => scheme.asStr == value)

def grantKeyFromId (grantId : String) : Result GrantKey := do
  bailIf (grantId = "") "grant_id is required"
  return ⟨grantId⟩

theorem grantKeyFromId_eq_ok {grantId : String} {key : GrantKey} :
    grantKeyFromId grantId = .ok key ↔ key = ⟨grantId⟩ ∧ grantId ≠ "" := by
  simp only [grantKeyFromId,bind_eq_ok,bailIf_eq_ok,pure_eq_ok,Except.ok.injEq]
  constructor
  · rintro ⟨_,hne,heq⟩
    exact ⟨heq.symm,hne⟩
  · rintro ⟨heq,hne⟩
    exact ⟨(),hne,heq.symm⟩

def decodeHex32 (text label : String) : Result Key := do
  bailIf ((utf8 text).length ≠ 64) (label ++ " must be 32 bytes of hex")
  let bytes ← context (label ++ " is not valid hex")
    (orError "invalid hexadecimal text" (Hex.decode (utf8 text)))
  orError (label ++ " must be 32 bytes of hex") (toArray? keyBytes bytes)

/-- `zeroizing_vec_to_key32`. -/
def toKey32 (value : Bytes) (label : String) : Result Key :=
  orError (label ++ " has invalid length") (toArray? keyBytes value)

def parseApprovalContext (P : Primitives) (input : ApprovalContextInput) : Result ApprovalContext := do
  let nonce ← context "approval nonce is not valid base64" (P.base64.decode input.nonce)
  bailIf (nonce.length < minApprovalNonceBytes ∨ nonce.length > maxApprovalNonceBytes)
    "approval nonce has invalid length"
  return ⟨nonce,input.expiresAtUnix⟩

def rejectAgentOneShotSecretFields (dekBlindbox : Option BlindBox) (approval : Option JsonValue) :
    Result Unit :=
  bailIf (dekBlindbox.isSome ∨ approval.isSome)
    "agent delivery uses cached grants and rejects one-shot DEK fields"

def rejectAgentEnvOneShotFields (secrets : List EnvSecretInput) : Result Unit :=
  secrets.forM fun secret => rejectAgentOneShotSecretFields secret.dekBlindbox secret.approval

def rejectAgentNamedOneShotFields (secrets : List NamedSecretInput) : Result Unit :=
  secrets.forM fun secret => rejectAgentOneShotSecretFields secret.dekBlindbox secret.approval

/-- The case of the digits makes no difference to a digest. -/
theorem decodeHex32_ignoreCase {s t : String} (h : eqIgnoreAsciiCase s t = true) (label : String) :
    decodeHex32 s label = decodeHex32 t label := by
  have hvalues := Hex.map_value_ignoreCase (beq_iff_eq.mp h)
  have hlength : (utf8 s).length = (utf8 t).length := by
    simpa using congrArg List.length hvalues
  rw [decodeHex32,decodeHex32,hlength,Hex.decode_congr hvalues]

end Avault.Agent

/-! The code of an error that callers are expected to act on. -/
namespace Avault.Cli
open Store

def keychainAuthorizationRequiredCode : String := "keychain_authorization_required"
def exitKeychainAuthorizationRequired : UInt8 := 77
def exitFailure : UInt8 := 70

def isKeychainAuthorizationRequired (err : Error) : Bool := decide (keychainAuthorizationRequired ∈ err)

def errorCode (err : Error) : Option String :=
  if isKeychainAuthorizationRequired err then some keychainAuthorizationRequiredCode else none

def errorExitStatus (err : Error) : UInt8 :=
  if errorCode err = some keychainAuthorizationRequiredCode then exitKeychainAuthorizationRequired else exitFailure

/-- `format!("{err:#}")`. -/
def errorText (err : Error) : String := ": ".intercalate (err.map Cause.text)

end Avault.Cli
