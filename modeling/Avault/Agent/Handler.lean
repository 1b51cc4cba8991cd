import Avault.Agent.World

/-! `handle_agent_frame_inner`, as the calls a connection thread makes for one frame. -/
namespace Avault.Agent
open Foundation Crypto Deliver Fetch
open Foundation.Program (liftResult mapResult)

/-- `context` on a program. -/
def withContext {α : Type} (text : String) (x : AgentM α) : AgentM α := mapResult (context text) x

/-! Time. The standard library keeps whole seconds in 64 bits with a sign. -/

/-- `Instant::checked_add`. -/
def checkedAddInstant (t : Instant) (d : Duration) : Option Instant :=
  if t+d < fromSecs (2^63) then some (t+d) else none

/-- `UNIX_EPOCH.checked_add(Duration::from_secs(..))`. -/
def unixTime (secs : UInt64) : Option SystemTime :=
  if secs.toNat < 2^63 then some (fromSecs secs.toNat : ℕ) else none

/-- `SystemTime::duration_since`. -/
def durationSince (t earlier : SystemTime) : Option Duration :=
  if earlier ≤ t then some (t-earlier).toNat else none

theorem checkedAddInstant_eq_some {t u : Instant} {d : Duration} (h : checkedAddInstant t d = some u) :
    u = t+d := by
  unfold checkedAddInstant at h
  split at h
  · exact (Option.some.inj h).symm
  · cases h

theorem unixTime_eq_some {secs : UInt64} {t : SystemTime} (h : unixTime secs = some t) :
    t = fromSecs secs.toNat := by
  unfold unixTime at h
  split at h
  · exact (Option.some.inj h).symm
  · cases h

theorem durationSince_eq_some {t earlier : SystemTime} {d : Duration} (h : durationSince t earlier = some d) :
    earlier ≤ t ∧ (d : ℤ) = t-earlier := by
  unfold durationSince at h
  split at h
  · next hle =>
    obtain rfl := Option.some.inj h
    exact ⟨hle,Int.toNat_of_nonneg (Int.sub_nonneg.mpr hle)⟩
  · cases h

def currentUnixSecs : AgentM ℕ := do
  let now ← systemTimeNow
  let elapsed ← liftResult (orError "system clock is before Unix epoch" (durationSince now 0))
  return elapsed/fromSecs 1

def validateApprovalNotExpired (expiresAtUnix : UInt64) : AgentM Unit := do
  let now ← currentUnixSecs
  liftResult (bailIf (expiresAtUnix.toNat ≤ now) "approval is expired")

def approvalExpiryInstant (expiresAtUnix : UInt64) : AgentM Instant := do
  let nowInstant ← instantNow
  let now ← systemTimeNow
  let expiresAt ← liftResult (orError "approval expiration is invalid" (unixTime expiresAtUnix))
  let remaining ← liftResult (orError "approval is expired" (durationSince expiresAt now))
  liftResult (orError "approval expiration is invalid" (checkedAddInstant nowInstant remaining))

/-! The grant branch. -/

section Grant

variable (E : AgentEnv)

/-- The AAD context a DEK must be sealed for, and the key it is kept under. An operation hash
panics on a field of four gibibytes, which no frame can hold. -/
def agentDekContext (purpose : AgentDekPurpose) (grantId : String) (ttlSecs : UInt64) (dek : AgentDekInput)
    (approval : ApprovalContext) : Result (BlindBoxContext × AgentDekKey) :=
  match purpose with
  | .deliver => do
    bailIf (dek.scheme.isSome ∨ dek.digest.isSome) "deliver grant DEK must not include signing fields"
    let operationHash ← orError "operation hash field length fits u32"
      (agentDeliverOperationHash E.sha256 dek.name ttlSecs)
    return (((BlindBoxContext.agentDeliver grantId dek.name).withApproval approval.nonce
      approval.expiresAtUnix).withOperationHash operationHash,⟨.deliver,dek.name,none,none⟩)
  | .sign => do
    let scheme ← orError "sign grant DEK requires scheme" dek.scheme
    let digestHex ← orError "sign grant DEK requires digest" dek.digest
    let digest ← decodeHex32 digestHex "digest"
    let operationHash ← orError "operation hash field length fits u32"
      (agentSignOperationHash E.sha256 scheme digest ttlSecs)
    return (((BlindBoxContext.agentSign grantId dek.name scheme digest).withApproval approval.nonce
      approval.expiresAtUnix).withOperationHash operationHash,
      ⟨.sign,dek.name,some scheme,some (Hex.encode digest.toList)⟩)

/-- The variables of the loop over the DEKs of a request. -/
structure GrantDraft where
  expiresAt : Instant
  deks : Deks
  usedNonces : List (Bytes × Instant)

/-- The body of the loop. -/
def grantDek (purpose : AgentDekPurpose) (grantId : String) (ttlSecs : UInt64) (draft : GrantDraft)
    (dek : AgentDekInput) : AgentM GrantDraft := do
  let approval ← liftResult (parseApprovalContext E.crypto dek.approval)
  validateApprovalNotExpired approval.expiresAtUnix
  let approvalExpiresAt ← approvalExpiryInstant approval.expiresAtUnix
  liftResult (bailIf ((draft.usedNonces.any fun used => used.1 == approval.nonce) = true)
    "duplicate grant approval nonce")
  let (ctx,key) ← liftResult (agentDekContext E purpose grantId ttlSecs dek approval)
  liftResult (bailIf ((draft.deks.get key).isSome = true) "duplicate grant DEK name")
  let opened ← liftResult (context "DEK blind-box open failed"
    (E.keypair.openBox E.crypto dek.dekBlindbox ctx))
  let releasedDek ← liftResult (toKey32 opened "released DEK")
  return {
    expiresAt := min draft.expiresAt approvalExpiresAt
    deks := draft.deks ++ [(key,releasedDek)]
    usedNonces := draft.usedNonces ++ [(approval.nonce,approvalExpiresAt)] }

end Grant

inductive AgentReply
  | pubkey (publicKey fingerprint : String)
  | grant (granted : ℕ) (ttlSecs : UInt64)
  | release (released : Bool)
  | run (exitCode : UInt8)
  | fetch (output : FetchOutput)
  | inject
  | sign (signature : String) (recoveryId : Option UInt8)

section Handler

variable (E : AgentEnv)

def handleGrant (request : AgentGrantRequest) : AgentM AgentReply := do
  liftResult (bailIf (request.deks.length = 0) "grant requires at least one DEK")
  let key ← liftResult (grantKeyFromId request.grantId)
  let ttlSecs := request.ttlSecs.getD defaultAgentGrantTtlSecs
  liftResult (bailIf (ttlSecs = 0) "grant ttl_secs must be positive")
  liftResult (bailIf (ttlSecs > maxAgentGrantTtlSecs) "grant ttl_secs exceeds maximum")
  let now ← instantNow
  let requestedExpiresAt ← liftResult (orError "grant expiration is invalid"
    (checkedAddInstant now (fromSecs ttlSecs.toNat)))
  let purpose ← liftResult (AgentDekPurpose.parse request.purpose)
  let draft ← request.deks.foldlM (grantDek E purpose key.grantId ttlSecs) ⟨requestedExpiresAt,[],[]⟩
  publishGrant key ⟨draft.expiresAt,draft.deks⟩ draft.usedNonces
  return .grant draft.deks.length ttlSecs

def handleRelease (request : AgentGrantScopeRequest) : AgentM AgentReply := do
  let key ← liftResult (grantKeyFromId request.grantId)
  let released ← releaseGrant key
  return .release released

/-- `open_with_grant`. -/
def openWithGrant {α : Type} (scope : GrantKey) (needsStandardMaster : Bool)
    (openGranted : GrantEntry → Option Key → AgentM α) : AgentM α := do
  let _ ← getLiveGrant scope
  let master ← if needsStandardMaster then some <$> liftCache (AgentMasterCache.get E.source)
    else pure none
  let grant ← getLiveGrant scope
  let opened ← openGranted grant master
  recordActivity
  return opened

def openSecretWithGrant (name : String) (envelope : Sealed) (grant : GrantEntry) : AgentM Bytes := do
  let dek ← liftResult (orError "grant does not cover secret" (grant.deks.get ⟨.deliver,name,none,none⟩))
  withContext "envelope open failed" (openWithDek dek name envelope)

def openSigningKeyWithGrant (name : String) (envelope : Sealed) (scheme : String) (digest : Key)
    (grant : GrantEntry) : AgentM Bytes := do
  let dek ← liftResult (orError "grant does not cover signing operation"
    (grant.deks.get ⟨.sign,name,some scheme,some (Hex.encode digest.toList)⟩))
  withContext "envelope open failed" (openWithDek dek name envelope)

def openAgentSecret (name : String) (tier : SecretTier) (envelope : Sealed) (grant : GrantEntry)
    (standardMaster : Option Key) : AgentM Bytes :=
  match tier with
  | .standard => do
    let master ← liftResult (orError "standard-tier secret requires a master key" standardMaster)
    withContext "envelope open failed" (openSealed master name envelope)
  | .«protected» => openSecretWithGrant name envelope grant

/-- A secret as both loops over secrets open it, under the name it is delivered as. -/
def openTarget (target label duplicate : String) (name : String) (tier : SecretTier) (envelope : Sealed)
    (dekBlindbox : Option BlindBox) (approval : Option JsonValue) (grant : GrantEntry)
    (standardMaster : Option Key) (opened : List OpenedSecret) : AgentM (List OpenedSecret) := do
  liftResult (rejectAgentOneShotSecretFields dekBlindbox approval)
  liftResult (validateShellName target label)
  liftResult (bailIf ((opened.any fun secret => secret.name == target) = true) duplicate)
  let plaintext ← withContext ("open failed for " ++ name)
    (openAgentSecret name tier envelope grant standardMaster)
  return opened ++ [⟨target,plaintext⟩]

def openEnvSecretsForAgent (secrets : List EnvSecretInput) (grant : GrantEntry)
    (standardMaster : Option Key) : AgentM (List OpenedSecret) :=
  secrets.foldlM (fun opened secret => openTarget secret.env "env var name" "duplicate env var name"
    secret.name secret.tier secret.envelope secret.dekBlindbox secret.approval grant standardMaster
    opened) []

def openNamedSecretsForAgent (secrets : List NamedSecretInput) (grant : GrantEntry)
    (standardMaster : Option Key) : AgentM (List OpenedSecret) :=
  secrets.foldlM (fun opened secret =>
    openTarget ((secret.key.or secret.env).getD secret.name) "secret target name"
      "duplicate secret target name" secret.name secret.tier secret.envelope secret.dekBlindbox
      secret.approval grant standardMaster opened) []

def handleDeliverRun (request : AgentRunDeliverRequest) : AgentM AgentReply := do
  liftResult (bailIf (request.command.length = 0) "deliver run requires a command")
  liftResult (bailIf (request.secrets.length = 0) "deliver run requires at least one secret")
  liftResult (rejectAgentEnvOneShotFields request.secrets)
  let scope ← liftResult (grantKeyFromId request.grantId)
  let needsStandardMaster := request.secrets.any fun s => s.tier == .standard
  let opened ← openWithGrant E scope needsStandardMaster fun grant master =>
    openEnvSecretsForAgent request.secrets grant master
  let exitCode ← runChild request.command opened
  return .run exitCode

def handleDeliverFetch (request : AgentFetchDeliverRequest) : AgentM AgentReply := do
  let fetch : FetchInput := {
    name := request.auth.name
    tier := request.auth.tier
    envelope := request.auth.envelope
    dekBlindbox := none
    approval := none
    request := request.request }
  let (_,isLoopback) ← liftResult (validateFetchInput E.urls fetch)
  let scope ← liftResult (grantKeyFromId request.grantId)
  let secret ← openWithGrant E scope (fetch.tier == .standard) fun grant master =>
    withContext "open failed" (openAgentSecret fetch.name fetch.tier fetch.envelope grant master)
  let output ← withContext "fetch request failed"
    (executeFetchRequest E.urls sendRequest fetch.request secret isLoopback)
  return .fetch output

def handleDeliverInject (request : AgentInjectDeliverRequest) : AgentM AgentReply := do
  let scope ← liftResult (grantKeyFromId request.grantId)
  liftResult (rejectAgentNamedOneShotFields request.secrets)
  let format ← liftResult (validateInjectRequest request.secrets request.format)
  let needsStandardMaster := request.secrets.any fun s => s.tier == .standard
  let rendered ← openWithGrant E scope needsStandardMaster fun grant master => do
    let opened ← openNamedSecretsForAgent request.secrets grant master
    liftResult (renderInjectFile E.crypto.json opened format)
  withContext "failed to write inject file" (writeSecretFile request.path rendered)
  return .inject

/-- `sign_digest_with_key`. -/
def signDigestWithKey (scheme : SignatureScheme) (digest : Key) (keyPlaintext : Bytes) :
    AgentM AgentReply := do
  let privateKey ← liftResult (toKey32 keyPlaintext "signing key")
  let result ← withContext "signing failed" (signDigest scheme privateKey digest)
  return .sign (Hex.encode result.signature) result.recoveryId

def handleSign (request : AgentSignRequest) : AgentM AgentReply := do
  let scope ← liftResult (grantKeyFromId request.grantId)
  let digest ← liftResult (decodeHex32 request.digest "digest")
  let scheme ← liftResult (SignatureScheme.fromStr request.scheme)
  let keyPlaintext ← openWithGrant E scope false fun grant _ =>
    openSigningKeyWithGrant request.name request.keyEnvelope request.scheme digest grant
  signDigestWithKey scheme digest keyPlaintext

def handleRequest : AgentRequest → AgentM AgentReply
  | .pubkey => return .pubkey E.publicKeyB64 E.fingerprintHex
  | .grant request => handleGrant E request
  | .release request | .revoke request => handleRelease request
  | .deliverRun request => handleDeliverRun E request
  | .deliverFetch request => handleDeliverFetch E request
  | .deliverInject request => handleDeliverInject E request
  | .sign request => handleSign E request

def handleAgentFrameInner (frame : Bytes) : AgentM AgentReply := do
  let request ← liftResult (context "agent frame JSON is invalid" (E.parseRequest frame))
  handleRequest E request

/-- `AgentShared::purge`, which the listener calls between connections. -/
def agentPurge : AgentM Unit := do
  purgeState
  liftCache AgentMasterCache.purge

end Handler
end Avault.Agent
