import Avault.Agent.Handler

/-! The handling of a frame in three phases: all that is checked and opened, the one critical
section that changes the grants, and what is done with the secrets. -/
namespace Avault.Agent
open Foundation Crypto Deliver Fetch
open Foundation.Program (liftResult)

/-- What a request comes to before it changes anything. -/
inductive Prepared
  | pubkey
  | grant (scope : GrantKey) (grant : GrantEntry) (nonces : List (Bytes × Instant)) (ttlSecs : UInt64)
  | release (scope : GrantKey)
  | run (command : List String) (opened : List OpenedSecret)
  | fetch (request : FetchRequest) (secret : Bytes) (isLoopback : Bool)
  | inject (path : String) (rendered : Bytes)
  | sign (scheme : SignatureScheme) (digest : Key) (keyPlaintext : Bytes)

section Phases

variable (E : AgentEnv)

def prepareGrant (request : AgentGrantRequest) : AgentM Prepared := do
  liftResult (bailIf (request.deks.length = 0) "grant requires at least one DEK")
  let key ← liftResult (grantKeyFromId request.grantId)
  let ttlSecs := request.ttlSecs.getD defaultAgentGrantTtlSecs
  liftResult (bailIf (ttlSecs = 0) "grant ttl_secs must be positive")
  liftResult (bailIf (ttlSecs > maxAgentGrantTtlSecs) "grant ttl_secs exceeds maximum")
  let now ← instantNow
  let requestedExpiresAt ← liftResult (orError "grant expiration is invalid"
    (checkedAddInstant now (fromSecs ttlSecs.toNat)))
  let purpose ← liftResult (AgentDekPurpose.parse request.purpose)
  let draft ← request.deks.foldlM (grantDek E purpose key.grantId ttlSecs) ⟨requestedExpiresAt,[],[]⟩
  return .grant key ⟨draft.expiresAt,draft.deks⟩ draft.usedNonces ttlSecs

/-- `open_with_grant` up to the end of `open`. -/
def openUnderGrant {α : Type} (scope : GrantKey) (needsStandardMaster : Bool)
    (openGranted : GrantEntry → Option Key → AgentM α) : AgentM α := do
  let _ ← getLiveGrant scope
  let master ← if needsStandardMaster then some <$> liftCache (AgentMasterCache.get E.source)
    else pure none
  let grant ← getLiveGrant scope
  openGranted grant master

def prepareDeliverRun (request : AgentRunDeliverRequest) : AgentM Prepared := do
  liftResult (bailIf (request.command.length = 0) "deliver run requires a command")
  liftResult (bailIf (request.secrets.length = 0) "deliver run requires at least one secret")
  liftResult (rejectAgentEnvOneShotFields request.secrets)
  let scope ← liftResult (grantKeyFromId request.grantId)
  let needsStandardMaster := request.secrets.any fun s => s.tier == .standard
  let opened ← openUnderGrant E scope needsStandardMaster fun grant master =>
    openEnvSecretsForAgent request.secrets grant master
  return .run request.command opened

/-- The request of a `deliver.fetch` frame, as the one-shot command reads it. -/
def AgentFetchDeliverRequest.fetchInput (request : AgentFetchDeliverRequest) : FetchInput where
  name := request.auth.name
  tier := request.auth.tier
  envelope := request.auth.envelope
  dekBlindbox := none
  approval := none
  request := request.request

def prepareDeliverFetch (request : AgentFetchDeliverRequest) : AgentM Prepared := do
  let (_,isLoopback) ← liftResult (validateFetchInput E.urls request.fetchInput)
  let scope ← liftResult (grantKeyFromId request.grantId)
  let secret ← openUnderGrant E scope (request.auth.tier == .standard) fun grant master =>
    withContext "open failed"
      (openAgentSecret request.auth.name request.auth.tier request.auth.envelope grant master)
  return .fetch request.request secret isLoopback

def prepareDeliverInject (request : AgentInjectDeliverRequest) : AgentM Prepared := do
  let scope ← liftResult (grantKeyFromId request.grantId)
  liftResult (rejectAgentNamedOneShotFields request.secrets)
  let format ← liftResult (validateInjectRequest request.secrets request.format)
  let needsStandardMaster := request.secrets.any fun s => s.tier == .standard
  let rendered ← openUnderGrant E scope needsStandardMaster fun grant master => do
    let opened ← openNamedSecretsForAgent request.secrets grant master
    liftResult (renderInjectFile E.crypto.json opened format)
  return .inject request.path rendered

def prepareSign (request : AgentSignRequest) : AgentM Prepared := do
  let scope ← liftResult (grantKeyFromId request.grantId)
  let digest ← liftResult (decodeHex32 request.digest "digest")
  let scheme ← liftResult (SignatureScheme.fromStr request.scheme)
  let keyPlaintext ← openUnderGrant E scope false fun grant _ =>
    openSigningKeyWithGrant request.name request.keyEnvelope request.scheme digest grant
  return .sign scheme digest keyPlaintext

def prepareRequest : AgentRequest → AgentM Prepared
  | .pubkey => return .pubkey
  | .grant request => prepareGrant E request
  | .release request | .revoke request => do
    let key ← liftResult (grantKeyFromId request.grantId)
    return .release key
  | .deliverRun request => prepareDeliverRun E request
  | .deliverFetch request => prepareDeliverFetch E request
  | .deliverInject request => prepareDeliverInject E request
  | .sign request => prepareSign E request

def prepare (frame : Bytes) : AgentM Prepared := do
  let request ← liftResult (context "agent frame JSON is invalid" (E.parseRequest frame))
  prepareRequest E request

/-- The critical section of the request, and whether it removed a grant. -/
def commit : Prepared → AgentM Bool
  | .pubkey => return false
  | .grant scope grant nonces _ => do
    publishGrant scope grant nonces
    return false
  | .release scope => releaseGrant scope
  | .run _ _ | .fetch _ _ _ | .inject _ _ | .sign _ _ _ => do
    recordActivity
    return false

def finish : Prepared → Bool → AgentM AgentReply
  | .pubkey,_ => return .pubkey E.publicKeyB64 E.fingerprintHex
  | .grant _ grant _ ttlSecs,_ => return .grant grant.deks.length ttlSecs
  | .release _,released => return .release released
  | .run command opened,_ => do
    let exitCode ← runChild command opened
    return .run exitCode
  | .fetch request secret isLoopback,_ => do
    let output ← withContext "fetch request failed"
      (executeFetchRequest E.urls sendRequest request secret isLoopback)
    return .fetch output
  | .inject path rendered,_ => do
    withContext "failed to write inject file" (writeSecretFile path rendered)
    return .inject
  | .sign scheme digest keyPlaintext,_ => signDigestWithKey scheme digest keyPlaintext

theorem openWithGrant_eq {α : Type} (scope : GrantKey) (needsStandardMaster : Bool)
    (openGranted : GrantEntry → Option Key → AgentM α) :
    openWithGrant E scope needsStandardMaster openGranted =
      openUnderGrant E scope needsStandardMaster openGranted >>= fun opened => do
        recordActivity
        return opened := by
  cases needsStandardMaster <;>
    simp only [openWithGrant,openUnderGrant,bind_assoc,Bool.false_eq_true,if_true,if_false]

/-- Handling a frame is these phases, one after the other. -/
theorem handleAgentFrameInner_eq (frame : Bytes) : handleAgentFrameInner E frame = (do
    let prepared ← prepare E frame
    let released ← commit prepared
    finish E prepared released) := by
  rw [handleAgentFrameInner,prepare,bind_assoc]
  congr 1
  funext request
  cases request with
  | pubkey => rfl
  | grant request =>
    simp only [handleRequest,handleGrant,prepareRequest,prepareGrant,bind_assoc,pure_bind,commit,finish]
  | release request | revoke request =>
    simp only [handleRequest,handleRelease,prepareRequest,bind_assoc,pure_bind,commit,finish]
  | deliverRun request =>
    simp only [handleRequest,handleDeliverRun,prepareRequest,prepareDeliverRun,openWithGrant_eq,
      bind_assoc,pure_bind,commit,finish]
  | deliverFetch request =>
    simp only [handleRequest,handleDeliverFetch,prepareRequest,prepareDeliverFetch,
      AgentFetchDeliverRequest.fetchInput,openWithGrant_eq,bind_assoc,pure_bind,commit,finish]
  | deliverInject request =>
    simp only [handleRequest,handleDeliverInject,prepareRequest,prepareDeliverInject,openWithGrant_eq,
      bind_assoc,pure_bind,commit,finish]
  | sign request =>
    simp only [handleRequest,handleSign,prepareRequest,prepareSign,openWithGrant_eq,bind_assoc,pure_bind,
      commit,finish]

end Phases
end Avault.Agent
