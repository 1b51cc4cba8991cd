import Avault.Foundation.Loans
import Avault.Store.Concrete
import Avault.Store.KeyFile

/-! The master key under a TPM: what the backend asks of `tss_esapi`, and what the TPM makes of it. A
primary key is made for each call, and so is the loaded form of a sealed key; both take a slot of
the TPM until they are flushed. -/
namespace Avault.Tpm
open Foundation Crypto
open Foundation.Program (Fallible attempt liftResult mapResult)
open Store (Machine TpmMasterBlob tpmStoreScheme validateTpmBlob)

inductive Hierarchy
  | owner
  | endorsement
  | platform
  | null
deriving DecidableEq, Repr

inductive PublicAlgorithm
  | rsa
  | keyedHash
deriving DecidableEq, Repr

/-- What `ObjectAttributesBuilder` was told; what it was not told is off. -/
structure ObjectAttributes where
  fixedTpm : Bool := false
  fixedParent : Bool := false
  sensitiveDataOrigin : Bool := false
  userWithAuth : Bool := false
  decrypt : Bool := false
  restricted : Bool := false
deriving DecidableEq, Repr

/-- What `PublicBuilder` was told. The name hashing algorithm is SHA-256 in both templates, the
parameters are those of a restricted decryption key (AES-128-CFB, RSA-2048) or a null scheme. -/
structure Template where
  algorithm : PublicAlgorithm
  attributes : ObjectAttributes
deriving DecidableEq, Repr

/-- The key of a storage hierarchy, below which other objects are wrapped. -/
def Template.StorageKey (t : Template) : Prop :=
  t.algorithm = .rsa ∧ t.attributes.restricted = true ∧ t.attributes.decrypt = true

/-- An object that is nothing but data. -/
def Template.SealedData (t : Template) : Prop :=
  t.algorithm = .keyedHash ∧ t.attributes.restricted = false ∧ t.attributes.decrypt = false ∧
    t.attributes.sensitiveDataOrigin = false

/-- What the crate takes from `tss_esapi` and the TPM: the primary keys of the seeds that the TPM
keeps, sealing below one of them, and the wire form of what comes of that. -/
structure Device where
  Public : Type
  Private : Type
  Primary : Type
  primary : Hierarchy → Template → Primary
  wrap : ℕ → Primary → Template → Bytes → Public × Private
  unwrap : Primary → Public → Private → Option Bytes
  unwrap_wrap : ∀ n hierarchy parent template data, parent.StorageKey → template.SealedData →
    unwrap (primary hierarchy parent) (wrap n (primary hierarchy parent) template data).1
      (wrap n (primary hierarchy parent) template data).2 = some data
  publicForm : Codec Error Public Bytes
  privateForm : Codec Error Private Bytes
  base64 : Codec Error Bytes String

variable (D : Device) (Handle : Type)

/-- What is only looked at or built, with nothing asked of the TPM. -/
inductive Preparation
  | tctiVariable
  | tctiDevice (name : String)
  | attributes (a : ObjectAttributes)
  | rsaParameters
  | template (t : Template)
  | sensitiveData (bytes : Bytes)
  | marshallPublic (p : D.Public)
  | marshallPrivate (p : D.Private)

inductive TpmOp
  | varOs (name : String)
  | pathExists (name : String)
  | prepare (p : Preparation D)
  | newContext
  | startAuthSession
  | endAuthSession
  | createPrimary (hierarchy : Hierarchy) (template : Template)
  | create (parent : Handle) (template : Template) (data : Bytes)
  | load (parent : Handle) (priv : D.Private) (pub : D.Public)
  | unsealItem (item : Handle)
  | flushContext (handle : Handle)

variable {D Handle}

def TpmOp.Reply : TpmOp D Handle → Type
  | varOs _ | pathExists _ => Bool
  | prepare _ | newContext | startAuthSession | endAuthSession | flushContext _ => Result Unit
  | createPrimary _ _ | load _ _ _ => Result Handle
  | create _ _ _ => Result (D.Public × D.Private)
  | unsealItem _ => Result Bytes

abbrev TpmM (D : Device) (Handle α : Type) := Fallible (TpmOp D Handle) TpmOp.Reply Error α

/-! The calls. -/

section Programs

variable {α : Type}

def varOs (name : String) : TpmM D Handle Bool := Program.ask (TpmOp.varOs name)
def pathExists (name : String) : TpmM D Handle Bool := Program.ask (TpmOp.pathExists name)
def prepare (p : Preparation D) : TpmM D Handle Unit := ExceptT.mk (Program.call (TpmOp.prepare p))
def newContext : TpmM D Handle Unit := ExceptT.mk (Program.call TpmOp.newContext)
def startAuthSession : TpmM D Handle Unit := ExceptT.mk (Program.call TpmOp.startAuthSession)
def endAuthSession : TpmM D Handle Unit := ExceptT.mk (Program.call TpmOp.endAuthSession)
def createPrimary (hierarchy : Hierarchy) (template : Template) : TpmM D Handle Handle :=
  ExceptT.mk (Program.call (TpmOp.createPrimary hierarchy template))
def create (parent : Handle) (template : Template) (data : Bytes) : TpmM D Handle (D.Public × D.Private) :=
  ExceptT.mk (Program.call (TpmOp.create parent template data))
def load (parent : Handle) (priv : D.Private) (pub : D.Public) : TpmM D Handle Handle :=
  ExceptT.mk (Program.call (TpmOp.load parent priv pub))
def unsealItem (item : Handle) : TpmM D Handle Bytes := ExceptT.mk (Program.call (TpmOp.unsealItem item))
def flushContext (handle : Handle) : TpmM D Handle Unit := ExceptT.mk (Program.call (TpmOp.flushContext handle))

def withContext (text : String) (x : TpmM D Handle α) : TpmM D Handle α := mapResult (context text) x

/-- The session lasts for one call of the closure. -/
def executeWithNullauthSession (f : TpmM D Handle α) : TpmM D Handle α := do
  startAuthSession
  let result ← attempt f
  endAuthSession
  liftResult result

/-- Whether the environment names the way to the TPM. -/
def tctiFromEnvironment : TpmM D Handle Bool := do
  let tools ← varOs "TPM2TOOLS_TCTI"
  let tcti ← varOs "TCTI"
  let test ← varOs "TEST_TCTI"
  return tools || tcti || test

def openTpmContext : TpmM D Handle Unit := do
  if ← tctiFromEnvironment then
    withContext "invalid TPM TCTI configuration" (prepare .tctiVariable)
    withContext "failed to initialize TPM context" newContext
  else if ← pathExists "/dev/tpmrm0" then
    withContext "invalid TPM device path" (prepare (.tctiDevice "device:/dev/tpmrm0"))
    withContext "failed to initialize TPM context" newContext
  else
    withContext "invalid TPM device path" (prepare (.tctiDevice "device:/dev/tpm0"))
    withContext "failed to initialize TPM context" newContext

def primaryAttributes : ObjectAttributes :=
  { fixedTpm := true,fixedParent := true,sensitiveDataOrigin := true,userWithAuth := true,decrypt := true,restricted := true }

def sealedDataAttributes : ObjectAttributes := { fixedTpm := true,fixedParent := true,userWithAuth := true }

def primaryTemplate : Template := ⟨.rsa,primaryAttributes⟩
def sealedDataTemplate : Template := ⟨.keyedHash,sealedDataAttributes⟩

def primaryPublicTemplate : TpmM D Handle Template := do
  withContext "failed to build TPM primary attributes" (prepare (.attributes primaryAttributes))
  withContext "failed to build TPM primary RSA parameters" (prepare .rsaParameters)
  withContext "failed to build TPM primary template" (prepare (.template primaryTemplate))
  return primaryTemplate

def sealedDataPublicTemplate : TpmM D Handle Template := do
  withContext "failed to build TPM sealed-object attributes" (prepare (.attributes sealedDataAttributes))
  withContext "failed to build TPM sealed-object template" (prepare (.template sealedDataTemplate))
  return sealedDataTemplate

def createTpmPrimary : TpmM D Handle Handle := do
  let template ← primaryPublicTemplate
  withContext "failed to create TPM primary context" (createPrimary .owner template)

def flushTpmObject (handle : Handle) : TpmM D Handle Unit := flushContext handle

/-- An error of the closure goes before one of the flush. -/
def withTpmPrimary (f : Handle → TpmM D Handle α) : TpmM D Handle α := do
  let primary ← createTpmPrimary
  let result ← attempt (f primary)
  let flushResult ← attempt (withContext "failed to flush TPM primary context" (flushTpmObject primary))
  match result,flushResult with
  | .ok value,.ok () => pure value
  | .error e,_ => throw e
  | .ok _,.error e => throw e

/-- The blob of what the TPM has sealed. -/
def masterBlob (D : Device) (created : D.Public × D.Private) : TpmMasterBlob where
  scheme := tpmStoreScheme
  hierarchy := "owner"
  publicPart := D.base64.encode (D.publicForm.encode created.1)
  privatePart := D.base64.encode (D.privateForm.encode created.2)

def sealMasterKey (masterKey : Key) : TpmM D Handle TpmMasterBlob := do
  openTpmContext
  executeWithNullauthSession <| withTpmPrimary fun primary => do
    withContext "invalid TPM secret" (prepare (.sensitiveData masterKey.toList))
    let template ← sealedDataPublicTemplate
    let created ← withContext "failed to seal master key with TPM" (create primary template masterKey.toList)
    withContext "failed to marshal TPM public blob" (prepare (.marshallPublic created.1))
    withContext "failed to marshal TPM private blob" (prepare (.marshallPrivate created.2))
    return masterBlob D created

/-- The parts of a blob, which are read before the TPM is asked for anything. -/
def blobParts (D : Device) (blob : TpmMasterBlob) : Result (D.Public × D.Private) := do
  validateTpmBlob blob
  let publicBlob ← context "public is not valid base64" (D.base64.decode blob.publicPart)
  let privateBlob ← context "private is not valid base64" (D.base64.decode blob.privatePart)
  let pub ← context "failed to unmarshal TPM public blob" (D.publicForm.decode publicBlob)
  let priv ← context "failed to unmarshal TPM private blob" (D.privateForm.decode privateBlob)
  return (pub,priv)

def keyOfUnsealed (unsealed : Bytes) : Result Key :=
  orError "unsealed TPM master key has invalid length" (toArray? keyBytes unsealed)

/-- An error of the flush goes before what came of the unsealing. -/
def unsealMasterKey (blob : TpmMasterBlob) : TpmM D Handle Key := do
  let (pub,priv) ← liftResult (blobParts D blob)
  openTpmContext
  executeWithNullauthSession <| withTpmPrimary fun primary => do
    let sealedHandle ← withContext "failed to load TPM master key blob" (load primary priv pub)
    let result ← attempt do
      let unsealed ← withContext "failed to unseal TPM master key" (unsealItem sealedHandle)
      liftResult (keyOfUnsealed unsealed)
    withContext "failed to flush TPM sealed object" (flushTpmObject sealedHandle)
    liftResult result

end Programs

/-! The TPM. -/

inductive Object
  | primary (hierarchy : Hierarchy) (template : Template)
  | sealedData (data : Bytes)
deriving DecidableEq

/-- What is loaded in the TPM, by handle. -/
structure TpmState (Handle : Type) where
  loaded : Handle → Option Object
  seals : ℕ

/-- The reply of a call that fails, where it can. -/
def TpmOp.failure (e : Error) : (op : TpmOp D Handle) → Option op.Reply
  | varOs _ | pathExists _ => none
  | prepare _ | newContext | startAuthSession | endAuthSession | flushContext _ => some (.error e : Result Unit)
  | createPrimary _ _ | load _ _ _ => some (.error e : Result Handle)
  | create _ _ _ => some (.error e : Result (D.Public × D.Private))
  | unsealItem _ => some (.error e : Result Bytes)

/-- What the calls do. Each of them may fail, with nothing changed, and the environment is as it may be. A new
object gets a handle that no loaded one has, and what is asked of an object is done if this is
loaded and of the kind that the call is about. -/
inductive TpmStep [DecidableEq Handle] : TpmState Handle → (op : TpmOp D Handle) → op.Reply → TpmState Handle → Prop
  | varOs {s name} (r : Bool) : TpmStep s (.varOs name) r s
  | pathExists {s name} (r : Bool) : TpmStep s (.pathExists name) r s
  | failed {s op r} (e : Error) : op.failure e = some r → TpmStep s op r s
  | prepare {s p} : TpmStep s (.prepare p) (.ok () : Result Unit) s
  | newContext {s} : TpmStep s .newContext (.ok () : Result Unit) s
  | startAuthSession {s} : TpmStep s .startAuthSession (.ok () : Result Unit) s
  | endAuthSession {s} : TpmStep s .endAuthSession (.ok () : Result Unit) s
  | createPrimary {s hierarchy template} {handle : Handle} : s.loaded handle = none →
    TpmStep s (.createPrimary hierarchy template) (.ok handle : Result Handle)
      { s with loaded := Function.update s.loaded handle (some (.primary hierarchy template)) }
  | create {s parent hierarchy template template' data} : s.loaded parent = some (.primary hierarchy template) →
    TpmStep s (.create parent template' data)
      (.ok (D.wrap s.seals (D.primary hierarchy template) template' data) : Result (D.Public × D.Private))
      { s with seals := s.seals+1 }
  | load {s parent hierarchy template pub priv data} {handle : Handle} : s.loaded parent = some (.primary hierarchy template) →
    D.unwrap (D.primary hierarchy template) pub priv = some data → s.loaded handle = none →
    TpmStep s (.load parent priv pub) (.ok handle : Result Handle)
      { s with loaded := Function.update s.loaded handle (some (.sealedData data)) }
  | unsealItem {s item data} : s.loaded item = some (.sealedData data) →
    TpmStep s (.unsealItem item) (.ok data : Result Bytes) s
  | flushContext {s handle object} : s.loaded handle = some object →
    TpmStep s (.flushContext handle) (.ok () : Result Unit) { s with loaded := Function.update s.loaded handle none }

/-! The backend as the stores take it, with sealing and unsealing one call each. -/

section Backend

variable (D)

/-- What the primary key of the owner hierarchy unwraps. -/
def unwrapOwner (parts : D.Public × D.Private) : Option Bytes :=
  D.unwrap (D.primary .owner primaryTemplate) parts.1 parts.2

def sealedBlob (n : ℕ) (key : Key) : TpmMasterBlob :=
  masterBlob D (D.wrap n (D.primary .owner primaryTemplate) sealedDataTemplate key.toList)

def unsealedKey (blob : TpmMasterBlob) : Result Key := do
  let parts ← blobParts D blob
  let unsealed ← orError "failed to load TPM master key blob" (unwrapOwner D parts)
  keyOfUnsealed unsealed

theorem blobParts_masterBlob (created : D.Public × D.Private) : blobParts D (masterBlob D created) = .ok created := by
  have hvalid : validateTpmBlob (masterBlob D created) = .ok () := bailIf_neg (by simp [masterBlob])
  rw [blobParts,hvalid]
  simp [masterBlob,Codec.decode_encode,context]

theorem unsealedKey_sealedBlob (n : ℕ) (key : Key) : unsealedKey D (sealedBlob D n key) = .ok key := by
  have hunwrap : unwrapOwner D (D.wrap n (D.primary .owner primaryTemplate) sealedDataTemplate key.toList) =
      some key.toList :=
    D.unwrap_wrap n .owner primaryTemplate sealedDataTemplate key.toList ⟨rfl,rfl,rfl⟩ ⟨rfl,rfl,rfl,rfl⟩
  rw [unsealedKey,sealedBlob,blobParts_masterBlob]
  simp [hunwrap,keyOfUnsealed]

/-- The machine of the stores' model that this TPM makes. -/
def machine (blobJson : Codec Error TpmMasterBlob Bytes) (randomKey : ℕ → Key) : Machine where
  sealMasterKey := sealedBlob D
  unsealMasterKey := unsealedKey D
  unseal_seal := unsealedKey_sealedBlob D
  blobJson := blobJson
  randomKey := randomKey

end Backend
end Avault.Tpm
