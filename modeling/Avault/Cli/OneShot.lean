import Avault.Fetch.Execute

/-! The one-shot delivery commands, as the calls they make. -/
namespace Avault.Cli
open Foundation Crypto Deliver Fetch
open Agent (OpenedSecret validateShellName)
open Foundation.Program (Fallible liftResult mapResult)

inductive Backend
  | auto
  | keychain
  | tpm
  | file
deriving DecidableEq, Repr

inductive StoreSelection
  | auto
  | keychain
  | tpm
  | file
  | filePassphrase
deriving DecidableEq, Repr

inductive StoreUnlock
  | standard (backend : Backend)
  | filePassphrase (passphrase : Bytes)

inductive CliOp
  /-- `read_passphrase_line` on stdin. -/
  | readPassphraseLine
  /-- `read_zeroizing_to_cap` on the rest of stdin. -/
  | readJson
  | loadMasterKey (backend : Backend)
  | loadPassphraseMasterKey (passphrase : Bytes)
  | openSealed (masterKey : Key) (name : String) (envelope : Sealed)
  | send (request : HttpRequest)
  /-- The response as JSON on stdout, and a newline. -/
  | writeResponse (output : FetchOutput)

def CliOp.Reply : CliOp → Type
  | readPassphraseLine | readJson => Result Bytes
  | loadMasterKey _ | loadPassphraseMasterKey _ => Result Key
  | openSealed _ _ _ => Result Bytes
  | send _ => Result HttpResponse
  | writeResponse _ => Result Unit

abbrev CliM (α : Type) := Fallible CliOp CliOp.Reply Error α

def readPassphraseLine : CliM Bytes := ExceptT.mk (Program.call CliOp.readPassphraseLine)
def readJson : CliM Bytes := ExceptT.mk (Program.call CliOp.readJson)
def loadMasterKey (backend : Backend) : CliM Key := ExceptT.mk (Program.call (CliOp.loadMasterKey backend))
def loadPassphraseMasterKey (passphrase : Bytes) : CliM Key :=
  ExceptT.mk (Program.call (CliOp.loadPassphraseMasterKey passphrase))
def openSealed (masterKey : Key) (name : String) (envelope : Sealed) : CliM Bytes :=
  ExceptT.mk (Program.call (CliOp.openSealed masterKey name envelope))
def sendRequest (request : HttpRequest) : CliM HttpResponse := ExceptT.mk (Program.call (CliOp.send request))
def writeResponse (output : FetchOutput) : CliM Unit := ExceptT.mk (Program.call (CliOp.writeResponse output))

/-- `context` on a program. -/
def withContext {α : Type} (text : String) (x : CliM α) : CliM α := mapResult (context text) x

def readStoreUnlock : StoreSelection → CliM StoreUnlock
  | .auto => return .standard .auto
  | .keychain => return .standard .keychain
  | .tpm => return .standard .tpm
  | .file => return .standard .file
  | .filePassphrase => do
    let passphrase ← withContext "failed to read store passphrase from stdin" readPassphraseLine
    return .filePassphrase passphrase

def loadExistingMasterFromUnlock : StoreUnlock → CliM Key
  | .standard backend => loadMasterKey backend
  | .filePassphrase passphrase =>
    withContext "failed to unlock passphrase master key" (loadPassphraseMasterKey passphrase)

def openOneShotSecret (name : String) (envelope : Sealed) (dekBlindbox : Option BlindBox)
    (approval : Option JsonValue) (unlock : StoreUnlock) (loadedMaster : Option Key) : CliM Bytes := do
  liftResult (rejectOneShotProtectedFields dekBlindbox approval)
  let master ← match loadedMaster with
    | some master => pure master
    | none => loadExistingMasterFromUnlock unlock
  withContext "envelope open failed" (openSealed master name envelope)

/-- The body of both loops over secrets, under the name the secret is delivered as. The set of
the source holds the names of what is open. -/
def openTarget (target label duplicate : String) (name : String) (tier : SecretTier) (envelope : Sealed)
    (dekBlindbox : Option BlindBox) (approval : Option JsonValue) (unlock : StoreUnlock) (master : Key)
    (opened : List OpenedSecret) : CliM (List OpenedSecret) := do
  liftResult (ensureOneShotStandardTier tier)
  liftResult (validateShellName target label)
  liftResult (bailIf ((opened.any fun secret => secret.name == target) = true) duplicate)
  let plaintext ← withContext ("open failed for " ++ name)
    (openOneShotSecret name envelope dekBlindbox approval unlock (some master))
  return opened ++ [⟨target,plaintext⟩]

def openEnvSecrets (secrets : List EnvSecretInput) (unlock : StoreUnlock) : CliM (List OpenedSecret) := do
  let master ← loadExistingMasterFromUnlock unlock
  secrets.foldlM (fun opened secret => openTarget secret.env "env var name" "duplicate env var name"
    secret.name secret.tier secret.envelope secret.dekBlindbox secret.approval unlock master opened) []

def openNamedSecrets (secrets : List NamedSecretInput) (unlock : StoreUnlock) : CliM (List OpenedSecret) := do
  let master ← loadExistingMasterFromUnlock unlock
  secrets.foldlM (fun opened secret =>
    openTarget ((secret.key.or secret.env).getD secret.name) "secret target name"
      "duplicate secret target name" secret.name secret.tier secret.envelope secret.dekBlindbox
      secret.approval unlock master opened) []

def fetchOutputExitCode (output : FetchOutput) : UInt8 :=
  if 200 ≤ output.status ∧ output.status ≤ 299 then 0 else 1

def deliverFetchCmd (U : UrlCrate) (parseInput : Bytes → Result FetchInput) (args : List String)
    (config : StoreSelection) : CliM UInt8 := do
  liftResult (bailIf (args ≠ []) "deliver fetch reads its JSON request from stdin and takes no options")
  let unlock ← readStoreUnlock config
  let input ← withContext "failed to read deliver fetch JSON from stdin" readJson
  let fetch ← liftResult (context "deliver fetch JSON is invalid" (parseInput input))
  liftResult (ensureOneShotStandardTier fetch.tier)
  let (_,isLoopback) ← liftResult (validateFetchInput U fetch)
  let secret ← withContext "open failed"
    (openOneShotSecret fetch.name fetch.envelope fetch.dekBlindbox fetch.approval unlock none)
  let output ← withContext "fetch request failed"
    (executeFetchRequest U sendRequest fetch.request secret isLoopback)
  withContext "failed to write fetch response JSON" (writeResponse output)
  return fetchOutputExitCode output

end Avault.Cli
