import Avault.Agent.HelperFrame
import Avault.Agent.Request
import Avault.Cli.KeyCommands
import Avault.Cli.Options
import Avault.Crypto.DerivedReceiver
import Avault.Crypto.Signing
import Avault.Deliver.Inject
import Avault.Foundation.Parts

/-! `main`: every command, as the calls it makes. -/
namespace Avault.Cli.Main
open Foundation Crypto Deliver Fetch
open Agent (OpenedSecret SignatureScheme agentRunHelperEnv decodeHex32 toKey32 validateEnvValue)
open Foundation.Program (Fallible ask call liftResult mapResult)

structure PubkeyOutput where
  publicKey : String
  fingerprint : String
deriving DecidableEq, Repr

structure SignInput where
  name : String
  keyEnvelope : Sealed
  digest : String
  scheme : String
  dekBlindbox : Option BlindBox
  approval : Option JsonValue

structure SignOutput where
  signature : String
  recoveryId : Option UInt8

structure InjectInput where
  path : String
  format : String
  secrets : List NamedSecretInput

/-- A `Command`, as it is spawned or executed. -/
structure ChildCommand where
  program : OsString
  args : List OsString
  clearEnv : Bool
  env : List (String × String)
  stdinNull : Bool

inductive ExitStatus
  | signal (number : ℕ)
  | code (code : ℕ)

inductive AvaultOp
  | cli (op : CliOp)
  | key (op : KeyCommands.KeyOp)
  | hardenProcessMemory
  /-- `env::var("AVAULT_STORE")`. -/
  | storeVar
  /-- `env::var_os("HOME")`. -/
  | homeVar
  | loadOrCreateMasterKey (backend : Backend)
  | loadOrCreatePassphraseMasterKey (passphrase : Bytes)
  | authorizeMasterKey (backend : Backend)
  /-- The random bytes of a sealing. -/
  | drawSeal
  | signDigest (scheme : SignatureScheme) (key digest : Key)
  /-- `fs::read` of an envelope file. -/
  | readEnvelopeFile (path : String)
  /-- The envelope as JSON on stdout. -/
  | writeEnvelope (envelope : Sealed)
  | writePubkey (output : PubkeyOutput)
  | writeSignature (output : SignOutput)
  | atomicWriteSecretFile (path : String) (bytes : Bytes)
  | spawnChild (child : ChildCommand)
  | waitChild
  /-- The stdin of the helper, which is a pipe from the agent. -/
  | helperStdin
  /-- `exec` only returns where it fails. -/
  | execChild (child : ChildCommand)
  | runAgent (options : AgentOptions)
  | printUsage
  | printVersion
  | eprintLine (text : String)

def AvaultOp.Reply : AvaultOp → Type
  | cli op => op.Reply
  | key op => op.Reply
  | storeVar => EnvVar
  | homeVar => Option OsString
  | loadOrCreateMasterKey _ | loadOrCreatePassphraseMasterKey _ => Result Key
  | drawSeal => SealDraws
  | signDigest _ _ _ => Result SignatureResult
  | readEnvelopeFile _ => Result Bytes
  | authorizeMasterKey _ | writeEnvelope _ | writePubkey _ | writeSignature _ | atomicWriteSecretFile _ _
  | spawnChild _ => Result Unit
  | waitChild => Result ExitStatus
  | helperStdin => Bytes
  | execChild _ => Error
  | runAgent _ => Result UInt8
  | hardenProcessMemory | printUsage | printVersion | eprintLine _ => Unit

abbrev AvaultM (α : Type) := Fallible AvaultOp AvaultOp.Reply Error α

section Parts

variable {α : Type}

def inCli (x : CliM α) : AvaultM α := ExceptT.mk (x.run.embed AvaultOp.cli fun _ r => r)
def inKey (x : KeyCommands.KeyM α) : AvaultM α := ExceptT.mk (x.run.embed AvaultOp.key fun _ r => r)

/-- `context` on a program. -/
def withContext (text : String) (x : AvaultM α) : AvaultM α := mapResult (context text) x

end Parts

def loadOrCreateMasterKey (backend : Backend) : AvaultM Key := ExceptT.mk (call (AvaultOp.loadOrCreateMasterKey backend))
def loadOrCreatePassphraseMasterKey (passphrase : Bytes) : AvaultM Key :=
  ExceptT.mk (call (AvaultOp.loadOrCreatePassphraseMasterKey passphrase))
def authorizeMasterKey (backend : Backend) : AvaultM Unit := ExceptT.mk (call (AvaultOp.authorizeMasterKey backend))
def signDigest (scheme : SignatureScheme) (key digest : Key) : AvaultM SignatureResult :=
  ExceptT.mk (call (AvaultOp.signDigest scheme key digest))
def readEnvelopeFile (path : String) : AvaultM Bytes := ExceptT.mk (call (AvaultOp.readEnvelopeFile path))
def writeEnvelope (envelope : Sealed) : AvaultM Unit := ExceptT.mk (call (AvaultOp.writeEnvelope envelope))
def writePubkey (output : PubkeyOutput) : AvaultM Unit := ExceptT.mk (call (AvaultOp.writePubkey output))
def writeSignature (output : SignOutput) : AvaultM Unit := ExceptT.mk (call (AvaultOp.writeSignature output))
def atomicWriteSecretFile (path : String) (bytes : Bytes) : AvaultM Unit :=
  ExceptT.mk (call (AvaultOp.atomicWriteSecretFile path bytes))
def spawnChild (child : ChildCommand) : AvaultM Unit := ExceptT.mk (call (AvaultOp.spawnChild child))
def waitChild : AvaultM ExitStatus := ExceptT.mk (call AvaultOp.waitChild)
def runAgentOptions (options : AgentOptions) : AvaultM UInt8 := ExceptT.mk (call (AvaultOp.runAgent options))
def printLine (text : String) : AvaultM Unit := inKey (KeyCommands.printLine text)

/-- The readers of JSON. -/
structure Serde where
  blindBox : Bytes → Result BlindBox
  signInput : Bytes → Result SignInput
  envSecrets : Bytes → Result (List EnvSecretInput)
  envelope : Bytes → Result Sealed
  fetchInput : Bytes → Result FetchInput
  injectInput : Bytes → Result InjectInput
  exportBlob : Bytes → Result ExportBlob

/-- What the commands call of other crates. -/
structure CliEnv where
  crypto : Primitives
  scrypt : Scrypt
  hpke : Hpke
  urls : UrlCrate
  serde : Serde

def loadOrCreateMasterFromUnlock : StoreUnlock → AvaultM Key
  | .standard backend => loadOrCreateMasterKey backend
  | .filePassphrase passphrase =>
    withContext "failed to unlock passphrase master key" (loadOrCreatePassphraseMasterKey passphrase)

def readJsonInput (text : String) : AvaultM Bytes := inCli (Cli.withContext text readJson)

/-- `read_stdin_zeroizing_from`. -/
def readStdin (text : String) : AvaultM Bytes := inKey (KeyCommands.withContext text KeyCommands.readStdin)

def statusToExitCode : ExitStatus → UInt8
  | .signal number => if 128+number < 256 then UInt8.ofNat (128+number) else 1
  | .code code => if code < 256 then UInt8.ofNat code else 1

/-- The only thing that some commands look at in an argument is whether it is a certain ASCII text. -/
def lossy (arg : OsString) : String := (fromUtf8 arg).getD "\uFFFD"

section Commands

variable (E : CliEnv)

/-- `seal` of the core. -/
def sealMaster (master : Key) (name : String) (value : Bytes) : AvaultM Sealed := do
  let draws ← ask AvaultOp.drawSeal
  liftResult (context "seal failed" (E.crypto.sealWith draws master name value))

/-- The blind-box half of `seal_cmd`. -/
def sealFromBlindBox (name : String) (unlock : StoreUnlock) : AvaultM Sealed := do
  let input ← readJsonInput "failed to read blind-box JSON from stdin"
  let blindBox ← liftResult (context "blind-box JSON is invalid" (E.serde.blindBox input))
  let master ← inCli (loadExistingMasterFromUnlock unlock)
  let keypair := E.hpke.deriveBlindBoxKeypairFromMaster master
  let value ← liftResult (context "blind-box open failed" (keypair.openBox E.crypto blindBox (.seal name)))
  sealMaster E master name value

/-- The other half. -/
def sealFromStdin (name : String) (unlock : StoreUnlock) : AvaultM Sealed := do
  let value ← readStdin "failed to read plaintext value from stdin"
  let master ← loadOrCreateMasterFromUnlock unlock
  sealMaster E master name value

def sealInput (options : SealOptions) (unlock : StoreUnlock) : AvaultM Sealed :=
  if options.blindBox then sealFromBlindBox E options.name unlock else sealFromStdin E options.name unlock

def sealCmd (args : List OsString) (config : StoreSelection) : AvaultM UInt8 := do
  let options ← liftResult (parseSealOptions args)
  let unlock ← inCli (readStoreUnlock config)
  let envelope ← sealInput E options unlock
  withContext "failed to write envelope JSON" (writeEnvelope envelope)
  printLine ""
  return 0

def pubkeyOutput (master : Key) : PubkeyOutput :=
  let keypair := E.hpke.deriveBlindBoxKeypairFromMaster master
  ⟨keypair.publicKeyB64 E.crypto,keypair.fingerprintHex E.hpke⟩

def pubkeyCmd (args : List OsString) (config : StoreSelection) : AvaultM UInt8 := do
  liftResult (bailIf (args ≠ []) "pubkey takes no options")
  let unlock ← inCli (readStoreUnlock config)
  let master ← loadOrCreateMasterFromUnlock unlock
  withContext "failed to write pubkey JSON" (writePubkey (pubkeyOutput E master))
  printLine ""
  return 0

def signDigestWithKey (scheme : SignatureScheme) (digest : Key) (keyPlaintext : Bytes) : AvaultM SignOutput := do
  let privateKey ← liftResult (toKey32 keyPlaintext "signing key")
  let result ← withContext "signing failed" (signDigest scheme privateKey digest)
  return ⟨Hex.encode result.signature,result.recoveryId⟩

def signCmd (args : List OsString) (config : StoreSelection) : AvaultM UInt8 := do
  liftResult (bailIf (args ≠ []) "sign reads its JSON request from stdin and takes no options")
  let unlock ← inCli (readStoreUnlock config)
  let input ← readJsonInput "failed to read sign JSON from stdin"
  let request ← liftResult (context "sign JSON is invalid" (E.serde.signInput input))
  let digest ← liftResult (decodeHex32 request.digest "digest")
  let scheme ← liftResult (SignatureScheme.fromStr request.scheme)
  liftResult (rejectOneShotProtectedFields request.dekBlindbox request.approval)
  let master ← inCli (loadExistingMasterFromUnlock unlock)
  let keyPlaintext ← inCli (Cli.withContext "key envelope open failed" (openSealed master request.name request.keyEnvelope))
  let output ← signDigestWithKey scheme digest keyPlaintext
  withContext "failed to write signature JSON" (writeSignature output)
  printLine ""
  return 0

/-- One step of the loop of `spawn_child_with_opened_env`. -/
def envEntry (secret : OpenedSecret) : Result (String × String) := do
  validateEnvValue secret.plaintext
  let value ← context "secret value is not valid UTF-8 for env delivery"
    (orError "invalid utf-8 sequence" (fromUtf8 secret.plaintext))
  return (secret.name,value)

def spawnChildWithOpenedEnv (program : OsString) (args : List OsString) (opened : List OpenedSecret)
    (envelopeStdin inheritEnv : Bool) : AvaultM Unit := do
  let env ← liftResult (opened.mapM envEntry)
  withContext "failed to run child command" (spawnChild ⟨program,args,!inheritEnv,env,envelopeStdin⟩)

def runChildWithOpenedEnv (program : OsString) (args : List OsString) (opened : List OpenedSecret)
    (envelopeStdin : Bool) : AvaultM UInt8 := do
  spawnChildWithOpenedEnv program args opened envelopeStdin true
  let status ← withContext "failed to wait for child command" waitChild
  return statusToExitCode status

/-- `read_envelope`. -/
def readEnvelope : Option String → AvaultM Bytes
  | some path => withContext "failed to read envelope file" (readEnvelopeFile path)
  | none => readJsonInput "failed to read envelope JSON from stdin"

/-- `deliver run` of the secrets that stdin lists. -/
def deliverRunListed (program : OsString) (args : List OsString) (unlock : StoreUnlock) : AvaultM UInt8 := do
  let input ← readJsonInput "failed to read deliver run JSON from stdin"
  let secrets ← liftResult (context "deliver run JSON is invalid" (E.serde.envSecrets input))
  liftResult (bailIf (secrets = []) "deliver run requires at least one secret")
  let opened ← inCli (openEnvSecrets secrets unlock)
  runChildWithOpenedEnv program args opened true

/-- `deliver run` of the one secret that the options name. -/
def deliverRunNamed (options : List OsString) (program : OsString) (args : List OsString) (unlock : StoreUnlock) :
    AvaultM UInt8 := do
  let runOptions ← liftResult (parseDeliverRunOptions options)
  let input ← readEnvelope runOptions.envelopeFile
  let envelope ← liftResult (context "envelope JSON is invalid" (E.serde.envelope input))
  let opened ← inCli (openEnvSecrets [⟨runOptions.name,runOptions.envName,.standard,envelope,none,none⟩] unlock)
  runChildWithOpenedEnv program args opened runOptions.envelopeFile.isNone

def deliverRunCmd (args : List OsString) (config : StoreSelection) : AvaultM UInt8 := do
  let split ← liftResult (orError "deliver run requires -- before the command" (args.findIdx? (· = utf8 "--")))
  match args.drop (split+1) with
  | [] => liftResult (bail "deliver run requires a command")
  | program::rest => do
    let unlock ← inCli (readStoreUnlock config)
    if args.take split = [] then deliverRunListed E program rest unlock
    else deliverRunNamed E (args.take split) program rest unlock

def deliverInjectCmd (args : List OsString) (config : StoreSelection) : AvaultM UInt8 := do
  liftResult (bailIf (args ≠ []) "deliver inject reads its JSON request from stdin and takes no options")
  let unlock ← inCli (readStoreUnlock config)
  let input ← readJsonInput "failed to read deliver inject JSON from stdin"
  let inject ← liftResult (context "deliver inject JSON is invalid" (E.serde.injectInput input))
  let format ← liftResult (validateInjectRequest inject.secrets inject.format)
  let opened ← inCli (openNamedSecrets inject.secrets unlock)
  let rendered ← liftResult (renderInjectFile E.crypto.json opened format)
  withContext "failed to write inject file" (atomicWriteSecretFile inject.path rendered)
  printLine "\x7b\"ok\":true\x7d"
  return 0

def deliverCmd (args : List OsString) (config : StoreSelection) : AvaultM UInt8 := do
  match args with
  | [] => liftResult (bail "missing deliver subcommand")
  | subcmd::rest =>
    match fromUtf8 subcmd with
    | none => liftResult (bail "missing deliver subcommand")
    | some "run" => deliverRunCmd E rest config
    | some "fetch" => inCli (deliverFetchCmd E.urls E.serde.fetchInput (rest.map lossy) config)
    | some "inject" => deliverInjectCmd E rest config
    | some other => liftResult (bail ("unknown deliver subcommand: " ++ other))

/-- The backends other than the Keychain and `auto` only load. -/
def keyAuthorizeCmd (args : List OsString) (config : StoreSelection) : AvaultM UInt8 := do
  liftResult (bailIf (args ≠ []) "key authorize takes no options")
  match ← inCli (readStoreUnlock config) with
  | .standard backend => authorizeMasterKey backend
  | .filePassphrase passphrase => do
    let _ ← inCli (loadExistingMasterFromUnlock (.filePassphrase passphrase))
    pure ()
  printLine "\x7b\"ok\":true\x7d"
  return 0

def keyCmd (args : List OsString) (config : StoreSelection) : AvaultM UInt8 := do
  match args with
  | [] => liftResult (bail "missing key subcommand")
  | subcmd::rest =>
    match fromUtf8 subcmd with
    | none => liftResult (bail "missing key subcommand")
    | some "export" => inKey (KeyCommands.keyExportCmd E.crypto E.scrypt config)
    | some "import" => inKey (KeyCommands.keyImportCmd E.crypto E.scrypt E.serde.exportBlob (rest.map lossy) config)
    | some "authorize" => keyAuthorizeCmd rest config
    | some other => liftResult (bail ("unknown key subcommand: " ++ other))

def agentCmd (args : List OsString) (config : StoreSelection) : AvaultM UInt8 := do
  let home ← ask AvaultOp.homeVar
  let options ← liftResult (parseAgentOptions home args config)
  runAgentOptions options

def agentRunHelperCmd (args : List OsString) : AvaultM UInt8 := do
  let stdinNull : Bool := args.head? = some (utf8 "--stdin-null")
  let args := if stdinNull then args.tail else args
  liftResult (bailIf (args.head? ≠ some (utf8 "--")) "agent run helper requires -- before command")
  match args.tail with
  | [] => liftResult (bail "agent run helper requires a command")
  | program::rest => do
    let input ← ask AvaultOp.helperStdin
    let env ← liftResult (agentRunHelperEnv input)
    let err ← ask (AvaultOp.execChild ⟨program,rest,true,env,stdinNull⟩)
    liftResult (context "failed to exec child command" (.error err))

def command (cmd : String) (args : List OsString) (config : StoreSelection) : AvaultM UInt8 :=
  match cmd with
  | "version" | "--version" | "-V" => do
    ask AvaultOp.printVersion
    return 0
  | "help" | "--help" | "-h" => do
    ask AvaultOp.printUsage
    return 0
  | "seal" => sealCmd E args config
  | "deliver" => deliverCmd E args config
  | "key" => keyCmd E args config
  | "pubkey" => pubkeyCmd E args config
  | "sign" => signCmd E args config
  | "agent" => agentCmd args config
  | "__agent-run-helper" => agentRunHelperCmd args
  | other => do
    ask (AvaultOp.eprintLine ("avault: unknown command '" ++ other ++ "'\n"))
    ask AvaultOp.printUsage
    return 64

def run (args : List OsString) : AvaultM UInt8 := do
  ask AvaultOp.hardenProcessMemory
  let storeVar ← ask AvaultOp.storeVar
  let (config,args) ← liftResult (parseGlobalOptions storeVar args)
  match args with
  | [] => do
    ask AvaultOp.printUsage
    return 0
  | cmd::rest =>
    match fromUtf8 cmd with
    | none => do
      ask AvaultOp.printUsage
      return 0
    | some cmd => command E cmd rest config

/-- The exit code of a process. -/
def main (args : List OsString) : Program AvaultOp AvaultOp.Reply UInt8 := do
  match ← (run E args).run with
  | .ok code => return code
  | .error err => do
    let _ ← call (AvaultOp.eprintLine ("avault: " ++ errorText err))
    return errorExitStatus err

end Commands
end Avault.Cli.Main
