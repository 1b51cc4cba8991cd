import Avault.Crypto.Export
import Avault.Foundation.Parts
import Avault.Foundation.Roles
import Avault.Store.AtomicWrite

/-! The three stores with one key file each, and the processes that call them on the same path. -/
namespace Avault.KeyFile
open Foundation Crypto
open Foundation.Program (Fallible attempt liftResult mapResult)
open SecretFile (FileOp FileM Files FileStep directory ensureParent validateFileMode pathExists validatePassphrase
  fileStoreImport fileStoreCreateAtomic passphraseFileStoreImport passphraseFileStoreCreateAtomic writeTpmBlob)
open Store (Machine TpmMasterBlob isNotFoundError isAlreadyExistsError)

/-- The calls of a process, each with the process that makes it. -/
inductive KeyOp (P Path : Type)
  | file (me : P) (op : FileOp Path)
  | openFile (me : P) (path : Path)
  | readFile (me : P)
  /-- `MasterKey::zeroed_locked`. -/
  | lockKey (me : P)
  | tpmSeal (me : P) (key : Key)
  | tpmUnseal (me : P) (blob : TpmMasterBlob)

def KeyOp.Reply {P Path : Type} : KeyOp P Path → Type
  | file _ op => op.Reply
  | openFile _ _ => Result Bytes
  | readFile _ | lockKey _ => Result Unit
  | tpmSeal _ _ => Result TpmMasterBlob
  | tpmUnseal _ _ => Result Key

abbrev KeyM (P Path α : Type) := Fallible (KeyOp P Path) KeyOp.Reply Error α

section Programs

variable {P Path α : Type}

/-- The calls on files, by a process. -/
def inFiles (me : P) (x : FileM Path α) : KeyM P Path α := ExceptT.mk (x.run.embed (KeyOp.file me) fun _ r => r)

def openFile (me : P) (path : Path) : KeyM P Path Bytes := ExceptT.mk (Program.call (KeyOp.openFile me path))
def readFile (me : P) : KeyM P Path Unit := ExceptT.mk (Program.call (KeyOp.readFile me))
def lockKey (me : P) : KeyM P Path Unit := ExceptT.mk (Program.call (KeyOp.lockKey me))
def tpmSeal (me : P) (key : Key) : KeyM P Path TpmMasterBlob := ExceptT.mk (Program.call (KeyOp.tpmSeal me key))
def tpmUnseal (me : P) (blob : TpmMasterBlob) : KeyM P Path Key :=
  ExceptT.mk (Program.call (KeyOp.tpmUnseal me blob))

/-- `fs::read`. -/
def readAll (me : P) (path : Path) : KeyM P Path Bytes := do
  let bytes ← openFile me path
  readFile me
  return bytes

/-- The checks that each `get` begins with. -/
def validateModes (me : P) (path : Path) : KeyM P Path Unit := inFiles me do
  directory .validateMode
  validateFileMode path

namespace FileStore

def get (me : P) (path : Path) : KeyM P Path Key := do
  validateModes me path
  let content ← mapResult (context "master key not found") (openFile me path)
  lockKey me
  mapResult (context "master key has invalid length") (readFile me)
  liftResult (bailIf (content.length < keyBytes) "master key has invalid length")
  mapResult (context "failed to validate master key length") (readFile me)
  liftResult (Store.FileStore.parseKey content)

/-- What `generate_locked` comes to is given. -/
def createAtomic (me : P) (path : Path) (generated : Result Key) : KeyM P Path Unit :=
  inFiles me (fileStoreCreateAtomic path generated)

def getOrCreate (me : P) (path : Path) (generated : Result Key) : KeyM P Path Key := do
  match ← attempt (get me path) with
  | .ok key => return key
  | .error _ => do
    createAtomic me path generated
    get me path

/-- `import`. -/
def importKey (me : P) (path : Path) (key : Key) (force : Bool) : KeyM P Path Unit :=
  inFiles me (fileStoreImport path key force)

end FileStore

namespace TpmStore

variable (M : Machine)

def getWith (me : P) (path : Path) : KeyM P Path Key := do
  validateModes me path
  let bytes ← mapResult (context "TPM master key not found") (readAll me path)
  let blob ← liftResult (Store.TpmStore.parseBlob M bytes)
  let key ← tpmUnseal me blob
  mapResult (context "failed to lock TPM master key") (lockKey me)
  return key

/-- What `create_noclobber_with` and `create_force_with` share. -/
def createWith (me : P) (path : Path) (key : Key) (force : Bool) : KeyM P Path Unit := do
  inFiles me ensureParent
  let blob ← tpmSeal me key
  inFiles me (writeTpmBlob path (.ok (M.blobJson.encode blob)) force)

def getOrCreateWith (me : P) (path : Path) (generated : Result Key) : KeyM P Path Key := do
  match ← attempt (getWith M me path) with
  | .ok key => return key
  | .error err =>
    if isNotFoundError err then do
      let key ← liftResult generated
      match ← attempt (createWith M me path key false) with
      | .ok _ => return key
      | .error err =>
        if isAlreadyExistsError err then getWith M me path
        else liftResult (context "failed to store master key with TPM" (.error err))
    else liftResult (.error err)

def importWith (me : P) (path : Path) (key : Key) (force : Bool) : KeyM P Path Unit := do
  inFiles me ensureParent
  let existing ← inFiles me (pathExists path)
  liftResult (bailIf (existing = true ∧ force = false) "master key already exists")
  createWith M me path key force

end TpmStore

end Programs

section Wrapping

structure PassphraseMasterBlob where
  scheme : String
  kdf : String
  n : UInt32
  r : UInt32
  p : UInt32
  salt : String
  nonce : String
  wrappedMaster : String
deriving DecidableEq, Repr

def passphraseStoreScheme : String := "machine-key-passphrase-v1"

/-- What the passphrase store takes from other crates. -/
structure Wrapping where
  primitives : Primitives
  scrypt : Scrypt
  blobJson : Codec Error PassphraseMasterBlob Bytes

namespace Wrapping

variable (W : Wrapping)

/-- `wrap_passphrase_master`, given the random bytes it draws. -/
def wrapPassphraseMasterWith (draws : ExportDraws) (masterKey : Key) (passphrase : Bytes) : Result PassphraseMasterBlob := do
  validatePassphrase passphrase
  let kek ← W.scrypt.deriveKekScrypt passphrase draws.salt.toList scryptN scryptR scryptP
  let wrappedMaster ← W.primitives.encryptWithKey kek draws.nonce masterKey.toList []
  return {
    scheme := passphraseStoreScheme
    kdf := "scrypt"
    n := scryptN
    r := scryptR
    p := scryptP
    salt := W.primitives.b64 draws.salt.toList
    nonce := W.primitives.b64 draws.nonce.toList
    wrappedMaster := W.primitives.b64 wrappedMaster }

def unwrapPassphraseMaster (blob : PassphraseMasterBlob) (passphrase : Bytes) : Result Key := do
  validatePassphrase passphrase
  bailIf (blob.scheme ≠ passphraseStoreScheme ∨ blob.kdf ≠ "scrypt") "unrecognized passphrase master key"
  validateScryptParams blob.n blob.r blob.p
  let salt ← W.primitives.unb64 blob.salt "salt"
  let nonce ← W.primitives.decodeNonce blob.nonce "nonce"
  let wrappedMaster ← W.primitives.unb64 blob.wrappedMaster "wrapped_master"
  let kek ← W.scrypt.deriveKekScrypt passphrase salt blob.n blob.r blob.p
  let key ← context "passphrase unlock failed" (W.primitives.decryptWithKey kek nonce wrappedMaster [])
  bailIf (key.length ≠ keyBytes) "unlocked master key has invalid length"
  orError "unlocked master key has invalid length" (toArray? keyBytes key)

/-- The content of a new key file. -/
def wrapped (draws : ExportDraws) (passphrase : Bytes) (masterKey : Key) : Result Bytes := do
  let blob ← W.wrapPassphraseMasterWith draws masterKey passphrase
  return W.blobJson.encode blob

def parseBlob (bytes : Bytes) : Result PassphraseMasterBlob :=
  context "passphrase master key JSON is invalid" (W.blobJson.decode bytes)

end Wrapping

namespace PassphraseFileStore

variable {P Path : Type} (W : Wrapping)

def get (me : P) (path : Path) (passphrase : Bytes) : KeyM P Path Key := do
  liftResult (validatePassphrase passphrase)
  validateModes me path
  let bytes ← mapResult (context "passphrase master key not found") (readAll me path)
  let blob ← liftResult (W.parseBlob bytes)
  let key ← liftResult (W.unwrapPassphraseMaster blob passphrase)
  mapResult (context "failed to lock unlocked master key") (lockKey me)
  return key

def createAtomic (me : P) (path : Path) (passphrase : Bytes) (draws : ExportDraws) (generated : Result Key) :
    KeyM P Path Unit :=
  inFiles me (passphraseFileStoreCreateAtomic path passphrase generated (W.wrapped draws passphrase))

def getOrCreate (me : P) (path : Path) (passphrase : Bytes) (draws : ExportDraws) (generated : Result Key) :
    KeyM P Path Key := do
  match ← attempt (get W me path passphrase) with
  | .ok key => return key
  | .error _ => do
    createAtomic W me path passphrase draws generated
    get W me path passphrase

/-- `import`. -/
def importKey (me : P) (path : Path) (key : Key) (passphrase : Bytes) (draws : ExportDraws) (force : Bool) :
    KeyM P Path Unit :=
  inFiles me (passphraseFileStoreImport path passphrase (W.wrapped draws passphrase key) force)

end PassphraseFileStore
end Wrapping

/-! The world of all processes. -/

structure KeyWorld (P Path : Type) where
  files : Files Path
  /-- Who created a temporary file. -/
  creator : Path → Option P

section World

variable {P Path : Type} [DecidableEq Path]

def KeyWorld.created (s : KeyWorld P Path) (me : P) : (op : FileOp Path) → op.Reply → Path → Option P
  | .tempfileIn _ _,(.ok tmp : Result Path) => Function.update s.creator tmp (some me)
  | _,_ => s.creator

/-- What the calls do. Those on files are as for one writer; the others may fail at any time. -/
inductive KeyStep (M : Machine) (target : Path) : KeyWorld P Path → (op : KeyOp P Path) → op.Reply → KeyWorld P Path → Prop
  | file {s me op r files} : FileStep target s.files op r files →
    KeyStep M target s (.file me op) r ⟨files,s.created me op r⟩
  | openFile {s me path file} : s.files path = some file →
    KeyStep M target s (.openFile me path) (.ok file.content : Result Bytes) s
  | openFileFailed {s me path} (e : Error) : KeyStep M target s (.openFile me path) (.error e : Result Bytes) s
  | readFile {s me} (r : Result Unit) : KeyStep M target s (.readFile me) r s
  | lockKey {s me} (r : Result Unit) : KeyStep M target s (.lockKey me) r s
  | tpmSeal {s me key} (n : ℕ) : KeyStep M target s (.tpmSeal me key) (.ok (M.sealMasterKey n key) : Result TpmMasterBlob) s
  | tpmSealFailed {s me key} (e : Error) : KeyStep M target s (.tpmSeal me key) (.error e : Result TpmMasterBlob) s
  | tpmUnseal {s me blob} : KeyStep M target s (.tpmUnseal me blob) (M.unsealMasterKey blob) s
  | tpmUnsealFailed {s me blob} (e : Error) : KeyStep M target s (.tpmUnseal me blob) (.error e : Result Key) s

end World

/-! The stores, and what many processes may do with one of them. -/

structure KeyFileStore (P Path : Type) where
  getOrCreate : P → Path → Result Key → KeyM P Path Key
  importKey : P → Path → Key → Bool → KeyM P Path Unit
  get : P → Path → KeyM P Path Key
  /-- The first process can read what the second one installs. -/
  opens : P → P → Prop

section Stores

variable (P Path : Type)

def FileStore.store : KeyFileStore P Path where
  getOrCreate := FileStore.getOrCreate
  importKey := FileStore.importKey
  get := FileStore.get
  opens _ _ := True

def TpmStore.store (M : Machine) : KeyFileStore P Path where
  getOrCreate := TpmStore.getOrCreateWith M
  importKey := TpmStore.importWith M
  get := TpmStore.getWith M
  opens _ _ := True

/-- Each process has its passphrase, and draws its own salt and nonce. -/
def PassphraseFileStore.store (W : Wrapping) (passphrase : P → Bytes) (draws : P → ExportDraws) : KeyFileStore P Path where
  getOrCreate me path generated := PassphraseFileStore.getOrCreate W me path (passphrase me) (draws me) generated
  importKey me path key force := PassphraseFileStore.importKey W me path key (passphrase me) (draws me) force
  get me path := PassphraseFileStore.get W me path (passphrase me)
  opens i j := passphrase i = passphrase j

end Stores

/-- What a process is called for. A key that it would generate is given. -/
inductive Request
  | getOrCreate (generated : Result Key)
  | importKey (key : Key)
  | get

/-- The key that the process may install. -/
def Request.key : Request → Result Key
  | getOrCreate generated => generated
  | importKey key => .ok key
  | get => .error []

section Runs

variable {P Path : Type}

/-- The key that is returned, if one is. -/
def Request.program (S : KeyFileStore P Path) (target : Path) (me : P) : Request → KeyM P Path (Option Key)
  | getOrCreate generated => do return some (← S.getOrCreate me target generated)
  | importKey key => do
    S.importKey me target key false
    return none
  | get => do return some (← S.get me target)

abbrev KeyCalls (P Path : Type) := History (KeyOp P Path) KeyOp.Reply
abbrev KeyConfig (P Path : Type) := Config P (KeyOp P Path) KeyOp.Reply (Result (Option Key)) (KeyWorld P Path)
abbrev KeyEvent (P Path : Type) := Foundation.Event P (KeyOp P Path) KeyOp.Reply (KeyWorld P Path)

/-- All processes at their start, among any files. -/
def calling (S : KeyFileStore P Path) (target : Path) (request : P → Request) (files : Files Path) : KeyConfig P Path :=
  .start (fun me => ((request me).program S target me).run) ⟨files,fun _ => none⟩

/-- A key file is installed. -/
inductive Installs (target : Path) : KeyEvent P Path → Prop
  | noclobber {me history tmp before after} :
    Installs target ⟨me,history,.file me (.persistNoclobber tmp target),(.ok () : Result Unit),before,after⟩

variable [DecidableEq P] [DecidableEq Path]

/-- What holds of all processes behind these events. -/
structure OneWinner (S : KeyFileStore P Path) (target : Path) (request : P → Request) (files : Files Path)
    (events : List (KeyEvent P Path)) (d : KeyConfig P Path) : Prop where
  kept : ∀ ev ∈ events, ∀ file, ev.before.files target = some file → ev.after.files target = some file
  /-- There is at most one install, and none over a file. -/
  once : events.Pairwise fun ev ev' => Installs target ev → ¬ Installs target ev'
  existing : files target ≠ none → ∀ ev ∈ events, ¬ Installs target ev
  /-- All keys that are returned are the one of the install. -/
  agree : files target = none → ∀ i key, (d.process i).program = .done (.ok (some key)) →
    ∃ ev ∈ events, Installs target ev ∧ (request ev.process).key = .ok key ∧ S.opens i ev.process
  imports : ∀ i key r, request i = .importKey key → (d.process i).program = .done (.ok r) →
    ∃ ev ∈ events, Installs target ev ∧ ev.process = i

/-- In all runs of any processes, whatever they are called for. -/
def SafeKeyFile (M : Machine) (S : KeyFileStore P Path) : Prop :=
  ∀ (target : Path) (request : P → Request) (files : Files Path) (events : List (KeyEvent P Path)) (d : KeyConfig P Path),
    Run (KeyStep M target) (calling S target request files) events d → OneWinner S target request files events d

end Runs
end Avault.KeyFile
