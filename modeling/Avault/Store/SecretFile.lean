import Avault.Crypto.Key
import Avault.Store.Files

/-! The writers of secret files, with the temporary file that each of them fills and installs. -/
namespace Avault.SecretFile
open Foundation Crypto
open Foundation.Program
open Store (isAlreadyExistsError)

structure File where
  content : Bytes
  mode : ℕ
deriving DecidableEq

def File.OwnerOnly (file : File) : Prop := file.mode &&& 0o077 = 0

def secretMode : ℕ := 0o600

inductive DirectoryCall
  | createDirAll
  /-- `ensure_secret_parent_directory`. -/
  | ensureSecret
  | validateMode
  | openParent
  | syncAll

inductive FileOp (Path : Type)
  | parentExists
  | directory (call : DirectoryCall)
  | pathExists (path : Path)
  | tempfileIn (front back : String)
  | setPermissions (path : Path) (mode : ℕ)
  | writeAll (path : Path) (bytes : Bytes)
  | syncAll (path : Path)
  | persist (tmp path : Path)
  | persistNoclobber (tmp path : Path)
  | metadataMode (path : Path)
  | dropTemp (path : Path)

def FileOp.Reply {Path : Type} : FileOp Path → Type
  | parentExists | pathExists _ => Bool
  | directory _ | setPermissions _ _ | writeAll _ _ | syncAll _ | persist _ _ | persistNoclobber _ _ => Result Unit
  | tempfileIn _ _ => Result Path
  | metadataMode _ => Result ℕ
  | dropTemp _ => Unit

abbrev FileM (Path α : Type) := Fallible (FileOp Path) FileOp.Reply Error α

section Writers

variable {Path α : Type}

def parentExists : FileM Path Bool := ask FileOp.parentExists
def directory (call : DirectoryCall) : FileM Path Unit := ExceptT.mk (Program.call (FileOp.directory call))
def pathExists (path : Path) : FileM Path Bool := ask (FileOp.pathExists path)
def tempfileIn (front back : String) : FileM Path Path := ExceptT.mk (Program.call (FileOp.tempfileIn front back))
def setPermissions (path : Path) (mode : ℕ) : FileM Path Unit :=
  ExceptT.mk (Program.call (FileOp.setPermissions path mode))
def writeAll (path : Path) (bytes : Bytes) : FileM Path Unit := ExceptT.mk (Program.call (FileOp.writeAll path bytes))
def syncAll (path : Path) : FileM Path Unit := ExceptT.mk (Program.call (FileOp.syncAll path))
def metadataMode (path : Path) : FileM Path ℕ := ExceptT.mk (Program.call (FileOp.metadataMode path))
def dropTemp (path : Path) : FileM Path Unit := ask (FileOp.dropTemp path)

/-- A `NamedTempFile` is dropped where the code returns an error with it in scope. -/
def droppingTemp (tmp : Path) (x : FileM Path α) : FileM Path α := do
  match ← attempt x with
  | .ok a => return a
  | .error e => do
    dropTemp tmp
    liftResult (.error e)

/-- `NamedTempFile::persist`, whose error holds the file. -/
def persist (tmp path : Path) : FileM Path Unit :=
  droppingTemp tmp (ExceptT.mk (Program.call (FileOp.persist tmp path)))

def persistNoclobber (tmp path : Path) : FileM Path Unit :=
  droppingTemp tmp (ExceptT.mk (Program.call (FileOp.persistNoclobber tmp path)))

def secureCreatedFile (path : Path) : FileM Path Unit :=
  mapResult (context "failed to secure secret file") (setPermissions path secretMode)

def validateFileMode (path : Path) : FileM Path Unit := do
  let mode ← mapResult (context "failed to stat master key") (metadataMode path)
  liftResult (bailIf (mode &&& 0o777 &&& 0o077 ≠ 0) "master key mode is too open")

def syncParentDir : FileM Path Unit := do
  mapResult (context "failed to open master key directory") (directory .openParent)
  mapResult (context "failed to sync master key directory") (directory .syncAll)

/-- `ensure_parent` of the stores. -/
def ensureParent : FileM Path Unit := do
  directory .ensureSecret
  directory .validateMode

def ensureOutputParentDirectory : FileM Path Unit := do
  let existing ← parentExists
  if existing then return ()
  else mapResult (context "failed to create secret output directory") (directory .createDirAll)

def writeSyncedTempSecretFile (front back : String) (bytes : Bytes) : FileM Path Path := do
  let tmp ← mapResult (context "failed to create temporary secret file") (tempfileIn front back)
  droppingTemp tmp do
    mapResult (context "failed to secure temporary secret file") (secureCreatedFile tmp)
    mapResult (context "failed to write temporary secret file") (writeAll tmp bytes)
    mapResult (context "failed to sync temporary secret file") (syncAll tmp)
  return tmp

def atomicWriteSecretFile (path : Path) (bytes : Bytes) : FileM Path Unit := do
  ensureOutputParentDirectory
  let tmp ← writeSyncedTempSecretFile ".avault." ".tmp" bytes
  mapResult (context "failed to install secret file") (persist tmp path)
  validateFileMode path
  syncParentDir

/-- The end of the imports and of `write_tpm_blob`. -/
def installImported (tmp path : Path) (force : Bool) (forceText text : String) : FileM Path Unit := do
  if force then mapResult (context forceText) (persist tmp path)
  else mapResult (context text) (persistNoclobber tmp path)
  validateFileMode path
  syncParentDir

/-- The end of both `create_atomic`. A file that is already there is a success. -/
def installCreated (tmp path : Path) (text : String) : FileM Path Unit := do
  match ← attempt (persistNoclobber tmp path) with
  | .ok _ => do
    validateFileMode path
    syncParentDir
  | .error err => if isAlreadyExistsError err then return () else liftResult (context text (.error err))

def validatePassphrase (passphrase : Bytes) : Result Unit :=
  bailIf (passphrase = []) "a non-empty passphrase is required"

/-- `FileStore::import`. -/
def fileStoreImport (path : Path) (key : Key) (force : Bool) : FileM Path Unit := do
  ensureParent
  let existing ← pathExists path
  liftResult (bailIf (existing = true ∧ force = false) "master key already exists")
  let tmp ← writeSyncedTempSecretFile ".machine." ".tmp" key.toList
  installImported tmp path force "failed to install imported master key" "master key already exists"

/-- `FileStore::create_atomic`, with the outcome of `generate_locked`. -/
def fileStoreCreateAtomic (path : Path) (generated : Result Key) : FileM Path Unit := do
  ensureParent
  let key ← liftResult generated
  let tmp ← writeSyncedTempSecretFile ".machine." ".tmp" key.toList
  installCreated tmp path "failed to install new master key"

/-- `PassphraseFileStore::import`. Wrapping and encoding the key has an outcome that is given. -/
def passphraseFileStoreImport (path : Path) (passphrase : Bytes) (wrapped : Result Bytes) (force : Bool) :
    FileM Path Unit := do
  liftResult (validatePassphrase passphrase)
  ensureParent
  let existing ← pathExists path
  liftResult (bailIf (existing = true ∧ force = false) "passphrase master key already exists")
  let bytes ← liftResult wrapped
  let tmp ← writeSyncedTempSecretFile ".machine-passphrase." ".tmp" bytes
  installImported tmp path force "failed to install passphrase master key" "passphrase master key already exists"

/-- `PassphraseFileStore::create_atomic`. -/
def passphraseFileStoreCreateAtomic (path : Path) (passphrase : Bytes) (generated : Result Key)
    (wrap : Key → Result Bytes) : FileM Path Unit := do
  liftResult (validatePassphrase passphrase)
  ensureParent
  let key ← liftResult generated
  let bytes ← liftResult (wrap key)
  let tmp ← writeSyncedTempSecretFile ".machine-passphrase." ".tmp" bytes
  installCreated tmp path "failed to install passphrase master key"

def writeTpmBlob (path : Path) (encoded : Result Bytes) (force : Bool) : FileM Path Unit := do
  let bytes ← liftResult (context "failed to encode TPM master key" encoded)
  let tmp ← writeSyncedTempSecretFile ".machine-tpm." ".tmp" bytes
  installImported tmp path force "failed to install TPM master key" "master key already exists"

end Writers
end Avault.SecretFile
