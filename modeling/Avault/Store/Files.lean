import Avault.Store.Call
import Mathlib.Data.List.Infix

/-! The plain key file and the TPM blob file: reading, atomic creation and import. -/
namespace Avault.Store
open Foundation Crypto

/-- `is_not_found_error`. -/
def isNotFoundError (err : Error) : Bool :=
  err.any fun | .io .notFound _ => true | _ => false

/-- `is_already_exists_error`. -/
def isAlreadyExistsError (err : Error) : Bool :=
  err.any fun | .io .alreadyExists _ => true | _ => false

def isUnusableTpmError : TssError → Bool
  | .formatOne code => code = .authFail ∨ code = .badAuth ∨ code = .hierarchy
  | .formatZero code =>
    code = .authType ∨ code = .authMissing ∨ code = .authUnavailable ∨ code = .nvAuthorization
  | .tcti code => code = .noConnection ∨ code = .ioError ∨ code = .notPermitted ∨
    code = .notSupported ∨ code = .incompatibleTcti ∨ code = .badTctiStructure
  | .other => false

/-- The texts by which `is_tpm_unavailable` recognises a cause. -/
def tpmUnavailableTexts : List String :=
  ["/dev/tpm","/dev/tpmrm","TCTI","tcti","TPM context","TPM device","TPM not found","No TPM",
    "No such device","No such file or directory","Permission denied","permission denied",
    "Access denied","access denied","Authorization failure","authorization failure",
    "Authorization failed","authorization failed","Authorization handle is not correct",
    "authorization handle is not correct","authValue","Operation not permitted",
    "operation not permitted","Unknown or unusable TCTI"]

/-- `str::contains`. -/
def containsText (text part : String) : Bool := decide (part.toList <:+: text.toList)

def isTpmUnavailable (err : Error) : Bool :=
  err.any fun cause =>
    (match cause with
      | .io .permissionDenied _ => true
      | .tss tssErr _ => isUnusableTpmError tssErr
      | _ => false) ||
    tpmUnavailableTexts.any (containsText cause.text)

def validateFileMode (path : Path) : StoreM Unit :=
  withContext "failed to stat master key" (act (.statFile path))

def validateDirectoryMode : StoreM Unit :=
  withContext "failed to stat master key directory" (act .statDirectory)

/-- `ensure_parent` of both stores; creating the missing directories is one call. -/
def ensureParent : StoreM Unit := do
  act .ensureDirectory
  validateDirectoryMode

/-- `write_synced_temp_secret_file`; the temporary file is known by its content. -/
def writeSyncedTempSecretFile (bytes : Bytes) : StoreM Bytes := do
  withContext "failed to create temporary secret file" (act .createTemp)
  withContext "failed to secure temporary secret file"
    (withContext "failed to secure secret file" (act .secureTemp))
  withContext "failed to write temporary secret file" (act (.writeTemp bytes))
  withContext "failed to sync temporary secret file" (act .syncTemp)
  return bytes

def syncParentDir : StoreM Unit := do
  withContext "failed to open master key directory" (act .openDirectory)
  withContext "failed to sync master key directory" (act .syncDirectory)

namespace FileStore

/-- The three reads of `get`: the key, and nothing behind it. -/
def parseKey (content : Bytes) : Result Key := orError "master key has invalid length" (toArray? keyBytes content)

def get : StoreM Key := do
  validateDirectoryMode
  validateFileMode .machineKey
  let content ← withContext "master key not found" (openFile .machineKey)
  withContext "master key has invalid length" (act .readFile)
  liftResult (bailIf (content.length < keyBytes) "master key has invalid length")
  withContext "failed to validate master key length" (act .readFile)
  liftResult (parseKey content)

def createAtomic : StoreM Unit := do
  ensureParent
  let key ← generateLocked
  let tmp ← writeSyncedTempSecretFile key.toList
  match ← Program.attempt (act (.persistNoclobber .machineKey tmp)) with
  | .ok () => do
    validateFileMode .machineKey
    syncParentDir
  | .error err =>
    if isAlreadyExistsError err then return ()
    else liftResult (context "failed to install new master key" (.error err))

def getOrCreate : StoreM Key := do
  match ← Program.attempt get with
  | .ok key => return key
  | .error _ => do
    createAtomic
    get

/-- `import`. -/
def importKey (key : Key) (force : Bool) : StoreM Unit := do
  ensureParent
  let existing ← pathExists .machineKey
  liftResult (bailIf (existing = true ∧ force = false) "master key already exists")
  let tmp ← writeSyncedTempSecretFile key.toList
  if force then
    withContext "failed to install imported master key" (act (.persist .machineKey tmp))
  else
    withContext "master key already exists" (act (.persistNoclobber .machineKey tmp))
  validateFileMode .machineKey
  syncParentDir

end FileStore

namespace TpmStore

variable (M : Machine)

def parseBlob (bytes : Bytes) : Result TpmMasterBlob :=
  context "TPM master key JSON is invalid" (M.blobJson.decode bytes)

/-- `get_with`. -/
def getWith : StoreM Key := do
  validateDirectoryMode
  validateFileMode .tpmMasterKey
  let bytes ← withContext "TPM master key not found" (openFile .tpmMasterKey)
  withContext "TPM master key not found" (act .readFile)
  let blob ← liftResult (parseBlob M bytes)
  tpmUnseal blob

def writeTpmBlob (blob : TpmMasterBlob) (force : Bool) : StoreM Unit := do
  let tmp ← writeSyncedTempSecretFile (M.blobJson.encode blob)
  if force then
    withContext "failed to install TPM master key" (act (.persist .tpmMasterKey tmp))
  else
    withContext "master key already exists" (act (.persistNoclobber .tpmMasterKey tmp))
  validateFileMode .tpmMasterKey
  syncParentDir

/-- What `create_noclobber_with` and `create_force_with` share. -/
def createWith (key : Key) (force : Bool) : StoreM Unit := do
  ensureParent
  let blob ← tpmSeal key
  writeTpmBlob M blob force

def createNoclobberWith (key : Key) : StoreM Unit := createWith M key false
def createForceWith (key : Key) : StoreM Unit := createWith M key true

/-- `get_or_create_with`. -/
def getOrCreateWith : StoreM Key := do
  match ← Program.attempt (getWith M) with
  | .ok key => return key
  | .error err =>
    if isNotFoundError err then do
      let key ← generateLocked
      match ← Program.attempt (createNoclobberWith M key) with
      | .ok () => return key
      | .error err =>
        if isAlreadyExistsError err then getWith M
        else liftResult (context "failed to store master key with TPM" (.error err))
    else liftResult (.error err)

/-- `import_with`. -/
def importWith (key : Key) (force : Bool) : StoreM Unit := do
  ensureParent
  let existing ← pathExists .tpmMasterKey
  liftResult (bailIf (existing = true ∧ force = false) "master key already exists")
  if force then createForceWith M key else createNoclobberWith M key

end TpmStore

/-- What the `auto` policies need of the store behind the file: TPM or Keychain. -/
structure StrongStore where
  name : String
  read : StoreM Key
  /-- Stores the key, but not over another one. -/
  add : Key → StoreM Unit
  isNotFound : Error → Bool
  isExisting : Error → Bool
  isUnavailable : Error → Bool

/-- The one text of `migrate_file_key_to_tpm_with_backend` and `migrate_file_key_to_keychain`. -/
def migrateFileKey (S : StrongStore) (fileKey : Key) : StoreM Key := do
  match ← Program.attempt S.read with
  | .ok key =>
    if key = fileKey then return key
    else liftResult (bail
      ("file master key differs from " ++ S.name ++ " master key; refusing to choose automatically"))
  | .error err =>
    if S.isNotFound err then do
      match ← Program.attempt (S.add fileKey) with
      | .ok () => return fileKey
      | .error err =>
        if S.isExisting err then do
          let key ← S.read
          if key = fileKey then return key
          else liftResult (bail
            ("file master key differs from concurrently created " ++ S.name ++ " master key"))
        else if S.isUnavailable err then return fileKey
        else liftResult (context ("failed to migrate file master key to " ++ S.name) (.error err))
    else if S.isUnavailable err then return fileKey
    else liftResult (.error err)

end Avault.Store
