import Avault.Store.Files

/-! The `auto` store on macOS: an existing file key stays authoritative and is migrated into
Keychain, otherwise Keychain holds the key. A Keychain error never selects another store. -/
namespace Avault.Store
open Foundation Crypto

def errSecNotAvailable : ℤ := -25291
def errSecNoDefaultKeychain : ℤ := -25307
def errSecInteractionNotAllowed : ℤ := -25308
def errSecAuthFailed : ℤ := -25293
def errSecUserCanceled : ℤ := -128

def keychainErrorCode (err : Error) : Option ℤ :=
  err.findSome? fun | .keychain code _ => some code | _ => none

def isKeychainNotFound (err : Error) : Bool := keychainErrorCode err = some errSecItemNotFound

def isKeychainDuplicate (err : Error) : Bool := keychainErrorCode err = some errSecDuplicateItem

def isKeychainUnavailable (err : Error) : Bool :=
  keychainErrorCode err = some errSecNotAvailable ∨
  keychainErrorCode err = some errSecNoDefaultKeychain ∨
  keychainErrorCode err = some errSecInteractionNotAllowed

/-- `is_keychain_denial`. -/
def isKeychainDenial (err : Error) : Bool :=
  keychainErrorCode err = some errSecUserCanceled ∨ keychainErrorCode err = some errSecAuthFailed

/-- `KeychainAuthorizationRequired`, by its text. -/
def keychainAuthorizationRequired : Cause :=
  .message ("macOS Keychain needs a one-time authorization for avault; " ++
    "run `avault key authorize` in a logged-in session")

def backgroundKeychainError (err : Error) : Error :=
  if keychainErrorCode err = some errSecInteractionNotAllowed ∨
      keychainErrorCode err = some errSecAuthFailed then
    keychainAuthorizationRequired::err
  else err

namespace Keychain

/-! `SystemKeychain::Background`: every call to Keychain without user interaction. -/

def call {α : Type} (x : StoreM α) : StoreM α := do
  withContext "failed to disable Keychain user interaction" (act .disableInteraction)
  Program.mapResult (mapError backgroundKeychainError) x

/-- The 32 bytes of the item. -/
def parseKey (bytes : Bytes) : Result Key := orError "master key has invalid length" (toArray? keyBytes bytes)

def read : StoreM Key := call do
  let bytes ← withContext "failed to read master key from Keychain" keychainRead
  liftResult (parseKey bytes)

def add (key : Key) : StoreM Unit := call do
  act .defaultKeychain
  act (.keychainAdd key)

def replace (key : Key) : StoreM Unit := call (act (.keychainReplace key))

end Keychain

namespace MacAuto

/-- `get_or_create_keychain_key`. -/
def getOrCreateKeychainKey : StoreM Key := do
  match ← Program.attempt Keychain.read with
  | .ok key => return key
  | .error err =>
    if isKeychainNotFound err then do
      let key ← generateLocked
      match ← Program.attempt (Keychain.add key) with
      | .ok () => return key
      | .error err =>
        if isKeychainDuplicate err then Keychain.read
        else liftResult (context "failed to create master key in Keychain" (.error err))
    else liftResult (.error err)

/-- `import_keychain_key`. -/
def importKeychainKey (key : Key) (force : Bool) : StoreM Unit := do
  if force then
    withContext "failed to store imported master key in Keychain" (Keychain.replace key)
  else
    match ← Program.attempt (Keychain.add key) with
    | .ok () => return ()
    | .error err =>
      if isKeychainDuplicate err then liftResult (context "master key already exists" (.error err))
      else liftResult (context "failed to store imported master key in Keychain" (.error err))

def keychain : StrongStore where
  name := "Keychain"
  read := Keychain.read
  add := Keychain.add
  isNotFound := isKeychainNotFound
  isExisting := isKeychainDuplicate
  isUnavailable := isKeychainUnavailable

/-- `migrate_file_key_to_keychain`. -/
def migrateFileKeyToKeychain (fileKey : Key) : StoreM Key := migrateFileKey keychain fileKey

/-- Whether `auto_file_store` has a file; without a home there is no file store. -/
def fileExists (home : Bool) : StoreM Bool := do
  if home then pathExists .machineKey else return false

/-- `load_existing_file_master_key`. -/
def loadExistingFileMasterKey (home : Bool) : StoreM (Option Key) := do
  if ← fileExists home then do
    let fileKey ← FileStore.get
    return some fileKey
  else return none

/-- `load_auto_master_key_with`. -/
def loadAutoMasterKeyWith (home create : Bool) : StoreM Key := do
  match ← loadExistingFileMasterKey home with
  | some fileKey => migrateFileKeyToKeychain fileKey
  | none =>
    match ← Program.attempt (if create then getOrCreateKeychainKey else Keychain.read) with
    | .ok key => return key
    | .error err =>
      if isKeychainUnavailable err then
        liftResult (context "Keychain is unavailable and no existing file master key was found"
          (.error err))
      else liftResult (.error err)

/-- `import_auto_master_key`. -/
def importKey (home : Bool) (key : Key) (force : Bool) : StoreM Unit := do
  if ← fileExists home then do
    liftResult (bailIf (force = false) "master key already exists")
    withContext "failed to store imported master key in Keychain" (importKeychainKey key true)
    withContext "failed to store imported master key in file store" (FileStore.importKey key true)
  else
    match ← Program.attempt (importKeychainKey key force) with
    | .ok () => return ()
    | .error err =>
      if isKeychainUnavailable err then
        liftResult (context "Keychain is unavailable; use --store file to import into file storage"
          (.error err))
      else liftResult (.error err)

end MacAuto
end Avault.Store
