import Avault.Store.Files

/-! The `auto` store on Linux: a file key that is there stays authoritative and is migrated to
the TPM, otherwise the TPM holds the key, and the file is the fallback. -/
namespace Avault.Store.LinuxAuto
open Foundation Crypto

variable (M : Machine)

def tpm : StrongStore where
  name := "TPM"
  read := TpmStore.getWith M
  add := TpmStore.createNoclobberWith M
  isNotFound := isNotFoundError
  isExisting := isAlreadyExistsError
  isUnavailable := isTpmUnavailable

/-- `migrate_file_key_to_tpm_with_backend`. -/
def migrateFileKeyToTpm (fileKey : Key) : StoreM Key := migrateFileKey (tpm M) fileKey

/-- `load_or_create_linux_auto_master_key_with_tpm_backend`. -/
def loadOrCreate : StoreM Key := do
  if ← pathExists .machineKey then do
    let fileKey ← FileStore.get
    migrateFileKeyToTpm M fileKey
  else if ← pathExists .tpmMasterKey then
    TpmStore.getWith M
  else
    match ← Program.attempt (TpmStore.getOrCreateWith M) with
    | .ok key => return key
    | .error err =>
      if isTpmUnavailable err then FileStore.getOrCreate
      else liftResult (.error err)

/-- `load_linux_auto_master_key_with_tpm_backend`. -/
def load : StoreM Key := do
  if ← pathExists .machineKey then do
    let fileKey ← FileStore.get
    migrateFileKeyToTpm M fileKey
  else TpmStore.getWith M

/-- `import_linux_auto_master_key_with_tpm_backend`. -/
def importKey (key : Key) (force : Bool) : StoreM Unit := do
  if ← pathExists .machineKey then do
    liftResult (bailIf (force = false) "master key already exists")
    match ← Program.attempt (TpmStore.importWith M key true) with
    | .ok () => pure ()
    | .error err =>
      -- the guard is only evaluated on an unavailable TPM
      if isTpmUnavailable err then do
        if ← pathExists .tpmMasterKey then
          liftResult (context "failed to store imported master key with TPM" (.error err))
      else liftResult (context "failed to store imported master key with TPM" (.error err))
    withContext "failed to store imported master key in file store" (FileStore.importKey key true)
  else
    match ← Program.attempt (TpmStore.importWith M key force) with
    | .ok () => return ()
    | .error err =>
      if isTpmUnavailable err then do
        if ← pathExists .tpmMasterKey then liftResult (.error err)
        else
          withContext "TPM is unavailable; failed to import into file storage"
            (FileStore.importKey key force)
      else liftResult (.error err)

end Avault.Store.LinuxAuto
