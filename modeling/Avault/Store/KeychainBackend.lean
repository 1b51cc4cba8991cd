import Avault.Store.MacAuto

/-! The `auto` policy on macOS over any Keychain: the functions that take a `KeychainBackend`, with
its calls left open. With the calls of `SystemKeychain::Background` they are those of `MacAuto`. -/
namespace Avault.Store
open Foundation Crypto
open Foundation.Program

/-- The calls of the policy: those of the file store, and the two of the backend. -/
inductive AutoCall
  | store (c : Call)
  | read
  | add (key : Key)

def AutoCall.Reply : AutoCall → Type
  | store c => c.Reply
  | read => Result Key
  | add _ => Result Unit

abbrev AutoM (α : Type) := Fallible AutoCall AutoCall.Reply Error α

namespace KeychainBackend

variable {α β : Type}

def inStore : Program Call Call.Reply α → Program AutoCall AutoCall.Reply α
  | .done a => .done a
  | .request c next => .request (.store c) fun r => inStore (next r)

/-- What only concerns the file store and the source of keys. -/
def fromStore (x : StoreM α) : AutoM α := ExceptT.mk (inStore x.run)

def read : AutoM Key := ExceptT.mk (Program.call AutoCall.read)
def add (key : Key) : AutoM Unit := ExceptT.mk (Program.call (AutoCall.add key))

/-- `load_existing_file_master_key`. -/
def loadExistingFileMasterKey (home : Bool) : AutoM (Option Key) := fromStore (MacAuto.loadExistingFileMasterKey home)

/-- `migrate_file_key_to_keychain`. -/
def migrateFileKeyToKeychain (fileKey : Key) : AutoM Key := do
  match ← attempt read with
  | .ok keychainKey =>
    if keychainKey = fileKey then return keychainKey
    else Program.liftResult (bail
      ("file master key differs from " ++ MacAuto.keychain.name ++ " master key; refusing to choose automatically"))
  | .error err =>
    if isKeychainNotFound err then do
      match ← attempt (add fileKey) with
      | .ok _ => return fileKey
      | .error err =>
        if isKeychainDuplicate err then do
          let keychainKey ← read
          if keychainKey = fileKey then return keychainKey
          else Program.liftResult (bail
            ("file master key differs from concurrently created " ++ MacAuto.keychain.name ++ " master key"))
        else if isKeychainUnavailable err then return fileKey
        else Program.liftResult (context ("failed to migrate file master key to " ++ MacAuto.keychain.name) (.error err))
    else if isKeychainUnavailable err then return fileKey
    else Program.liftResult (.error err)

/-- `get_or_create_keychain_key`. -/
def getOrCreateKeychainKey : AutoM Key := do
  match ← attempt read with
  | .ok key => return key
  | .error err =>
    if isKeychainNotFound err then do
      let key ← fromStore generateLocked
      match ← attempt (add key) with
      | .ok _ => return key
      | .error err =>
        if isKeychainDuplicate err then read
        else Program.liftResult (context "failed to create master key in Keychain" (.error err))
    else Program.liftResult (.error err)

/-- `load_auto_master_key_with`. -/
def loadAutoMasterKeyWith (home create : Bool) : AutoM Key := do
  match ← loadExistingFileMasterKey home with
  | some fileKey => migrateFileKeyToKeychain fileKey
  | none =>
    match ← attempt (if create then getOrCreateKeychainKey else read) with
    | .ok key => return key
    | .error err =>
      if isKeychainUnavailable err then
        Program.liftResult (context "Keychain is unavailable and no existing file master key was found" (.error err))
      else Program.liftResult (.error err)

/-! The same policy with the calls of the system. -/

def onSystem : Program AutoCall AutoCall.Reply α → Program Call Call.Reply α
  | .done a => .done a
  | .request (.store c) next => .request c fun r => onSystem (next r)
  | .request .read next => Keychain.read.run >>= fun r => onSystem (next r)
  | .request (.add key) next => (Keychain.add key).run >>= fun r => onSystem (next r)

def background (x : AutoM α) : StoreM α := ExceptT.mk (onSystem x.run)

theorem onSystem_bind (p : Program AutoCall AutoCall.Reply α) (f : α → Program AutoCall AutoCall.Reply β) :
    onSystem (p >>= f) = onSystem p >>= fun a => onSystem (f a) := by
  induction p with
  | done a => rfl
  | request op next ih =>
    cases op with
    | store c => exact congrArg (Program.request c) (funext fun r => ih r)
    | read =>
      simp only [request_bind,onSystem,bind_assoc]
      exact congrArg _ (funext fun r => ih r)
    | add key =>
      simp only [request_bind,onSystem,bind_assoc]
      exact congrArg _ (funext fun r => ih r)

theorem onSystem_inStore (p : Program Call Call.Reply α) : onSystem (inStore p) = p := by
  induction p with
  | done a => rfl
  | request c next ih => exact congrArg (Program.request c) (funext fun r => ih r)

theorem background_bind (x : AutoM α) (f : α → AutoM β) :
    background (x >>= f) = background x >>= fun a => background (f a) := by
  have hrun : (x >>= f).run = x.run >>= ExceptT.bindCont f := rfl
  unfold background
  rw [hrun,onSystem_bind]
  refine congrArg ExceptT.mk (congrArg (onSystem x.run >>= ·) (funext fun r => ?_))
  cases r <;> rfl

theorem background_attempt (x : AutoM α) : background (attempt x) = attempt (background x) := by
  have hrun : (attempt x).run = x.run >>= fun r => done (.ok r) := rfl
  unfold background
  rw [hrun,onSystem_bind]
  rfl

theorem background_fromStore (x : StoreM α) : background (fromStore x) = x := onSystem_inStore x.run

theorem background_read : background read = Keychain.read := bind_pure _
theorem background_add (key : Key) : background (add key) = Keychain.add key := bind_pure _

theorem background_ite {c : Prop} [Decidable c] (x y : AutoM α) :
    background (if c then x else y) = if c then background x else background y := by
  split <;> rfl

theorem migrate_background (fileKey : Key) :
    background (migrateFileKeyToKeychain fileKey) = MacAuto.migrateFileKeyToKeychain fileKey := by
  apply (background_bind _ _).trans
  rw [background_attempt,background_read]
  refine congrArg (attempt Keychain.read >>= ·) (funext fun r => ?_)
  cases r with
  | ok key => exact background_ite _ _
  | error e =>
    refine (background_ite _ _).trans (congrArg₂ (ite _) ?_ (background_ite _ _))
    apply (background_bind _ _).trans
    rw [background_attempt,background_add]
    refine congrArg (attempt (Keychain.add fileKey) >>= ·) (funext fun r => ?_)
    cases r with
    | ok u => rfl
    | error e =>
      refine (background_ite _ _).trans (congrArg₂ (ite _) ?_ (background_ite _ _))
      apply (background_bind _ _).trans
      rw [background_read]
      exact congrArg (Keychain.read >>= ·) (funext fun key => background_ite _ _)

theorem getOrCreate_background : background getOrCreateKeychainKey = MacAuto.getOrCreateKeychainKey := by
  apply (background_bind _ _).trans
  rw [background_attempt,background_read]
  refine congrArg (attempt Keychain.read >>= ·) (funext fun r => ?_)
  cases r with
  | ok key => rfl
  | error e =>
    refine (background_ite _ _).trans (congrArg₂ (ite _) ?_ rfl)
    apply (background_bind _ _).trans
    rw [background_fromStore]
    refine congrArg (generateLocked >>= ·) (funext fun key => ?_)
    apply (background_bind _ _).trans
    rw [background_attempt,background_add]
    refine congrArg (attempt (Keychain.add key) >>= ·) (funext fun r => ?_)
    cases r with
    | ok u => rfl
    | error e => exact (background_ite _ _).trans (congrArg₂ (ite _) background_read rfl)

/-- The policy of the system is this one. -/
theorem loadAutoMasterKeyWith_background (home create : Bool) :
    background (loadAutoMasterKeyWith home create) = MacAuto.loadAutoMasterKeyWith home create := by
  apply (background_bind _ _).trans
  rw [loadExistingFileMasterKey,background_fromStore]
  refine congrArg (MacAuto.loadExistingFileMasterKey home >>= ·) (funext fun found => ?_)
  cases found with
  | some key => exact migrate_background key
  | none =>
    apply (background_bind _ _).trans
    rw [background_attempt,background_ite,getOrCreate_background,background_read]
    refine congrArg (attempt _ >>= ·) (funext fun r => ?_)
    cases r with
    | ok key => rfl
    | error e => exact background_ite _ _

end KeychainBackend
end Avault.Store
