import Avault.Crypto.Key
import Avault.Error
import Avault.Foundation.Codec
import Avault.Foundation.Program

/-! The calls the key stores make, and what each does to the machine. Files and directories
are taken to be owner-only, as the code creates them; a mode check that fails is a fault of
its `stat` call. -/
namespace Avault.Store
open Foundation Crypto

/-- The two paths of the `auto` store, side by side in the vault directory. -/
inductive Path
  | machineKey
  | tpmMasterKey
deriving DecidableEq, Repr

structure TpmMasterBlob where
  scheme : String
  hierarchy : String
  publicPart : String
  privatePart : String
deriving DecidableEq, Repr

/-- The calls that only report success. -/
inductive Act
  | statFile (path : Path)
  | statDirectory
  | ensureDirectory
  | readFile
  | createTemp
  | secureTemp
  | writeTemp (bytes : Bytes)
  | syncTemp
  | persist (path : Path) (bytes : Bytes)
  | persistNoclobber (path : Path) (bytes : Bytes)
  | openDirectory
  | syncDirectory
  | disableInteraction
  | defaultKeychain
  | keychainAdd (key : Key)
  | keychainReplace (key : Key)

inductive Call
  | act (a : Act)
  | pathExists (path : Path)
  | openFile (path : Path)
  | drawKey
  | tpmSeal (key : Key)
  | tpmUnseal (blob : TpmMasterBlob)
  | keychainRead

def Call.Reply : Call → Type
  | act _ => Result Unit
  | pathExists _ => Bool
  | openFile _ => Result Bytes
  | drawKey => Key
  | tpmSeal _ => Result TpmMasterBlob
  | tpmUnseal _ => Result Key
  | keychainRead => Result Bytes

/-- The reply of a call that fails with an error. `Path::exists` swallows the error, and
drawing random bytes does not fail. -/
def Call.failure (e : Error) : (c : Call) → Option c.Reply
  | act _ => some (.error e : Result Unit)
  | pathExists _ => some false
  | openFile _ => some (.error e : Result Bytes)
  | drawKey => none
  | tpmSeal _ => some (.error e : Result TpmMasterBlob)
  | tpmUnseal _ => some (.error e : Result Key)
  | keychainRead => some (.error e : Result Bytes)

/-- What the crate takes from `tss_esapi`, `serde_json` and `OsRng`: sealing, of which any
blob unseals to the sealed key, the JSON of a blob, and the sequence of random keys. -/
structure Machine where
  sealMasterKey : ℕ → Key → TpmMasterBlob
  unsealMasterKey : TpmMasterBlob → Result Key
  unseal_seal : ∀ n key, unsealMasterKey (sealMasterKey n key) = .ok key
  blobJson : Codec Error TpmMasterBlob Bytes
  randomKey : ℕ → Key

/-- What survives between two calls. -/
structure World where
  directory : Bool
  file : Option Bytes
  tpmFile : Option Bytes
  keychain : Option Bytes
  draws : ℕ
  seals : ℕ
deriving DecidableEq

namespace World

def content (w : World) : Path → Option Bytes
  | .machineKey => w.file
  | .tpmMasterKey => w.tpmFile

/-- The vault directory exists once it was created, and where it has an entry. -/
def hasDirectory (w : World) : Bool := w.directory || w.file.isSome || w.tpmFile.isSome

def install (w : World) (bytes : Bytes) : Path → World
  | .machineKey => { w with file := some bytes }
  | .tpmMasterKey => { w with tpmFile := some bytes }

end World

def notFound : Error := [.io .notFound "No such file or directory (os error 2)"]
def alreadyExists : Error := [.io .alreadyExists "File exists (os error 17)"]

def errSecDuplicateItem : ℤ := -25299
def errSecItemNotFound : ℤ := -25300

def keychainNotFound : Error :=
  [.keychain errSecItemNotFound "The specified item could not be found in the keychain."]
def keychainDuplicate : Error :=
  [.keychain errSecDuplicateItem "The specified item already exists in the keychain."]

/-- `.ok ()` where the condition holds. -/
def check (condition : Bool) (e : Error) : Result Unit := if condition then .ok () else .error e

def performAct : Act → World → Result Unit × World
  | .statFile path,w => (check (w.content path).isSome notFound,w)
  | .statDirectory,w => (check w.hasDirectory notFound,w)
  | .ensureDirectory,w => (.ok (),{ w with directory := true })
  | .readFile,w => (.ok (),w)
  | .createTemp,w => (check w.hasDirectory notFound,w)
  | .secureTemp,w => (.ok (),w)
  | .writeTemp _,w => (.ok (),w)
  | .syncTemp,w => (.ok (),w)
  | .persist path bytes,w => (.ok (),w.install bytes path)
  | .persistNoclobber path bytes,w =>
    if (w.content path).isSome then (.error alreadyExists,w) else (.ok (),w.install bytes path)
  | .openDirectory,w => (check w.hasDirectory notFound,w)
  | .syncDirectory,w => (.ok (),w)
  | .disableInteraction,w => (.ok (),w)
  | .defaultKeychain,w => (.ok (),w)
  | .keychainAdd key,w =>
    if w.keychain.isSome then (.error keychainDuplicate,w)
    else (.ok (),{ w with keychain := some key.toList })
  | .keychainReplace key,w => (.ok (),{ w with keychain := some key.toList })

/-- The outcome of a call that is not made to fail. -/
def perform (M : Machine) : (c : Call) → World → c.Reply × World
  | .act a,w => performAct a w
  | .pathExists path,w => ((w.content path).isSome,w)
  | .openFile path,w => ((w.content path).elim (.error notFound) .ok,w)
  | .drawKey,w => (M.randomKey w.draws,{ w with draws := w.draws+1 })
  | .tpmSeal key,w => (.ok (M.sealMasterKey w.seals key),{ w with seals := w.seals+1 })
  | .tpmUnseal blob,w => (M.unsealMasterKey blob,w)
  | .keychainRead,w => (w.keychain.elim (.error keychainNotFound) .ok,w)

/-- A call has its outcome, or fails where it is allowed to. -/
def MayFail (M : Machine) (allowed : Call → Error → Prop) (w : World) (c : Call) (r : c.Reply)
    (w' : World) : Prop :=
  perform M c w = (r,w') ∨ w' = w ∧ ∃ e, allowed c e ∧ c.failure e = some r

def Machine.calls (M : Machine) (allowed : Call → Error → Prop) :
    Program.Transformer Call Call.Reply World := .after (MayFail M allowed)

abbrev StoreM (α : Type) := Program.Fallible Call Call.Reply Error α

def act (a : Act) : StoreM Unit := ExceptT.mk (Program.call (Call.act a))

/-- `Path::exists`. -/
def pathExists (path : Path) : StoreM Bool := Program.ask (Call.pathExists path)

def openFile (path : Path) : StoreM Bytes := ExceptT.mk (Program.call (Call.openFile path))

/-- `MasterKey::generate_locked`; the locked page itself is taken to be there. -/
def generateLocked : StoreM Key := Program.ask Call.drawKey

def tpmSeal (key : Key) : StoreM TpmMasterBlob := ExceptT.mk (Program.call (Call.tpmSeal key))

def tpmUnseal (blob : TpmMasterBlob) : StoreM Key :=
  ExceptT.mk (Program.call (Call.tpmUnseal blob))

def keychainRead : StoreM Bytes := ExceptT.mk (Program.call Call.keychainRead)

/-- `context` on a program. -/
def withContext {α : Type} (text : String) (x : StoreM α) : StoreM α :=
  Program.mapResult (context text) x

/-- A pure step of a program. -/
def liftResult {α : Type} (r : Result α) : StoreM α := ExceptT.mk (Program.done r)

end Avault.Store
