import Avault.Cli.ImportField
import Avault.Cli.OneShot
import Avault.Cli.Stdin
import Avault.Crypto.Export

/-! `key export` and `key import`, as the calls they make. -/
namespace Avault.Cli.KeyCommands
open Foundation Crypto
open Foundation.Program (Ensures Exec Fallible ask liftResult mapResult ensures_check ensures_mapResult)
open ImportJson (importBlobFromJson importPassphraseFromJson maxStdinSecretBytes)
open Stdin (SplitRead afterLine line maxStdinPassphraseBytes popCr)

inductive KeyOp
  /-- `read_passphrase_line` on stdin. -/
  | readPassphraseLine
  /-- `read_stdin_zeroizing_from`, on what is left of stdin. -/
  | readStdin
  | loadMasterKey (backend : Backend)
  | loadPassphraseMasterKey (passphrase : Bytes)
  /-- The random bytes of an export. -/
  | drawExport
  /-- The blob as JSON on stdout. -/
  | writeBlob (blob : ExportBlob)
  | printLine (text : String)
  | importMasterKey (backend : Backend) (key : Key) (force : Bool)
  | defaultPassphraseMasterKeyPath
  /-- `PassphraseFileStore::import`. -/
  | passphraseFileImport (path : String) (key : Key) (passphrase : Bytes) (force : Bool)

def KeyOp.Reply : KeyOp → Type
  | readPassphraseLine | readStdin => Result Bytes
  | loadMasterKey _ | loadPassphraseMasterKey _ => Result Key
  | drawExport => ExportDraws
  | writeBlob _ | importMasterKey _ _ _ | passphraseFileImport _ _ _ _ => Result Unit
  | printLine _ => Unit
  | defaultPassphraseMasterKeyPath => Result String

abbrev KeyM (α : Type) := Fallible KeyOp KeyOp.Reply Error α

def readPassphraseLine : KeyM Bytes := ExceptT.mk (Program.call KeyOp.readPassphraseLine)
def readStdin : KeyM Bytes := ExceptT.mk (Program.call KeyOp.readStdin)
def loadMasterKey (backend : Backend) : KeyM Key := ExceptT.mk (Program.call (KeyOp.loadMasterKey backend))
def loadPassphraseMasterKey (passphrase : Bytes) : KeyM Key :=
  ExceptT.mk (Program.call (KeyOp.loadPassphraseMasterKey passphrase))
def drawExport : KeyM ExportDraws := ask KeyOp.drawExport
def writeBlob (blob : ExportBlob) : KeyM Unit := ExceptT.mk (Program.call (KeyOp.writeBlob blob))
def printLine (text : String) : KeyM Unit := ask (KeyOp.printLine text)
def importMasterKey (backend : Backend) (key : Key) (force : Bool) : KeyM Unit :=
  ExceptT.mk (Program.call (KeyOp.importMasterKey backend key force))
def defaultPassphraseMasterKeyPath : KeyM String := ExceptT.mk (Program.call KeyOp.defaultPassphraseMasterKeyPath)
def passphraseFileImport (path : String) (key : Key) (passphrase : Bytes) (force : Bool) : KeyM Unit :=
  ExceptT.mk (Program.call (KeyOp.passphraseFileImport path key passphrase force))

def withContext {α : Type} (text : String) (x : KeyM α) : KeyM α := mapResult (context text) x

def readStoreUnlock : StoreSelection → KeyM StoreUnlock
  | .auto => return .standard .auto
  | .keychain => return .standard .keychain
  | .tpm => return .standard .tpm
  | .file => return .standard .file
  | .filePassphrase => do
    let passphrase ← withContext "failed to read store passphrase from stdin" readPassphraseLine
    return .filePassphrase passphrase

def loadExistingMasterFromUnlock : StoreUnlock → KeyM Key
  | .standard backend => loadMasterKey backend
  | .filePassphrase passphrase =>
    withContext "failed to unlock passphrase master key" (loadPassphraseMasterKey passphrase)

def importMasterWithUnlock (unlock : StoreUnlock) (key : Key) (force : Bool) : KeyM Unit :=
  match unlock with
  | .standard backend => importMasterKey backend key force
  | .filePassphrase passphrase => do
    let path ← defaultPassphraseMasterKeyPath
    withContext "failed to store imported passphrase master key" (passphraseFileImport path key passphrase force)

def parseFlag (args : List String) (flag : String) : Result Bool :=
  args.foldlM (fun _ arg => if arg = flag then .ok true else bail "unknown option for key import") false

def trimTrailingNewlines (buf : Bytes) : Bytes := buf.rdropWhile fun byte => byte = 10 || byte = 13

section Commands

variable (P : Primitives) (S : Scrypt)

def keyExportCmd (config : StoreSelection) : KeyM UInt8 := do
  let unlock ← readStoreUnlock config
  let passphrase ← withContext "failed to read passphrase from stdin" readStdin
  let passphrase := trimTrailingNewlines passphrase
  let master ← loadExistingMasterFromUnlock unlock
  let draws ← drawExport
  let blob ← liftResult (context "key export failed" (P.exportMasterKeyWith S draws master passphrase))
  withContext "failed to write key export JSON" (writeBlob blob)
  printLine ""
  return 0

def keyImportCmd (fromSlice : Bytes → Result ExportBlob) (args : List String) (config : StoreSelection) : KeyM UInt8 := do
  let force ← liftResult (parseFlag args "--force")
  let unlock ← readStoreUnlock config
  let input ← withContext "failed to read key import JSON from stdin" readStdin
  let passphrase ← liftResult (context "key import JSON is invalid" (importPassphraseFromJson input))
  let blob ← liftResult (context "key import JSON is invalid" (importBlobFromJson fromSlice input))
  let passphrase := trimTrailingNewlines passphrase
  let key ← liftResult (context "key import failed" (P.importMasterKey S blob passphrase))
  importMasterWithUnlock unlock key force
  printLine "\x7b\"ok\":true\x7d"
  return 0

end Commands

/-- A key that a store was asked to take. -/
structure Imported where
  unlock : StoreUnlock
  key : Key
  force : Bool
  outcome : Result Unit

structure KeyWorld where
  stdin : Bytes
  /-- What loading the master key returns. -/
  master : Result Key
  passphrasePath : Result String
  stdout : Result Unit
  printed : Option ExportBlob
  imported : List Imported

/-- The readers of stdin may split it as they like, and a store may refuse. -/
inductive KeyStep : KeyWorld → (op : KeyOp) → op.Reply → KeyWorld → Prop
  | readPassphraseLine {w r rest} : Exec SplitRead Stdin.readPassphraseLine.run w.stdin r rest →
    KeyStep w .readPassphraseLine r { w with stdin := rest }
  | readStdin {w r rest} : Exec SplitRead (Stdin.readZeroizingToCap maxStdinSecretBytes).run w.stdin r rest →
    KeyStep w .readStdin r { w with stdin := rest }
  | loadMasterKey {w backend} : KeyStep w (.loadMasterKey backend) w.master w
  | loadPassphraseMasterKey {w passphrase} : KeyStep w (.loadPassphraseMasterKey passphrase) w.master w
  | drawExport {w} (draws : ExportDraws) : KeyStep w .drawExport draws w
  | writeBlob {w blob} : KeyStep w (.writeBlob blob) w.stdout { w with printed := some blob }
  | printLine {w text} : KeyStep w (.printLine text) () w
  | importMasterKey {w backend key force} (outcome : Result Unit) : KeyStep w (.importMasterKey backend key force) outcome
      { w with imported := w.imported ++ [⟨.standard backend,key,force,outcome⟩] }
  | defaultPassphraseMasterKeyPath {w} : KeyStep w .defaultPassphraseMasterKeyPath w.passphrasePath w
  | passphraseFileImport {w path key passphrase force} (outcome : Result Unit) :
    KeyStep w (.passphraseFileImport path key passphrase force) outcome
      { w with imported := w.imported ++ [⟨.filePassphrase passphrase,key,force,outcome⟩] }

/-- The store that is selected, with its passphrase line, and what stdin holds behind that. -/
inductive Unlocked : StoreSelection → KeyWorld → StoreUnlock → Bytes → Prop
  | auto {w} : Unlocked .auto w (.standard .auto) w.stdin
  | keychain {w} : Unlocked .keychain w (.standard .keychain) w.stdin
  | tpm {w} : Unlocked .tpm w (.standard .tpm) w.stdin
  | file {w} : Unlocked .file w (.standard .file) w.stdin
  | filePassphrase {w path} : w.passphrasePath = .ok path → (line w.stdin).length < maxStdinPassphraseBytes →
    popCr (line w.stdin) ≠ [] → Unlocked .filePassphrase w (.filePassphrase (popCr (line w.stdin))) (afterLine w.stdin)

section Spec

variable {w : KeyWorld} {config : StoreSelection} {unlock : StoreUnlock} {payload : Bytes}

theorem readStoreUnlock_ensures (h : Unlocked config w unlock payload) :
    Ensures (.after KeyStep) (readStoreUnlock config) w fun r t => r = .ok unlock ∧ t = { w with stdin := payload } := by
  cases h with
  | auto | keychain | tpm | file => exact ⟨rfl,rfl⟩
  | filePassphrase _ hlength hne =>
    refine Ensures.bind (P := fun r t => r = .ok (popCr (line w.stdin)) ∧ t = { w with stdin := afterLine w.stdin }) ?_ ?_ ?_
    · apply ensures_mapResult.mpr
      rintro _ _ ⟨hexec⟩
      have hline := Stdin.readPassphraseLine_ensures.of_exec hexec
      rw [if_pos ⟨hlength,hne⟩] at hline
      obtain ⟨rfl,rfl⟩ := hline
      exact ⟨rfl,rfl⟩
    · rintro passphrase t ⟨hpassphrase,rfl⟩
      obtain rfl := Except.ok.inj hpassphrase
      exact ⟨rfl,rfl⟩
    · rintro e t ⟨he,-⟩
      exact (error_ne_ok he).elim

theorem readStdin_ensures {text : String} : Ensures (.after KeyStep) (withContext text readStdin) w fun r t =>
    (w.stdin.length ≤ maxStdinSecretBytes ∧ r = .ok w.stdin ∧ t = { w with stdin := [] }) ∨
    (maxStdinSecretBytes < w.stdin.length ∧ (∃ e, r = .error e) ∧ t.imported = w.imported) := by
  apply ensures_mapResult.mpr
  rintro _ _ (_ | hexec)
  have hread := (Stdin.readToCapLoop_ensures [] (Nat.zero_le maxStdinSecretBytes)).of_exec hexec
  simp only [List.length_nil,Nat.zero_add,List.nil_append] at hread
  split at hread
  · next hfits =>
    obtain ⟨rfl,rfl⟩ := hread
    exact .inl ⟨hfits,rfl,rfl⟩
  · next hlong =>
    obtain ⟨e,rfl⟩ := hread
    exact .inr ⟨not_le.mp hlong,⟨_,rfl⟩,rfl⟩

theorem loadExistingMasterFromUnlock_ensures : Ensures (.after KeyStep) (loadExistingMasterFromUnlock unlock) w fun r t =>
    (∀ key, r = .ok key ↔ w.master = .ok key) ∧ t = w := by
  cases unlock with
  | standard backend =>
    rintro _ _ ⟨⟩
    exact ⟨fun _ => Iff.rfl,rfl⟩
  | filePassphrase passphrase =>
    apply ensures_mapResult.mpr
    rintro _ _ ⟨⟩
    exact ⟨fun _ => context_eq_ok,rfl⟩

theorem importMasterWithUnlock_ensures (h : Unlocked config w unlock payload) {v : KeyWorld} (hpath : v.passphrasePath = w.passphrasePath)
    {key : Key} {force : Bool} : Ensures (.after KeyStep) (importMasterWithUnlock unlock key force) v fun r t =>
      ∃ outcome, t.imported = v.imported ++ [⟨unlock,key,force,outcome⟩] ∧ (r = .ok () ↔ outcome = .ok ()) := by
  cases h with
  | auto | keychain | tpm | file =>
    rintro outcome _ ⟨⟩
    exact ⟨outcome,rfl,Iff.rfl⟩
  | filePassphrase hfound _ _ =>
    rintro _ _ ⟨⟩
    rw [hpath,hfound]
    rintro outcome _ ⟨⟩
    exact ⟨outcome,rfl,context_eq_ok⟩

section Import

variable (P : Primitives) (S : Scrypt) (fromSlice : Bytes → Result ExportBlob)

/-- The key that an import finds in its input. -/
def importedKey (input : Bytes) : Result Key := do
  let passphrase ← importPassphraseFromJson input
  let blob ← importBlobFromJson fromSlice input
  P.importMasterKey S blob (trimTrailingNewlines passphrase)

variable {P S fromSlice} {args : List String} {force : Bool}

/-- A key is given to the store as it was found, and without one the store is left alone. -/
theorem keyImportCmd_ensures (hunlocked : Unlocked config w unlock payload) (hargs : parseFlag args "--force" = .ok force) :
    Ensures (.after KeyStep) (keyImportCmd P S fromSlice args config) w fun r t =>
      (∃ key outcome, payload.length ≤ maxStdinSecretBytes ∧ importedKey P S fromSlice payload = .ok key ∧
        t.imported = w.imported ++ [⟨unlock,key,force,outcome⟩] ∧ (r = .ok 0 ↔ outcome = .ok ())) ∨
      ((maxStdinSecretBytes < payload.length ∨ ∃ e, importedKey P S fromSlice payload = .error e) ∧
        (∃ e, r = .error e) ∧ t.imported = w.imported) := by
  refine ensures_check.mpr ⟨fun flag hflag => ?_,fun e he => (error_ne_ok (he.symm.trans hargs)).elim⟩
  obtain rfl := Except.ok.inj (hflag.symm.trans hargs)
  refine (readStoreUnlock_ensures hunlocked).bind ?_ fun e t h => (error_ne_ok h.1).elim
  rintro _ _ ⟨⟨⟩,rfl⟩
  refine readStdin_ensures.bind ?_ ?_
  swap
  · rintro e t (⟨-,he,-⟩ | ⟨hlong,-,ht⟩)
    · exact (error_ne_ok he).elim
    · exact .inr ⟨.inl hlong,⟨e,rfl⟩,ht⟩
  rintro input t (⟨hfits,hinput,rfl⟩ | ⟨-,⟨e,he⟩,-⟩)
  swap
  · exact (error_ne_ok he.symm).elim
  obtain rfl := Except.ok.inj hinput
  have hrefused (e : Error) (he : importedKey P S fromSlice input = .error e) (e' : Error) :
      (∃ key outcome, input.length ≤ maxStdinSecretBytes ∧ importedKey P S fromSlice input = .ok key ∧
        w.imported = w.imported ++ [⟨unlock,key,flag,outcome⟩] ∧ ((.error e' : Result UInt8) = .ok 0 ↔ outcome = .ok ())) ∨
      ((maxStdinSecretBytes < input.length ∨ ∃ e, importedKey P S fromSlice input = .error e) ∧
        (∃ e, (.error e' : Result UInt8) = .error e) ∧ w.imported = w.imported) :=
    .inr ⟨.inr ⟨e,he⟩,⟨e',rfl⟩,rfl⟩
  refine ensures_check.mpr ⟨fun passphrase hpassphrase => ?_,fun e he => ?_⟩
  swap
  · obtain ⟨e₀,he₀⟩ := context_eq_error he
    refine hrefused e₀ ?_ e
    rw [importedKey,he₀]
    rfl
  have hpassphrase := context_eq_ok.mp hpassphrase
  refine ensures_check.mpr ⟨fun blob hblob => ?_,fun e he => ?_⟩
  swap
  · obtain ⟨e₀,he₀⟩ := context_eq_error he
    refine hrefused e₀ ?_ e
    rw [importedKey,hpassphrase,ok_bind,he₀]
    rfl
  have hblob := context_eq_ok.mp hblob
  have himported : importedKey P S fromSlice input = P.importMasterKey S blob (trimTrailingNewlines passphrase) := by
    rw [importedKey,hpassphrase,ok_bind,hblob,ok_bind]
  refine ensures_check.mpr ⟨fun key hkey => ?_,fun e he => ?_⟩
  swap
  · obtain ⟨e₀,he₀⟩ := context_eq_error he
    exact hrefused e₀ (himported.trans he₀) e
  have hkey := himported.trans (context_eq_ok.mp hkey)
  refine (importMasterWithUnlock_ensures (v := { w with stdin := [] }) hunlocked rfl).bind ?_ ?_
  · rintro _ t ⟨outcome,ht,hok⟩ _ _ ⟨⟩
    exact .inl ⟨key,outcome,hfits,hkey,ht,iff_of_true rfl (hok.mp rfl)⟩
  · rintro e t ⟨outcome,ht,hok⟩
    exact .inl ⟨key,outcome,hfits,hkey,ht,iff_of_false (fun h => error_ne_ok h) fun h => error_ne_ok (hok.mpr h)⟩

end Import

end Spec
end Avault.Cli.KeyCommands
