import Avault.Cli.Custody

/-! A key that is exported on one host and imported on another: what was sealed on the one opens on the other. -/
namespace Avault.Cli.Main
open Foundation Crypto
open Store (Machine World)
open ImportJson (importBlobFromJson importPassphraseFromJson)
open KeyCommands (importedKey trimTrailingNewlines)

variable {P Q : Type} [DecidableEq P] [DecidableEq Q] {H H' : Host} {E : CliEnv} {args : P → List OsString}
  {args' : Q → List OsString} {start start' : Store.World} {events : List (HostEvent P)} {events' : List (HostEvent Q)}
  {d : HostConfig P} {d' : HostConfig Q} {unlock : StoreUnlock} {key key' : Key} {passphrase : Bytes} {blob : ExportBlob}
  {name : String}

section Backup

variable (E events)

/-- An event in which a process prints an export, and how it came about. -/
structure ExportedBy (x load : HostEvent P) (key : Key) (passphrase : Bytes) (blob : ExportBlob) : Prop where
  mem : x ∈ events
  writes : x.op = .key (.writeBlob blob)
  load : KeyLoad events x.process load key
  given : ⟨.key .readStdin,(.ok passphrase : Result Bytes)⟩ ∈ x.history
  exported : ∃ draws, E.crypto.exportMasterKeyWith E.scrypt draws key (trimTrailingNewlines passphrase) = .ok blob

/-- The process finds the export and its passphrase on stdin, in whatever JSON. -/
def Restoring (h : Calls) (blob : ExportBlob) (passphrase : Bytes) : Prop :=
  ∀ input, ⟨.key .readStdin,(.ok input : Result Bytes)⟩ ∈ h → importBlobFromJson E.serde.exportBlob input = .ok blob ∧
    ∃ given, importPassphraseFromJson input = .ok given ∧ trimTrailingNewlines given = trimTrailingNewlines passphrase

/-- The event is an import that was done. -/
structure Imports (events : List (HostEvent P)) (m : HostEvent P) (key : Key) : Prop where
  mem : m ∈ events
  access : ∃ force, m.op.access = some (.standard .auto,.importKey key force)
  outcome : m.op.outcome m.reply = .ok none

end Backup

variable (E args events events') in
/-- What an export carries over to another host. -/
structure Backup : Prop where
  /-- Each export that is printed is one of a key from the store, under the passphrase on stdin. -/
  exported : ∀ x ∈ events, ∀ blob, x.op = .key (.writeBlob blob) → ∃ load key passphrase,
    ExportedBy E events x load key passphrase blob
  /-- It is imported as that key. -/
  imported : ∀ {x load key passphrase blob m key'}, ExportedBy E events x load key passphrase blob →
    Imports events' m key' → Restoring E m.history blob passphrase → key' = key
  /-- What was sealed on the one host opens with what is loaded on the other one after the import, until the keys
  are replaced, under its name and to its value. -/
  opens : ∀ {x load key passphrase blob m key'}, ExportedBy E events x load key passphrase blob →
    Imports events' m key' → Restoring E m.history blob passphrase →
    ∀ {w load' key₁ name value envelope}, SealedBy E args events w load' key₁ name value envelope →
      KeptBetween events load load' →
    ∀ {before between after l k o n r}, events' = before ++ m::(between ++ l::after) → (∀ e ∈ between, ¬ Replaces e) →
      o ∈ events' → KeyLoad events' o.process l k → Is o (.cli (.openSealed k n envelope)) r →
      ∀ v, r = .ok v ↔ n = name ∧ v = value

theorem importedKey_exported {input : Bytes} {draws : ExportDraws} (hcrypto : E.crypto.aead.Ideal)
    (hexport : E.crypto.exportMasterKeyWith E.scrypt draws key (trimTrailingNewlines passphrase) = .ok blob)
    (hblob : importBlobFromJson E.serde.exportBlob input = .ok blob) {given : Bytes}
    (hgiven : importPassphraseFromJson input = .ok given) (htrim : trimTrailingNewlines given = trimTrailingNewlines passphrase) :
    importedKey E.crypto E.scrypt E.serde.exportBlob input = .ok key := by
  obtain ⟨x,-,rfl,hpassphrase,rfl⟩ := exportMasterKeyWith_eq_ok.mp hexport
  rw [importedKey,hgiven,ok_bind,hblob,ok_bind,htrim,← hpassphrase]
  exact importMasterKey_blob x fun h => hcrypto.decrypt_eq_some.mpr h

theorem HostRun.importing (hrun : HostRun H E args start events d) {m : HostEvent P} (himports : Imports events m key) :
    Importing E m.history key := by
  have horigin := HostRun.origin hrun m himports.mem
  obtain ⟨force,haccess⟩ := himports.access
  obtain ⟨i,history,op,reply,before,after⟩ := m
  cases op with
  | cli op => cases op <;> cases haccess
  | key op =>
    cases op with
    | importMasterKey backend k f =>
      cases haccess
      exact horigin
    | _ => cases haccess
  | _ => cases haccess

/-- A backup carries over from any host to any other one. -/
theorem host_backup (hcrypto : E.crypto.aead.Ideal) (hrun : HostRun H E args start events d)
    (hrun' : HostRun H' E args' start' events' d') (hstart : ∃ cell, H.Holds start cell)
    (hstart' : ∃ cell, H'.Holds start' cell) : Backup E args events events' := by
  have himported {x load key passphrase blob m key'} (hexported : ExportedBy E events x load key passphrase blob)
      (himports : Imports events' m key') (hrestoring : Restoring E m.history blob passphrase) : key' = key := by
    obtain ⟨draws,hexport⟩ := hexported.exported
    obtain ⟨input,hinput,hkey⟩ := HostRun.importing hrun' himports
    obtain ⟨hblob,given,hgiven,htrim⟩ := hrestoring input hinput
    exact Except.ok.inj (hkey.symm.trans (importedKey_exported hcrypto hexport hblob hgiven htrim))
  refine ⟨?_,himported,?_⟩
  · intro x hx blob hop
    have horigin := HostRun.origin hrun x hx
    rw [hop] at horigin
    obtain ⟨unlock,key,passphrase,hexporting⟩ := horigin
    obtain ⟨load,hload⟩ := HostRun.keyLoad hrun hstart hx hexporting.loaded
    obtain ⟨draws,-,hexported⟩ := hexporting.exported
    exact ⟨load,key,passphrase,hx,hop,hload,hexporting.given,draws,hexported⟩
  · intro x load key passphrase blob m key' hexported himports hrestoring w load' key₁ name value envelope
      hsealed hkept before between after l k o n r hevents hbetween ho hload his v
    obtain rfl := himported hexported himports hrestoring
    obtain rfl := HostRun.loads_agree hrun hstart hkept hexported.load.loads hsealed.load.loads
    obtain ⟨force,haccess⟩ := himports.access
    obtain ⟨cell,hcell⟩ := HostRun.holds_event hrun' hstart' himports.mem
    have hheld := (Run.step hrun' m himports.mem).imports haccess himports.outcome hcell
    obtain rfl := HostRun.loads_kept hrun' hevents hheld hload.loads hbetween
    obtain ⟨rfl,-⟩ := HostRun.opening hrun' hstart' ho his
    obtain ⟨draws,hseal⟩ := hsealed.sealed
    exact (openSealed_sealWith hcrypto hseal).trans (and_iff_right rfl)

section Sample

/-- The rest of `key import`, where there is a key in its input. -/
theorem keyImport_found {C : Primitives} {T : Scrypt} {fromSlice : Bytes → Result ExportBlob} {input : Bytes} {force : Bool}
    (hkey : importedKey C T fromSlice input = .ok key) :
    (do
      let passphrase ← Program.liftResult (context "key import JSON is invalid" (importPassphraseFromJson input))
      let blob ← Program.liftResult (context "key import JSON is invalid" (importBlobFromJson fromSlice input))
      let key ← Program.liftResult (context "key import failed" (C.importMasterKey T blob (trimTrailingNewlines passphrase)))
      KeyCommands.importMasterWithUnlock unlock key force
      KeyCommands.printLine "\x7b\"ok\":true\x7d"
      return 0 : KeyCommands.KeyM UInt8) = (do
      KeyCommands.importMasterWithUnlock unlock key force
      KeyCommands.printLine "\x7b\"ok\":true\x7d"
      return 0) := by
  simp only [importedKey,bind_eq_ok] at hkey
  obtain ⟨passphrase,hpassphrase,blob,hblob,hkey⟩ := hkey
  rw [hpassphrase,context_ok,Program.liftResult_ok_bind,hblob,context_ok,Program.liftResult_ok_bind,hkey]
  rfl

theorem importedKey_sample : importedKey Primitives.concrete KeyCommands.sampleScrypt KeyCommands.sampleFromSlice
    (encode (KeyCommands.sampleImport [])) = .ok KeyCommands.sampleExport.masterKey := by
  have hobject := KeyCommands.sampleImport_object (List.forall_mem_nil _)
  rw [KeyCommands.importedKey_object hobject KeyCommands.sampleImport_fits,context_ok,ok_bind]
  exact importMasterKey_blob KeyCommands.sampleExport Primitives.concrete_ideal.decrypt_eq_some.mpr

noncomputable abbrev heldKey : Key := KeyCommands.sampleExport.masterKey

noncomputable def macHost : Host := ⟨Machine.clear,.mac true⟩

/-- The Keychain of the one host holds the key. -/
noncomputable def keychainWorld : World := { World.empty with keychain := some heldKey.toList }

noncomputable def importedWorld : World := (Program.run (Store.perform Machine.clear)
  (Store.Platform.linux.program Machine.clear (.importKey heldKey false)).run World.empty).2

theorem imports : HostStep linuxHost (sampleEnv heldKey) World.empty (.key (.importMasterKey .auto heldKey false))
    (.ok () : Result Unit) importedWorld :=
  .access rfl (step_run linuxHost (.importKey heldKey false) World.empty)

theorem imports_installed : Store.TpmInstalled Machine.clear heldKey World.empty importedWorld := ⟨⟨0,rfl⟩,rfl,rfl,rfl⟩

/-- The calls of an export up to its output. -/
theorem exports_comes {s : World} (hload : HostStep H (sampleEnv key) s (.key (.loadMasterKey .auto)) (.ok heldKey : Result Key) s) :
    ∃ next, Comes (HostStep H (sampleEnv key)) (main (sampleEnv key) Party.exports.command) s
      (.request (.key (.writeBlob KeyCommands.sampleExport.blob)) next) s := by
  have hstart : Comes (HostStep H (sampleEnv key)) (main (sampleEnv key) Party.exports.command) s
    (main (sampleEnv key) Party.exports.command) s := .refl
  have hexports := hstart.turn rfl (answered .hardenProcessMemory () rfl)
  have hexports := hexports.turn rfl (answered .storeVar EnvVar.notPresent rfl)
  have hexports := hexports.turn rfl (answered (.key .readStdin) (.ok (utf8 "pw")) rfl)
  have hexports := hexports.turn rfl hload
  exact ⟨_,hexports.turn rfl (answered (.key .drawExport) KeyCommands.sampleExport.draws rfl)⟩

/-- One host prints an envelope and the export of its key. -/
theorem exported_run : ∃ events d, PartyRun macHost heldKey keychainWorld events d ∧
    (∃ w ∈ events, w.op = .writeEnvelope (sampleEnvelope heldKey)) ∧
    ∃ x ∈ events, x.op = .key (.writeBlob KeyCommands.sampleExport.blob) := by
  have hfound : HostStep macHost (sampleEnv heldKey) keychainWorld (.loadOrCreateMasterKey .auto) (.ok heldKey : Result Key)
    keychainWorld := .access rfl (step_run macHost .loadOrCreate keychainWorld)
  have hload : HostStep macHost (sampleEnv heldKey) keychainWorld (.key (.loadMasterKey .auto)) (.ok heldKey : Result Key)
    keychainWorld := .access rfl (step_run macHost .load keychainWorld)
  obtain ⟨_,_,hseals,hsteps⟩ := seals_comes hfound
  have hnone : PartyRun macHost heldKey keychainWorld [] _ := .nil
  obtain ⟨_,_,hrun,hs,hi,hothers⟩ := Run.along hnone (i := .seals) rfl rfl hseals hsteps
  obtain ⟨_,hrun,hs,-,hothers'⟩ := Run.turn hrun hi rfl hs (answered (.writeEnvelope _) (.ok ()) rfl)
  have hi := (hothers' .exports (by decide)).trans (hothers .exports (by decide))
  obtain ⟨_,_,hexports,hsteps⟩ := exports_comes hload
  obtain ⟨_,_,hrun,hs,hi,-⟩ := Run.along hrun hi hs hexports hsteps
  obtain ⟨d,hrun,-⟩ := Run.turn hrun hi rfl hs (answered (.key (.writeBlob KeyCommands.sampleExport.blob)) (.ok ()) rfl)
  refine ⟨_,d,hrun,?_,_,List.mem_append_right _ (List.mem_singleton_self _),rfl⟩
  simp only [List.nil_append,List.append_assoc]
  exact ⟨_,List.mem_append_right _ (List.mem_append_left _ (List.mem_singleton_self _)),rfl⟩

/-- The calls of an import up to that of the store, on any host. -/
theorem imports_comes {s : World} {input : Bytes} (hkey : importedKey Primitives.concrete KeyCommands.sampleScrypt
    KeyCommands.sampleFromSlice input = .ok key) : ∃ q next,
    Comes (HostStep H (sampleEnv key')) (main (sampleEnv key') Party.imports.command) s q s ∧
      q = .request (.key (.importMasterKey .auto key false)) next := by
  have hstart : Comes (HostStep H (sampleEnv key')) (main (sampleEnv key') Party.imports.command) s
    (main (sampleEnv key') Party.imports.command) s := .refl
  have himports := hstart.turn rfl (answered .hardenProcessMemory () rfl)
  have himports := himports.turn rfl (answered .storeVar EnvVar.notPresent rfl)
  have himports := himports.turn rfl (answered (.key .readStdin) (.ok input) rfl)
  exact ⟨_,_,himports,congrArg (Program.bind · _) (congrArg inKey (keyImport_found hkey))⟩

/-- Another one, which has none, imports the key and opens the envelope. -/
theorem imported_run : ∃ events d, PartyRun linuxHost heldKey World.empty events d ∧
    (∃ m ∈ events, Is m (.key (.importMasterKey .auto heldKey false)) (.ok () : Result Unit)) ∧
    ∃ o ∈ events, Is o (.cli (.openSealed heldKey "TOKEN" (sampleEnvelope heldKey))) (.ok (utf8 "s3 cret") : Result Bytes) := by
  have hnone : PartyRun linuxHost heldKey World.empty [] _ := .nil
  obtain ⟨_,hpath,hsteps⟩ := @runs_comes linuxHost heldKey World.empty
  obtain ⟨_,_,hrun,hs,hruns,hothers⟩ := Run.along hnone (i := .runs) rfl rfl hpath hsteps
  obtain ⟨_,_,⟨_,himports,hsteps⟩,hcall⟩ := imports_comes importedKey_sample
  obtain ⟨_,_,hrun,hs,hi,hothers'⟩ := Run.along hrun (hothers .imports (by decide)) hs himports hsteps
  obtain ⟨_,hrun,hs,-,hothers''⟩ := Run.turn hrun hi hcall hs imports
  have hruns := ((hothers'' .runs (by decide)).trans (hothers' .runs (by decide))).trans hruns
  obtain ⟨_,hload⟩ := loadsInstalled imports_installed rfl
  obtain ⟨l,o,c,d,hrun,⟨-,ho⟩,-⟩ := PartyRun.delivers hrun hruns (hs ▸ hload)
  refine ⟨_,d,hrun,⟨_,List.mem_append_left _ (List.mem_append_right _ (List.mem_singleton_self _)),rfl⟩,o,?_,ho⟩
  exact List.mem_append_right _ (by simp)

/-- A value is sealed on one host, and it is opened on another one that was given the key. -/
theorem host_backup_sample : ∃ events events' d d', PartyRun macHost heldKey keychainWorld events d ∧
    PartyRun linuxHost heldKey World.empty events' d' ∧
    (∃ w ∈ events, w.op = .writeEnvelope (sampleEnvelope heldKey)) ∧
    (∃ x ∈ events, x.op = .key (.writeBlob KeyCommands.sampleExport.blob)) ∧
    (∃ m ∈ events', Is m (.key (.importMasterKey .auto heldKey false)) (.ok () : Result Unit)) ∧
    (∃ o ∈ events', Is o (.cli (.openSealed heldKey "TOKEN" (sampleEnvelope heldKey))) (.ok (utf8 "s3 cret") : Result Bytes)) ∧
    Backup (sampleEnv heldKey) Party.command events events' := by
  obtain ⟨events,d,hrun,hsealed,hexported⟩ := exported_run
  obtain ⟨events',d',hrun',himported,hopened⟩ := imported_run
  have hholds : macHost.Holds keychainWorld (some heldKey) := ⟨fun _ => rfl,nofun,fun _ => rfl⟩
  exact ⟨events,events',d,d',hrun,hrun',hsealed,hexported,himported,hopened,
    host_backup Primitives.concrete_ideal hrun hrun' ⟨_,hholds⟩ ⟨none,rfl,rfl⟩⟩

end Sample
end Avault.Cli.Main
