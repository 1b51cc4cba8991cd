import Avault.Cli.Main
import Avault.Foundation.Provenance
import Avault.Store.Platform

/-! Where what a process gives out comes from: the key it was answered by a store, and what it read. -/
namespace Avault.Cli.Main
open Foundation Crypto Deliver Fetch
open Agent (OpenedSecret)
open Foundation.Program (Ensures Transformer wp ask call ensures_embed ensures_ite wp_bind)
open KeyCommands (importedKey trimTrailingNewlines)

abbrev Calls := History AvaultOp AvaultOp.Reply

/-- The store operation that a call is, with the selection and its unlock. -/
def AvaultOp.access : AvaultOp → Option (StoreUnlock × Store.Operation)
  | .cli (.loadMasterKey backend) | .key (.loadMasterKey backend) => some (.standard backend,.load)
  | .cli (.loadPassphraseMasterKey passphrase) | .key (.loadPassphraseMasterKey passphrase) =>
    some (.filePassphrase passphrase,.load)
  | .loadOrCreateMasterKey backend => some (.standard backend,.loadOrCreate)
  | .loadOrCreatePassphraseMasterKey passphrase => some (.filePassphrase passphrase,.loadOrCreate)
  | .key (.importMasterKey backend k force) => some (.standard backend,.importKey k force)
  | .key (.passphraseFileImport _ k passphrase force) => some (.filePassphrase passphrase,.importKey k force)
  | _ => none

/-- The reply to a store operation; an import returns no key. -/
def AvaultOp.outcome : (op : AvaultOp) → op.Reply → Result (Option Key)
  | .cli (.loadMasterKey _),r => (show Result Key from r).map some
  | .cli (.loadPassphraseMasterKey _),r => (show Result Key from r).map some
  | .key (.loadMasterKey _),r => (show Result Key from r).map some
  | .key (.loadPassphraseMasterKey _),r => (show Result Key from r).map some
  | .loadOrCreateMasterKey _,r => (show Result Key from r).map some
  | .loadOrCreatePassphraseMasterKey _,r => (show Result Key from r).map some
  | .key (.importMasterKey _ _ _),r => (show Result Unit from r).map fun _ => none
  | .key (.passphraseFileImport _ _ _ _),r => (show Result Unit from r).map fun _ => none
  | _,_ => .ok none

/-- The call was answered with a key of a store. -/
def Loads (op : AvaultOp) (r : op.Reply) (unlock : StoreUnlock) (key : Key) : Prop :=
  (op.access = some (unlock,.load) ∨ op.access = some (unlock,.loadOrCreate)) ∧ op.outcome r = .ok (some key)

/-- The process has the key from a store. -/
def Loaded (h : Calls) (unlock : StoreUnlock) (key : Key) : Prop := ∃ op r, ⟨op,r⟩ ∈ h ∧ Loads op r unlock key

/-- The process has opened an envelope to the plaintext, under the name and with a key from a store. -/
def Opened (h : Calls) (plaintext : Bytes) : Prop := ∃ unlock key name envelope, Loaded h unlock key ∧
  ⟨.cli (.openSealed key name envelope),(.ok plaintext : Result Bytes)⟩ ∈ h

section Origin

variable (E : CliEnv) (args : List OsString)

/-- The process was asked to seal under the name. -/
def SealsUnder (name : String) : Prop := ∃ storeVar config rest options,
  parseGlobalOptions storeVar args = .ok (config,utf8 "seal"::rest) ∧ parseSealOptions rest = .ok options ∧
    options.name = name

/-- The process was given the value to seal: it stood on stdin, or in a blind box there. -/
inductive Given (h : Calls) (key : Key) (name : String) (value : Bytes) : Prop
  | stdin : ⟨.key .readStdin,(.ok value : Result Bytes)⟩ ∈ h → Given h key name value
  | blindBox {input blindBox} : ⟨.cli .readJson,(.ok input : Result Bytes)⟩ ∈ h → E.serde.blindBox input = .ok blindBox →
    (E.hpke.deriveBlindBoxKeypairFromMaster key).openBox E.crypto blindBox (.seal name) = .ok value →
    Given h key name value

/-- How an envelope comes about. -/
structure Sealing (h : Calls) (unlock : StoreUnlock) (key : Key) (name : String) (value : Bytes) (envelope : Sealed) :
    Prop where
  asked : SealsUnder args name
  loaded : Loaded h unlock key
  given : Given E h key name value
  sealed : ∃ draws, ⟨.drawSeal,draws⟩ ∈ h ∧ E.crypto.sealWith draws key name value = .ok envelope

/-- How an export comes about. -/
structure Exporting (h : Calls) (unlock : StoreUnlock) (key : Key) (passphrase : Bytes) (blob : ExportBlob) : Prop where
  loaded : Loaded h unlock key
  given : ⟨.key .readStdin,(.ok passphrase : Result Bytes)⟩ ∈ h
  exported : ∃ draws, ⟨.key .drawExport,draws⟩ ∈ h ∧
    E.crypto.exportMasterKeyWith E.scrypt draws key (trimTrailingNewlines passphrase) = .ok blob

/-- How a key comes to be imported. -/
def Importing (h : Calls) (key : Key) : Prop := ∃ input, ⟨.key .readStdin,(.ok input : Result Bytes)⟩ ∈ h ∧
  importedKey E.crypto E.scrypt E.serde.exportBlob input = .ok key

/-- Where what a call gives out comes from. -/
def Origin (h : Calls) : AvaultOp → Prop
  | .writeEnvelope envelope => ∃ unlock key name value, Sealing E args h unlock key name value envelope
  | .writePubkey output => ∃ unlock key, Loaded h unlock key ∧ output = pubkeyOutput E key
  | .cli (.openSealed key _ _) => ∃ unlock, Loaded h unlock key
  | .cli (.send request) => ∃ fetch plaintext injection isLoopback, Opened h plaintext ∧
    injectSecret E.urls fetch plaintext = .ok injection ∧ request = httpRequest fetch injection isLoopback
  | .signDigest _ key _ => Opened h key.toList
  | .spawnChild child => ∀ entry ∈ child.env, Opened h (utf8 entry.2)
  | .atomicWriteSecretFile _ bytes => ∃ opened format, renderInjectFile E.crypto.json opened format = .ok bytes ∧
    ∀ secret ∈ opened, Opened h secret.plaintext
  | .key (.writeBlob blob) => ∃ unlock key passphrase, Exporting E h unlock key passphrase blob
  | .key (.importMasterKey _ key _) | .key (.passphraseFileImport _ key _ _) => Importing E h key
  | .execChild child => ∃ input, ⟨.helperStdin,input⟩ ∈ h ∧ Agent.agentRunHelperEnv input = .ok child.env
  | _ => True

variable {E args} {s t : Calls} {unlock : StoreUnlock} {key : Key} {name text : String} {config : StoreSelection}
  {α : Type} {B : α → Calls → Prop}

theorem lasts_loaded : Lasts fun h => Loaded h unlock key := by
  rintro s t h ⟨op,r,hmem,hloads⟩
  exact ⟨op,r,h.subset hmem,hloads⟩

theorem lasts_opened {plaintext : Bytes} : Lasts fun h => Opened h plaintext := by
  rintro s t h ⟨unlock,key,name,envelope,hloaded,hmem⟩
  exact ⟨unlock,key,name,envelope,lasts_loaded h hloaded,h.subset hmem⟩

variable (E args)

abbrev calls : Transformer AvaultOp AvaultOp.Reply Calls := .guarded (Origin E args)
abbrev cliCalls : Transformer CliOp CliOp.Reply Calls := (calls E args).comap AvaultOp.cli fun _ r => r
abbrev keyCalls : Transformer KeyCommands.KeyOp KeyCommands.KeyOp.Reply Calls := (calls E args).comap AvaultOp.key fun _ r => r

variable {E args}

theorem loads_some {op : AvaultOp} {r : op.Reply} (haccess : op.access = some (unlock,.load) ∨ op.access = some (unlock,.loadOrCreate))
    (houtcome : op.outcome r = .ok (some key)) {h : Calls} : Loaded (⟨op,r⟩::h) unlock key :=
  ⟨op,r,List.mem_cons_self,haccess,houtcome⟩

theorem context_mono (r : Result α) (a : α) (h : context text r = .ok a) : r = .ok a := context_eq_ok.mp h

/-! The parts that the one-shot deliveries are made of. -/

theorem readStoreUnlock_grows : Ensures (cliCalls E args) (readStoreUnlock config) s (Grows s fun _ _ => True) := by
  cases config with
  | auto | keychain | tpm | file => exact grows_ok trivial
  | filePassphrase =>
    apply grows_bind (B := fun _ _ => True)
    · apply grows_mapResult context_mono
      exact ⟨trivial,fun r => grows_reply fun _ _ => trivial⟩
    · exact fun _ _ _ _ => grows_pure trivial

theorem loadExistingMasterFromUnlock_grows :
    Ensures (cliCalls E args) (loadExistingMasterFromUnlock unlock) s (Grows s fun key t => Loaded t unlock key) := by
  cases unlock with
  | standard backend =>
    refine ⟨trivial,fun r => grows_reply fun key hkey => loads_some (.inl rfl) ?_⟩
    exact congrArg (Except.map some) hkey
  | filePassphrase passphrase =>
    apply grows_mapResult context_mono
    refine ⟨trivial,fun r => grows_reply fun key hkey => loads_some (.inl rfl) ?_⟩
    exact congrArg (Except.map some) hkey

theorem openSealed_grows {envelope : Sealed} (hloaded : Loaded s unlock key) :
    Ensures (cliCalls E args) (openSealed key name envelope) s (Grows s fun plaintext t => Opened t plaintext) := by
  refine ⟨⟨unlock,hloaded⟩,fun r => grows_reply fun plaintext hplaintext => ?_⟩
  cases hplaintext
  exact ⟨unlock,key,name,envelope,lasts_loaded (List.suffix_cons _ _) hloaded,List.mem_cons_self⟩

theorem openOneShotSecret_grows {envelope : Sealed} {dekBlindbox : Option BlindBox} {approval : Option JsonValue}
    {loadedMaster : Option Key} (hloaded : ∀ key, loadedMaster = some key → Loaded s unlock key) :
    Ensures (cliCalls E args) (openOneShotSecret name envelope dekBlindbox approval unlock loadedMaster) s
      (Grows s fun plaintext t => Opened t plaintext) := by
  apply grows_check
  intro _ _
  cases loadedMaster with
  | some key =>
    apply grows_mapResult context_mono
    exact openSealed_grows (hloaded key rfl)
  | none =>
    apply grows_bind loadExistingMasterFromUnlock_grows
    intro key t _ hkey
    apply grows_mapResult context_mono
    exact openSealed_grows hkey

/-- The secrets were opened by the process. -/
def AllOpened (opened : List OpenedSecret) (h : Calls) : Prop := ∀ secret ∈ opened, Opened h secret.plaintext

theorem openTarget_grows {target label duplicate : String} {tier : SecretTier} {envelope : Sealed}
    {dekBlindbox : Option BlindBox} {approval : Option JsonValue} {opened : List OpenedSecret}
    (hloaded : Loaded s unlock key) (hopened : AllOpened opened s) :
    Ensures (cliCalls E args)
      (openTarget target label duplicate name tier envelope dekBlindbox approval unlock key opened) s (Grows s AllOpened) := by
  apply grows_check
  intro _ _
  apply grows_check
  intro _ _
  apply grows_check
  intro _ _
  apply grows_bind
  · apply grows_mapResult context_mono
    apply openOneShotSecret_grows
    intro _ h
    cases h
    exact hloaded
  · intro plaintext t ht hplaintext
    apply grows_pure
    intro secret hsecret
    obtain hsecret | hsecret := List.mem_append.mp hsecret
    · exact lasts_opened ht (hopened secret hsecret)
    · obtain rfl := List.mem_singleton.mp hsecret
      exact hplaintext

/-- Both loops over secrets. -/
theorem openTargets_grows {ι : Type} {secrets : List ι} {f : ι → Key → List OpenedSecret → CliM (List OpenedSecret)}
    (hf : ∀ i key opened s, Loaded s unlock key → AllOpened opened s →
      Ensures (cliCalls E args) (f i key opened) s (Grows s AllOpened)) :
    Ensures (cliCalls E args) (do
      let master ← loadExistingMasterFromUnlock unlock
      secrets.foldlM (fun opened i => f i master opened) []) s (Grows s AllOpened) := by
  apply grows_bind loadExistingMasterFromUnlock_grows
  intro master t _ hmaster
  have hloop : Ensures (cliCalls E args) (secrets.foldlM (fun opened i => f i master opened) []) t
      (Grows t fun opened u => Loaded u unlock master ∧ AllOpened opened u) := by
    apply grows_foldlM
    · exact ⟨hmaster,fun _ h => absurd h List.not_mem_nil⟩
    · intro i _ opened u h
      refine (hf i master opened u h.1 h.2).mono fun r v hv => ?_
      exact hv.weaken fun _ hopened => ⟨lasts_loaded hv.known h.1,hopened⟩
  exact hloop.mono fun r u hu => hu.weaken fun _ h => h.2

theorem openEnvSecrets_grows {secrets : List EnvSecretInput} :
    Ensures (cliCalls E args) (openEnvSecrets secrets unlock) s (Grows s AllOpened) :=
  openTargets_grows fun _ _ _ _ hloaded hopened => openTarget_grows hloaded hopened

theorem openNamedSecrets_grows {secrets : List NamedSecretInput} :
    Ensures (cliCalls E args) (openNamedSecrets secrets unlock) s (Grows s AllOpened) :=
  openTargets_grows fun _ _ _ _ hloaded hopened => openTarget_grows hloaded hopened

theorem deliverFetchCmd_grows {rest : List String} :
    Ensures (cliCalls E args) (deliverFetchCmd E.urls E.serde.fetchInput rest config) s (Grows s fun _ _ => True) := by
  apply grows_check
  intro _ _
  apply grows_bind readStoreUnlock_grows
  intro unlock t _ _
  apply grows_bind (B := fun _ _ => True)
  · apply grows_mapResult context_mono
    exact ⟨trivial,fun r => grows_reply fun _ _ => trivial⟩
  intro input t _ _
  apply grows_check
  intro fetch _
  apply grows_check
  intro _ _
  apply grows_check
  rintro ⟨_,isLoopback⟩ _
  apply grows_bind (B := fun plaintext t => Opened t plaintext)
  · apply grows_mapResult context_mono
    apply openOneShotSecret_grows
    intro _ h
    cases h
  intro secret t _ hsecret
  apply grows_bind (B := fun _ _ => True)
  · apply grows_mapResult context_mono
    apply grows_check
    intro injection hinjection
    apply grows_mapResult context_mono
    apply grows_bind (B := fun _ _ => True)
    · exact ⟨⟨fetch.request,secret,injection,isLoopback,hsecret,hinjection,rfl⟩,fun r => grows_reply fun _ _ => trivial⟩
    · intro response u _ _
      exact grows_liftResult fun _ _ => trivial
  intro output t _ _
  apply grows_bind (B := fun _ _ => True)
  · apply grows_mapResult context_mono
    exact ⟨trivial,fun r => grows_reply fun _ _ => trivial⟩
  · intro _ t _ _
    exact grows_pure trivial

/-! `key export` and `key import`. -/

theorem readStoreUnlock_keyGrows : Ensures (keyCalls E args) (KeyCommands.readStoreUnlock config) s (Grows s fun _ _ => True) := by
  cases config with
  | auto | keychain | tpm | file => exact grows_ok trivial
  | filePassphrase =>
    apply grows_bind (B := fun _ _ => True)
    · apply grows_mapResult context_mono
      exact ⟨trivial,fun r => grows_reply fun _ _ => trivial⟩
    · exact fun _ _ _ _ => grows_pure trivial

theorem readStdin_keyGrows : Ensures (keyCalls E args) (KeyCommands.withContext text KeyCommands.readStdin) s
    (Grows s fun input t => ⟨.key .readStdin,(.ok input : Result Bytes)⟩ ∈ t) := by
  apply grows_mapResult context_mono
  refine ⟨trivial,fun r => grows_reply fun input hinput => ?_⟩
  cases hinput
  exact List.mem_cons_self

theorem loadExistingMasterFromUnlock_keyGrows : Ensures (keyCalls E args) (KeyCommands.loadExistingMasterFromUnlock unlock) s
    (Grows s fun key t => Loaded t unlock key) := by
  cases unlock with
  | standard backend =>
    refine ⟨trivial,fun r => grows_reply fun key hkey => loads_some (.inl rfl) ?_⟩
    exact congrArg (Except.map some) hkey
  | filePassphrase passphrase =>
    apply grows_mapResult context_mono
    refine ⟨trivial,fun r => grows_reply fun key hkey => loads_some (.inl rfl) ?_⟩
    exact congrArg (Except.map some) hkey

theorem keyExportCmd_grows : Ensures (keyCalls E args) (KeyCommands.keyExportCmd E.crypto E.scrypt config) s
    (Grows s fun _ _ => True) := by
  apply grows_bind readStoreUnlock_keyGrows
  intro unlock t _ _
  apply grows_bind readStdin_keyGrows
  intro passphrase t _ hpassphrase
  apply grows_bind loadExistingMasterFromUnlock_keyGrows
  intro master u hu hmaster
  apply grows_bind (B := fun draws v => ⟨.key .drawExport,draws⟩ ∈ v)
  · exact ⟨trivial,fun draws => ⟨List.suffix_cons _ _,fun _ h => by cases h; exact List.mem_cons_self⟩⟩
  intro draws v hv hdraws
  apply grows_check
  intro blob hblob
  have hexporting : Exporting E v unlock master passphrase blob :=
    ⟨lasts_loaded hv hmaster,hv.subset (hu.subset hpassphrase),draws,hdraws,context_eq_ok.mp hblob⟩
  apply grows_bind (B := fun _ _ => True)
  · apply grows_mapResult context_mono
    exact ⟨⟨unlock,master,passphrase,hexporting⟩,fun r => grows_reply fun _ _ => trivial⟩
  intro _ w _ _
  apply grows_bind (B := fun _ _ => True)
  · exact ⟨trivial,fun r => ⟨List.suffix_cons _ _,fun _ _ => trivial⟩⟩
  · intro _ w _ _
    exact grows_pure trivial

theorem importMasterWithUnlock_grows {force : Bool} (hkey : Importing E s key) :
    Ensures (keyCalls E args) (KeyCommands.importMasterWithUnlock unlock key force) s (Grows s fun _ _ => True) := by
  cases unlock with
  | standard backend => exact ⟨hkey,fun r => grows_reply fun _ _ => trivial⟩
  | filePassphrase passphrase =>
    apply grows_bind (B := fun _ _ => True)
    · exact ⟨trivial,fun r => grows_reply fun _ _ => trivial⟩
    intro path t ht _
    apply grows_mapResult context_mono
    obtain ⟨input,hinput,himported⟩ := hkey
    exact ⟨⟨input,ht.subset hinput,himported⟩,fun r => grows_reply fun _ _ => trivial⟩

theorem keyImportCmd_grows {rest : List String} : Ensures (keyCalls E args)
    (KeyCommands.keyImportCmd E.crypto E.scrypt E.serde.exportBlob rest config) s (Grows s fun _ _ => True) := by
  apply grows_check
  intro force _
  apply grows_bind readStoreUnlock_keyGrows
  intro unlock t _ _
  apply grows_bind readStdin_keyGrows
  intro input t _ hinput
  apply grows_check
  intro passphrase hpassphrase
  apply grows_check
  intro blob hblob
  apply grows_check
  intro key hkey
  have himporting : Importing E t key := by
    refine ⟨input,hinput,?_⟩
    rw [importedKey,context_eq_ok.mp hpassphrase,ok_bind,context_eq_ok.mp hblob]
    exact context_eq_ok.mp hkey
  apply grows_bind (importMasterWithUnlock_grows himporting)
  intro _ u _ _
  apply grows_bind (B := fun _ _ => True)
  · exact ⟨trivial,fun r => ⟨List.suffix_cons _ _,fun _ _ => trivial⟩⟩
  · intro _ w _ _
    exact grows_pure trivial

/-! The commands. -/

theorem inCli_grows {x : CliM α} (hx : Ensures (cliCalls E args) x s (Grows s B)) : Ensures (calls E args) (inCli x) s (Grows s B) :=
  ensures_embed.mpr hx

theorem inKey_grows {x : KeyCommands.KeyM α} (hx : Ensures (keyCalls E args) x s (Grows s B)) :
    Ensures (calls E args) (inKey x) s (Grows s B) := ensures_embed.mpr hx

theorem printLine_grows : Ensures (calls E args) (printLine text) s (Grows s fun _ _ => True) :=
  ⟨trivial,fun _ => ⟨List.suffix_cons _ _,fun _ _ => trivial⟩⟩

/-- The last steps of a command that has written its output. -/
theorem printed_grows {code : UInt8} :
    Ensures (calls E args) (do printLine text; return code) s (Grows s fun _ _ => True) :=
  grows_bind printLine_grows fun _ _ _ _ => grows_pure trivial

theorem loadOrCreateMasterFromUnlock_grows :
    Ensures (calls E args) (loadOrCreateMasterFromUnlock unlock) s (Grows s fun key t => Loaded t unlock key) := by
  cases unlock with
  | standard backend =>
    refine ⟨trivial,fun r => grows_reply fun key hkey => loads_some (.inr rfl) ?_⟩
    exact congrArg (Except.map some) hkey
  | filePassphrase passphrase =>
    apply grows_mapResult context_mono
    refine ⟨trivial,fun r => grows_reply fun key hkey => loads_some (.inr rfl) ?_⟩
    exact congrArg (Except.map some) hkey

theorem readJsonInput_grows : Ensures (calls E args) (readJsonInput text) s
    (Grows s fun input t => ⟨.cli .readJson,(.ok input : Result Bytes)⟩ ∈ t) := by
  apply inCli_grows
  apply grows_mapResult context_mono
  refine ⟨trivial,fun r => grows_reply fun input hinput => ?_⟩
  cases hinput
  exact List.mem_cons_self

theorem sealMaster_grows {value : Bytes} (hname : SealsUnder args name) (hloaded : Loaded s unlock key)
    (hgiven : Given E s key name value) : Ensures (calls E args) (sealMaster E key name value) s
      (Grows s fun envelope t => Sealing E args t unlock key name value envelope) := by
  apply grows_bind (grows_ask trivial)
  intro draws t ht hdraws
  apply grows_liftResult
  intro envelope henvelope
  refine ⟨hname,lasts_loaded ht hloaded,?_,draws,hdraws,context_eq_ok.mp henvelope⟩
  cases hgiven with
  | stdin h => exact .stdin (ht.subset h)
  | blindBox h hbox hopen => exact .blindBox (ht.subset h) hbox hopen

theorem sealCmd_grows {storeVar : EnvVar} {rest : List OsString}
    (hargs : parseGlobalOptions storeVar args = .ok (config,utf8 "seal"::rest)) :
    Ensures (calls E args) (sealCmd E rest config) s (Grows s fun _ _ => True) := by
  apply grows_check
  intro options hoptions
  have hname : SealsUnder args options.name := ⟨storeVar,config,rest,options,hargs,hoptions,rfl⟩
  apply grows_bind (inCli_grows readStoreUnlock_grows)
  intro unlock t _ _
  apply grows_bind (B := fun envelope t => ∃ unlock key name value, Sealing E args t unlock key name value envelope)
  · apply ensures_ite.mpr
    constructor
    · intro _
      apply grows_bind readJsonInput_grows
      intro input u _ hinput
      apply grows_check
      intro blindBox hblindBox
      apply grows_bind (inCli_grows loadExistingMasterFromUnlock_grows)
      intro master v hv hmaster
      apply grows_check
      intro value hvalue
      have hgiven : Given E v master options.name value :=
        .blindBox (hv.subset hinput) (context_eq_ok.mp hblindBox) (context_eq_ok.mp hvalue)
      refine (sealMaster_grows hname hmaster hgiven).mono fun r w hw => ?_
      exact hw.weaken fun _ h => ⟨unlock,master,options.name,value,h⟩
    · intro _
      apply grows_bind (inKey_grows readStdin_keyGrows)
      intro value u _ hvalue
      apply grows_bind loadOrCreateMasterFromUnlock_grows
      intro master v hv hmaster
      refine (sealMaster_grows hname hmaster (.stdin (hv.subset hvalue))).mono fun r w hw => ?_
      exact hw.weaken fun _ h => ⟨unlock,master,options.name,value,h⟩
  intro envelope u _ hsealing
  apply grows_bind (B := fun _ _ => True)
  · apply grows_mapResult context_mono
    exact ⟨hsealing,fun r => grows_reply fun _ _ => trivial⟩
  · exact fun _ _ _ _ => printed_grows

theorem pubkeyCmd_grows {rest : List OsString} : Ensures (calls E args) (pubkeyCmd E rest config) s (Grows s fun _ _ => True) := by
  apply grows_check
  intro _ _
  apply grows_bind (inCli_grows readStoreUnlock_grows)
  intro unlock t _ _
  apply grows_bind loadOrCreateMasterFromUnlock_grows
  intro master u _ hmaster
  apply grows_bind (B := fun _ _ => True)
  · apply grows_mapResult context_mono
    exact ⟨⟨unlock,master,hmaster,rfl⟩,fun r => grows_reply fun _ _ => trivial⟩
  · exact fun _ _ _ _ => printed_grows

theorem signCmd_grows {rest : List OsString} : Ensures (calls E args) (signCmd E rest config) s (Grows s fun _ _ => True) := by
  apply grows_check
  intro _ _
  apply grows_bind (inCli_grows readStoreUnlock_grows)
  intro unlock t _ _
  apply grows_bind readJsonInput_grows
  intro input t _ _
  apply grows_check
  intro request _
  apply grows_check
  intro digest _
  apply grows_check
  intro scheme _
  apply grows_check
  intro _ _
  apply grows_bind (inCli_grows loadExistingMasterFromUnlock_grows)
  intro master u _ hmaster
  apply grows_bind (B := fun plaintext t => Opened t plaintext)
  · apply inCli_grows
    apply grows_mapResult context_mono
    exact openSealed_grows hmaster
  intro keyPlaintext v _ hopened
  apply grows_bind (B := fun _ _ => True)
  · apply grows_check
    intro privateKey hprivateKey
    obtain rfl := toArray?_eq_some.mp (orError_eq_ok.mp hprivateKey)
    apply grows_bind (B := fun _ _ => True)
    · apply grows_mapResult context_mono
      exact ⟨hopened,fun r => grows_reply fun _ _ => trivial⟩
    · exact fun _ _ _ _ => grows_pure trivial
  intro output w _ _
  apply grows_bind (B := fun _ _ => True)
  · apply grows_mapResult context_mono
    exact ⟨trivial,fun r => grows_reply fun _ _ => trivial⟩
  · exact fun _ _ _ _ => printed_grows

/-- The environment of a child has the values of the opened secrets, and no others. -/
theorem envEntry_mem {opened : List OpenedSecret} {env : List (String × String)} (henv : opened.mapM envEntry = .ok env) :
    ∀ entry ∈ env, ∃ secret ∈ opened, secret.name = entry.1 ∧ secret.plaintext = utf8 entry.2 := by
  induction opened generalizing env with
  | nil =>
    obtain rfl := Except.ok.inj henv
    exact fun _ h => absurd h List.not_mem_nil
  | cons secret opened ih =>
    rw [List.mapM_cons,bind_eq_ok] at henv
    obtain ⟨first,hfirst,henv⟩ := henv
    rw [bind_eq_ok] at henv
    obtain ⟨rest,hrest,henv⟩ := henv
    obtain rfl := Except.ok.inj henv
    simp only [envEntry,bind_eq_ok,context_eq_ok,orError_eq_ok] at hfirst
    obtain ⟨_,_,value,hvalue,hfirst⟩ := hfirst
    obtain rfl := Except.ok.inj hfirst
    intro entry hentry
    obtain rfl | hentry := List.mem_cons.mp hentry
    · exact ⟨secret,List.mem_cons_self,rfl,fromUtf8_eq_some.mp hvalue⟩
    · obtain ⟨found,hfound,heq⟩ := ih hrest entry hentry
      exact ⟨found,List.mem_cons_of_mem _ hfound,heq⟩

theorem runChildWithOpenedEnv_grows {program : OsString} {rest : List OsString} {opened : List OpenedSecret} {envelopeStdin : Bool}
    (hopened : AllOpened opened s) :
    Ensures (calls E args) (runChildWithOpenedEnv program rest opened envelopeStdin) s (Grows s fun _ _ => True) := by
  apply grows_bind (B := fun _ _ => True)
  · apply grows_check
    intro env henv
    apply grows_mapResult context_mono
    refine ⟨fun entry hentry => ?_,fun r => grows_reply fun _ _ => trivial⟩
    obtain ⟨secret,hsecret,-,hvalue⟩ := envEntry_mem henv entry hentry
    exact hvalue ▸ hopened secret hsecret
  intro _ t _ _
  apply grows_bind (B := fun _ _ => True)
  · apply grows_mapResult context_mono
    exact ⟨trivial,fun r => grows_reply fun _ _ => trivial⟩
  · exact fun _ _ _ _ => grows_pure trivial

theorem deliverRunCmd_grows {rest : List OsString} : Ensures (calls E args) (deliverRunCmd E rest config) s (Grows s fun _ _ => True) := by
  apply grows_check
  intro split _
  cases hcommand : rest.drop (split+1) with
  | nil => exact grows_liftResult fun _ _ => trivial
  | cons program childArgs =>
    apply grows_bind (inCli_grows readStoreUnlock_grows)
    intro unlock t _ _
    apply ensures_ite.mpr
    constructor
    · intro _
      apply grows_bind readJsonInput_grows
      intro input u _ _
      apply grows_check
      intro secrets _
      apply grows_check
      intro _ _
      apply grows_bind (inCli_grows openEnvSecrets_grows)
      exact fun _ _ _ hopened => runChildWithOpenedEnv_grows hopened
    · intro _
      apply grows_check
      intro options _
      apply grows_bind (B := fun _ _ => True)
      · cases options.envelopeFile with
        | some path =>
          apply grows_mapResult context_mono
          exact ⟨trivial,fun r => grows_reply fun _ _ => trivial⟩
        | none => exact readJsonInput_grows.mono fun _ _ h => h.weaken fun _ _ => trivial
      intro input u _ _
      apply grows_check
      intro envelope _
      apply grows_bind (inCli_grows openEnvSecrets_grows)
      exact fun _ _ _ hopened => runChildWithOpenedEnv_grows hopened

theorem deliverInjectCmd_grows {rest : List OsString} :
    Ensures (calls E args) (deliverInjectCmd E rest config) s (Grows s fun _ _ => True) := by
  apply grows_check
  intro _ _
  apply grows_bind (inCli_grows readStoreUnlock_grows)
  intro unlock t _ _
  apply grows_bind readJsonInput_grows
  intro input t _ _
  apply grows_check
  intro inject _
  apply grows_check
  intro format _
  apply grows_bind (inCli_grows openNamedSecrets_grows)
  intro opened u _ hopened
  apply grows_check
  intro rendered hrendered
  apply grows_bind (B := fun _ _ => True)
  · apply grows_mapResult context_mono
    exact ⟨⟨opened,format,hrendered,hopened⟩,fun r => grows_reply fun _ _ => trivial⟩
  · exact fun _ _ _ _ => printed_grows

theorem deliverCmd_grows {rest : List OsString} : Ensures (calls E args) (deliverCmd E rest config) s (Grows s fun _ _ => True) := by
  unfold deliverCmd
  split
  · exact grows_liftResult fun _ _ => trivial
  · split
    · exact grows_liftResult fun _ _ => trivial
    · exact deliverRunCmd_grows
    · exact inCli_grows deliverFetchCmd_grows
    · exact deliverInjectCmd_grows
    · exact grows_liftResult fun _ _ => trivial

theorem keyAuthorizeCmd_grows {rest : List OsString} : Ensures (calls E args) (keyAuthorizeCmd rest config) s (Grows s fun _ _ => True) := by
  apply grows_check
  intro _ _
  apply grows_bind (inCli_grows readStoreUnlock_grows)
  intro unlock t _ _
  cases unlock with
  | standard backend =>
    apply grows_bind (B := fun _ _ => True)
    · exact ⟨trivial,fun r => grows_reply fun _ _ => trivial⟩
    · exact fun _ _ _ _ => printed_grows
  | filePassphrase passphrase =>
    apply grows_bind (inCli_grows loadExistingMasterFromUnlock_grows)
    exact fun _ _ _ _ => printed_grows

theorem keyCmd_grows {rest : List OsString} : Ensures (calls E args) (keyCmd E rest config) s (Grows s fun _ _ => True) := by
  unfold keyCmd
  split
  · exact grows_liftResult fun _ _ => trivial
  · split
    · exact grows_liftResult fun _ _ => trivial
    · exact inKey_grows keyExportCmd_grows
    · exact inKey_grows keyImportCmd_grows
    · exact keyAuthorizeCmd_grows
    · exact grows_liftResult fun _ _ => trivial

theorem agentCmd_grows {rest : List OsString} : Ensures (calls E args) (agentCmd rest config) s (Grows s fun _ _ => True) := by
  apply grows_bind (grows_ask trivial)
  intro home t _ _
  apply grows_check
  intro options _
  exact ⟨trivial,fun r => grows_reply fun _ _ => trivial⟩

theorem agentRunHelperCmd_grows {rest : List OsString} :
    Ensures (calls E args) (agentRunHelperCmd rest) s (Grows s fun _ _ => True) := by
  apply grows_check
  intro _ _
  split
  · exact grows_liftResult fun _ _ => trivial
  · apply grows_bind (grows_ask trivial)
    intro input t _ hinput
    apply grows_check
    intro env henv
    apply grows_bind (grows_ask ⟨input,hinput,henv⟩)
    exact fun _ _ _ _ => grows_liftResult fun _ _ => trivial

theorem command_grows {storeVar : EnvVar} {cmd : String} {rest : List OsString}
    (hargs : parseGlobalOptions storeVar args = .ok (config,utf8 cmd::rest)) :
    Ensures (calls E args) (command E cmd rest config) s (Grows s fun _ _ => True) := by
  have hprints (op : AvaultOp) (hop : Origin E args s op) :
      Ensures (calls E args) ((do let _ ← ask op; return 0) : AvaultM UInt8) s (Grows s fun _ _ => True) :=
    grows_bind (grows_ask hop) fun _ _ _ _ => grows_pure trivial
  unfold command
  split
  · exact hprints .printVersion trivial
  · exact hprints .printVersion trivial
  · exact hprints .printVersion trivial
  · exact hprints .printUsage trivial
  · exact hprints .printUsage trivial
  · exact hprints .printUsage trivial
  · exact sealCmd_grows hargs
  · exact deliverCmd_grows
  · exact keyCmd_grows
  · exact pubkeyCmd_grows
  · exact signCmd_grows
  · exact agentCmd_grows
  · exact agentRunHelperCmd_grows
  · apply grows_bind (grows_ask trivial)
    intro _ t _ _
    apply grows_bind (grows_ask trivial)
    exact fun _ _ _ _ => grows_pure trivial

theorem run_grows : Ensures (calls E args) (run E args) s (Grows s fun _ _ => True) := by
  apply grows_bind (grows_ask trivial)
  intro _ t _ _
  apply grows_bind (grows_ask trivial)
  intro storeVar u _ _
  apply grows_check
  rintro ⟨config,rest⟩ hargs
  have husage {s : Calls} :
      Ensures (calls E args) ((do ask AvaultOp.printUsage; return 0) : AvaultM UInt8) s (Grows s fun _ _ => True) :=
    grows_bind (grows_ask trivial) fun _ _ _ _ => grows_pure trivial
  dsimp only
  split
  · exact husage
  · split
    · exact husage
    · next hcmd => exact command_grows (fromUtf8_eq_some.mp hcmd ▸ hargs)

/-- Whatever a process gives out comes from where it may. -/
theorem main_origin : wp (calls E args) (main E args) (fun _ _ => True) [] := by
  rw [main,wp_bind]
  refine (run_grows (s := [])).mono fun r h _ => ?_
  cases r with
  | ok code => trivial
  | error err => exact ⟨trivial,fun _ => trivial⟩

end Origin
end Avault.Cli.Main
