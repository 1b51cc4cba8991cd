import Avault.Cli.KeyCommands
import Avault.Crypto.Concrete

/-! An exported key comes back from its blob with its passphrase, and from nothing else. -/
namespace Avault.Cli.KeyCommands
open Foundation Crypto
open Foundation.Program (Ensures Exec ensures_check ensures_mapResult exists_exec)
open ImportJson (Named maxStdinSecretBytes importPassphraseFromJson_document importBlobFromJson_document)
open JsonText (Literal)

/-- An object for `key import`, with its passphrase and what its blob is read as. -/
def ImportObject (fromSlice : Bytes → Result ExportBlob) (passphrase : String) (read : Result ExportBlob)
    (text : List Char) : Prop :=
  ∃ members member value, Json.Document members text ∧
    members.find? (Named (utf8 "passphrase")) = some member ∧ Literal passphrase member.value ∧
    members.find? (Named (utf8 "blob")) = some value ∧ fromSlice (encode value.value) = read

section Runs

variable (P : Primitives) (S : Scrypt) (fromSlice : Bytes → Result ExportBlob)

/-- Every run of `key import` hands the key over to the store. -/
def Restores (key : Key) (text : List Char) : Prop :=
  ∀ {args force config w unlock r t}, parseFlag args "--force" = .ok force → Unlocked config w unlock (encode text) →
    Exec KeyStep (keyImportCmd P S fromSlice args config).run w r t →
    ∃ outcome, t.imported = w.imported ++ [⟨unlock,key,force,outcome⟩] ∧ (r = .ok 0 ↔ outcome = .ok ())

/-- No run of `key import` gets as far as the store. -/
def Refuses (text : List Char) : Prop :=
  ∀ {args force config w unlock r t}, parseFlag args "--force" = .ok force → Unlocked config w unlock (encode text) →
    Exec KeyStep (keyImportCmd P S fromSlice args config).run w r t → (∃ e, r = .error e) ∧ t.imported = w.imported

/-- Where scrypt and the AEAD work, a passphrase that is not empty gets an export. -/
structure Exportable (passphrase : Bytes) (key : Key) : Prop where
  nonempty : passphrase ≠ []
  derives : ∀ salt, ∃ kek, S.derive ⟨passphrase,salt,15,scryptR,scryptP⟩ = .ok kek
  encrypts : ∀ kek nonce, ∃ c, P.aead.encrypt kek nonce [] key.toList = some c

/-- From a passphrase to an export of the stored key, and from the export with the passphrase, or what may
have become of them, back to a store. -/
structure KeyTransfer (exports : Export P S → Prop) (ciphertexts : Bytes → Prop) : Prop where
  printed : ∀ {config w unlock payload code t}, Unlocked config w unlock payload →
    Exec KeyStep (keyExportCmd P S config).run w (.ok code) t → ∃ x : Export P S, w.master = .ok x.masterKey ∧
      x.passphrase = trimTrailingNewlines payload ∧ t.printed = some x.blob
  prints : ∀ {config w unlock payload key r t}, Unlocked config w unlock payload → payload.length ≤ maxStdinSecretBytes →
    w.master = .ok key → w.stdout = .ok () → Exportable P S (trimTrailingNewlines payload) key →
    Exec KeyStep (keyExportCmd P S config).run w r t → r = .ok 0
  restores : ∀ {x passphrase text}, exports x → ImportObject fromSlice passphrase (.ok x.blob) text →
    (encode text).length ≤ maxStdinSecretBytes → trimTrailingNewlines (utf8 passphrase) = x.passphrase →
    Restores P S fromSlice x.masterKey text
  refuses : ∀ {passphrase read text}, ImportObject fromSlice passphrase read text →
    (∀ blob c, read = .ok blob → P.unb64 blob.ciphertext "ciphertext" = .ok c → ciphertexts c) →
    (∀ x, exports x → read = .ok x.blob → trimTrailingNewlines (utf8 passphrase) ≠ x.passphrase) →
    Refuses P S fromSlice text

end Runs

section Spec

variable {P : Primitives} {S : Scrypt} {fromSlice : Bytes → Result ExportBlob} {w : KeyWorld} {config : StoreSelection}
  {unlock : StoreUnlock} {payload : Bytes} {text : List Char} {passphrase : String} {read : Result ExportBlob} {key : Key}

theorem keyExportCmd_ensures (hunlocked : Unlocked config w unlock payload) :
    Ensures (.after KeyStep) (keyExportCmd P S config) w fun r t =>
      (∀ code, r = .ok code → ∃ x : Export P S, w.master = .ok x.masterKey ∧
        x.passphrase = trimTrailingNewlines payload ∧ t.printed = some x.blob) ∧
      (∀ key, payload.length ≤ maxStdinSecretBytes → w.master = .ok key → w.stdout = .ok () →
        Exportable P S (trimTrailingNewlines payload) key → r = .ok 0) := by
  refine (readStoreUnlock_ensures hunlocked).bind ?_ fun e t h => (error_ne_ok h.1).elim
  rintro _ _ ⟨⟨⟩,rfl⟩
  refine readStdin_ensures.bind ?_ ?_
  swap
  · rintro e t (⟨-,he,-⟩ | ⟨hlong,-,-⟩)
    · exact (error_ne_ok he).elim
    · exact ⟨fun _ h => (error_ne_ok h).elim,fun _ hfits => absurd hfits (not_le.mpr hlong)⟩
  rintro input t (⟨-,hinput,rfl⟩ | ⟨-,⟨e,he⟩,-⟩)
  swap
  · exact (error_ne_ok he.symm).elim
  obtain rfl := Except.ok.inj hinput
  refine loadExistingMasterFromUnlock_ensures.bind ?_ ?_
  swap
  · rintro e t ⟨hload,-⟩
    exact ⟨fun _ h => (error_ne_ok h).elim,fun key _ hmaster => (error_ne_ok ((hload key).mpr hmaster)).elim⟩
  rintro master _ ⟨hload,rfl⟩
  have hmaster : w.master = .ok master := (hload master).mp rfl
  rintro draws _ ⟨⟩
  refine ensures_check.mpr ⟨fun blob hblob => ?_,fun e he => ?_⟩
  · obtain ⟨x,-,rfl,hpassphrase,rfl⟩ := exportMasterKeyWith_eq_ok.mp (context_eq_ok.mp hblob)
    refine Ensures.bind (P := fun r t => (∀ u, r = .ok u → t.printed = some x.blob) ∧ (w.stdout = .ok () → r = .ok ())) ?_ ?_ ?_
    · apply ensures_mapResult.mpr
      rintro _ _ ⟨⟩
      exact ⟨fun _ _ => rfl,fun hstdout => context_eq_ok.mpr hstdout⟩
    · rintro _ t ⟨hprinted,-⟩ _ _ ⟨⟩
      exact ⟨fun _ _ => ⟨x,hmaster,hpassphrase,hprinted () rfl⟩,fun _ _ _ _ _ => rfl⟩
    · rintro e t ⟨-,hwrites⟩
      exact ⟨fun _ h => (error_ne_ok h).elim,fun _ _ _ hstdout _ => (error_ne_ok (hwrites hstdout)).elim⟩
  · refine ⟨fun _ h => (error_ne_ok h).elim,fun key _ hkey _ hexportable => ?_⟩
    obtain rfl := Except.ok.inj (hmaster.symm.trans hkey)
    obtain ⟨kek,hkek⟩ := hexportable.derives draws.salt.toList
    obtain ⟨c,hc⟩ := hexportable.encrypts kek draws.nonce
    have hexport := exportMasterKeyWith_eq_ok.mpr
      ⟨⟨draws,master,_,kek,c,hexportable.nonempty,hkek,hc⟩,rfl,rfl,rfl,rfl⟩
    obtain ⟨e',he'⟩ := context_eq_error he
    exact (error_ne_ok (he'.symm.trans hexport)).elim

theorem importedKey_object (hobject : ImportObject fromSlice passphrase read text)
    (hsize : (encode text).length ≤ maxStdinSecretBytes) : importedKey P S fromSlice (encode text) = (do
      let blob ← context "key import blob is invalid" read
      P.importMasterKey S blob (trimTrailingNewlines (utf8 passphrase))) := by
  obtain ⟨members,member,value,hdocument,hmember,hliteral,hvalue,rfl⟩ := hobject
  rw [importedKey,importPassphraseFromJson_document hdocument hsize hmember hliteral,ok_bind,
    importBlobFromJson_document hdocument hsize hvalue]

/-- A key that was exported comes back with the blob and the passphrase of the export, and with nothing else
does a key come. -/
theorem keyImport_restores {exports : Export P S → Prop} {ciphertexts : Bytes → Prop} (hideal : Export.Ideal exports ciphertexts) :
    KeyTransfer P S fromSlice exports ciphertexts where
  printed hunlocked hexec := ((keyExportCmd_ensures hunlocked).of_exec hexec).1 _ rfl
  prints hunlocked hfits hmaster hstdout hexportable hexec :=
    ((keyExportCmd_ensures hunlocked).of_exec hexec).2 _ hfits hmaster hstdout hexportable
  restores := by
    intro x passphrase text hx hobject hsize hpassphrase args force config w unlock r t hargs hunlocked hexec
    have hkey : importedKey P S fromSlice (encode text) = .ok x.masterKey := by
      rw [importedKey_object hobject hsize,context_ok,ok_bind,hpassphrase]
      exact importMasterKey_blob x hideal.decrypts
    obtain ⟨key,outcome,-,hfound,ht,hok⟩ | ⟨hbad,-⟩ := (keyImportCmd_ensures hunlocked hargs).of_exec hexec
    · obtain rfl := Except.ok.inj (hkey.symm.trans hfound)
      exact ⟨outcome,ht,hok⟩
    · obtain hlong | ⟨e,he⟩ := hbad
      · exact absurd hsize (not_le.mpr hlong)
      · exact (error_ne_ok (he.symm.trans hkey)).elim
  refuses := by
    intro passphrase read text hobject hcirculates hnone args force config w unlock r t hargs hunlocked hexec
    obtain ⟨key,outcome,hsize,hfound,-⟩ | ⟨-,hend⟩ := (keyImportCmd_ensures hunlocked hargs).of_exec hexec
    · rw [importedKey_object hobject hsize,bind_eq_ok] at hfound
      obtain ⟨blob,hread,hfound⟩ := hfound
      have hread := context_eq_ok.mp hread
      obtain ⟨x,hx,rfl,hpassphrase,-⟩ := importMasterKey_sound hideal (fun c => hcirculates blob c hread) hfound
      exact (hnone x hx hread hpassphrase).elim
    · exact hend

end Spec

section Sample

/-- One passphrase and salt have a key of their own. -/
def sampleScrypt : Scrypt where
  Params := UInt8 × UInt32 × UInt32
  new logN r p _ := .ok (logN,r,p)
  scrypt passphrase salt params :=
    if (⟨passphrase,salt,params.1,params.2.1,params.2.2⟩ : ScryptInput) =
      ⟨utf8 "pw",List.replicate 16 7,15,scryptR,scryptP⟩ then .ok (.replicate 32 1) else .ok (.replicate 32 0)

theorem sampleScrypt_derive (input : ScryptInput) : sampleScrypt.derive input =
    if input = ⟨utf8 "pw",List.replicate 16 7,15,scryptR,scryptP⟩ then .ok (.replicate 32 1) else .ok (.replicate 32 0) := by
  obtain ⟨passphrase,salt,logN,r,p⟩ := input
  change context _ (ite _ _ _) = _
  split <;> rfl

noncomputable def sampleExport : Export Primitives.concrete sampleScrypt where
  draws := ⟨.replicate 16 7,.replicate 12 9⟩
  masterKey := .replicate 32 5
  passphrase := utf8 "pw"
  kek := .replicate 32 1
  ciphertext := List.replicate 32 1 ++ List.replicate 12 9 ++ field 8 [] ++ List.replicate 32 5
  nonempty := by decide
  derived := by
    rw [sampleScrypt_derive]
    exact if_pos rfl
  encrypted := Aead.transparent_encrypt (by decide)

theorem sampleExport_ideal : Export.Ideal (· = sampleExport) (· = sampleExport.ciphertext) where
  canonical := Base64.standard_canonical _
  decrypts := Primitives.concrete_ideal.decrypt_eq_some.mpr
  authentic := by
    rintro input kek nonce _ m - rfl hm
    obtain ⟨hkek,hnonce,-⟩ := (Primitives.concrete_ideal.decrypt_encrypt sampleExport.encrypted).mp hm
    exact ⟨_,rfl,hkek,hnonce,rfl⟩
  injective := by
    rintro _ input rfl hinput
    rw [sampleScrypt_derive] at hinput
    by_cases h : input = ⟨utf8 "pw",List.replicate 16 7,15,scryptR,scryptP⟩
    · exact h
    · rw [if_neg h] at hinput
      have hkek : (Vector.replicate 32 0 : Key) ≠ Vector.replicate 32 1 := by decide
      exact absurd (Except.ok.inj hinput) hkek

def blobMembers (blob : ExportBlob) : List (String × List Char) :=
  [("scheme",(JsonText.minimalText blob.scheme).toList),("kdf",(JsonText.minimalText blob.kdf).toList),
    ("n",blob.n.toNat.repr.toList),("r",blob.r.toNat.repr.toList),("p",blob.p.toNat.repr.toList),
    ("salt",(JsonText.minimalText blob.salt).toList),("nonce",(JsonText.minimalText blob.nonce).toList),
    ("ciphertext",(JsonText.minimalText blob.ciphertext).toList)]

def blobText (blob : ExportBlob) : List Char := '\x7b'::(Json.compact JsonText.minimal (blobMembers blob) ++ ['\x7d'])

noncomputable def sampleFromSlice (bytes : Bytes) : Result ExportBlob :=
  if bytes = encode (blobText sampleExport.blob) then .ok sampleExport.blob else bail "expected value"

/-- The exported blob, a passphrase, and white space. -/
noncomputable def importText (passphrase : String) (ws : List Char) : List Char :=
  '\x7b'::(Json.compact JsonText.minimal [("blob",blobText sampleExport.blob),
    ("passphrase",(JsonText.minimalText passphrase).toList)] ++ ['\x7d']) ++ ws

/-- The passphrase has a line end. -/
noncomputable def sampleImport (ws : List Char) : List Char := importText "pw\r\n" ws

theorem blobText_text : Json.Text .value (blobText sampleExport.blob) := by
  have hstring (s : String) : Json.Text .value (JsonText.minimalText s).toList := .string (JsonText.minimal.toText_literal s)
  have hnumber {n : UInt32} (hn : n ∈ [scryptN,scryptR,scryptP]) : Json.Text .value n.toNat.repr.toList := by
    simp only [List.mem_cons,List.not_mem_nil,or_false] at hn
    obtain rfl | rfl | rfl := hn <;> exact .number (Json.number_digits (by decide) (by decide) (by decide))
  refine .object (Json.compact_members _ (List.cons_ne_nil _ _) ?_).text
  simp only [List.forall_mem_cons]
  exact ⟨hstring _,hstring _,hnumber (by decide),hnumber (by decide),hnumber (by decide),hstring _,hstring _,hstring _,
    List.forall_mem_nil _⟩

theorem keyStep_exists (w : KeyWorld) (op : KeyOp) : ∃ r t, KeyStep w op r t := by
  cases op with
  | readPassphraseLine =>
    obtain ⟨r,rest,hexec⟩ := exists_exec Stdin.splitRead_exists Stdin.readPassphraseLine.run w.stdin
    exact ⟨r,_,.readPassphraseLine hexec⟩
  | readStdin =>
    obtain ⟨r,rest,hexec⟩ := exists_exec Stdin.splitRead_exists (Stdin.readZeroizingToCap maxStdinSecretBytes).run w.stdin
    exact ⟨r,_,.readStdin hexec⟩
  | loadMasterKey backend => exact ⟨_,_,.loadMasterKey⟩
  | loadPassphraseMasterKey passphrase => exact ⟨_,_,.loadPassphraseMasterKey⟩
  | drawExport => exact ⟨_,_,.drawExport ⟨.replicate 16 0,.replicate 12 0⟩⟩
  | writeBlob blob => exact ⟨_,_,.writeBlob⟩
  | printLine text => exact ⟨_,_,.printLine⟩
  | importMasterKey backend key force => exact ⟨_,_,.importMasterKey (.ok ())⟩
  | defaultPassphraseMasterKeyPath => exact ⟨_,_,.defaultPassphraseMasterKeyPath⟩
  | passphraseFileImport path key passphrase force => exact ⟨_,_,.passphraseFileImport (.ok ())⟩

theorem importText_object (passphrase : String) {ws : List Char} (hws : Json.Ws ws) :
    ImportObject sampleFromSlice passphrase (.ok sampleExport.blob) (importText passphrase ws) := by
  have htext : JsonText.minimal.toText passphrase = JsonText.minimalText passphrase := rfl
  have hliteral : Literal passphrase (JsonText.minimalText passphrase).toList :=
    htext ▸ JsonText.minimal.toText_literal passphrase
  unfold importText
  generalize (JsonText.minimalText passphrase).toList = literal at hliteral ⊢
  have hvalues : ∀ member ∈ [("blob",blobText sampleExport.blob),("passphrase",literal)], Json.Text .value member.2 :=
    List.forall_mem_cons.mpr ⟨blobText_text,List.forall_mem_cons.mpr ⟨.string hliteral,List.forall_mem_nil _⟩⟩
  obtain ⟨located,hdocument,hlocated⟩ := (Json.compact_members JsonText.minimal (List.cons_ne_nil _ _) hvalues).document hws
  obtain ⟨blob,rest,rfl,hblob,hrest⟩ := List.map_eq_cons_iff.mp hlocated
  obtain ⟨given,rest,rfl,hgiven,hrest⟩ := List.map_eq_cons_iff.mp hrest
  obtain rfl := List.map_eq_nil_iff.mp hrest
  obtain ⟨name,before,value⟩ := blob
  obtain ⟨rfl,rfl⟩ := Prod.mk.inj hblob
  obtain ⟨name,before',value⟩ := given
  obtain ⟨rfl,rfl⟩ := Prod.mk.inj hgiven
  have hother : ¬ Named (utf8 "passphrase") ⟨"blob",before,blobText sampleExport.blob⟩ = true :=
    fun h => absurd (show utf8 "blob" = utf8 "passphrase" from of_decide_eq_true h) (by decide)
  refine ⟨_,⟨"passphrase",before',_⟩,⟨"blob",before,_⟩,hdocument,?_,hliteral,List.find?_cons_of_pos (decide_eq_true rfl),
    if_pos rfl⟩
  rw [List.find?_cons_of_neg hother]
  exact List.find?_cons_of_pos (decide_eq_true rfl)

theorem sampleImport_object {ws : List Char} (hws : Json.Ws ws) :
    ImportObject sampleFromSlice "pw\r\n" (.ok sampleExport.blob) (sampleImport ws) := importText_object _ hws

theorem sampleImport_fits : (encode (sampleImport [])).length ≤ maxStdinSecretBytes := by decide +kernel

/-- The object has the passphrase as `"pw\r\n"`, behind the blob; one that has another passphrase does not do. -/
theorem keyImport_restores_sample :
    Restores Primitives.concrete sampleScrypt sampleFromSlice sampleExport.masterKey (sampleImport []) ∧
      Refuses Primitives.concrete sampleScrypt sampleFromSlice (importText "px" []) := by
  have htransfer : KeyTransfer Primitives.concrete sampleScrypt sampleFromSlice (· = sampleExport)
    (· = sampleExport.ciphertext) := keyImport_restores sampleExport_ideal
  have hobject := importText_object "px" (List.forall_mem_nil _)
  refine ⟨htransfer.restores rfl (sampleImport_object (List.forall_mem_nil _)) sampleImport_fits rfl,htransfer.refuses hobject ?_ ?_⟩
  · intro blob c hblob hc
    obtain rfl := Except.ok.inj hblob
    have hroundtrip : Primitives.concrete.unb64 sampleExport.blob.ciphertext "ciphertext" = .ok sampleExport.ciphertext :=
      Primitives.unb64_b64
    rw [hroundtrip] at hc
    exact (Except.ok.inj hc).symm
  · rintro x rfl -
    decide

/-- The object with a MiB of white space behind it is not read at all. -/
theorem keyImport_oversized : Export.Ideal (· = sampleExport) (· = sampleExport.ciphertext) ∧
    ImportObject sampleFromSlice "pw\r\n" (.ok sampleExport.blob) (sampleImport (List.replicate (1024*1024) ' ')) ∧
    trimTrailingNewlines (utf8 "pw\r\n") = sampleExport.passphrase ∧
    ¬ Restores Primitives.concrete sampleScrypt sampleFromSlice sampleExport.masterKey
      (sampleImport (List.replicate (1024*1024) ' ')) := by
  have hws : Json.Ws (List.replicate (1024*1024) ' ') := fun c hc => List.eq_of_mem_replicate hc ▸ rfl
  refine ⟨sampleExport_ideal,sampleImport_object hws,rfl,fun hrestores => ?_⟩
  obtain ⟨r,t,hexec⟩ := exists_exec keyStep_exists (keyImportCmd Primitives.concrete sampleScrypt sampleFromSlice []
    .file).run ⟨encode (sampleImport (List.replicate (1024*1024) ' ')),.ok sampleExport.masterKey,.ok "",.ok (),none,[]⟩
  have hlong : maxStdinSecretBytes < (encode (sampleImport (List.replicate (1024*1024) ' '))).length := by
    rw [sampleImport,importText,encode_append,List.length_append,encode_replicate (by decide),List.length_replicate,
      encode_cons,List.length_append]
    have hbrace : (String.utf8EncodeChar '\x7b').length = 1 := rfl
    have hcap : maxStdinSecretBytes = 1024*1024 := rfl
    omega
  obtain ⟨outcome,ht,-⟩ := hrestores rfl .file hexec
  obtain ⟨key,_,hsize,-⟩ | ⟨-,-,hkept⟩ := (keyImportCmd_ensures .file rfl).of_exec hexec
  · exact absurd hsize (not_le.mpr hlong)
  · rw [hkept] at ht
    cases ht

end Sample
end Avault.Cli.KeyCommands
