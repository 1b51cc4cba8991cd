import Avault.Store.LinuxAuto
import Avault.Store.MacAuto
import Avault.Store.Vault

/-! The `auto` store of both platforms: its operations, and what loading returns when every call
works. -/
namespace Avault.Store
open Foundation Crypto
open Foundation.Program (Ensures ensures_bind ensures_pure ensures_attempt ensures_ite ensures_mapResult)

inductive Operation
  | load
  | loadOrCreate
  | importKey (key : Key) (force : Bool)

/-- Without a home, macOS has no file store. -/
inductive Platform
  | linux
  | mac (home : Bool)

namespace Platform

variable (M : Machine)

def load : Platform → StoreM Key
  | linux => LinuxAuto.load M
  | mac home => MacAuto.loadAutoMasterKeyWith home false

def loadOrCreate : Platform → StoreM Key
  | linux => LinuxAuto.loadOrCreate M
  | mac home => MacAuto.loadAutoMasterKeyWith home true

def importKey : Platform → Key → Bool → StoreM Unit
  | linux => LinuxAuto.importKey M
  | mac home => MacAuto.importKey home

/-- An operation of the `auto` store; an import returns no key. -/
def program (p : Platform) : Operation → StoreM (Option Key)
  | .load => do return some (← p.load M)
  | .loadOrCreate => do return some (← p.loadOrCreate M)
  | .importKey key force => do
    p.importKey M key force
    return none

end Platform

/-! Keychain, whatever calls may fail. -/

def keychainKey (w : World) : Option Key := w.keychain.bind (toArray? keyBytes)

structure KeychainInstalled (key : Key) (w t : World) : Prop where
  keychain : t.keychain = some key.toList
  file : t.file = w.file
  tpmFile : t.tpmFile = w.tpmFile
  draws : t.draws = w.draws

theorem Kept.keychainKey {w t : World} (h : Kept w t) : keychainKey t = keychainKey w := by
  rw [Store.keychainKey,h.keychain,Store.keychainKey]

theorem KeychainInstalled.keychainKey {key : Key} {w t : World} (h : KeychainInstalled key w t) :
    keychainKey t = some key := by
  rw [Store.keychainKey,h.keychain]
  exact toArray?_toList key

/-- What `SystemKeychain::read` returns when no call fails. -/
def keychainRead? (w : World) : Result Key := mapError backgroundKeychainError do
  let bytes ← context "failed to read master key from Keychain"
    (w.keychain.elim (.error keychainNotFound) .ok)
  Keychain.parseKey bytes

theorem keychainRead?_eq_ok {w : World} {key : Key} :
    keychainRead? w = .ok key ↔ keychainKey w = some key := by
  unfold keychainRead? keychainKey
  cases w.keychain <;> simp [bind_eq_ok,Keychain.parseKey]

section Keychain

variable {M : Machine} {allowed : Call → Error → Prop} {w : World}

/-- Switching the user interface off changes nothing. -/
theorem keychainCall_spec {α : Type} {x : StoreM α} {Q : Result α → World → Prop}
    (hx : Ensures (M.calls allowed) x w fun r t => Q (mapError backgroundKeychainError r) t)
    (hfail : FilesMayFail allowed → ∀ e, Q (.error e) w) :
    Ensures (M.calls allowed) (Keychain.call x) w Q := by
  refine Ensures.bind (reads_act_ok rfl) ?_ ?_
  · rintro _ _ ⟨rfl,_⟩
    exact ensures_mapResult.mpr hx
  · rintro e _ ⟨rfl,h | ⟨_,hf,_⟩⟩
    · cases h
    · exact hfail hf e

theorem reads_keychain : Ensures (M.calls allowed) Keychain.read w
    (Reads (fun _ => FilesMayFail allowed) w (keychainRead? w)) := by
  have hitem : Ensures (M.calls allowed) keychainRead w (Reads (fun _ => FilesMayFail allowed) w
      (w.keychain.elim (.error keychainNotFound) .ok)) :=
    mayFail_keychainRead.mpr ⟨⟨rfl,.inl rfl⟩,fun e he => ⟨rfl,.inr ⟨e,⟨_,e,he,rfl⟩,rfl⟩⟩⟩
  refine keychainCall_spec ?_ fun hf e => ⟨rfl,.inr ⟨e,hf,rfl⟩⟩
  have hread : Ensures (M.calls allowed)
      (withContext "failed to read master key from Keychain" keychainRead) w
      (Reads (fun _ => FilesMayFail allowed) w (context "failed to read master key from Keychain"
        (w.keychain.elim (.error keychainNotFound) .ok))) :=
    reads_withContext (fun _ h => h) hitem
  refine Ensures.mono (reads_bind hread fun bytes _ => reads_liftResult) ?_
  rintro r t ⟨rfl,rfl | ⟨e,hf,rfl⟩⟩
  · exact ⟨rfl,.inl rfl⟩
  · exact ⟨rfl,.inr ⟨_,hf,rfl⟩⟩

theorem keychainAdd_spec {key : Key} : Ensures (M.calls allowed) (Keychain.add key) w fun r t =>
    r = .ok () ∧ w.keychain = none ∧ KeychainInstalled key w t ∨
    t = w ∧ ∃ e, r = .error e ∧ (FilesMayFail allowed ∨ w.keychain.isSome ∧ isKeychainDuplicate e) := by
  refine keychainCall_spec ?_ fun hf e => .inr ⟨rfl,e,rfl,.inl hf⟩
  refine ensures_bind.mpr (mayFail_act.mpr ⟨?_,fun e he => .inr ⟨rfl,_,rfl,.inl ⟨_,e,he,rfl⟩⟩⟩)
  refine mayFail_act.mpr ⟨?_,fun e he => .inr ⟨rfl,_,rfl,.inl ⟨_,e,he,rfl⟩⟩⟩
  rw [show performAct .defaultKeychain w = (.ok (),w) from rfl]
  cases hkey : w.keychain with
  | none =>
    have hadd : performAct (.keychainAdd key) w = (.ok (),{ w with keychain := some key.toList }) := by
      simp [performAct,hkey]
    rw [hadd]
    exact .inl ⟨rfl,rfl,rfl,rfl,rfl,rfl⟩
  | some bytes =>
    have hadd : performAct (.keychainAdd key) w = (.error keychainDuplicate,w) := by
      simp [performAct,hkey]
    rw [hadd]
    exact .inr ⟨rfl,_,rfl,.inr ⟨rfl,by decide⟩⟩

end Keychain

/-! Loading when every call works. -/

def NoFault : Call → Error → Prop := fun _ _ => False

theorem not_filesMayFail_noFault : ¬ FilesMayFail NoFault := fun ⟨_,_,h,_⟩ => h

/-- What a migration of the file key makes of the stronger store's key. -/
def migrated (S : StrongStore) (key : Key) (absent : Bool) : Result Key → Result Key
  | .ok k => if k = key then .ok k else bail
      ("file master key differs from " ++ S.name ++ " master key; refusing to choose automatically")
  | .error err =>
    if S.isNotFound err then if absent then .ok key else .error err
    else if S.isUnavailable err then .ok key
    else .error err

theorem migrated_ok (S : StrongStore) (key : Key) (absent : Bool) :
    migrated S key absent (.ok key) = .ok key := if_pos rfl

theorem migrated_eq_ok {S : StrongStore} {key k : Key} {absent : Bool} {r : Result Key}
    (h : migrated S key absent r = .ok k) : k = key := by
  cases r with
  | ok k' =>
    by_cases heq : k' = key
    · rw [migrated,if_pos heq] at h
      exact (Except.ok.inj h).symm.trans heq
    · rw [migrated,if_neg heq] at h
      cases h
  | error e =>
    by_cases hfound : S.isNotFound e = true
    · rw [migrated,if_pos hfound] at h
      cases absent <;> cases h
      rfl
    · rw [migrated,if_neg hfound] at h
      cases hunavailable : S.isUnavailable e <;> rw [hunavailable] at h <;> cases h
      rfl

namespace Platform

variable (M : Machine)

/-- Whether the platform looks at a key file that is there. -/
def hasFile (p : Platform) (w : World) : Bool :=
  match p with
  | mac false => false
  | _ => w.file.isSome

def strong : Platform → StrongStore
  | linux => LinuxAuto.tpm M
  | mac _ => MacAuto.keychain

def strongAbsent (p : Platform) (w : World) : Bool :=
  match p with
  | linux => w.tpmFile.isNone
  | mac _ => w.keychain.isNone

def strongRead (p : Platform) (w : World) : Result Key :=
  match p with
  | linux => tpmRead M w
  | mac _ => keychainRead? w

/-- What loading makes of the stronger store's key where there is no file. -/
def alone : Platform → Result Key → Result Key
  | linux,r => r
  | mac _,.ok key => .ok key
  | mac _,.error err =>
    if isKeychainUnavailable err then
      context "Keychain is unavailable and no existing file master key was found" (.error err)
    else .error err

def loadResult (p : Platform) (w : World) : Result Key :=
  if p.hasFile w then
    fileRead w >>= fun key => migrated (p.strong M) key (p.strongAbsent w) (p.strongRead M w)
  else p.alone (p.strongRead M w)

end Platform

section NoFault

variable {M : Machine} {allowed : Call → Error → Prop} {w t : World} {S : StrongStore} {key k : Key} {absent : Bool} {read : World → Result Key}

/-- A migration where every call works, through a store that adds a key where there is none. -/
theorem migrateFileKey_noFault
    (hread : ∀ u, Ensures (M.calls NoFault) S.read u fun r t => t = u ∧ r = read u)
    (hadd : Ensures (M.calls NoFault) (S.add key) w fun r t => absent = true ∧ r = .ok () ∨
      absent = false ∧ read t = read w ∧ ∃ e, r = .error e ∧ S.isExisting e = true) :
    Ensures (M.calls NoFault) (migrateFileKey S key) w
      fun r _ => r = migrated S key absent (read w) := by
  refine ensures_bind.mpr (ensures_attempt.mpr (Ensures.mono (hread w) ?_))
  rintro r w ⟨rfl,rfl⟩
  cases hr : read w with
  | ok k =>
    refine ensures_ite.mpr ⟨fun h => ensures_pure.mpr ?_,fun h => ensures_liftResult.mpr ?_⟩
    · rw [migrated,if_pos h]
    · rw [migrated,if_neg h]
  | error e =>
    refine ensures_ite.mpr ⟨fun hfound => ?_,fun hfound => ?_⟩
    · rw [migrated,if_pos hfound]
      refine ensures_bind.mpr (ensures_attempt.mpr (Ensures.mono hadd ?_))
      rintro r t (⟨rfl,rfl⟩ | ⟨rfl,hsame,e',rfl,hexisting⟩)
      · exact ensures_pure.mpr rfl
      · refine ensures_ite.mpr ⟨fun _ => ?_,fun h => absurd hexisting h⟩
        refine Ensures.bind (hread t) ?_ ?_
        · rintro k _ ⟨rfl,h⟩
          cases h.trans (hsame.trans hr)
        · rintro e _ ⟨rfl,h⟩
          rw [hsame,hr] at h
          exact h
    · rw [migrated,if_neg hfound]
      refine ensures_ite.mpr ⟨fun h => ensures_pure.mpr ?_,fun h => ensures_liftResult.mpr ?_⟩
      · rw [if_pos h]
      · rw [if_neg h]

theorem reads_noFault {α : Type} {x : StoreM α} {E : Error → Prop} {r : Result α}
    (hE : ∀ e, ¬ E e) (hx : Ensures (M.calls NoFault) x w (Reads E w r)) :
    Ensures (M.calls NoFault) x w fun r' t => t = w ∧ r' = r :=
  Ensures.mono hx fun _ _ h => ⟨h.1,h.2.resolve_right fun ⟨e,he,_⟩ => hE e he⟩

theorem tpmGetWith_noFault (u : World) : Ensures (M.calls NoFault) (TpmStore.getWith M) u
    fun r t => t = u ∧ r = tpmRead M u :=
  reads_noFault (fun _ h => h.elim not_filesMayFail_noFault fun ⟨_,h⟩ => h) reads_tpmGetWith

theorem keychainRead_noFault (u : World) : Ensures (M.calls NoFault) Keychain.read u
    fun r t => t = u ∧ r = keychainRead? u :=
  reads_noFault (fun _ => not_filesMayFail_noFault) reads_keychain

theorem fileGet_noFault (u : World) : Ensures (M.calls NoFault) FileStore.get u
    fun r t => t = u ∧ r = fileRead u :=
  reads_noFault (fun _ => not_filesMayFail_noFault) reads_fileGet

theorem tpmRead_congr (hfile : w.file ≠ none) (hkept : Kept w t) : tpmRead M t = tpmRead M w := by
  have hdir : w.hasDirectory = true := by
    simp [World.hasDirectory,Option.isSome_iff_ne_none.mpr hfile]
  have hdir' : t.hasDirectory = true := by
    simp [World.hasDirectory,hkept.file,Option.isSome_iff_ne_none.mpr hfile]
  rw [tpmRead,tpmRead,hdir,hdir',hkept.tpmFile]

theorem fileRead_congr (hfile : w.file ≠ none) (hkept : Kept w t) : fileRead t = fileRead w := by
  have hdir : w.hasDirectory = true := by
    simp [World.hasDirectory,Option.isSome_iff_ne_none.mpr hfile]
  have hdir' : t.hasDirectory = true := by
    simp [World.hasDirectory,hkept.file,Option.isSome_iff_ne_none.mpr hfile]
  rw [fileRead,fileRead,hdir,hdir',hkept.file]

theorem linuxLoad_spec : Ensures (M.calls NoFault) (LinuxAuto.load M) w
    fun r _ => r = Platform.linux.loadResult M w := by
  refine ensures_bind.mpr (mayFail_pathExists.mpr ⟨?_,fun _ h => h.elim⟩)
  refine ensures_ite.mpr ⟨fun h => ?_,fun h => ?_⟩
  · have hfile : Platform.linux.hasFile w = true := h
    rw [Platform.loadResult,if_pos hfile]
    refine Ensures.bind (fileGet_noFault w) ?_ ?_
    · rintro key _ ⟨rfl,hkey⟩
      rw [← hkey]
      refine migrateFileKey_noFault tpmGetWith_noFault (Ensures.mono tpmCreate_spec fun r t h => ?_)
      cases h with
      | done h => exact .inl ⟨Option.isNone_iff_eq_none.mpr (h.1.resolve_left nofun),rfl⟩
      | late hf _ => exact absurd hf not_filesMayFail_noFault
      | refused h hkept =>
        obtain ⟨-,hsome,hexisting⟩ := (h.resolve_left not_filesMayFail_noFault).resolve_left id
        refine .inr ⟨?_,tpmRead_congr (Option.isSome_iff_ne_none.mp hfile) hkept,_,rfl,hexisting⟩
        exact Option.isNone_eq_false_iff.mpr hsome
    · rintro e _ ⟨rfl,he⟩
      rw [← he]
      rfl
  · have hfile : ¬ Platform.linux.hasFile w = true := h
    rw [Platform.loadResult,if_neg hfile]
    exact Ensures.mono (tpmGetWith_noFault w) fun _ _ h => h.2

theorem fileExists_exact (hexists : ∀ e, ¬ allowed (.pathExists .machineKey) e) (home : Bool) :
    Ensures (M.calls allowed) (MacAuto.fileExists home) w
      fun r t => t = w ∧ r = .ok ((Platform.mac home).hasFile w) := by
  cases home with
  | false => exact ensures_ite.mpr ⟨nofun,fun _ => ensures_pure.mpr ⟨rfl,rfl⟩⟩
  | true =>
    exact ensures_ite.mpr ⟨fun _ => mayFail_pathExists.mpr ⟨⟨rfl,rfl⟩,fun e he => (hexists e he).elim⟩,nofun⟩

theorem macLoad_spec {home : Bool} :
    Ensures (M.calls NoFault) (MacAuto.loadAutoMasterKeyWith home false) w
      fun r _ => r = (Platform.mac home).loadResult M w := by
  refine ensures_bind.mpr (Ensures.bind (fileExists_exact (fun _ h => h) home) ?_ ?_)
  · rintro found _ ⟨rfl,h⟩
    obtain rfl := Except.ok.inj h
    refine ensures_ite.mpr ⟨fun hfile => ?_,fun hfile => ?_⟩
    · rw [Platform.loadResult,if_pos hfile]
      refine Ensures.bind (fileGet_noFault _) ?_ ?_
      · rintro key w ⟨rfl,hkey⟩
        rw [← hkey]
        refine ensures_pure.mpr (migrateFileKey_noFault (S := MacAuto.keychain)
          keychainRead_noFault (Ensures.mono keychainAdd_spec ?_))
        rintro r t (⟨rfl,hnone,-⟩ | ⟨rfl,e,rfl,h⟩)
        · exact .inl ⟨Option.isNone_iff_eq_none.mpr hnone,rfl⟩
        · obtain ⟨hsome,hduplicate⟩ := h.resolve_left not_filesMayFail_noFault
          exact .inr ⟨Option.isNone_eq_false_iff.mpr hsome,rfl,e,rfl,hduplicate⟩
      · rintro e w ⟨rfl,he⟩
        rw [← he]
        rfl
    · rw [Platform.loadResult,if_neg hfile]
      refine ensures_pure.mpr (ensures_bind.mpr (ensures_attempt.mpr (Ensures.mono
        (keychainRead_noFault _) ?_)))
      rintro r w ⟨rfl,rfl⟩
      change Ensures _ _ _ fun r _ => r = (Platform.mac home).alone (keychainRead? w)
      cases keychainRead? w with
      | ok key => exact ensures_pure.mpr rfl
      | error e =>
        refine ensures_ite.mpr ⟨fun h => ensures_liftResult.mpr ?_,fun h => ensures_liftResult.mpr ?_⟩
        · exact (if_pos h).symm
        · exact (if_neg h).symm
  · rintro e _ ⟨_,h⟩
    cases h

end NoFault

namespace Platform

variable (M : Machine)

/-- The key of the file store. -/
def fileKey (p : Platform) (w : World) : Option Key := if p.hasFile w then Store.fileKey w else none

/-- The key of the TPM blob or the Keychain item. -/
def strongKey (p : Platform) (w : World) : Option Key :=
  match p with
  | linux => tpmKey M w
  | mac _ => keychainKey w

/-- The file store and the stronger store do not hold different keys. -/
def Agree (p : Platform) (w : World) : Prop :=
  ∀ k k', p.fileKey w = some k → p.strongKey M w = some k' → k = k'

/-- What loading the key returns when every store works. -/
def loads (p : Platform) (w : World) : Result Key := (Program.run (perform M) (p.load M).run w).1

/-- The stronger store was given the key, and nothing else was. -/
def StrongInstalled (p : Platform) (key : Key) (w t : World) : Prop :=
  match p with
  | linux => TpmInstalled M key w t
  | mac _ => KeychainInstalled key w t

variable {M} {p : Platform} {w t u : World} {key k : Key}

theorem loads_eq : p.loads M w = p.loadResult M w := by
  cases p with
  | linux => exact linuxLoad_spec.of_exec (exec_run _ w)
  | mac home => exact macLoad_spec.of_exec (exec_run (M := M) _ w)

theorem strongRead_eq_ok : p.strongRead M w = .ok k ↔ p.strongKey M w = some k := by
  cases p with
  | linux => exact tpmRead_eq_ok
  | mac home => exact keychainRead?_eq_ok

theorem alone_eq_ok {r : Result Key} : p.alone r = .ok k ↔ r = .ok k := by
  cases p with
  | linux => rfl
  | mac home =>
    cases r with
    | ok key => rfl
    | error e => cases hunavailable : isKeychainUnavailable e <;> simp [alone,hunavailable]

theorem loads_of_file (hfile : p.hasFile w = true) (h : p.loads M w = .ok k) : p.fileKey w = some k := by
  rw [loads_eq,loadResult,if_pos hfile] at h
  obtain ⟨key,hread,h⟩ := bind_eq_ok.mp h
  rw [fileKey,if_pos hfile,migrated_eq_ok h]
  exact fileRead_eq_ok.mp hread

theorem loads_of_no_file (hfile : ¬ p.hasFile w = true) :
    p.loads M w = .ok k ↔ p.strongKey M w = some k := by
  rw [loads_eq,loadResult,if_neg hfile,alone_eq_ok,strongRead_eq_ok]

theorem hasFile_of_fileKey (h : p.fileKey w = some k) : p.hasFile w = true ∧ Store.fileKey w = some k := by
  by_cases hfile : p.hasFile w = true
  · rw [fileKey,if_pos hfile] at h
    exact ⟨hfile,h⟩
  · rw [fileKey,if_neg hfile] at h
    cases h

theorem loads_of_both (hfile : p.fileKey w = some k) (hstrong : p.strongKey M w = some k) :
    p.loads M w = .ok k := by
  obtain ⟨hhas,hfile⟩ := hasFile_of_fileKey hfile
  rw [loads_eq,loadResult,if_pos hhas,fileRead_eq_ok.mpr hfile,strongRead_eq_ok.mpr hstrong]
  exact migrated_ok (p.strong M) k (p.strongAbsent w)

theorem hasFile_congr (h : t.file = w.file) : p.hasFile t = p.hasFile w := by
  match p with
  | linux | mac true => exact congrArg Option.isSome h
  | mac false => rfl

theorem fileKey_congr (h : t.file = w.file) : p.fileKey t = p.fileKey w := by
  rw [fileKey,fileKey,hasFile_congr h,Store.fileKey,Store.fileKey,h]

/-- Loading depends on what the stores hold. -/
theorem loads_kept (hkept : Kept w t) (h : p.loads M w = .ok k) : p.loads M t = .ok k := by
  have hhas : p.hasFile t = p.hasFile w := hasFile_congr hkept.file
  have habsent : p.strongAbsent t = p.strongAbsent w := by
    cases p with
    | linux => exact congrArg Option.isNone hkept.tpmFile
    | mac home => exact congrArg Option.isNone hkept.keychain
  have hstrong : p.strongKey M t = p.strongKey M w := by
    cases p with
    | linux => exact hkept.tpmKey
    | mac home => exact hkept.keychainKey
  by_cases hfile : p.hasFile w = true
  · have hne : w.file ≠ none := by
      match p with
      | linux | mac true => exact Option.isSome_iff_ne_none.mp hfile
      | mac false => cases hfile
    have hread : p.strongRead M t = p.strongRead M w := by
      cases p with
      | linux => exact tpmRead_congr hne hkept
      | mac home => rw [strongRead,strongRead,keychainRead?,keychainRead?,hkept.keychain]
    rw [loads_eq,loadResult,if_pos (hhas.trans hfile),fileRead_congr hne hkept,habsent,hread]
    rwa [loads_eq,loadResult,if_pos hfile] at h
  · rw [loads_of_no_file (by rwa [hhas]),hstrong]
    exact (loads_of_no_file hfile).mp h

theorem agree_kept (hkept : Kept w t) (h : p.Agree M w) : p.Agree M t := by
  have hfile : p.fileKey t = p.fileKey w := fileKey_congr hkept.file
  have hstrong : p.strongKey M t = p.strongKey M w := by
    cases p with
    | linux => exact hkept.tpmKey
    | mac home => exact hkept.keychainKey
  intro k k' hk hk'
  exact h k k' (hfile ▸ hk) (hstrong ▸ hk')

end Platform
end Avault.Store
