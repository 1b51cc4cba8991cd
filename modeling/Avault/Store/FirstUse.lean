import Avault.Foundation.Interleaving
import Avault.Store.Concrete
import Avault.Store.LinuxAuto
import Avault.Store.Vault

/-! Processes that call load-or-create of the Linux `auto` store at the same time. -/
namespace Avault.Store
open Foundation Crypto
open Foundation.Program (Ensures ensures_bind ensures_pure ensures_attempt ensures_ite)

/-- Between two calls of a process, a key that the stores hold stays. -/
def KeyStays (M : Machine) (w t : World) : Prop :=
  ∀ cell, Holds M w cell → ∃ cell', Holds M t cell' ∧ (cell = none ∨ cell' = cell)

theorem KeyStays.refl (M : Machine) (w : World) : KeyStays M w w := fun cell h => ⟨cell,h,.inr rfl⟩

theorem KeyStays.trans {M : Machine} {u v w : World} (h : KeyStays M u v) (h' : KeyStays M v w) :
    KeyStays M u w := by
  intro cell hcell
  obtain ⟨cell₁,h₁,hmoved⟩ := h cell hcell
  obtain ⟨cell₂,h₂,hmoved'⟩ := h' cell₁ h₁
  refine ⟨cell₂,h₂,?_⟩
  obtain rfl | rfl := hmoved
  · exact .inl rfl
  · exact hmoved'

theorem KeyStays.holds {M : Machine} {w t : World} {key : Key} (h : KeyStays M w t)
    (hkey : Holds M w (some key)) : Holds M t (some key) := by
  obtain ⟨_,ht,hcell⟩ := h _ hkey
  obtain h | rfl := hcell
  · cases h
  · exact ht

def Path.other : Path → Path
  | machineKey => tpmMasterKey
  | tpmMasterKey => machineKey

abbrev Calls := History Call Call.Reply

/-- The process was told that there is no key file. -/
def foundNoFile (h : Calls) : Bool :=
  h.any fun | ⟨.pathExists .machineKey,found⟩ => !found | _ => false

theorem foundNoFile_cons {h : Calls} (x : (c : Call) × c.Reply) (hfound : foundNoFile h = true) :
    foundNoFile (x::h) = true := by
  rw [foundNoFile,List.any_cons,Bool.or_eq_true]
  exact .inr hfound

/-- The store that a call may put a new key in. -/
def Call.noclobberPath : Call → Option Path
  | act (.persistNoclobber path _) => some path
  | _ => none

/-- A process that found no key file installs a key only where the other store has none yet. -/
def InstallsAlone (h : Calls) (c : Call) (w : World) : Prop :=
  ∀ path ∈ c.noclobberPath, foundNoFile h = true → w.content path = none → w.content path.other = none

instance (h : Calls) (c : Call) (w : World) : Decidable (InstallsAlone h c w) :=
  inferInstanceAs (Decidable (∀ path ∈ c.noclobberPath, _ → _ → _))

def sharing (M : Machine) : Protocol Call Call.Reply World where
  step := MayFail M TpmMayBeUnavailable
  rely := KeyStays M
  permit := InstallsAlone
  guarantee _ _ _ := KeyStays M
  rely_refl := KeyStays.refl M
  rely_trans := KeyStays.trans
  rely_of_guarantee h := h

/-- What a process knows, whatever the others and itself do next. -/
structure Lasting (M : Machine) (A : Calls × World → Prop) : Prop where
  stays : ∀ {h w t}, A (h,w) → KeyStays M w t → A (h,t)
  cons : ∀ {h w} x, A (h,w) → A (x::h,w)
  cell : ∀ {s}, A s → ∃ cell, Holds M s.2 cell

/-- A lasting condition, and one on the value if there is one. -/
structure Returns {α : Type} (A : Calls × World → Prop) (B : α → Calls × World → Prop) (r : Result α)
    (s : Calls × World) : Prop where
  lasting : A s
  value : ∀ a, r = .ok a → B a s

section Rules

variable {M : Machine} {A : Calls × World → Prop} {s : Calls × World} {α β : Type}
  {B : α → Calls × World → Prop} {C : β → Calls × World → Prop}

theorem returns_bind {x : StoreM α} {f : α → StoreM β}
    (hx : Ensures (sharing M).calls x s (Returns A B))
    (hf : ∀ a t, A t → B a t → Ensures (sharing M).calls (f a) t (Returns A C)) :
    Ensures (sharing M).calls (x >>= f) s (Returns A C) :=
  Ensures.bind hx (fun a t h => hf a t h.lasting (h.value a rfl)) fun _ _ h => ⟨h.lasting,nofun⟩

theorem returns_withContext {text : String} {x : StoreM α}
    (hx : Ensures (sharing M).calls x s (Returns A B)) :
    Ensures (sharing M).calls (withContext text x) s (Returns A B) :=
  ensures_withContext.mpr (Ensures.mono hx fun _ _ h =>
    ⟨h.lasting,fun a ha => h.value a (context_eq_ok.mp ha)⟩)

theorem returns_error {e : Error} (hs : A s) : Returns (α := α) A B (.error e) s := ⟨hs,nofun⟩

theorem returns_ok {a : α} (hs : A s) (ha : B a s) : Returns A B (.ok a) s :=
  ⟨hs,fun _ h => Except.ok.inj h ▸ ha⟩

/-- The calls that put a file in place. -/
def Call.installs : Call → Bool
  | act (.persist _ _) | act (.persistNoclobber _ _) => true
  | _ => false

theorem mayFail_quiet {allowed : Call → Error → Prop} {c : Call} (hc : c.installs = false) {w t : World}
    {r : c.Reply} (h : MayFail M allowed w c r t) : t.file = w.file ∧ t.tpmFile = w.tpmFile := by
  obtain h | ⟨rfl,_⟩ := h
  · obtain ⟨-,rfl⟩ := Prod.mk.inj h
    cases c with
    | act a =>
      cases a with
      | persist | persistNoclobber => cases hc
      | keychainAdd key =>
        cases hkey : w.keychain <;> simp [performAct,hkey]
      | _ => exact ⟨rfl,rfl⟩
    | _ => exact ⟨rfl,rfl⟩
  · exact ⟨rfl,rfl⟩

/-- A call that installs nothing keeps what lasts. -/
theorem quiet_pre (hA : Lasting M A) {c : Call} (hc : c.installs = false)
    {Q : c.Reply → Calls × World → Prop} (hs : A s)
    (hQ : ∀ u r t, A (s.1,u) → MayFail M TpmMayBeUnavailable u c r t → A (⟨c,r⟩::s.1,t) →
      Q r (⟨c,r⟩::s.1,t)) :
    (sharing M).calls.pre c Q s := by
  intro u hrely _ r t hstep
  obtain ⟨hfile,htpm⟩ := mayFail_quiet hc hstep
  have hstays : KeyStays M u t := fun cell h => ⟨cell,h.congr hfile htpm,.inr rfl⟩
  have hu : A (s.1,u) := hA.stays hs hrely
  exact ⟨hstays,hQ u r t hu hstep (hA.cons _ (hA.stays hu hstays))⟩

theorem returns_act (hA : Lasting M A) {a : Act} (ha : Call.installs (.act a) = false) (hs : A s) :
    Ensures (sharing M).calls (act a) s (Returns A fun _ _ => True) :=
  quiet_pre hA ha hs fun _ _ _ _ _ ht => ⟨ht,fun _ _ => trivial⟩

theorem returns_ensureParent (hA : Lasting M A) (hs : A s) :
    Ensures (sharing M).calls ensureParent s (Returns A fun _ _ => True) :=
  returns_bind (returns_act hA rfl hs) fun _ _ ht _ => returns_withContext (returns_act hA rfl ht)

theorem returns_writeSyncedTempSecretFile (hA : Lasting M A) {bytes : Bytes} (hs : A s) :
    Ensures (sharing M).calls (writeSyncedTempSecretFile bytes) s
      (Returns A fun tmp _ => tmp = bytes) := by
  apply returns_bind (returns_withContext (returns_act hA rfl hs))
  intro _ _ ht _
  apply returns_bind (returns_withContext (returns_withContext (returns_act hA rfl ht)))
  intro _ _ ht _
  apply returns_bind (returns_withContext (returns_act hA rfl ht))
  intro _ _ ht _
  apply returns_bind (returns_withContext (returns_act hA rfl ht))
  intro _ _ ht _
  exact ensures_pure.mpr (returns_ok ht rfl)

theorem returns_installed (hA : Lasting M A) {path : Path} (hs : A s) :
    Ensures (sharing M).calls (do validateFileMode path; syncParentDir) s
      (Returns A fun _ _ => True) := by
  apply returns_bind (returns_withContext (returns_act hA rfl hs))
  intro _ _ ht _
  apply returns_bind (returns_withContext (returns_act hA rfl ht))
  intro _ _ ht _
  exact returns_withContext (returns_act hA rfl ht)

/-- The key, if the process has read one, is the one that the stores hold. -/
def Known (M : Machine) (read : Result Key) (s : Calls × World) : Prop :=
  ∀ key, read = .ok key → Holds M s.2 (some key)

theorem Lasting.known (hA : Lasting M A) (read : Result Key) :
    Lasting M fun s => A s ∧ Known M read s where
  stays h hstays := ⟨hA.stays h.1 hstays,fun key hkey => hstays.holds (h.2 key hkey)⟩
  cons x h := ⟨hA.cons x h.1,h.2⟩
  cell h := hA.cell h.1

/-- A key that is read from a store in a world where the stores hold one key. -/
theorem Lasting.holds_of_fileKey (hA : Lasting M A) {h : Calls} {u : World} (hu : A (h,u)) {key : Key}
    (hkey : fileKey u = some key) : Holds M u (some key) := by
  obtain ⟨cell,hcell⟩ := hA.cell hu
  have hstored : stored M u = some key := by rw [stored,hkey]; rfl
  rwa [← hcell.stored.symm.trans hstored]

theorem Lasting.holds_of_tpmKey (hA : Lasting M A) {h : Calls} {u : World} (hu : A (h,u)) {key : Key}
    (hkey : tpmKey M u = some key) : Holds M u (some key) := by
  obtain ⟨cell,hcell⟩ := hA.cell hu
  cases hf : fileKey u with
  | none =>
    have hstored : stored M u = some key := by rw [stored,hf,hkey]; rfl
    rwa [← hcell.stored.symm.trans hstored]
  | some k =>
    obtain rfl := hcell.agree k key hf hkey
    exact hA.holds_of_fileKey hu hf

/-- A file that was opened was there. -/
theorem mayFail_openFile_ok {path : Path} {u t : World} {bytes : Bytes}
    (h : MayFail M TpmMayBeUnavailable u (.openFile path) (.ok bytes) t) :
    u.content path = some bytes ∧ t = u := by
  obtain h | ⟨rfl,e,-,h⟩ := h
  · have hreply : (u.content path).elim (.error notFound) .ok = (.ok bytes : Result Bytes) :=
      congrArg Prod.fst h
    refine ⟨?_,(congrArg Prod.snd h).symm⟩
    cases hcontent : u.content path with
    | none =>
      rw [hcontent] at hreply
      cases hreply
    | some content =>
      rw [hcontent] at hreply
      exact congrArg some (Except.ok.inj hreply)
  · cases h

theorem returns_openFile (hA : Lasting M A) {path : Path} (read : Bytes → Result Key) (hs : A s)
    (hread : ∀ h u bytes key, A (h,u) → u.content path = some bytes → read bytes = .ok key →
      Holds M u (some key)) :
    Ensures (sharing M).calls (openFile path) s (Returns A fun bytes t => Known M (read bytes) t) := by
  refine quiet_pre hA rfl hs fun u r t hu hstep ht => ⟨ht,?_⟩
  rintro bytes rfl key hkey
  obtain ⟨hcontent,rfl⟩ := mayFail_openFile_ok hstep
  exact hread _ _ _ _ hu hcontent hkey

/-- Reading goes on with what it knows from the opened file. -/
theorem returns_known (hA : Lasting M A) (read : Result Key) {x : StoreM β} (hs : A s)
    (hread : Known M read s)
    (hx : ∀ A', Lasting M A' → (∀ t, A' t → Known M read t) → A' s →
      Ensures (sharing M).calls x s (Returns A' C)) :
    Ensures (sharing M).calls x s (Returns A C) :=
  Ensures.mono (hx _ (hA.known read) (fun _ h => h.2) ⟨hs,hread⟩) fun _ _ h => ⟨h.lasting.1,h.value⟩

theorem returns_fileGet (hA : Lasting M A) (hs : A s) :
    Ensures (sharing M).calls FileStore.get s (Returns A fun key t => Holds M t.2 (some key)) := by
  apply returns_bind (returns_withContext (returns_act hA rfl hs))
  intro _ _ ht _
  apply returns_bind (returns_withContext (returns_act hA rfl ht))
  intro _ _ ht _
  refine returns_bind (returns_withContext (returns_openFile hA
    FileStore.parseKey ht fun h u bytes key hu hcontent hkey => ?_)) fun content t ht hread => ?_
  · apply hA.holds_of_fileKey hu
    rw [fileKey,show u.file = some bytes from hcontent]
    exact orError_eq_ok.mp hkey
  · apply returns_known hA (FileStore.parseKey content) ht hread
    intro A' hA' hknown ht
    apply returns_bind (returns_withContext (returns_act hA' rfl ht))
    intro _ _ ht _
    refine returns_bind (B := fun _ _ => True) (ensures_liftResult.mpr ⟨ht,fun _ _ => trivial⟩)
      fun _ _ ht _ => ?_
    apply returns_bind (returns_withContext (returns_act hA' rfl ht))
    intro _ t ht _
    exact ensures_liftResult.mpr ⟨ht,hknown t ht⟩

theorem returns_tpmGetWith (hA : Lasting M A) (hs : A s) :
    Ensures (sharing M).calls (TpmStore.getWith M) s
      (Returns A fun key t => Holds M t.2 (some key)) := by
  apply returns_bind (returns_withContext (returns_act hA rfl hs))
  intro _ _ ht _
  apply returns_bind (returns_withContext (returns_act hA rfl ht))
  intro _ _ ht _
  refine returns_bind (returns_withContext (returns_openFile hA
    (fun bytes => TpmStore.parseBlob M bytes >>= M.unsealMasterKey) ht
    fun h u bytes key hu hcontent hkey => ?_)) fun bytes t ht hread => ?_
  · apply hA.holds_of_tpmKey hu
    rw [tpmKey,show u.tpmFile = some bytes from hcontent,Option.bind_some,hkey]
    rfl
  · apply returns_known hA _ ht hread
    intro A' hA' hknown ht
    apply returns_bind (returns_withContext (returns_act hA' rfl ht))
    intro _ t ht _
    refine returns_bind (B := fun blob _ => TpmStore.parseBlob M bytes = .ok blob)
      (ensures_liftResult.mpr ⟨ht,fun _ h => h⟩) fun blob t ht hblob => ?_
    refine quiet_pre hA' rfl ht fun u r t _ hstep ht => ⟨ht,?_⟩
    rintro key rfl
    apply hknown _ ht key
    obtain h | ⟨rfl,e,-,h⟩ := hstep
    · rw [hblob]
      exact (Prod.mk.inj h).1
    · cases h

/-! Installing and migrating. -/

/-- The bytes hold the key in the format of the store. -/
def Encodes (M : Machine) (key : Key) (bytes : Bytes) : Path → Prop
  | .machineKey => bytes = key.toList
  | .tpmMasterKey => ∃ n, bytes = M.blobJson.encode (M.sealMasterKey n key)

theorem holds_install {path : Path} {bytes : Bytes} {key : Key} {w : World}
    (hbytes : Encodes M key bytes path)
    (hother : w.content path.other = none ∨ Holds M w (some key)) :
    Holds M (w.install bytes path) (some key) := by
  cases path with
  | machineKey =>
    have hinstalled : FileInstalled key w (w.install bytes .machineKey) :=
      ⟨congrArg some hbytes,rfl,rfl,rfl⟩
    exact hinstalled.holds fun h => hother.elim (fun hnone => absurd hnone h) fun hkey => hkey.2.2 h
  | tpmMasterKey =>
    have hinstalled : TpmInstalled M key w (w.install bytes .tpmMasterKey) :=
      ⟨hbytes.imp fun _ h => congrArg some h,rfl,rfl,rfl⟩
    exact hinstalled.holds fun h => hother.elim (fun hnone => absurd hnone h) fun hkey => hkey.2.1 h

theorem Holds.other_ne_none {path : Path} {key : Key} {w : World} (h : Holds M w (some key))
    (hnone : w.content path = none) : w.content path.other ≠ none := by
  cases path with
  | machineKey => exact h.1 hnone
  | tpmMasterKey => exact fun hfile => h.1 hfile hnone

/-- The process may install the key: it found no file, or the stores hold this key. -/
def MayInstall (M : Machine) (key : Key) (s : Calls × World) : Prop :=
  foundNoFile s.1 = true ∨ Holds M s.2 (some key)

theorem Lasting.mayInstall (hA : Lasting M A) (key : Key) :
    Lasting M fun s => A s ∧ MayInstall M key s where
  stays h hstays := ⟨hA.stays h.1 hstays,h.2.imp_right hstays.holds⟩
  cons x h := ⟨hA.cons x h.1,h.2.imp_left (foundNoFile_cons x)⟩
  cell h := hA.cell h.1

/-- An install that does not clobber leaves the one key in place. -/
theorem returns_persistNoclobber (hA : Lasting M A) {path : Path} {bytes : Bytes} {key : Key} (hs : A s)
    (hbytes : Encodes M key bytes path) (hinstall : MayInstall M key s) :
    Ensures (sharing M).calls (act (.persistNoclobber path bytes)) s
      (Returns A fun _ t => Holds M t.2 (some key)) := by
  intro u hrely hpermit r t hstep
  have hu : A (s.1,u) := hA.stays hs hrely
  obtain h | ⟨-,_,⟨htpm,_⟩,_⟩ := hstep
  · by_cases hsome : (u.content path).isSome = true
    · have hrefused := (performAct_persistNoclobber_some hsome).symm.trans h
      obtain ⟨rfl,rfl⟩ := Prod.mk.inj hrefused
      exact ⟨KeyStays.refl M u,hA.cons _ hu,nofun⟩
    · have hnone := Option.not_isSome_iff_eq_none.mp hsome
      have hdone := (performAct_persistNoclobber_none hnone).symm.trans h
      obtain ⟨rfl,rfl⟩ := Prod.mk.inj hdone
      have hother : u.content path.other = none ∨ Holds M u (some key) :=
        hinstall.imp (fun hfound => hpermit path rfl hfound hnone) hrely.holds
      have hholds := holds_install hbytes hother
      have hstays : KeyStays M u (u.install bytes path) := by
        intro cell hcell
        refine ⟨some key,hholds,?_⟩
        obtain hnone' | hkey := hother
        · cases cell with
          | none => exact .inl rfl
          | some k => exact absurd hnone' (hcell.other_ne_none hnone)
        · exact .inr (hkey.unique hcell)
      exact ⟨hstays,hA.cons _ (hA.stays hu hstays),fun _ _ => hholds⟩
  · cases htpm

theorem returns_installed_holds (hA : Lasting M A) {path : Path} {key : Key} (hs : A s)
    (hkey : Holds M s.2 (some key)) :
    Ensures (sharing M).calls (do validateFileMode path; syncParentDir) s
      (Returns A fun _ t => Holds M t.2 (some key)) := by
  refine returns_known hA (.ok key) hs (fun _ h => Except.ok.inj h ▸ hkey) fun A' hA' hknown hs => ?_
  exact Ensures.mono (returns_installed hA' hs) fun r t h =>
    ⟨h.lasting,fun _ _ => hknown t h.lasting key rfl⟩

theorem returns_tpmSeal (hA : Lasting M A) {key : Key} (hs : A s) :
    Ensures (sharing M).calls (tpmSeal key) s
      (Returns A fun blob _ => Encodes M key (M.blobJson.encode blob) .tpmMasterKey) := by
  refine quiet_pre hA rfl hs fun u r t _ hstep ht => ⟨ht,?_⟩
  rintro blob rfl
  obtain h | ⟨-,e,-,h⟩ := hstep
  · obtain rfl := Except.ok.inj (congrArg Prod.fst h)
    exact ⟨u.seals,rfl⟩
  · cases h

theorem returns_createNoclobber (hA : Lasting M A) {key : Key} (hs : A s) (hinstall : MayInstall M key s) :
    Ensures (sharing M).calls (TpmStore.createNoclobberWith M key) s
      (Returns A fun _ t => Holds M t.2 (some key)) := by
  have hA' := hA.mayInstall key
  refine Ensures.mono (P := Returns (fun s => A s ∧ MayInstall M key s)
    fun _ t => Holds M t.2 (some key)) ?_ fun r t h => ⟨h.lasting.1,h.value⟩
  apply returns_bind (returns_ensureParent hA' ⟨hs,hinstall⟩)
  intro _ _ ht _
  apply returns_bind (returns_tpmSeal hA' ht)
  intro blob _ ht hblob
  apply returns_bind (returns_writeSyncedTempSecretFile hA' ht)
  intro tmp _ ht htmp
  subst htmp
  refine ensures_ite.mpr ⟨nofun,fun _ => ?_⟩
  refine returns_bind (returns_withContext (returns_persistNoclobber hA' ht hblob ht.2))
    fun _ _ ht hkey => ?_
  exact returns_installed_holds hA' ht hkey

theorem returns_generateLocked (hA : Lasting M A) (hs : A s) :
    Ensures (sharing M).calls generateLocked s (Returns A fun _ _ => True) :=
  quiet_pre hA rfl hs fun _ _ _ _ _ ht => ⟨ht,fun _ _ => trivial⟩

/-- A process that found no file creates one, if it finds itself alone. -/
theorem returns_createAtomic (hA : Lasting M A) (hfound : ∀ s, A s → foundNoFile s.1 = true) (hs : A s) :
    Ensures (sharing M).calls FileStore.createAtomic s (Returns A fun _ _ => True) := by
  apply returns_bind (returns_ensureParent hA hs)
  intro _ _ ht _
  apply returns_bind (returns_generateLocked hA ht)
  intro key _ ht _
  apply returns_bind (returns_writeSyncedTempSecretFile hA ht)
  intro tmp t ht htmp
  refine ensures_bind.mpr (ensures_attempt.mpr (Ensures.mono
    (returns_persistNoclobber hA ht htmp (.inl (hfound t ht))) fun r t h => ?_))
  cases r with
  | ok u =>
    refine Ensures.mono (returns_installed hA h.lasting) fun r t h => ⟨h.lasting,fun _ _ => trivial⟩
  | error e =>
    refine ensures_ite.mpr ⟨fun _ => ensures_pure.mpr ⟨h.lasting,fun _ _ => trivial⟩,fun _ => ?_⟩
    exact ensures_liftResult.mpr ⟨h.lasting,fun _ _ => trivial⟩

theorem returns_fileGetOrCreate (hA : Lasting M A) (hfound : ∀ s, A s → foundNoFile s.1 = true) (hs : A s) :
    Ensures (sharing M).calls FileStore.getOrCreate s
      (Returns A fun key t => Holds M t.2 (some key)) := by
  refine ensures_bind.mpr (ensures_attempt.mpr (Ensures.mono (returns_fileGet hA hs) fun r t h => ?_))
  cases r with
  | ok key => exact ensures_pure.mpr h
  | error e =>
    exact returns_bind (returns_createAtomic hA hfound h.lasting) fun _ _ ht _ => returns_fileGet hA ht

theorem returns_tpmGetOrCreate (hA : Lasting M A) (hfound : ∀ s, A s → foundNoFile s.1 = true) (hs : A s) :
    Ensures (sharing M).calls (TpmStore.getOrCreateWith M) s
      (Returns A fun key t => Holds M t.2 (some key)) := by
  refine ensures_bind.mpr (ensures_attempt.mpr (Ensures.mono (returns_tpmGetWith hA hs) fun r t h => ?_))
  cases r with
  | ok key => exact ensures_pure.mpr h
  | error e =>
    refine ensures_ite.mpr ⟨fun _ => ?_,fun _ => ensures_liftResult.mpr (returns_error h.lasting)⟩
    apply returns_bind (returns_generateLocked hA h.lasting)
    intro key t ht _
    refine ensures_bind.mpr (ensures_attempt.mpr (Ensures.mono
      (returns_createNoclobber hA ht (.inl (hfound t ht))) fun r t h => ?_))
    cases r with
    | ok u => exact ensures_pure.mpr (returns_ok h.lasting (h.value _ rfl))
    | error e =>
      exact ensures_ite.mpr ⟨fun _ => returns_tpmGetWith hA h.lasting,
        fun _ => ensures_liftResult.mpr (returns_error h.lasting)⟩

/-- A migration of the key that the stores hold. -/
theorem returns_migrate (hA : Lasting M A) {key : Key} (hkey : ∀ s, A s → Holds M s.2 (some key)) (hs : A s) :
    Ensures (sharing M).calls (LinuxAuto.migrateFileKeyToTpm M key) s
      (Returns A fun key t => Holds M t.2 (some key)) := by
  have hreturn {t : Calls × World} (ht : A t) :
      Returns A (fun key t => Holds M t.2 (some key)) (.ok key) t := returns_ok ht (hkey t ht)
  refine ensures_bind.mpr (ensures_attempt.mpr (Ensures.mono (returns_tpmGetWith hA hs) fun r t h => ?_))
  cases r with
  | ok k =>
    exact ensures_ite.mpr ⟨fun _ => ensures_pure.mpr h,fun _ => ensures_liftResult.mpr (returns_error h.lasting)⟩
  | error e =>
    refine ensures_ite.mpr ⟨fun _ => ?_,fun _ => ensures_ite.mpr ⟨fun _ => ensures_pure.mpr (hreturn h.lasting),
      fun _ => ensures_liftResult.mpr (returns_error h.lasting)⟩⟩
    refine ensures_bind.mpr (ensures_attempt.mpr (Ensures.mono
      (returns_createNoclobber hA h.lasting (.inr (hkey t h.lasting))) fun r t h => ?_))
    cases r with
    | ok u => exact ensures_pure.mpr (hreturn h.lasting)
    | error e =>
      refine ensures_ite.mpr ⟨fun _ => ?_,fun _ => ensures_ite.mpr ⟨fun _ => ensures_pure.mpr (hreturn h.lasting),
        fun _ => ensures_liftResult.mpr (returns_error h.lasting)⟩⟩
      apply returns_bind (returns_tpmGetWith hA h.lasting)
      intro k t ht hk
      exact ensures_ite.mpr ⟨fun _ => ensures_pure.mpr (returns_ok ht hk),
        fun _ => ensures_liftResult.mpr (returns_error ht)⟩

theorem Lasting.foundNoFile (hA : Lasting M A) : Lasting M fun s => A s ∧ foundNoFile s.1 = true where
  stays h hstays := ⟨hA.stays h.1 hstays,h.2⟩
  cons x h := ⟨hA.cons x h.1,foundNoFile_cons x h.2⟩
  cell h := hA.cell h.1

theorem returns_pathExists (hA : Lasting M A) {path : Path} (hs : A s) :
    Ensures (sharing M).calls (pathExists path) s
      (Returns A fun found t => path = .machineKey → found = false → foundNoFile t.1 = true) := by
  refine quiet_pre hA rfl hs fun u r t _ _ ht => ⟨ht,?_⟩
  rintro found hfound rfl hnone
  obtain rfl := Except.ok.inj hfound
  subst hnone
  rfl

theorem returns_loadOrCreate (hA : Lasting M A) (hs : A s) :
    Ensures (sharing M).calls (LinuxAuto.loadOrCreate M) s
      (Returns A fun key t => Holds M t.2 (some key)) := by
  apply returns_bind (returns_pathExists hA hs)
  intro found s hs hfound
  refine ensures_ite.mpr ⟨fun _ => ?_,fun hnone => ?_⟩
  · apply returns_bind (returns_fileGet hA hs)
    intro key t ht hkey
    refine returns_known hA (.ok key) ht (fun _ h => Except.ok.inj h ▸ hkey) fun A' hA' hknown ht => ?_
    exact returns_migrate hA' (fun s hs => hknown s hs key rfl) ht
  have hA' := hA.foundNoFile
  have hs' := And.intro hs (hfound rfl (Bool.eq_false_of_not_eq_true hnone))
  refine Ensures.mono (P := Returns (fun s => A s ∧ foundNoFile s.1 = true)
    fun key t => Holds M t.2 (some key)) ?_ fun r t h => ⟨h.lasting.1,h.value⟩
  apply returns_bind (returns_pathExists hA' hs')
  intro _ t ht _
  refine ensures_ite.mpr ⟨fun _ => returns_tpmGetWith hA' ht,fun _ => ?_⟩
  refine ensures_bind.mpr (ensures_attempt.mpr (Ensures.mono
    (returns_tpmGetOrCreate hA' (fun _ h => h.2) ht) fun r t h => ?_))
  cases r with
  | ok key => exact ensures_pure.mpr h
  | error e =>
    exact ensures_ite.mpr ⟨fun _ => returns_fileGetOrCreate hA' (fun _ h => h.2) h.lasting,
      fun _ => ensures_liftResult.mpr (returns_error h.lasting)⟩

end Rules

/-! All processes together. -/

/-- Every process calls load-or-create. -/
def firstUse (M : Machine) (P : Type) (w : World) : Config P Call Call.Reply (Result Key) World :=
  .start (fun _ => (LinuxAuto.loadOrCreate M).run) w

/-- The key a process has returned. -/
def returned {P : Type} (d : Config P Call Call.Reply (Result Key) World) (i : P) : Option Key :=
  match (d.process i).program with
  | .done (.ok key) => some key
  | _ => none

theorem lasting_oneKey (M : Machine) : Lasting M fun s => ∃ cell, Holds M s.2 cell where
  stays := fun ⟨_,h⟩ hstays => (hstays _ h).imp fun _ h => h.1
  cons _ h := h
  cell h := h

/-- What a process meets whose TPM device another process holds. -/
def tpmBusy : Error := [.message "failed to initialize TPM context",.tss (.tcti .ioError) "IO error"]

/-- The outcome of a call, with the TPM busy or not. -/
def outcome (M : Machine) (busy : Bool) (c : Call) (w : World) : c.Reply × World :=
  if busy = true ∧ c.isTpm = true then ((c.failure tpmBusy).getD (perform M c w).1,w)
  else perform M c w

theorem mayFail_outcome (M : Machine) (busy : Bool) (c : Call) (w : World) :
    MayFail M TpmMayBeUnavailable w c (outcome M busy c w).1 (outcome M busy c w).2 := by
  by_cases h : busy = true ∧ c.isTpm = true
  · rw [outcome,if_pos h]
    have hbusy : TpmMayBeUnavailable c tpmBusy := ⟨h.2,by decide +kernel⟩
    cases c with
    | tpmSeal | tpmUnseal => exact .inr ⟨rfl,tpmBusy,hbusy,rfl⟩
    | _ => cases h.2
  · rw [outcome,if_neg h]
    exact .inl rfl

/-- Processes that each install only while alone agree on one key. -/
theorem firstUse_agrees {M : Machine} {P : Type} [DecidableEq P] {w : World}
    (hstart : w.file = none ∧ w.tpmFile = none)
    {events : List (Foundation.Event P Call Call.Reply World)}
    {d : Config P Call Call.Reply (Result Key) World}
    (hrun : Run (MayFail M TpmMayBeUnavailable) (firstUse M P w) events d)
    (hpermit : ∀ ev ∈ events, InstallsAlone ev.history ev.op ev.before) :
    (∀ i j key key', returned d i = some key → returned d j = some key' → key = key') ∧
      Agree M d.state := by
  let Q : P → Result Key → Calls × World → Prop := fun _ =>
    Returns (fun s => ∃ cell, Holds M s.2 cell) fun key t => Holds M t.2 (some key)
  have hstable : ∀ i, (sharing M).Stable (Q i) := fun _ r h s t hr hstays =>
    ⟨(lasting_oneKey M).stays hr.lasting hstays,fun key hkey => hstays.holds (hr.value key hkey)⟩
  obtain ⟨hsafe,hstays,-⟩ := Protocol.wp_run (R := sharing M) hstable hrun hpermit
    fun _ => returns_loadOrCreate (lasting_oneKey M) ⟨none,hstart⟩
  have hreturned : ∀ i key, returned d i = some key → Holds M d.state (some key) := by
    intro i key hkey
    have hdone : (d.process i).program = .done (.ok key) := by
      unfold returned at hkey
      split at hkey
      · next hprogram => rw [hprogram,Option.some.inj hkey]
      · cases hkey
    have hwp := hsafe i
    rw [hdone] at hwp
    exact hwp.value key rfl
  constructor
  · intro i j key key' hi hj
    exact Option.some.inj ((hreturned i key hi).unique (hreturned j key' hj))
  · obtain ⟨cell,hcell,-⟩ := hstays none hstart
    exact hcell.agree

/-- One process creates the key while the other has only looked for a file. -/
def orderly : List (Bool × Bool) := (true,false)::List.replicate 17 (false,false) ++ List.replicate 3 (true,false)

theorem firstUse_agrees_orderly : ∃ events d,
    Run (MayFail Machine.clear TpmMayBeUnavailable) (firstUse Machine.clear Bool World.empty) events d ∧
    returned d false = some (counterKey 0) ∧
    (∀ i j key key', returned d i = some key → returned d j = some key' → key = key') ∧
      Agree Machine.clear d.state := by
  have hrun := Run.nil.follow (c := firstUse Machine.clear Bool World.empty)
    (mayFail_outcome Machine.clear) orderly
  have hpermit : ∀ ev ∈ (firstUse Machine.clear Bool World.empty).trace (outcome Machine.clear) orderly,
      InstallsAlone ev.history ev.op ev.before := by decide +kernel
  exact ⟨_,_,hrun,by decide +kernel,firstUse_agrees ⟨rfl,rfl⟩ hrun hpermit⟩

/-- Two processes, of which one finds the TPM busy. It runs between the existence checks of the
other and the rest of it. -/
def overlapping : List (Bool × Bool) :=
  List.replicate 2 (false,false) ++ List.replicate 25 (true,true) ++ List.replicate 15 (false,false)

theorem overlapping_returned :
    returned ((firstUse Machine.clear Bool World.empty).follow (outcome Machine.clear) overlapping) false =
      some (counterKey 2) ∧
    returned ((firstUse Machine.clear Bool World.empty).follow (outcome Machine.clear) overlapping) true =
      some (counterKey 1) := by
  decide +kernel

/-- Two processes may return different keys. -/
theorem firstUse_disagrees : ¬ ∀ (events : List (Foundation.Event Bool Call Call.Reply World))
    (d : Config Bool Call Call.Reply (Result Key) World),
    Run (MayFail Machine.clear TpmMayBeUnavailable) (firstUse Machine.clear Bool World.empty) events d →
    (∀ i j key key', returned d i = some key → returned d j = some key' → key = key') ∧
      Agree Machine.clear d.state := by
  intro h
  have hrun := Run.nil.follow (c := firstUse Machine.clear Bool World.empty)
    (mayFail_outcome Machine.clear) overlapping
  obtain ⟨hfalse,htrue⟩ := overlapping_returned
  have hne : counterKey 2 ≠ counterKey 1 := by decide
  exact hne ((h _ _ hrun).1 false true _ _ hfalse htrue)

end Avault.Store
