import Avault.Store.Files

/-! What the operations on the two files can do, whatever calls may fail. -/
namespace Avault.Store
open Foundation Crypto
open Foundation.Program (Ensures ensures_bind ensures_pure ensures_ask ensures_mapResult)

section Rules

variable {σ α : Type} {T : Program.Transformer Call Call.Reply σ} {s : σ}

@[simp] theorem ensures_liftResult {r : Result α} {Q : Result α → σ → Prop} :
    Ensures T (liftResult r) s Q ↔ Q r s := Iff.rfl

@[simp] theorem ensures_withContext {text : String} {x : StoreM α} {Q : Result α → σ → Prop} :
    Ensures T (withContext text x) s Q ↔ Ensures T x s fun r t => Q (context text r) t :=
  ensures_mapResult

end Rules

section MayFail

variable {M : Machine} {allowed : Call → Error → Prop} {w : World}

/-- A run in which no call fails. -/
theorem exec_run {α : Type} {A : Call → Error → Prop} (p : Program Call Call.Reply α) (w : World) :
    Program.Exec (MayFail M A) p w (Program.run (perform M) p w).1 (Program.run (perform M) p w).2 :=
  Program.Exec.mono (fun _ _ _ _ h => .inl h) ((Program.exec_perform (perform M)).mpr rfl)

/-- A single call: its outcome, or the reply of a failure that is allowed. -/
theorem mayFail_call {c : Call} {Q : c.Reply → World → Prop} :
    (M.calls allowed).pre c Q w ↔ Q (perform M c w).1 (perform M c w).2 ∧
      ∀ e r, allowed c e → c.failure e = some r → Q r w := by
  constructor
  · intro h
    exact ⟨h _ _ (.inl rfl),fun e r ha hr => h r w (.inr ⟨rfl,e,ha,hr⟩)⟩
  · rintro ⟨hperform,hfail⟩ r t (h | ⟨rfl,e,ha,hr⟩)
    · obtain ⟨rfl,rfl⟩ := Prod.mk.inj h
      exact hperform
    · exact hfail e r ha hr

/-- The same where the reply of a failure is known. -/
theorem mayFail_call_failure {c : Call} {f : Error → c.Reply} (hf : ∀ e, c.failure e = some (f e))
    {Q : c.Reply → World → Prop} :
    (M.calls allowed).pre c Q w ↔
      Q (perform M c w).1 (perform M c w).2 ∧ ∀ e, allowed c e → Q (f e) w := by
  rw [mayFail_call]
  refine and_congr_right fun _ => ⟨fun h e ha => h e _ ha (hf e),fun h e r ha hr => ?_⟩
  rw [hf] at hr
  exact Option.some.inj hr ▸ h e ha

theorem mayFail_act {a : Act} {Q : Result Unit → World → Prop} :
    Ensures (M.calls allowed) (act a) w Q ↔ Q (performAct a w).1 (performAct a w).2 ∧
      ∀ e, allowed (.act a) e → Q (.error e) w :=
  mayFail_call_failure (c := .act a) fun _ => rfl

theorem mayFail_openFile {path : Path} {Q : Result Bytes → World → Prop} :
    Ensures (M.calls allowed) (openFile path) w Q ↔
      Q ((w.content path).elim (.error notFound) .ok) w ∧
      ∀ e, allowed (.openFile path) e → Q (.error e) w :=
  mayFail_call_failure (c := .openFile path) fun _ => rfl

theorem mayFail_tpmSeal {key : Key} {Q : Result TpmMasterBlob → World → Prop} :
    Ensures (M.calls allowed) (tpmSeal key) w Q ↔
      Q (.ok (M.sealMasterKey w.seals key)) { w with seals := w.seals+1 } ∧
      ∀ e, allowed (.tpmSeal key) e → Q (.error e) w :=
  mayFail_call_failure (c := .tpmSeal key) fun _ => rfl

theorem mayFail_tpmUnseal {blob : TpmMasterBlob} {Q : Result Key → World → Prop} :
    Ensures (M.calls allowed) (tpmUnseal blob) w Q ↔ Q (M.unsealMasterKey blob) w ∧
      ∀ e, allowed (.tpmUnseal blob) e → Q (.error e) w :=
  mayFail_call_failure (c := .tpmUnseal blob) fun _ => rfl

theorem mayFail_keychainRead {Q : Result Bytes → World → Prop} :
    Ensures (M.calls allowed) keychainRead w Q ↔
      Q (w.keychain.elim (.error keychainNotFound) .ok) w ∧
      ∀ e, allowed .keychainRead e → Q (.error e) w :=
  mayFail_call_failure (c := .keychainRead) fun _ => rfl

theorem mayFail_pathExists {path : Path} {Q : Result Bool → World → Prop} :
    Ensures (M.calls allowed) (pathExists path) w Q ↔ Q (.ok (w.content path).isSome) w ∧
      ∀ e, allowed (.pathExists path) e → Q (.ok false) w :=
  ensures_ask.trans (mayFail_call_failure (c := .pathExists path) (f := fun _ => false)
    (Q := fun b t => Q (.ok b) t) fun _ => rfl)

theorem mayFail_generateLocked {Q : Result Key → World → Prop} :
    Ensures (M.calls allowed) generateLocked w Q ↔
      Q (.ok (M.randomKey w.draws)) { w with draws := w.draws+1 } :=
  (ensures_ask.trans (mayFail_call (c := .drawKey) (Q := fun k t => Q (.ok k) t))).trans
    ⟨fun h => h.1,fun h => ⟨h,fun _ _ _ hr => nomatch hr⟩⟩

end MayFail

def Call.isTpm : Call → Bool
  | tpmSeal _ | tpmUnseal _ => true
  | _ => false

/-- Some call other than the TPM's may fail. -/
def FilesMayFail (allowed : Call → Error → Prop) : Prop := ∃ c e, allowed c e ∧ c.isTpm = false

/-- A program that only reads: the world stays, and the result is the given one unless one of
the errors strikes. -/
def Reads {α : Type} (E : Error → Prop) (w : World) (p : Result α) (r : Result α) (t : World) : Prop :=
  t = w ∧ (r = p ∨ ∃ e, E e ∧ r = .error e)

section Reads

variable {M : Machine} {allowed : Call → Error → Prop} {w : World} {α β : Type}
  {E E' : Error → Prop} {p : Result α}

theorem Reads.mono (h : ∀ e, E e → E' e) {x : StoreM α}
    (hx : Ensures (M.calls allowed) x w (Reads E w p)) :
    Ensures (M.calls allowed) x w (Reads E' w p) :=
  Ensures.mono hx fun _ _ ⟨ht,hr⟩ => ⟨ht,hr.imp_right fun ⟨e,he,hre⟩ => ⟨e,h e he,hre⟩⟩

theorem reads_withContext {text : String} {x : StoreM α} (h : ∀ e, E e → E' (.message text::e))
    (hx : Ensures (M.calls allowed) x w (Reads E w p)) :
    Ensures (M.calls allowed) (withContext text x) w (Reads E' w (context text p)) := by
  rw [ensures_withContext]
  apply Ensures.mono hx
  rintro r t ⟨rfl,rfl | ⟨e,he,rfl⟩⟩
  · exact ⟨rfl,.inl rfl⟩
  · exact ⟨rfl,.inr ⟨_,h e he,rfl⟩⟩

theorem reads_bind {x : StoreM α} {f : α → StoreM β} {g : α → Result β}
    (hx : Ensures (M.calls allowed) x w (Reads E w p))
    (hf : ∀ a, p = .ok a → Ensures (M.calls allowed) (f a) w (Reads E w (g a))) :
    Ensures (M.calls allowed) (x >>= f) w (Reads E w (p >>= g)) := by
  refine Ensures.bind hx ?_ ?_
  · rintro a t ⟨rfl,h | ⟨e,_,h⟩⟩
    · rw [← h]
      exact hf a h.symm
    · cases h
  · rintro e t ⟨rfl,h | ⟨e',he,h⟩⟩
    · exact ⟨rfl,.inl (by rw [← h]; rfl)⟩
    · cases h
      exact ⟨rfl,.inr ⟨e,he,rfl⟩⟩

theorem reads_liftResult : Ensures (M.calls allowed) (liftResult p) w (Reads E w p) :=
  ensures_liftResult.mpr ⟨rfl,.inl rfl⟩

theorem reads_act {a : Act} (h : (performAct a w).2 = w) :
    Ensures (M.calls allowed) (act a) w
      (Reads (fun _ => FilesMayFail allowed) w (performAct a w).1) :=
  mayFail_act.mpr ⟨⟨h,.inl rfl⟩,fun e he => ⟨rfl,.inr ⟨e,⟨_,e,he,rfl⟩,rfl⟩⟩⟩

theorem reads_openFile {path : Path} :
    Ensures (M.calls allowed) (openFile path) w (Reads (fun _ => FilesMayFail allowed) w
      ((w.content path).elim (.error notFound) .ok)) :=
  mayFail_openFile.mpr ⟨⟨rfl,.inl rfl⟩,fun e he => ⟨rfl,.inr ⟨e,⟨_,e,he,rfl⟩,rfl⟩⟩⟩

/-- Context around a program that only fails by a fault. -/
theorem reads_ok_withContext {text : String} {x : StoreM α} {a : α}
    (hx : Ensures (M.calls allowed) x w (Reads (fun _ => FilesMayFail allowed) w (.ok a))) :
    Ensures (M.calls allowed) (withContext text x) w
      (Reads (fun _ => FilesMayFail allowed) w (.ok a)) :=
  reads_withContext (p := .ok a) (fun _ h => h) hx

theorem reads_act_ok {text : String} {a : Act} (h : performAct a w = (.ok (),w)) :
    Ensures (M.calls allowed) (withContext text (act a)) w
      (Reads (fun _ => FilesMayFail allowed) w (.ok ())) := by
  apply reads_ok_withContext
  have hresult : (performAct a w).1 = .ok () := by rw [h]
  rw [← hresult]
  exact reads_act (by rw [h])

theorem reads_validateFileMode {path : Path} :
    Ensures (M.calls allowed) (validateFileMode path) w (Reads (fun _ => FilesMayFail allowed) w
      (context "failed to stat master key" (check (w.content path).isSome notFound))) :=
  reads_withContext (fun _ h => h) (reads_act rfl)

theorem reads_validateDirectoryMode :
    Ensures (M.calls allowed) validateDirectoryMode w (Reads (fun _ => FilesMayFail allowed) w
      (context "failed to stat master key directory" (check w.hasDirectory notFound))) :=
  reads_withContext (fun _ h => h) (reads_act rfl)

end Reads

/-- What `FileStore::get` returns when no call fails. -/
def fileRead (w : World) : Result Key := do
  context "failed to stat master key directory" (check w.hasDirectory notFound)
  context "failed to stat master key" (check w.file.isSome notFound)
  let content ← context "master key not found" (w.file.elim (.error notFound) .ok)
  bailIf (content.length < keyBytes) "master key has invalid length"
  FileStore.parseKey content

/-- What `TpmStore::get` returns when no call fails. -/
def tpmRead (M : Machine) (w : World) : Result Key := do
  context "failed to stat master key directory" (check w.hasDirectory notFound)
  context "failed to stat master key" (check w.tpmFile.isSome notFound)
  let bytes ← context "TPM master key not found" (w.tpmFile.elim (.error notFound) .ok)
  let blob ← TpmStore.parseBlob M bytes
  M.unsealMasterKey blob

section Specs

variable {M : Machine} {allowed : Call → Error → Prop} {w : World}

theorem reads_fileGet : Ensures (M.calls allowed) FileStore.get w
    (Reads (fun _ => FilesMayFail allowed) w (fileRead w)) := by
  apply reads_bind reads_validateDirectoryMode
  intro _ _
  apply reads_bind reads_validateFileMode
  intro _ _
  refine reads_bind (reads_withContext (fun _ h => h) reads_openFile) fun content _ => ?_
  refine reads_bind (p := .ok ()) (g := fun _ => do
    bailIf (content.length < keyBytes) "master key has invalid length"
    FileStore.parseKey content) (reads_act_ok rfl) fun _ _ => ?_
  apply reads_bind reads_liftResult
  intro _ _
  exact reads_bind (p := .ok ()) (g := fun _ => FileStore.parseKey content) (reads_act_ok rfl)
    fun _ _ => reads_liftResult

/-- The errors of reading the TPM blob: those of the files, and of unsealing. -/
def TpmReadError (allowed : Call → Error → Prop) (e : Error) : Prop :=
  FilesMayFail allowed ∨ ∃ blob, allowed (.tpmUnseal blob) e

theorem reads_tpmGetWith : Ensures (M.calls allowed) (TpmStore.getWith M) w
    (Reads (TpmReadError allowed) w (tpmRead M w)) := by
  have hfiles : ∀ e, FilesMayFail allowed → TpmReadError allowed e := fun _ h => .inl h
  apply reads_bind (Reads.mono hfiles reads_validateDirectoryMode)
  intro _ _
  apply reads_bind (Reads.mono hfiles reads_validateFileMode)
  intro _ _
  refine reads_bind (Reads.mono hfiles (reads_withContext (fun _ h => h) reads_openFile))
    fun bytes _ => ?_
  refine reads_bind (p := .ok ()) (g := fun _ => do
    let blob ← TpmStore.parseBlob M bytes
    M.unsealMasterKey blob) (Reads.mono hfiles (reads_act_ok rfl)) fun _ _ => ?_
  apply reads_bind reads_liftResult
  intro blob _
  exact mayFail_tpmUnseal.mpr ⟨⟨rfl,.inl rfl⟩,fun e he => ⟨rfl,.inr ⟨e,.inr ⟨blob,he⟩,rfl⟩⟩⟩

theorem reads_writeSyncedTempSecretFile {bytes : Bytes} (hdir : w.hasDirectory = true) :
    Ensures (M.calls allowed) (writeSyncedTempSecretFile bytes) w
      (Reads (fun _ => FilesMayFail allowed) w (.ok bytes)) := by
  have hcreate : performAct .createTemp w = (.ok (),w) := by simp [performAct,check,hdir]
  refine reads_bind (p := .ok ()) (g := fun _ => .ok bytes) (reads_act_ok hcreate) fun _ _ => ?_
  refine reads_bind (p := .ok ()) (g := fun _ => .ok bytes)
    (reads_ok_withContext (reads_act_ok rfl)) fun _ _ => ?_
  refine reads_bind (p := .ok ()) (g := fun _ => .ok bytes) (reads_act_ok rfl) fun _ _ => ?_
  refine reads_bind (p := .ok ()) (g := fun _ => .ok bytes) (reads_act_ok rfl) fun _ _ => ?_
  exact ensures_pure.mpr ⟨rfl,.inl rfl⟩

/-- The checks behind an install. -/
theorem reads_installed {path : Path} (hdir : w.hasDirectory = true)
    (hpath : (w.content path).isSome = true) :
    Ensures (M.calls allowed) (do validateFileMode path; syncParentDir) w
      (Reads (fun _ => FilesMayFail allowed) w (.ok ())) := by
  have hstat : performAct (.statFile path) w = (.ok (),w) := by simp [performAct,check,hpath]
  have hopen : performAct .openDirectory w = (.ok (),w) := by simp [performAct,check,hdir]
  refine reads_bind (p := .ok ()) (g := fun _ => .ok ()) (reads_act_ok hstat) fun _ _ => ?_
  exact reads_bind (p := .ok ()) (g := fun _ => .ok ()) (reads_act_ok hopen) fun _ _ =>
    reads_act_ok rfl

end Specs

/-! The world after a write, by what it holds. -/

def World.minted (w : World) : World := { w with draws := w.draws+1 }

/-- The same stored bytes and no key drawn. -/
structure Kept (w t : World) : Prop where
  file : t.file = w.file
  tpmFile : t.tpmFile = w.tpmFile
  keychain : t.keychain = w.keychain
  draws : t.draws = w.draws

structure FileInstalled (key : Key) (w t : World) : Prop where
  file : t.file = some key.toList
  tpmFile : t.tpmFile = w.tpmFile
  keychain : t.keychain = w.keychain
  draws : t.draws = w.draws

structure TpmInstalled (M : Machine) (key : Key) (w t : World) : Prop where
  tpmFile : ∃ n, t.tpmFile = some (M.blobJson.encode (M.sealMasterKey n key))
  file : t.file = w.file
  keychain : t.keychain = w.keychain
  draws : t.draws = w.draws

theorem Kept.refl (w : World) : Kept w w := ⟨rfl,rfl,rfl,rfl⟩

theorem Kept.trans {u v w : World} (h : Kept u v) (h' : Kept v w) : Kept u w :=
  ⟨h'.file.trans h.file,h'.tpmFile.trans h.tpmFile,h'.keychain.trans h.keychain,
    h'.draws.trans h.draws⟩

theorem Kept.tpmInstalled {M : Machine} {key : Key} {u v w : World} (h : Kept u v)
    (h' : TpmInstalled M key v w) : TpmInstalled M key u w :=
  ⟨h'.tpmFile,h'.file.trans h.file,h'.keychain.trans h.keychain,h'.draws.trans h.draws⟩

/-- How a write ends: it is done, it is refused before the install, or it fails after it. -/
inductive WriteOutcome (faults : Prop) (refuses : Error → Prop) (w : World) (installed : World → Prop) :
    Result Unit → World → Prop
  | done {t} : installed t → WriteOutcome faults refuses w installed (.ok ()) t
  | refused {e t} : faults ∨ refuses e → Kept w t → WriteOutcome faults refuses w installed (.error e) t
  | late {e t} : faults → installed t → WriteOutcome faults refuses w installed (.error e) t

section Specs

variable {M : Machine} {allowed : Call → Error → Prop} {w : World}

theorem ensureParent_spec : Ensures (M.calls allowed) ensureParent w fun r t => Kept w t ∧
    (r = .ok () ∧ t.hasDirectory = true ∨ ∃ e, r = .error e ∧ FilesMayFail allowed) := by
  have hdir : World.hasDirectory { w with directory := true } = true := by simp [World.hasDirectory]
  refine ensures_bind.mpr (mayFail_act.mpr ⟨?_,fun e he =>
    ⟨Kept.refl w,.inr ⟨e,rfl,_,e,he,rfl⟩⟩⟩)
  apply Ensures.mono (reads_validateDirectoryMode (w := { w with directory := true }))
  rintro r t ⟨rfl,rfl | ⟨e,he,rfl⟩⟩
  · rw [hdir]
    exact ⟨⟨rfl,rfl,rfl,rfl⟩,.inl ⟨rfl,hdir⟩⟩
  · exact ⟨⟨rfl,rfl,rfl,rfl⟩,.inr ⟨e,rfl,he⟩⟩

/-- After `ensure_parent`, a write goes on in a directory that is there. -/
theorem ensureParent_bind {α : Type} {f : Unit → StoreM α} {Q : Result α → World → Prop}
    (hok : ∀ t, Kept w t → t.hasDirectory = true → Ensures (M.calls allowed) (f ()) t Q)
    (herr : FilesMayFail allowed → ∀ e t, Kept w t → Q (.error e) t) :
    Ensures (M.calls allowed) (ensureParent >>= f) w Q := by
  refine Ensures.bind ensureParent_spec ?_ ?_
  · rintro ⟨⟩ t ⟨hkept,⟨_,hdir⟩ | ⟨_,h,_⟩⟩
    · exact hok t hkept hdir
    · cases h
  · rintro e t ⟨hkept,⟨h,_⟩ | ⟨_,_,hfiles⟩⟩
    · cases h
    · exact herr hfiles e t hkept

theorem performAct_persistNoclobber_none {path : Path} {bytes : Bytes}
    (h : w.content path = none) :
    performAct (.persistNoclobber path bytes) w = (.ok (),w.install bytes path) := by
  simp [performAct,h]

theorem performAct_persistNoclobber_some {path : Path} {bytes : Bytes}
    (h : (w.content path).isSome = true) :
    performAct (.persistNoclobber path bytes) w = (.error alreadyExists,w) := by
  simp [performAct,h]

/-- An install with the checks behind it. -/
theorem install_spec {path : Path} {bytes : Bytes} {force : Bool} {forceText text : String}
    (hdir : w.hasDirectory = true) :
    Ensures (M.calls allowed) (do
      let tmp ← writeSyncedTempSecretFile bytes
      if force then withContext forceText (act (.persist path tmp))
      else withContext text (act (.persistNoclobber path tmp))
      validateFileMode path
      syncParentDir) w
    (WriteOutcome (FilesMayFail allowed)
      (fun e => force = false ∧ (w.content path).isSome ∧ isAlreadyExistsError e) w
      fun t => (force = true ∨ w.content path = none) ∧ t = w.install bytes path) := by
  have hinstalled (h : force = true ∨ w.content path = none) :
      Ensures (M.calls allowed) (do validateFileMode path; syncParentDir) (w.install bytes path)
      (WriteOutcome (FilesMayFail allowed)
        (fun e => force = false ∧ (w.content path).isSome ∧ isAlreadyExistsError e) w
        fun t => (force = true ∨ w.content path = none) ∧ t = w.install bytes path) := by
    have hdir' : (w.install bytes path).hasDirectory = true := by
      cases path <;> simp [World.install,World.hasDirectory]
    have hpath : ((w.install bytes path).content path).isSome = true := by
      cases path <;> rfl
    apply Ensures.mono (reads_installed hdir' hpath)
    rintro r t ⟨rfl,rfl | ⟨e,he,rfl⟩⟩
    · exact .done ⟨h,rfl⟩
    · exact .late he ⟨h,rfl⟩
  refine Ensures.bind (reads_writeSyncedTempSecretFile hdir) ?_ ?_
  · rintro tmp t ⟨rfl,h | ⟨_,_,h⟩⟩
    · cases h
      cases force with
      | true =>
        refine ensures_bind.mpr (ensures_withContext.mpr (mayFail_act.mpr ⟨?_,fun e he => ?_⟩))
        · exact hinstalled (.inl rfl)
        · exact .refused (.inl ⟨_,e,he,rfl⟩) (Kept.refl t)
      | false =>
        refine ensures_bind.mpr (ensures_withContext.mpr (mayFail_act.mpr ⟨?_,fun e he => ?_⟩))
        · by_cases hsome : (t.content path).isSome = true
          · rw [performAct_persistNoclobber_some hsome]
            exact .refused (.inr ⟨rfl,hsome,rfl⟩) (Kept.refl t)
          · have hnone := Option.not_isSome_iff_eq_none.mp hsome
            rw [performAct_persistNoclobber_none hnone]
            exact hinstalled (.inr hnone)
        · exact .refused (.inl ⟨_,e,he,rfl⟩) (Kept.refl t)
    · cases h
  · rintro e t ⟨rfl,h | ⟨_,he,h⟩⟩
    · cases h
    · exact .refused (.inl he) (Kept.refl t)

theorem WriteOutcome.mono {F : Prop} {R R' : Error → Prop} {u w : World} {I I' : World → Prop}
    (hR : ∀ e, R e → R' e) (hI : ∀ t, I t → I' t) (hK : Kept u w) {r : Result Unit} {t : World}
    (h : WriteOutcome F R w I r t) : WriteOutcome F R' u I' r t := by
  cases h with
  | done hi => exact .done (hI t hi)
  | refused hr hk => exact .refused (hr.imp_right (hR _)) (hK.trans hk)
  | late hf hi => exact .late hf (hI t hi)

/-- The existence check in front of an import. Where it fails, the import goes on. -/
theorem refuseExisting_bind {path : Path} {force : Bool} {rest : StoreM Unit}
    {Q : Result Unit → World → Prop} (hrest : Ensures (M.calls allowed) rest w Q)
    (hrefuse : force = false → (w.content path).isSome = true → Q (bail "master key already exists") w) :
    Ensures (M.calls allowed) (do
      let existing ← pathExists path
      liftResult (bailIf (existing = true ∧ force = false) "master key already exists")
      rest) w Q := by
  refine ensures_bind.mpr (mayFail_pathExists.mpr ⟨?_,fun e he => ?_⟩)
  · refine ensures_bind.mpr (ensures_liftResult.mpr ?_)
    by_cases h : (w.content path).isSome = true ∧ force = false
    · rw [bailIf,if_pos h]
      exact hrefuse h.2 h.1
    · rw [bailIf_neg h]
      exact hrest
  · exact ensures_bind.mpr (ensures_liftResult.mpr hrest)

theorem fileImport_spec {key : Key} {force : Bool} :
    Ensures (M.calls allowed) (FileStore.importKey key force) w
      (WriteOutcome (FilesMayFail allowed) (fun _ => force = false ∧ w.file.isSome) w
        fun t => (force = true ∨ w.file = none) ∧ FileInstalled key w t) := by
  refine ensureParent_bind (fun u hkept hdir => ?_) fun hf e t hkept => .refused (.inl hf) hkept
  refine refuseExisting_bind (Ensures.mono (install_spec hdir) fun r t h => ?_) fun hforce hsome => ?_
  · refine WriteOutcome.mono ?_ ?_ hkept h
    · rintro e ⟨hforce,hsome,_⟩
      rw [← hkept.file]
      exact ⟨hforce,hsome⟩
    · rintro t ⟨hforce,rfl⟩
      rw [← hkept.file]
      exact ⟨hforce,rfl,hkept.tpmFile,hkept.keychain,hkept.draws⟩
  · rw [← hkept.file]
    exact .refused (.inr ⟨hforce,hsome⟩) hkept

/-- `create_noclobber_with` and `create_force_with`. -/
theorem tpmCreate_spec {key : Key} {force : Bool} :
    Ensures (M.calls allowed) (TpmStore.createWith M key force) w
      (WriteOutcome (FilesMayFail allowed) (fun e => allowed (.tpmSeal key) e ∨
          force = false ∧ w.tpmFile.isSome ∧ isAlreadyExistsError e) w
        fun t => (force = true ∨ w.tpmFile = none) ∧ TpmInstalled M key w t) := by
  refine ensureParent_bind (fun u hkept hdir => ?_) fun hf e t hkept => .refused (.inl hf) hkept
  refine ensures_bind.mpr (mayFail_tpmSeal.mpr ⟨?_,fun e he => .refused (.inr (.inl he)) hkept⟩)
  have hdir' : World.hasDirectory { u with seals := u.seals+1 } = true := hdir
  have hkept' : Kept w { u with seals := u.seals+1 } :=
    ⟨hkept.file,hkept.tpmFile,hkept.keychain,hkept.draws⟩
  apply Ensures.mono (install_spec hdir')
  intro r t h
  refine WriteOutcome.mono ?_ ?_ hkept' h
  · intro e he
    rw [← hkept.tpmFile]
    exact .inr he
  · rintro t ⟨hforce,rfl⟩
    rw [← hkept.tpmFile]
    exact ⟨hforce,⟨_,rfl⟩,hkept.file,hkept.keychain,hkept.draws⟩

theorem tpmImport_spec {key : Key} {force : Bool} :
    Ensures (M.calls allowed) (TpmStore.importWith M key force) w
      (WriteOutcome (FilesMayFail allowed) (fun e => allowed (.tpmSeal key) e ∨
          force = false ∧ w.tpmFile.isSome) w
        fun t => (force = true ∨ w.tpmFile = none) ∧ TpmInstalled M key w t) := by
  refine ensureParent_bind (fun u hkept _ => ?_) fun hf e t hkept => .refused (.inl hf) hkept
  have hcreate : (if force then TpmStore.createForceWith M key
      else TpmStore.createNoclobberWith M key) = TpmStore.createWith M key force := by
    cases force <;> rfl
  rw [hcreate]
  refine refuseExisting_bind (Ensures.mono tpmCreate_spec fun r t h => ?_) fun hforce hsome => ?_
  · refine WriteOutcome.mono ?_ ?_ hkept h
    · rintro e (he | ⟨hforce,hsome,_⟩)
      · exact .inl he
      · rw [← hkept.tpmFile]
        exact .inr ⟨hforce,hsome⟩
    · rintro t ⟨hforce,ht⟩
      rw [← hkept.tpmFile]
      exact ⟨hforce,hkept.tpmInstalled ht⟩
  · rw [← hkept.tpmFile]
    exact .refused (.inr (.inr ⟨hforce,hsome⟩)) hkept

end Specs
end Avault.Store
