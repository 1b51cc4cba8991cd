import Avault.Crypto.Concrete
import Avault.Store.Concrete
import Avault.Store.Cooldown
import Avault.Store.KeyFile

/-! One winner for each key file, in every run of all processes. -/
namespace Avault.KeyFile
open Foundation Crypto
open Foundation.Program
open SecretFile (File FileOp FileM Files FileStep secretMode directory ensureParent validateFileMode pathExists
  setPermissions writeAll syncAll tempfileIn dropTemp droppingTemp persistNoclobber syncParentDir
  writeSyncedTempSecretFile installImported installCreated)
open Store (Machine TpmMasterBlob)

/-! What the processes count on. -/

section Rely

variable {P Path : Type} {target : Path}

/-- A key file that is there stays as it is. -/
def Kept (target : Path) (s t : KeyWorld P Path) : Prop :=
  ∀ file, s.files target = some file → t.files target = some file

/-- The temporary file of a process. -/
structure Owns (target : Path) (me : P) (tmp : Path) (file : File) (s : KeyWorld P Path) : Prop where
  ne : tmp ≠ target
  creator : s.creator tmp = some me
  file : s.files tmp = some file

/-- The others leave the key file alone, and the temporary files of the process. -/
structure LeavesAlone (target : Path) (me : P) (s t : KeyWorld P Path) : Prop where
  kept : Kept target s t
  temp : ∀ tmp file, Owns target me tmp file s → Owns target me tmp file t

theorem Kept.refl (s : KeyWorld P Path) : Kept target s s := fun _ h => h

theorem Kept.trans {s t u : KeyWorld P Path} (h : Kept target s t) (h' : Kept target t u) : Kept target s u :=
  fun file hfile => h' file (h file hfile)

theorem LeavesAlone.refl (me : P) (s : KeyWorld P Path) : LeavesAlone target me s s := ⟨.refl s,fun _ _ h => h⟩

theorem LeavesAlone.trans {me : P} {s t u : KeyWorld P Path} (h : LeavesAlone target me s t)
    (h' : LeavesAlone target me t u) : LeavesAlone target me s u :=
  ⟨h.kept.trans h'.kept,fun tmp file howns => h'.temp tmp file (h.temp tmp file howns)⟩

/-- A process changes its own temporary files only, and installs only what it may write. -/
def Owned (target : Path) (writes : Bytes → Prop) (me : P) (s : KeyWorld P Path) : FileOp Path → Prop
  | .setPermissions path _ | .writeAll path _ | .dropTemp path => ∃ file, Owns target me path file s
  | .persist _ _ => False
  | .persistNoclobber tmp path => path = target ∧ ∃ file, Owns target me tmp file s ∧ writes file.content
  | .parentExists | .directory _ | .pathExists _ | .tempfileIn _ _ | .syncAll _ | .metadataMode _ => True

def demand (target : Path) (writes : P → Bytes → Prop) (me : P) : KeyOp P Path → KeyWorld P Path → Prop
  | .file me' op,s => me' = me ∧ Owned target (writes me) me s op
  | _,_ => True

variable [DecidableEq Path] {M : Machine}

def keyFile (M : Machine) (target : Path) (writes : P → Bytes → Prop) :
    Roles P (KeyOp P Path) KeyOp.Reply (KeyWorld P Path) where
  step := KeyStep M target
  rely := LeavesAlone target
  demand me _ := demand target writes me
  rely_refl := LeavesAlone.refl
  rely_trans := LeavesAlone.trans

variable {s t : KeyWorld P Path} {me : P} {tmp : Path} {file : File}

/-- A change of the process's own temporary file is nothing to the others. -/
theorem Owns.leavesAlone (h : Owns target me tmp file s) (entry : Option File) {j : P} (hj : j ≠ me) :
    LeavesAlone target j s ⟨Function.update s.files tmp entry,s.creator⟩ := by
  refine ⟨fun file' hfile => (Function.update_of_ne h.ne.symm _ _).trans hfile,fun tmp' file' howns => ?_⟩
  have hne : tmp' ≠ tmp := by
    rintro rfl
    exact hj (Option.some.inj (howns.creator.symm.trans h.creator))
  exact ⟨howns.ne,howns.creator,(Function.update_of_ne hne _ _).trans howns.file⟩

/-- An install where there was no key file is nothing to the others. -/
theorem leavesAlone_install (hnone : s.files target = none) (j : P) :
    LeavesAlone target j s ⟨Function.update s.files target (some file),s.creator⟩ := by
  refine ⟨fun file' hfile => ?_,fun tmp' file' howns =>
    ⟨howns.ne,howns.creator,(Function.update_of_ne howns.ne _ _).trans howns.file⟩⟩
  rw [hnone] at hfile
  cases hfile

/-- What a call of one process does to what the others count on. -/
theorem KeyStep.leavesAlone {writes : P → Bytes → Prop} {op : KeyOp P Path} {r : op.Reply}
    (h : KeyStep M target s op r t) (hdemand : demand target writes me op s) {j : P} (hj : j ≠ me) :
    LeavesAlone target j s t := by
  cases h with
  | file hfile =>
    obtain ⟨rfl,howned⟩ := hdemand
    cases hfile with
    | @tempfileIn _ _ tmp _ hfresh hne _ =>
      refine ⟨fun file hfile => (Function.update_of_ne hne.symm _ _).trans hfile,fun tmp' file' howns => ?_⟩
      have hother : tmp' ≠ tmp := by
        rintro rfl
        have hfile := howns.file
        rw [hfresh] at hfile
        cases hfile
      exact ⟨howns.ne,(Function.update_of_ne hother _ _).trans howns.creator,
        (Function.update_of_ne hother _ _).trans howns.file⟩
    | setPermissions _ | writeAll _ | writeAllFailed _ _ _ | dropTemp =>
      obtain ⟨file,howns⟩ := howned
      exact howns.leavesAlone _ hj
    | persist => exact howned.elim
    | persistNoclobber _ hnone =>
      obtain ⟨rfl,file,howns,-⟩ := howned
      refine (howns.leavesAlone none hj).trans (leavesAlone_install ?_ j)
      exact (Function.update_of_ne howns.ne.symm _ _).trans hnone
    | _ => exact .refl j s
  | _ => exact .refl j s

/-- The key file stays as it is, or is installed where there was none. -/
theorem KeyStep.atTarget {writes : P → Bytes → Prop} {op : KeyOp P Path} {r : op.Reply} (history : KeyCalls P Path)
    (h : KeyStep M target s op r t) (hdemand : demand target writes me op s) :
    (t.files target = s.files target ∧ ¬ Installs target ⟨me,history,op,r,s,t⟩) ∨
      s.files target = none ∧ ∃ file, t.files target = some file ∧ writes me file.content ∧
        Installs target ⟨me,history,op,r,s,t⟩ := by
  cases h with
  | file hfile =>
    obtain ⟨rfl,howned⟩ := hdemand
    cases hfile with
    | tempfileIn _ hne _ => exact .inl ⟨Function.update_of_ne hne.symm _ _,fun h => by cases h⟩
    | setPermissions _ | writeAll _ | writeAllFailed _ _ _ | dropTemp =>
      obtain ⟨file,howns⟩ := howned
      exact .inl ⟨Function.update_of_ne howns.ne.symm _ _,fun h => by cases h⟩
    | persist => exact howned.elim
    | persistNoclobber hfile hnone =>
      obtain ⟨rfl,file,howns,hwrites⟩ := howned
      obtain rfl := Option.some.inj (howns.file.symm.trans hfile)
      exact .inr ⟨hnone,file,Function.update_self ..,hwrites,.noclobber⟩
    | _ => exact .inl ⟨rfl,fun h => by cases h⟩
  | _ => exact .inl ⟨rfl,fun h => by cases h⟩

theorem KeyStep.kept {writes : P → Bytes → Prop} {op : KeyOp P Path} {r : op.Reply} (h : KeyStep M target s op r t)
    (hdemand : demand target writes me op s) : Kept target s t := by
  intro file hfile
  obtain ⟨hsame,-⟩ | ⟨hnone,-⟩ := h.atTarget [] hdemand
  · exact hsame.trans hfile
  · rw [hnone] at hfile
    cases hfile

end Rely

/-! One process. -/

abbrev KeyState (P Path : Type) := KeyCalls P Path × KeyWorld P Path

section Rules

variable {P Path α : Type} {target : Path} {A : KeyState P Path → Prop}

/-- What a process knows, whatever the others and itself do next. -/
structure Lasting (target : Path) (A : KeyState P Path → Prop) : Prop where
  stays : ∀ {h s t}, A (h,s) → Kept target s t → A (h,t)
  cons : ∀ {h s} x, A (h,s) → A (x::h,s)

theorem Lasting.and {B : KeyState P Path → Prop} (hA : Lasting target A) (hB : Lasting target B) :
    Lasting target fun s => A s ∧ B s where
  stays h hkept := ⟨hA.stays h.1 hkept,hB.stays h.2 hkept⟩
  cons x h := ⟨hA.cons x h.1,hB.cons x h.2⟩

theorem lasting_true : Lasting (P := P) target fun _ => True := ⟨fun _ _ => trivial,fun _ _ => trivial⟩

variable [DecidableEq Path] {M : Machine} {writes : P → Bytes → Prop} {me : P} {s : KeyState P Path}

abbrev keyCalls (M : Machine) (target : Path) (writes : P → Bytes → Prop) (me : P) :
    Transformer (KeyOp P Path) KeyOp.Reply (KeyState P Path) := (keyFile M target writes).calls me

abbrev fileCalls (M : Machine) (target : Path) (writes : P → Bytes → Prop) (me : P) :
    Transformer (FileOp Path) FileOp.Reply (KeyState P Path) :=
  (keyCalls M target writes me).comap (KeyOp.file me) fun _ r => r

theorem call_pre (op : KeyOp P Path) {Q : op.Reply → KeyState P Path → Prop} (hA : Lasting target A) (hs : A s)
    (h : ∀ u, LeavesAlone target me s.2 u → demand target writes me op u ∧ ∀ r t, KeyStep M target u op r t →
      A (⟨op,r⟩::s.1,t) → Q r (⟨op,r⟩::s.1,t)) : (keyCalls M target writes me).pre op Q s := by
  intro u hu
  obtain ⟨hdemand,hnext⟩ := h u hu
  refine ⟨hdemand,fun r t hstep => ⟨fun j hj => hstep.leavesAlone hdemand hj,hnext r t hstep ?_⟩⟩
  exact hA.cons _ (hA.stays (hA.stays hs hu.kept) (hstep.kept hdemand))

theorem file_pre (op : FileOp Path) {Q : op.Reply → KeyState P Path → Prop} (hA : Lasting target A) (hs : A s)
    (h : ∀ u, LeavesAlone target me s.2 u → Owned target (writes me) me u op ∧ ∀ r files,
      FileStep target u.files op r files → A (⟨.file me op,r⟩::s.1,⟨files,u.created me op r⟩) →
      Q r (⟨.file me op,r⟩::s.1,⟨files,u.created me op r⟩)) : (fileCalls M target writes me).pre op Q s := by
  refine call_pre (.file me op) hA hs fun u hu => ⟨⟨rfl,(h u hu).1⟩,fun r t hstep ht => ?_⟩
  cases hstep with
  | file hfile => exact (h u hu).2 _ _ hfile ht

/-- The calls that change no file. -/
def quiet : FileOp Path → Bool
  | .parentExists | .directory _ | .pathExists _ | .syncAll _ | .metadataMode _ => true
  | .tempfileIn _ _ | .setPermissions _ _ | .writeAll _ _ | .persist _ _ | .persistNoclobber _ _ | .dropTemp _ => false

theorem fileStep_quiet {op : FileOp Path} (hop : quiet op = true) {files files' : Files Path} {r : op.Reply}
    (h : FileStep target files op r files') : files' = files := by
  cases h with
  | parentExists | directory | pathExists | syncAll | metadataMode | metadataModeFailed => rfl
  | _ => cases hop

theorem quiet_pre (op : FileOp Path) (hop : quiet op = true) {Q : op.Reply → KeyState P Path → Prop}
    (hA : Lasting target A) (hs : A s) (hQ : ∀ r t, LeavesAlone target me s.2 t.2 → A t → Q r t) :
    (fileCalls M target writes me).pre op Q s := by
  refine file_pre op hA hs fun u hu => ⟨?_,fun r files hstep ht => hQ r _ ?_ ht⟩
  · cases op with
    | parentExists | directory | pathExists | syncAll | metadataMode => trivial
    | _ => cases hop
  · obtain rfl := fileStep_quiet hop hstep
    cases op with
    | parentExists | directory | pathExists | syncAll | metadataMode => exact hu
    | _ => cases hop

theorem gives_context {Op : Type} {Reply : Op → Type} {σ : Type} {T : Transformer Op Reply σ} {A : σ → Prop}
    {B : α → σ → Prop} {s : σ} {text : String} {x : Fallible Op Reply Error α} (hx : Ensures T x s (Gives A B)) :
    Ensures T (mapResult (context text) x) s (Gives A B) := gives_mapResult (fun _ _ h => context_eq_ok.mp h) hx

theorem gives_directory (call : SecretFile.DirectoryCall) (hA : Lasting target A) (hs : A s) :
    Ensures (fileCalls M target writes me) (directory call) s (Gives A fun _ _ => True) :=
  quiet_pre (.directory call) rfl hA hs fun _ _ _ ht => ⟨ht,fun _ _ => trivial⟩

theorem gives_pathExists (path : Path) (hA : Lasting target A) (hs : A s) :
    Ensures (fileCalls M target writes me) (pathExists path) s (Gives A fun _ _ => True) :=
  quiet_pre (.pathExists path) rfl hA hs fun _ _ _ ht => ⟨ht,fun _ _ => trivial⟩

theorem gives_ensureParent (hA : Lasting target A) (hs : A s) :
    Ensures (fileCalls M target writes me) ensureParent s (Gives A fun _ _ => True) :=
  gives_bind (gives_directory _ hA hs) fun _ _ ht _ => gives_directory _ hA ht

theorem gives_validateFileMode (path : Path) (hA : Lasting target A) (hs : A s) :
    Ensures (fileCalls M target writes me) (validateFileMode path) s (Gives A fun _ _ => True) := by
  have hmode : Ensures (fileCalls M target writes me) (SecretFile.metadataMode path) s (Gives A fun _ _ => True) :=
    quiet_pre (.metadataMode path) rfl hA hs fun _ _ _ ht => ⟨ht,fun _ _ => trivial⟩
  exact gives_bind (gives_context hmode) fun _ _ ht _ => ⟨ht,fun _ _ => trivial⟩

theorem gives_syncParentDir (hA : Lasting target A) (hs : A s) :
    Ensures (fileCalls M target writes me) syncParentDir s (Gives A fun _ _ => True) :=
  gives_bind (gives_context (gives_directory _ hA hs)) fun _ _ ht _ => gives_context (gives_directory _ hA ht)

/-! The temporary file of the process. -/

variable {tmp : Path} {file : File} {bytes : Bytes} {front back text : String} {B : α → KeyState P Path → Prop}

/-- An error ends with the temporary file dropped. -/
theorem gives_droppingTemp {x : FileM Path α} (hA : Lasting target A)
    (hx : Ensures (fileCalls M target writes me) x s fun r t =>
      A t ∧ ((∃ a, r = .ok a ∧ B a t) ∨ ∃ e file, r = .error e ∧ Owns target me tmp file t.2)) :
    Ensures (fileCalls M target writes me) (droppingTemp tmp x) s (Gives A B) := by
  refine ensures_bind.mpr (ensures_attempt.mpr (hx.mono ?_))
  rintro r t ⟨ht,⟨a,rfl,ha⟩ | ⟨e,file,rfl,howns⟩⟩
  · exact gives_ok ht ha
  · refine ensures_bind.mpr (file_pre (.dropTemp tmp) hA ht fun u hu => ⟨⟨file,hu.temp _ _ howns⟩,fun _ _ _ hv => ?_⟩)
    exact gives_error hv

theorem gives_tempfileIn (hA : Lasting target A) (hs : A s) :
    Ensures (fileCalls M target writes me) (tempfileIn front back) s
      (Gives A fun tmp t => ∃ mode, Owns target me tmp ⟨[],mode⟩ t.2) := by
  refine file_pre (.tempfileIn front back) hA hs fun u hu => ⟨trivial,fun r files hstep ht => ?_⟩
  cases hstep with
  | tempfileIn hfresh hne _ => exact gives_ok ht ⟨_,hne,Function.update_self ..,Function.update_self ..⟩
  | tempfileInFailed e => exact gives_error ht

theorem writing_setPermissions (mode : ℕ) (hA : Lasting target A) (hs : A s) (howns : Owns target me tmp file s.2) :
    Ensures (fileCalls M target writes me) (setPermissions tmp mode) s fun r t => A t ∧
      ((r = .ok () ∧ Owns target me tmp ⟨file.content,mode⟩ t.2) ∨ ∃ e, r = .error e ∧ Owns target me tmp file t.2) := by
  apply file_pre (.setPermissions tmp mode) hA hs
  intro u hu
  have howns' := hu.temp _ _ howns
  refine ⟨⟨_,howns'⟩,fun r files hstep ht => ⟨ht,?_⟩⟩
  cases hstep with
  | setPermissions hfile =>
    obtain rfl := Option.some.inj (howns'.file.symm.trans hfile)
    exact .inl ⟨rfl,howns'.ne,howns'.creator,Function.update_self ..⟩
  | setPermissionsFailed e => exact .inr ⟨e,rfl,howns'⟩

theorem writing_writeAll {mode : ℕ} (hA : Lasting target A) (hs : A s) (howns : Owns target me tmp ⟨[],mode⟩ s.2) :
    Ensures (fileCalls M target writes me) (writeAll tmp bytes) s fun r t => A t ∧
      ((r = .ok () ∧ Owns target me tmp ⟨bytes,mode⟩ t.2) ∨ ∃ e file, r = .error e ∧ Owns target me tmp file t.2) := by
  apply file_pre (.writeAll tmp bytes) hA hs
  intro u hu
  have howns' := hu.temp _ _ howns
  refine ⟨⟨_,howns'⟩,fun r files hstep ht => ⟨ht,?_⟩⟩
  cases hstep with
  | writeAll hfile =>
    obtain rfl := Option.some.inj (howns'.file.symm.trans hfile)
    exact .inl ⟨rfl,howns'.ne,howns'.creator,Function.update_self ..⟩
  | writeAllFailed e hfile _ =>
    exact .inr ⟨e,_,rfl,howns'.ne,howns'.creator,Function.update_self ..⟩

theorem gives_writeSyncedTempSecretFile (hA : Lasting target A) (hs : A s) :
    Ensures (fileCalls M target writes me) (writeSyncedTempSecretFile front back bytes) s
      (Gives A fun tmp t => Owns target me tmp ⟨bytes,secretMode⟩ t.2) := by
  apply gives_bind (gives_context (gives_tempfileIn hA hs))
  intro tmp t ht howns
  obtain ⟨mode,howns⟩ := howns
  refine gives_bind (B := fun _ t => Owns target me tmp ⟨bytes,secretMode⟩ t.2) (gives_droppingTemp hA ?_)
    fun _ _ ht howns => gives_ok ht howns
  refine ensures_bind.mpr (ensures_mapResult.mpr (ensures_mapResult.mpr ((writing_setPermissions _ hA ht howns).mono ?_)))
  rintro r t ⟨ht,⟨rfl,howns⟩ | ⟨e,rfl,howns⟩⟩
  · refine ensures_bind.mpr (ensures_mapResult.mpr ((writing_writeAll hA ht howns).mono ?_))
    rintro r t ⟨ht,⟨rfl,howns⟩ | ⟨e,file,rfl,howns⟩⟩
    · refine ensures_mapResult.mpr (quiet_pre (.syncAll tmp) rfl hA ht fun r u hu ht => ⟨ht,?_⟩)
      have howns' := hu.temp _ _ howns
      cases r with
      | ok _ => exact .inl ⟨(),rfl,howns'⟩
      | error e => exact .inr ⟨_,_,rfl,howns'⟩
    · exact ⟨ht,.inr ⟨_,_,rfl,howns⟩⟩
  · exact ⟨ht,.inr ⟨_,_,rfl,howns⟩⟩

/-! Installing. -/

/-- The process has installed these bytes. -/
structure Placed (target : Path) (me : P) (bytes : Bytes) (s : KeyState P Path) : Prop where
  call : ∃ tmp, (⟨.file me (.persistNoclobber tmp target),(.ok () : Result Unit)⟩ : (op : KeyOp P Path) × op.Reply) ∈ s.1
  file : s.2.files target = some ⟨bytes,secretMode⟩

omit [DecidableEq Path] in
theorem lasting_placed (me : P) (bytes : Bytes) : Lasting target (Placed target me bytes) where
  stays h hkept := ⟨h.call,hkept _ h.file⟩
  cons _ h := ⟨h.call.imp fun _ h => List.mem_cons_of_mem _ h,h.file⟩

theorem gives_persistNoclobber (hA : Lasting target A) (hs : A s) (howns : Owns target me tmp ⟨bytes,secretMode⟩ s.2)
    (hwrites : writes me bytes) :
    Ensures (fileCalls M target writes me) (persistNoclobber tmp target) s (Gives A fun _ => Placed target me bytes) := by
  refine gives_droppingTemp hA (file_pre (.persistNoclobber tmp target) hA hs fun u hu => ?_)
  have howns' := hu.temp _ _ howns
  refine ⟨⟨rfl,_,howns',hwrites⟩,fun r files hstep ht => ⟨ht,?_⟩⟩
  cases hstep with
  | persistNoclobber hfile _ =>
    obtain rfl := Option.some.inj (howns'.file.symm.trans hfile)
    exact .inl ⟨(),rfl,⟨tmp,List.mem_cons_self⟩,Function.update_self ..⟩
  | persistNoclobberFailed _ => exact .inr ⟨_,_,rfl,howns'⟩

/-- What follows an install keeps it. -/
theorem gives_validatePlaced (hA : Lasting target A) (hs : A s) (hplaced : Placed target me bytes s) :
    Ensures (fileCalls M target writes me) (do validateFileMode target; syncParentDir) s
      (Gives A fun _ => Placed target me bytes) := by
  have hA' := hA.and (lasting_placed me bytes)
  refine Ensures.mono (P := Gives (fun s => A s ∧ Placed target me bytes s) fun _ _ => True) ?_
    fun _ _ h => ⟨h.known.1,fun _ _ => h.known.2⟩
  exact gives_bind (gives_validateFileMode target hA' ⟨hs,hplaced⟩) fun _ _ ht _ => gives_syncParentDir hA' ht

theorem gives_installImported (forceText : String) (hA : Lasting target A) (hs : A s)
    (howns : Owns target me tmp ⟨bytes,secretMode⟩ s.2) (hwrites : writes me bytes) :
    Ensures (fileCalls M target writes me) (installImported tmp target false forceText text) s
      (Gives A fun _ => Placed target me bytes) :=
  gives_bind (gives_context (gives_persistNoclobber hA hs howns hwrites)) fun _ _ ht hplaced =>
    gives_validatePlaced hA ht hplaced

theorem gives_installCreated (hA : Lasting target A) (hs : A s) (howns : Owns target me tmp ⟨bytes,secretMode⟩ s.2)
    (hwrites : writes me bytes) : Ensures (fileCalls M target writes me) (installCreated tmp target text) s
      (Gives A fun _ _ => True) := by
  refine ensures_bind.mpr (ensures_attempt.mpr ((gives_persistNoclobber hA hs howns hwrites).mono fun r t h => ?_))
  cases r with
  | ok a => exact (gives_validatePlaced hA h.known (h.value a rfl)).mono fun _ _ h => ⟨h.known,fun _ _ => trivial⟩
  | error e =>
    exact ensures_ite.mpr ⟨fun _ => gives_ok h.known trivial,fun _ => gives_error h.known⟩

/-! The calls that are not on files by name. -/

/-- The key file has this content. -/
def Holds (target : Path) (content : Bytes) (s : KeyState P Path) : Prop :=
  ∃ file, s.2.files target = some file ∧ file.content = content

omit [DecidableEq Path] in
theorem lasting_holds (content : Bytes) : Lasting (P := P) target (Holds target content) where
  stays h hkept := h.imp fun file hfile => ⟨hkept file hfile.1,hfile.2⟩
  cons _ h := h

theorem ensures_inFiles {x : FileM Path α} {Q : Result α → KeyState P Path → Prop} :
    Ensures (keyCalls M target writes me) (inFiles me x) s Q ↔ Ensures (fileCalls M target writes me) x s Q :=
  ensures_embed

theorem gives_openFile (hA : Lasting target A) (hs : A s) :
    Ensures (keyCalls M target writes me) (openFile me target) s (Gives A fun content => Holds target content) := by
  refine call_pre (.openFile me target) hA hs fun u hu => ⟨trivial,fun r t hstep ht => ?_⟩
  cases hstep with
  | openFile hfile => exact gives_ok ht ⟨_,hfile,rfl⟩
  | openFileFailed e => exact gives_error ht

theorem gives_readFile (hA : Lasting target A) (hs : A s) :
    Ensures (keyCalls M target writes me) (readFile me) s (Gives A fun _ _ => True) :=
  call_pre (.readFile me) hA hs fun _ _ => ⟨trivial,fun _ _ _ ht => ⟨ht,fun _ _ => trivial⟩⟩

theorem gives_lockKey (hA : Lasting target A) (hs : A s) :
    Ensures (keyCalls M target writes me) (lockKey me) s (Gives A fun _ _ => True) :=
  call_pre (.lockKey me) hA hs fun _ _ => ⟨trivial,fun _ _ _ ht => ⟨ht,fun _ _ => trivial⟩⟩

theorem gives_tpmSeal {key : Key} (hA : Lasting target A) (hs : A s) :
    Ensures (keyCalls M target writes me) (tpmSeal me key) s
      (Gives A fun blob _ => ∃ n, blob = M.sealMasterKey n key) := by
  refine call_pre (.tpmSeal me key) hA hs fun u hu => ⟨trivial,fun r t hstep ht => ?_⟩
  cases hstep with
  | tpmSeal n => exact gives_ok ht ⟨n,rfl⟩
  | tpmSealFailed e => exact gives_error ht

theorem gives_tpmUnseal {blob : TpmMasterBlob} (hA : Lasting target A) (hs : A s) :
    Ensures (keyCalls M target writes me) (tpmUnseal me blob) s
      (Gives A fun key _ => M.unsealMasterKey blob = .ok key) := by
  refine call_pre (.tpmUnseal me blob) hA hs fun u hu => ⟨trivial,fun r t hstep ht => ?_⟩
  cases hstep with
  | tpmUnseal => exact ⟨ht,fun _ h => h⟩
  | tpmUnsealFailed e => exact gives_error ht

theorem gives_liftResult {r : Result α} (hs : A s) :
    Ensures (keyCalls M target writes me) (liftResult r) s (Gives A fun a _ => r = .ok a) := ⟨hs,fun _ h => h⟩

theorem gives_validateModes (hA : Lasting target A) (hs : A s) :
    Ensures (keyCalls M target writes me) (validateModes me target) s (Gives A fun _ _ => True) :=
  ensures_inFiles.mpr (gives_bind (gives_directory _ hA hs) fun _ _ ht _ => gives_validateFileMode _ hA ht)

theorem gives_readAll (hA : Lasting target A) (hs : A s) :
    Ensures (keyCalls M target writes me) (readAll me target) s (Gives A fun bytes => Holds target bytes) := by
  apply gives_bind (gives_openFile hA hs)
  intro bytes t ht hbytes
  have hA' := hA.and (lasting_holds bytes)
  refine gives_bind (B := fun _ t => Holds target bytes t) ?_ fun _ _ ht hbytes => gives_ok ht hbytes
  exact (gives_readFile hA' ⟨ht,hbytes⟩).mono fun _ _ h => ⟨h.known.1,fun _ _ => h.known.2⟩

end Rules

/-! The three stores. -/

section Stores

variable {P Path : Type} [DecidableEq Path] {M : Machine} {W : Wrapping} {target : Path} {writes : P → Bytes → Prop}
  {me : P} {s : KeyState P Path} {key : Key} {generated : Result Key}

/-- The key file holds this key, for who reads it so. -/
def Reads (target : Path) (reads : Bytes → Result Key) (key : Key) (s : KeyState P Path) : Prop :=
  ∃ file, s.2.files target = some file ∧ reads file.content = .ok key

omit [DecidableEq Path] in
theorem Holds.reads {content : Bytes} {reads : Bytes → Result Key} (h : Holds target content s)
    (hkey : reads content = .ok key) : Reads target reads key s := by
  obtain ⟨file,hfile,rfl⟩ := h
  exact ⟨file,hfile,hkey⟩

/-- A store each process of which keeps to its part. -/
structure Verified (M : Machine) (S : KeyFileStore P Path) where
  encodes : P → Key → Bytes → Prop
  reads : P → Bytes → Result Key
  agree : ∀ {i j key key' bytes}, encodes j key bytes → reads i bytes = .ok key' → key' = key ∧ S.opens i j
  get : ∀ target writes me s, Ensures (keyCalls M target writes me) (S.get me target) s
    (Gives (fun _ => True) (Reads target (reads me)))
  getOrCreate : ∀ target writes me generated s,
    (∀ key bytes, generated = .ok key → encodes me key bytes → writes me bytes) →
    Ensures (keyCalls M target writes me) (S.getOrCreate me target generated) s
      (Gives (fun _ => True) (Reads target (reads me)))
  importKey : ∀ target writes me key s, (∀ bytes, encodes me key bytes → writes me bytes) →
    Ensures (keyCalls M target writes me) (S.importKey me target key false) s
      (Gives (fun _ => True) fun _ t => ∃ bytes, Placed target me bytes t)

theorem fileStore_get : Ensures (keyCalls M target writes me) (FileStore.get me target) s
    (Gives (fun _ => True) (Reads target Store.FileStore.parseKey)) := by
  apply gives_bind (gives_validateModes lasting_true trivial)
  intro _ _ _ _
  apply gives_bind (gives_context (gives_openFile lasting_true trivial))
  intro content t _ hcontent
  have hA : Lasting target (Holds (P := P) target content) := lasting_holds content
  refine Ensures.mono (P := Gives (Holds target content) (Reads target Store.FileStore.parseKey)) ?_
    fun _ _ h => ⟨trivial,h.value⟩
  refine gives_bind (gives_lockKey hA hcontent) fun _ _ ht _ => ?_
  apply gives_bind (gives_context (gives_readFile hA ht))
  intro _ _ ht _
  apply gives_bind (gives_liftResult ht)
  intro _ _ ht _
  apply gives_bind (gives_context (gives_readFile hA ht))
  intro _ _ ht _
  exact ⟨ht,fun key hkey => ht.reads hkey⟩

theorem fileStore_createAtomic (hwrites : ∀ key, generated = .ok key → writes me key.toList) :
    Ensures (keyCalls M target writes me) (FileStore.createAtomic me target generated) s
      (Gives (fun _ => True) fun _ _ => True) := by
  refine ensures_inFiles.mpr (gives_bind (gives_ensureParent lasting_true trivial) fun _ _ _ _ => ?_)
  refine ensures_check.mpr ⟨fun key hkey => ?_,fun _ _ => gives_error trivial⟩
  apply gives_bind (gives_writeSyncedTempSecretFile lasting_true trivial)
  intro tmp t _ howns
  exact gives_installCreated lasting_true trivial howns (hwrites key hkey)

def fileStore_verified : Verified M (FileStore.store P Path) where
  encodes _ key bytes := bytes = key.toList
  reads _ := Store.FileStore.parseKey
  agree := by
    rintro i j key key' _ rfl hkey
    rw [Store.FileStore.parseKey,toArray?_toList] at hkey
    exact ⟨(Except.ok.inj hkey).symm,trivial⟩
  get _ _ _ _ := fileStore_get
  getOrCreate target writes me generated s hwrites := by
    refine ensures_bind.mpr (ensures_attempt.mpr (fileStore_get.mono fun r t h => ?_))
    cases r with
    | ok key => exact h
    | error e =>
      exact gives_bind (fileStore_createAtomic fun key hkey => hwrites key _ hkey rfl) fun _ _ _ _ => fileStore_get
  importKey target writes me key s hwrites := by
    refine ensures_inFiles.mpr (gives_bind (gives_ensureParent lasting_true trivial) fun _ _ _ _ => ?_)
    apply gives_bind (gives_pathExists target lasting_true trivial)
    intro existing _ _ _
    refine ensures_check.mpr ⟨fun _ _ => ?_,fun _ _ => gives_error trivial⟩
    apply gives_bind (gives_writeSyncedTempSecretFile lasting_true trivial)
    intro tmp t _ howns
    apply (gives_installImported _ lasting_true trivial howns (hwrites _ rfl)).mono
    intro _ _ h
    exact ⟨trivial,fun a ha => ⟨_,h.value a ha⟩⟩

def tpmReads (M : Machine) (bytes : Bytes) : Result Key := Store.TpmStore.parseBlob M bytes >>= M.unsealMasterKey

theorem tpmReads_encode (n : ℕ) : tpmReads M (M.blobJson.encode (M.sealMasterKey n key)) = .ok key := by
  rw [tpmReads,Store.TpmStore.parseBlob,M.blobJson.decode_encode,context_ok,ok_bind,M.unseal_seal]

theorem tpmStore_getWith : Ensures (keyCalls M target writes me) (TpmStore.getWith M me target) s
    (Gives (fun _ => True) (Reads target (tpmReads M))) := by
  apply gives_bind (gives_validateModes lasting_true trivial)
  intro _ _ _ _
  apply gives_bind (gives_context (gives_readAll lasting_true trivial))
  intro bytes t _ hbytes
  have hA : Lasting target (Holds (P := P) target bytes) := lasting_holds bytes
  refine Ensures.mono (P := Gives (Holds target bytes) (Reads target (tpmReads M))) ?_ fun _ _ h => ⟨trivial,h.value⟩
  apply gives_bind (gives_liftResult hbytes)
  intro blob _ ht hblob
  apply gives_bind (gives_tpmUnseal hA ht)
  intro key _ ht hkey
  apply gives_bind (gives_context (gives_lockKey hA ht))
  intro _ _ ht _
  exact gives_ok ht (ht.reads (bind_eq_ok.mpr ⟨blob,hblob,hkey⟩))

theorem tpmStore_createWith (hwrites : ∀ n, writes me (M.blobJson.encode (M.sealMasterKey n key))) :
    Ensures (keyCalls M target writes me) (TpmStore.createWith M me target key false) s
      (Gives (fun _ => True) fun _ t => ∃ n, Placed target me (M.blobJson.encode (M.sealMasterKey n key)) t) := by
  apply gives_bind (ensures_inFiles.mpr (gives_ensureParent lasting_true trivial))
  intro _ _ _ _
  refine gives_bind (gives_tpmSeal lasting_true trivial) fun blob _ _ hblob => ensures_inFiles.mpr ?_
  obtain ⟨n,rfl⟩ := hblob
  refine ensures_check.mpr ⟨fun bytes hbytes => ?_,fun _ _ => gives_error trivial⟩
  obtain rfl := Except.ok.inj hbytes
  apply gives_bind (gives_writeSyncedTempSecretFile lasting_true trivial)
  intro tmp t _ howns
  apply (gives_installImported _ lasting_true trivial howns (hwrites n)).mono
  intro _ _ h
  exact ⟨trivial,fun a ha => ⟨n,h.value a ha⟩⟩

def tpmStore_verified : Verified M (TpmStore.store P Path M) where
  encodes _ key bytes := ∃ n, bytes = M.blobJson.encode (M.sealMasterKey n key)
  reads _ := tpmReads M
  agree := by
    rintro i j key key' _ ⟨n,rfl⟩ hkey
    rw [tpmReads_encode] at hkey
    exact ⟨(Except.ok.inj hkey).symm,trivial⟩
  get _ _ _ _ := tpmStore_getWith
  getOrCreate target writes me generated s hwrites := by
    refine ensures_bind.mpr (ensures_attempt.mpr (tpmStore_getWith.mono fun r t h => ?_))
    cases r with
    | ok key => exact h
    | error e =>
      refine ensures_ite.mpr ⟨fun _ => ensures_check.mpr ⟨fun key hkey => ?_,fun _ _ => gives_error trivial⟩,
        fun _ => gives_error trivial⟩
      refine ensures_bind.mpr (ensures_attempt.mpr
        ((tpmStore_createWith fun n => hwrites key _ hkey ⟨n,rfl⟩).mono fun r t h => ?_))
      cases r with
      | ok a =>
        obtain ⟨n,hplaced⟩ := h.value a rfl
        exact gives_ok trivial ⟨_,hplaced.file,tpmReads_encode n⟩
      | error e => exact ensures_ite.mpr ⟨fun _ => tpmStore_getWith,fun _ => gives_error trivial⟩
  importKey target writes me key s hwrites := by
    apply gives_bind (ensures_inFiles.mpr (gives_ensureParent lasting_true trivial))
    intro _ _ _ _
    apply gives_bind (ensures_inFiles.mpr (gives_pathExists target lasting_true trivial))
    intro existing _ _ _
    apply gives_bind (gives_liftResult trivial)
    intro _ _ _ _
    refine (tpmStore_createWith fun n => hwrites _ ⟨n,rfl⟩).mono fun _ _ h => ⟨trivial,fun a ha => ?_⟩
    obtain ⟨n,hplaced⟩ := h.value a ha
    exact ⟨_,hplaced⟩

/-! The passphrase store. -/

/-- Different passphrases of the processes make different keys. -/
def Wrapping.Separates (W : Wrapping) (passphrase : P → Bytes) : Prop :=
  ∀ i j salt kek, W.scrypt.deriveKekScrypt (passphrase i) salt scryptN scryptR scryptP = .ok kek →
    W.scrypt.deriveKekScrypt (passphrase j) salt scryptN scryptR scryptP = .ok kek → passphrase i = passphrase j

def passphraseReads (W : Wrapping) (passphrase bytes : Bytes) : Result Key :=
  W.parseBlob bytes >>= fun blob => W.unwrapPassphraseMaster blob passphrase

/-- Under an ideal AEAD only the key of the passphrase opens what was wrapped, and it opens to the master key. -/
theorem unwrap_wrapped (hideal : W.primitives.aead.Ideal) {draws : ExportDraws} {passphrase passphrase' bytes : Bytes}
    {key' : Key} (hwrapped : W.wrapped draws passphrase key = .ok bytes)
    (hreads : passphraseReads W passphrase' bytes = .ok key') : key' = key ∧ ∃ kek,
      W.scrypt.deriveKekScrypt passphrase draws.salt.toList scryptN scryptR scryptP = .ok kek ∧
      W.scrypt.deriveKekScrypt passphrase' draws.salt.toList scryptN scryptR scryptP = .ok kek := by
  obtain ⟨blob,hblob,hbytes⟩ := bind_eq_ok.mp hwrapped
  obtain rfl := Except.ok.inj hbytes
  simp only [Wrapping.wrapPassphraseMasterWith,bind_eq_ok,Primitives.encryptWithKey_eq_ok] at hblob
  obtain ⟨_,-,kek,hkek,c,hc,hblob⟩ := hblob
  obtain rfl := Except.ok.inj hblob
  rw [passphraseReads,Wrapping.parseBlob,W.blobJson.decode_encode,context_ok,ok_bind] at hreads
  simp only [Wrapping.unwrapPassphraseMaster,bind_eq_ok,context_eq_ok,Primitives.unb64_b64,Primitives.decodeNonce_b64,
    Primitives.decryptWithKey_eq_ok,orError_eq_ok,toArray?_eq_some] at hreads
  obtain ⟨_,-,_,-,_,-,_,hsalt,_,hnonce,_,hwrap,kek',hkek',m,hm,_,-,hkey⟩ := hreads
  obtain rfl := Except.ok.inj hsalt
  obtain rfl := Except.ok.inj hnonce
  obtain rfl := Except.ok.inj hwrap
  obtain ⟨rfl,-,-,rfl⟩ := (hideal.decrypt_encrypt hc).mp hm
  exact ⟨(Vector.toList_inj.mp hkey).symm,kek',hkek,hkek'⟩

theorem passphraseFileStore_get {passphrase : Bytes} :
    Ensures (keyCalls M target writes me) (PassphraseFileStore.get W me target passphrase) s
      (Gives (fun _ => True) (Reads target (passphraseReads W passphrase))) := by
  apply gives_bind (gives_liftResult trivial)
  intro _ _ _ _
  apply gives_bind (gives_validateModes lasting_true trivial)
  intro _ _ _ _
  apply gives_bind (gives_context (gives_readAll lasting_true trivial))
  intro bytes t _ hbytes
  have hA : Lasting target (Holds (P := P) target bytes) := lasting_holds bytes
  refine Ensures.mono (P := Gives (Holds target bytes) (Reads target (passphraseReads W passphrase))) ?_
    fun _ _ h => ⟨trivial,h.value⟩
  refine gives_bind (gives_liftResult hbytes) fun blob _ ht hblob => ?_
  apply gives_bind (gives_liftResult ht)
  intro key _ ht hkey
  apply gives_bind (gives_context (gives_lockKey hA ht))
  intro _ _ ht _
  exact gives_ok ht (ht.reads (bind_eq_ok.mpr ⟨blob,hblob,hkey⟩))

theorem passphraseFileStore_createAtomic {passphrase : Bytes} {draws : ExportDraws}
    (hwrites : ∀ key bytes, generated = .ok key → W.wrapped draws passphrase key = .ok bytes → writes me bytes) :
    Ensures (keyCalls M target writes me) (PassphraseFileStore.createAtomic W me target passphrase draws generated) s
      (Gives (fun _ => True) fun _ _ => True) := by
  refine ensures_inFiles.mpr (ensures_check.mpr ⟨fun _ _ => ?_,fun _ _ => gives_error trivial⟩)
  apply gives_bind (gives_ensureParent lasting_true trivial)
  intro _ _ _ _
  refine ensures_check.mpr ⟨fun key hkey => ?_,fun _ _ => gives_error trivial⟩
  refine ensures_check.mpr ⟨fun bytes hbytes => ?_,fun _ _ => gives_error trivial⟩
  apply gives_bind (gives_writeSyncedTempSecretFile lasting_true trivial)
  intro tmp t _ howns
  exact gives_installCreated lasting_true trivial howns (hwrites key bytes hkey hbytes)

def passphraseFileStore_verified {passphrase : P → Bytes} {draws : P → ExportDraws} (hideal : W.primitives.aead.Ideal)
    (hscrypt : W.Separates passphrase) : Verified M (PassphraseFileStore.store P Path W passphrase draws) where
  encodes me key bytes := W.wrapped (draws me) (passphrase me) key = .ok bytes
  reads me := passphraseReads W (passphrase me)
  agree := by
    intro i j key key' bytes hwrapped hreads
    obtain ⟨hkey,kek,hj,hi⟩ := unwrap_wrapped hideal hwrapped hreads
    exact ⟨hkey,hscrypt i j _ kek hi hj⟩
  get _ _ _ _ := passphraseFileStore_get
  getOrCreate target writes me generated s hwrites := by
    refine ensures_bind.mpr (ensures_attempt.mpr (passphraseFileStore_get.mono fun r t h => ?_))
    cases r with
    | ok key => exact h
    | error e =>
      exact gives_bind (passphraseFileStore_createAtomic hwrites) fun _ _ _ _ => passphraseFileStore_get
  importKey target writes me key s hwrites := by
    refine ensures_inFiles.mpr (ensures_check.mpr ⟨fun _ _ => ?_,fun _ _ => gives_error trivial⟩)
    apply gives_bind (gives_ensureParent lasting_true trivial)
    intro _ _ _ _
    apply gives_bind (gives_pathExists target lasting_true trivial)
    intro existing _ _ _
    refine ensures_check.mpr ⟨fun _ _ => ?_,fun _ _ => gives_error trivial⟩
    refine ensures_check.mpr ⟨fun bytes hbytes => ?_,fun _ _ => gives_error trivial⟩
    apply gives_bind (gives_writeSyncedTempSecretFile lasting_true trivial)
    intro tmp t _ howns
    apply (gives_installImported _ lasting_true trivial howns (hwrites bytes hbytes)).mono
    intro _ _ h
    exact ⟨trivial,fun a ha => ⟨_,h.value a ha⟩⟩

end Stores

/-! All processes together. -/

section Runs

variable {P Path : Type} [DecidableEq P] [DecidableEq Path] {M : Machine} {S : KeyFileStore P Path} {target : Path}
  {request : P → Request} {files : Files Path} {events : List (KeyEvent P Path)} {c d : KeyConfig P Path}

/-- The contents that a process may install. -/
def Verified.Writes (V : Verified M S) (request : P → Request) (me : P) (bytes : Bytes) : Prop :=
  ∃ key, (request me).key = .ok key ∧ V.encodes me key bytes

/-- What a process has when it returns. -/
structure Verified.Returns (V : Verified M S) (target : Path) (me : P) (request : Request) (r : Result (Option Key))
    (s : KeyState P Path) : Prop where
  key : ∀ key, r = .ok (some key) → Reads target (V.reads me) key s
  importKey : ∀ key key', request = .importKey key → r = .ok key' → ∃ bytes, Placed target me bytes s

omit [DecidableEq P] in
theorem Verified.returns (V : Verified M S) (me : P) (s : KeyState P Path) :
    Ensures (keyCalls M target (V.Writes request) me) ((request me).program S target me) s
      (V.Returns target me (request me)) := by
  have hreturn (r : Result Key) (t : KeyState P Path) (h : Gives (fun _ => True) (Reads target (V.reads me)) r t)
      (hrequest : ∀ key, request me ≠ .importKey key) : V.Returns target me (request me) (r.map some) t := by
    refine ⟨fun key hkey => ?_,fun key _ hkey => absurd hkey (hrequest key)⟩
    cases r with
    | error e => cases hkey
    | ok a =>
      obtain rfl := Option.some.inj (Except.ok.inj hkey)
      exact h.value a rfl
  cases hrequest : request me with
  | getOrCreate generated =>
    have hwrites (key : Key) (bytes : Bytes) (hkey : generated = .ok key) (hbytes : V.encodes me key bytes) :
        V.Writes request me bytes := ⟨key,by rw [hrequest]; exact hkey,hbytes⟩
    refine ensures_map.mpr ((V.getOrCreate target _ me generated s hwrites).mono fun r t h => ?_)
    exact hrequest ▸ hreturn r t h fun key h => by rw [hrequest] at h; cases h
  | get =>
    refine ensures_map.mpr ((V.get target _ me s).mono fun r t h => ?_)
    exact hrequest ▸ hreturn r t h fun key h => by rw [hrequest] at h; cases h
  | importKey key =>
    have hwrites (bytes : Bytes) (hbytes : V.encodes me key bytes) : V.Writes request me bytes :=
      ⟨key,by rw [hrequest]; rfl,hbytes⟩
    refine ensures_map.mpr ((V.importKey target _ me key s hwrites).mono fun r t h => ?_)
    cases r with
    | error e => exact ⟨fun _ hkey => (error_ne_ok hkey).elim,fun _ _ _ hkey => (error_ne_ok hkey).elim⟩
    | ok a =>
      refine ⟨fun _ hkey => ?_,fun _ _ _ _ => h.value a rfl⟩
      cases hkey

/-- Each event leaves the key file, or is the one that installs it. -/
theorem run_installs {writes : P → Bytes → Prop} (hrun : Run (KeyStep M target) c events d)
    (hdemand : ∀ ev ∈ events, demand target writes ev.process ev.op ev.before) :
    events.Pairwise (fun ev ev' => Installs target ev → ¬ Installs target ev') ∧
      (∀ ev ∈ events, Installs target ev → c.state.files target = none ∧ ∃ file, d.state.files target = some file ∧
        writes ev.process file.content) ∧
      ((∀ ev ∈ events, ¬ Installs target ev) → d.state.files target = c.state.files target) := by
  induction hrun with
  | nil => exact ⟨.nil,fun _ h => absurd h List.not_mem_nil,fun _ => rfl⟩
  | @snoc events d i op next r t _ _ hstep ih =>
    obtain ⟨hpairs,hinstalls,hsame⟩ := ih fun ev hev => hdemand ev (List.mem_append_left _ hev)
    have hlast := hdemand _ (List.mem_append_right events (List.mem_singleton_self _))
    obtain ⟨htarget,hnot⟩ | ⟨hnone,file,hfile,hwrites,hinstall⟩ := hstep.atTarget (d.process i).history hlast
    · refine ⟨List.pairwise_append.mpr ⟨hpairs,List.pairwise_singleton _ _,fun ev _ ev' hev' _ => ?_⟩,
        fun ev hev hinstall => ?_,fun hnone => htarget.trans (hsame fun ev hev => hnone ev (List.mem_append_left _ hev))⟩
      · obtain rfl := List.mem_singleton.mp hev'
        exact hnot
      · obtain hev | hev := List.mem_append.mp hev
        · obtain ⟨hstart,file,hfile,hwrites⟩ := hinstalls ev hev hinstall
          exact ⟨hstart,file,htarget.trans hfile,hwrites⟩
        · obtain rfl := List.mem_singleton.mp hev
          exact absurd hinstall hnot
    · have hbefore : ∀ ev ∈ events, ¬ Installs target ev := by
        intro ev hev hearlier
        obtain ⟨-,file',hfile',-⟩ := hinstalls ev hev hearlier
        rw [hnone] at hfile'
        cases hfile'
      refine ⟨List.pairwise_append.mpr ⟨hpairs,List.pairwise_singleton _ _,fun ev hev _ _ hearlier => ?_⟩,
        fun ev hev hinstalls' => ?_,fun h => absurd hinstall (h _ (List.mem_append_right _ (List.mem_singleton_self _)))⟩
      · exact absurd hearlier (hbefore ev hev)
      · obtain hev | hev := List.mem_append.mp hev
        · exact absurd hinstalls' (hbefore ev hev)
        · obtain rfl := List.mem_singleton.mp hev
          exact ⟨(hsame hbefore).symm.trans hnone,file,hfile,hwrites⟩

/-- A store that is verified for one process is safe for any number of them. -/
theorem Verified.safe (V : Verified M S) : SafeKeyFile M S := by
  intro target request files events d hrun
  let Q : P → Result (Option Key) → KeyState P Path → Prop := fun me => V.Returns target me (request me)
  have hstable : ∀ me, (keyFile M target (V.Writes request)).Stable me (Q me) := fun me r h s t hr hrely =>
    ⟨fun key hkey => (hr.key key hkey).imp fun file h => ⟨hrely.kept file h.1,h.2⟩,
      fun key key' hi hkey' => (hr.importKey key key' hi hkey').imp fun bytes h => ⟨h.call,hrely.kept _ h.file⟩⟩
  obtain ⟨hreturns,hevents⟩ := Roles.wp_run hstable hrun fun me => V.returns me _
  have hdemand (ev : KeyEvent P Path) (hev : ev ∈ events) : demand target (V.Writes request) ev.process ev.op ev.before :=
    (hevents ev hev).1
  obtain ⟨honce,hinstalls,hsame⟩ := run_installs hrun hdemand
  have hdone (i : P) (r : Result (Option Key)) (h : (d.process i).program = .done r) :
      V.Returns target i (request i) r ((d.process i).history,d.state) := by
    have hwp := hreturns i
    rw [h] at hwp
    exact hwp
  refine ⟨fun ev hev => (hrun.step ev hev).kept (hdemand ev hev),honce,fun hsome ev hev hinstall =>
    hsome (hinstalls ev hev hinstall).1,fun hnone i key hkey => ?_,fun i key r hi hr => ?_⟩
  · obtain ⟨file,hfile,hread⟩ := (hdone i _ hkey).key key rfl
    have hsome : ∃ ev ∈ events, Installs target ev := by
      by_contra hno
      have hnever : ∀ ev ∈ events, ¬ Installs target ev := fun ev hev h => hno ⟨ev,hev,h⟩
      rw [hsame hnever] at hfile
      cases hnone.symm.trans hfile
    obtain ⟨ev,hev,hinstall⟩ := hsome
    obtain ⟨-,file',hfile',key',hkey',hencodes⟩ := hinstalls ev hev hinstall
    obtain rfl := Option.some.inj (hfile.symm.trans hfile')
    obtain ⟨rfl,hopens⟩ := V.agree hencodes hread
    exact ⟨ev,hev,hinstall,hkey',hopens⟩
  · obtain ⟨bytes,⟨tmp,hcall⟩,-⟩ := (hdone i _ hr).importKey key r hi rfl
    obtain ⟨later,earlier,hhistory⟩ := List.append_of_mem hcall
    obtain ⟨⟨me,history,op,reply,before,after⟩,hev,hprocess,-,heq⟩ :=
      hrun.event_of_history rfl (hhistory ▸ List.suffix_append later _)
    replace heq : (⟨.file i (.persistNoclobber tmp target),(.ok () : Result Unit)⟩ : (op : KeyOp P Path) × op.Reply) =
      ⟨op,reply⟩ := heq
    replace hprocess : me = i := hprocess
    subst hprocess
    cases heq
    exact ⟨_,hev,.noclobber,rfl⟩

/-- There is one winner for each key file, in each of the three stores. -/
theorem keyFiles_oneWinner (M : Machine) {W : Wrapping} {passphrase : P → Bytes} (draws : P → ExportDraws)
    (hideal : W.primitives.aead.Ideal) (hscrypt : W.Separates passphrase) :
    SafeKeyFile M (FileStore.store P Path) ∧ SafeKeyFile M (TpmStore.store P Path M) ∧
      SafeKeyFile M (PassphraseFileStore.store P Path W passphrase draws) :=
  ⟨fileStore_verified.safe,tpmStore_verified.safe,(passphraseFileStore_verified hideal hscrypt).safe⟩

end Runs

section Sample

theorem comma_notMem_digits (n : ℕ) : ',' ∉ (toString n).toList := by
  intro h
  rw [Store.toList_toString] at h
  exact absurd (Store.isDigit_of_mem h) (by decide)

/-- A number ends at the comma behind it. -/
theorem number_append_inj {n m : UInt32} {s t : List Char}
    (h : (toString n.toNat).toList ++ ','::s = (toString m.toNat).toList ++ ','::t) : n = m ∧ s = t := by
  obtain ⟨hdigits,hst⟩ := append_stop_inj (comma_notMem_digits _) (comma_notMem_digits _) h
  have hvalue := congrArg (fun digits => Nat.ofDigitChars 10 digits 0) hdigits
  simp only [Store.toList_toString,Nat.ofDigitChars_ten_toDigits] at hvalue
  exact ⟨UInt32.toNat_inj.mp hvalue,hst⟩

/-- The fields in declaration order. -/
def passphraseBlobText (J : JsonText.Serializer) (blob : PassphraseMasterBlob) : String :=
  "\x7b\"scheme\":" ++ J.toText blob.scheme ++ ",\"kdf\":" ++ J.toText blob.kdf ++ ",\"n\":" ++
    toString blob.n.toNat ++ ",\"r\":" ++ toString blob.r.toNat ++ ",\"p\":" ++ toString blob.p.toNat ++
    ",\"salt\":" ++ J.toText blob.salt ++ ",\"nonce\":" ++ J.toText blob.nonce ++ ",\"wrapped_master\":" ++
    J.toText blob.wrappedMaster ++ "\x7d"

theorem passphraseBlobText_injective (J : JsonText.Serializer) : Function.Injective (passphraseBlobText J) := by
  rintro ⟨scheme,kdf,n,r,p,salt,nonce,master⟩ ⟨scheme',kdf',n',r',p',salt',nonce',master'⟩ h
  have htext := congrArg String.toList h
  unfold passphraseBlobText at htext
  simp only [String.toList_append,List.append_assoc] at htext
  obtain ⟨rfl,hkdf⟩ := J.append_inj (List.append_cancel_left htext)
  obtain ⟨rfl,hn⟩ := J.append_inj (List.append_cancel_left hkdf)
  obtain ⟨rfl,hr⟩ := number_append_inj (List.append_cancel_left hn)
  have hr : "\"r\":".toList ++ _ = "\"r\":".toList ++ _ := hr
  obtain ⟨rfl,hp⟩ := number_append_inj (List.append_cancel_left hr)
  have hp : "\"p\":".toList ++ _ = "\"p\":".toList ++ _ := hp
  obtain ⟨rfl,hsalt⟩ := number_append_inj (List.append_cancel_left hp)
  have hsalt : "\"salt\":".toList ++ _ = "\"salt\":".toList ++ _ := hsalt
  obtain ⟨rfl,hnonce⟩ := J.append_inj (List.append_cancel_left hsalt)
  obtain ⟨rfl,hmaster⟩ := J.append_inj (List.append_cancel_left hnonce)
  obtain ⟨rfl,_⟩ := J.append_inj (List.append_cancel_left hmaster)
  rfl

def passphraseBlobBytes (blob : PassphraseMasterBlob) : Bytes := utf8 (passphraseBlobText JsonText.minimal blob)

theorem passphraseBlobBytes_injective : Function.Injective passphraseBlobBytes := by
  intro b b' h
  exact passphraseBlobText_injective _ (utf8_injective h)

/-- Two passphrases, of which each makes a key of its own. -/
def samplePassphrase (me : Bool) : Bytes := utf8 (if me then "correct horse" else "battery staple")

def sampleScrypt : Scrypt where
  Params := Unit
  new _ _ _ _ := .ok ()
  scrypt passphrase _ _ := .ok (if passphrase = samplePassphrase true then .replicate 32 1 else .replicate 32 2)

noncomputable def sampleWrapping : Wrapping where
  primitives := Primitives.concrete
  scrypt := sampleScrypt
  blobJson := Codec.ofInjective passphraseBlobBytes passphraseBlobBytes_injective
    [.message "expected value at line 1 column 1"]

theorem sampleWrapping_separates : sampleWrapping.Separates samplePassphrase := by
  intro i j salt kek hi hj
  have hkeys : (Vector.replicate 32 1 : Key) ≠ Vector.replicate 32 2 := by decide
  have hkey (me : Bool) (h : sampleScrypt.deriveKekScrypt (samplePassphrase me) salt scryptN scryptR scryptP = .ok kek) :
      kek = if me then .replicate 32 1 else .replicate 32 2 := by
    obtain ⟨_,-,-,hderive⟩ := deriveKekScrypt_eq_ok.mp h
    have hother : samplePassphrase false ≠ samplePassphrase true := by decide
    obtain rfl := Except.ok.inj hderive
    cases me with
    | false => exact if_neg hother
    | true => exact if_pos rfl
  cases i <;> cases j
  · rfl
  · exact absurd ((hkey true hj).symm.trans (hkey false hi)) hkeys
  · exact absurd ((hkey true hi).symm.trans (hkey false hj)) hkeys
  · rfl

def sampleDraws (me : Bool) : ExportDraws := ⟨.replicate 16 (if me then 7 else 8),.replicate 12 9⟩

/-- Two processes with passphrases of their own, at paths that are natural numbers. -/
theorem keyFiles_oneWinner_sample : SafeKeyFile Machine.clear (FileStore.store Bool ℕ) ∧
    SafeKeyFile Machine.clear (TpmStore.store Bool ℕ Machine.clear) ∧
      SafeKeyFile Machine.clear (PassphraseFileStore.store Bool ℕ sampleWrapping samplePassphrase sampleDraws) :=
  keyFiles_oneWinner Machine.clear sampleDraws Primitives.concrete_ideal sampleWrapping_separates

end Sample
end Avault.KeyFile
