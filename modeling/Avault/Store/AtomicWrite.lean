import Avault.Foundation.Program
import Avault.Store.SecretFile
import Mathlib.Logic.Function.Basic

/-! Each writer of a secret file replaces it at once, and keeps what it writes to its owner. -/
namespace Avault.SecretFile
open Foundation Crypto
open Foundation.Program
open Store (isAlreadyExistsError)

abbrev Files (Path : Type) := Path → Option File

section Step

variable {Path : Type} [DecidableEq Path]

/-- What the calls do, and how they may fail. A temporary file is new, not the target, and from its
creation on only open to its owner; a write that fails may have written some of the bytes. -/
inductive FileStep (target : Path) : Files Path → (op : FileOp Path) → op.Reply → Files Path → Prop
  | parentExists {s} (b : Bool) : FileStep target s .parentExists b s
  | directory {s call} (r : Result Unit) : FileStep target s (.directory call) r s
  | pathExists {s path} {b : Bool} : (b = true → s path ≠ none) → FileStep target s (.pathExists path) b s
  | tempfileIn {s front back tmp mode} : s tmp = none → tmp ≠ target → (File.mk [] mode).OwnerOnly →
    FileStep target s (.tempfileIn front back) (.ok tmp) (Function.update s tmp (some ⟨[],mode⟩))
  | tempfileInFailed {s front back} (e : Error) : FileStep target s (.tempfileIn front back) (.error e) s
  | setPermissions {s path file mode} : s path = some file →
    FileStep target s (.setPermissions path mode) (.ok ()) (Function.update s path (some { file with mode := mode }))
  | setPermissionsFailed {s path mode} (e : Error) : FileStep target s (.setPermissions path mode) (.error e) s
  | writeAll {s path file bytes} : s path = some file → FileStep target s (.writeAll path bytes) (.ok ())
    (Function.update s path (some { file with content := file.content ++ bytes }))
  | writeAllFailed {s path file bytes written} (e : Error) : s path = some file → written <+: bytes →
    FileStep target s (.writeAll path bytes) (.error e)
      (Function.update s path (some { file with content := file.content ++ written }))
  | syncAll {s path} (r : Result Unit) : FileStep target s (.syncAll path) r s
  | persist {s tmp path file} : s tmp = some file → FileStep target s (.persist tmp path) (.ok ())
    (Function.update (Function.update s tmp none) path (some file))
  | persistFailed {s tmp path} (e : Error) : FileStep target s (.persist tmp path) (.error e) s
  | persistNoclobber {s tmp path file} : s tmp = some file → s path = none →
    FileStep target s (.persistNoclobber tmp path) (.ok ()) (Function.update (Function.update s tmp none) path (some file))
  | persistNoclobberFailed {s tmp path} {e : Error} : (isAlreadyExistsError e = true → s path ≠ none) →
    FileStep target s (.persistNoclobber tmp path) (.error e) s
  | metadataMode {s path file} : s path = some file → FileStep target s (.metadataMode path) (.ok file.mode) s
  | metadataModeFailed {s path} (e : Error) : FileStep target s (.metadataMode path) (.error e) s
  | dropTemp {s path} : FileStep target s (.dropTemp path) () (Function.update s path none)

end Step

/-- The writers, each with what it is given. -/
inductive SecretWriter (Path : Type)
  | inject (path : Path) (bytes : Bytes)
  | fileImport (path : Path) (key : Key) (force : Bool)
  | fileCreate (path : Path) (generated : Result Key)
  | passphraseImport (path : Path) (passphrase : Bytes) (wrapped : Result Bytes) (force : Bool)
  | passphraseCreate (path : Path) (passphrase : Bytes) (generated : Result Key) (wrap : Key → Result Bytes)
  | tpmBlob (path : Path) (encoded : Result Bytes) (force : Bool)

namespace SecretWriter

variable {Path : Type}

def program : SecretWriter Path → FileM Path Unit
  | inject path bytes => atomicWriteSecretFile path bytes
  | fileImport path key force => fileStoreImport path key force
  | fileCreate path generated => fileStoreCreateAtomic path generated
  | passphraseImport path passphrase wrapped force => passphraseFileStoreImport path passphrase wrapped force
  | passphraseCreate path passphrase generated wrap => passphraseFileStoreCreateAtomic path passphrase generated wrap
  | tpmBlob path encoded force => writeTpmBlob path encoded force

def target : SecretWriter Path → Path
  | inject path _ | fileImport path _ _ | fileCreate path _ | passphraseImport path _ _ _
  | passphraseCreate path _ _ _ | tpmBlob path _ _ => path

/-- The new content of the target, if the writer gets to have one. -/
def content : SecretWriter Path → Result Bytes
  | inject _ bytes => .ok bytes
  | fileImport _ key _ => .ok key.toList
  | fileCreate _ generated => do return (← generated).toList
  | passphraseImport _ _ wrapped _ => wrapped
  | passphraseCreate _ _ generated wrap => generated >>= wrap
  | tpmBlob _ encoded _ => encoded

/-- The writers for which a file of another one will do. -/
def creates : SecretWriter Path → Bool
  | fileCreate _ _ | passphraseCreate _ _ _ _ => true
  | inject _ _ | fileImport _ _ _ | passphraseImport _ _ _ _ | tpmBlob _ _ _ => false

end SecretWriter

section Statement

variable {Path : Type} [DecidableEq Path]

/-- The complete new content, and only for the owner. -/
def Installed (content : Result Bytes) (file : Option File) : Prop :=
  ∃ bytes, content = .ok bytes ∧ file = some ⟨bytes,secretMode⟩

structure AtomicPrivate (writer : SecretWriter Path) (s : Files Path) : Prop where
  /-- Wherever the run is stopped, the target is complete. -/
  complete : ∀ t, Passes (FileStep writer.target) writer.program.run s t →
    t writer.target = s writer.target ∨ Installed writer.content (t writer.target)
  /-- Whatever is not as before the run is only for the owner. -/
  ownerOnly : ∀ t path file, Passes (FileStep writer.target) writer.program.run s t → t path = some file →
    s path = some file ∨ file.OwnerOnly
  success : ∀ t, Exec (FileStep writer.target) writer.program.run s (.ok ()) t →
    Installed writer.content (t writer.target) ∨
      (writer.creates = true ∧ s writer.target ≠ none ∧ t writer.target = s writer.target)
  /-- No temporary file is left, whatever is returned. -/
  clean : ∀ r t, Exec (FileStep writer.target) writer.program.run s r t → ∀ path ≠ writer.target, t path = s path

end Statement

section Moments

variable {Path α β : Type} [DecidableEq Path] {target : Path} {content : Result Bytes} {s t : Files Path}

/-- All that a writer leaves between two calls. -/
inductive Moment (target : Path) (content : Result Bytes) (s : Files Path) : Files Path → Prop
  | before : Moment target content s s
  | temp {tmp file} : s tmp = none → tmp ≠ target → file.OwnerOnly →
    Moment target content s (Function.update s tmp (some file))
  | installed {bytes} : content = .ok bytes →
    Moment target content s (Function.update s target (some ⟨bytes,secretMode⟩))

theorem ownerOnly_secret (bytes : Bytes) : (File.mk bytes secretMode).OwnerOnly := show secretMode &&& 0o077 = 0 by decide

theorem Moment.complete (h : Moment target content s t) : t target = s target ∨ Installed content (t target) := by
  cases h with
  | before => exact .inl rfl
  | temp _ hne _ => exact .inl (Function.update_of_ne hne.symm _ _)
  | @installed bytes hcontent => exact .inr ⟨bytes,hcontent,Function.update_self ..⟩

theorem Moment.ownerOnly {path : Path} {file : File} (h : Moment target content s t) (hfile : t path = some file) :
    s path = some file ∨ file.OwnerOnly := by
  cases h with
  | before => exact .inl hfile
  | @temp tmp _ _ _ howner =>
    by_cases hpath : path = tmp
    · subst hpath
      rw [Function.update_self] at hfile
      exact .inr (Option.some.inj hfile ▸ howner)
    · rw [Function.update_of_ne hpath] at hfile
      exact .inl hfile
  | @installed bytes _ =>
    by_cases hpath : path = target
    · subst hpath
      rw [Function.update_self] at hfile
      exact .inr (Option.some.inj hfile ▸ ownerOnly_secret bytes)
    · rw [Function.update_of_ne hpath] at hfile
      exact .inl hfile

/-- A program of calls that leave the files alone, and may reply anything. -/
def Quiet (target : Path) (x : FileM Path α) : Prop :=
  ∀ (I : Files Path → Prop) (t : Files Path) (Q : Result α → Files Path → Prop), I t → (∀ r, Q r t) →
    Ensures (.keeping (FileStep target) I) x t Q

theorem Quiet.bind {x : FileM Path α} {f : α → FileM Path β} (hx : Quiet target x) (hf : ∀ a, Quiet target (f a)) :
    Quiet target (x >>= f) := by
  intro I t Q hI hQ
  rw [ensures_bind]
  apply hx I t _ hI
  intro r
  cases r with
  | ok a => exact hf a I t Q hI hQ
  | error e => exact hQ _

theorem Quiet.mapResult {f : Result α → Result β} {x : FileM Path α} (hx : Quiet target x) :
    Quiet target (mapResult f x) := fun I t _ hI hQ => ensures_mapResult.mpr (hx I t _ hI fun _ => hQ _)

theorem quiet_liftResult (r : Result α) : Quiet target (liftResult r) := fun _ _ _ _ hQ => hQ r

theorem quiet_directory (call : DirectoryCall) : Quiet target (directory call) := by
  intro I t Q hI hQ r u hstep
  cases hstep with
  | directory _ => exact ⟨hI,hQ _⟩

theorem quiet_parentExists : Quiet target parentExists := by
  intro I t Q hI hQ r u hstep
  cases hstep with
  | parentExists _ => exact ⟨hI,hQ _⟩

theorem quiet_pathExists (path : Path) : Quiet target (pathExists path) := by
  intro I t Q hI hQ r u hstep
  cases hstep with
  | pathExists _ => exact ⟨hI,hQ _⟩

theorem quiet_validateFileMode (path : Path) : Quiet target (validateFileMode path) := by
  have hmetadata : Quiet target (metadataMode path) := by
    intro I t Q hI hQ r u hstep
    cases hstep with
    | metadataMode _ | metadataModeFailed _ => exact ⟨hI,hQ _⟩
  exact hmetadata.mapResult.bind fun _ => quiet_liftResult _

theorem quiet_syncParentDir : Quiet target syncParentDir :=
  (quiet_directory _).mapResult.bind fun _ => (quiet_directory _).mapResult

theorem quiet_ensureParent : Quiet target ensureParent := (quiet_directory _).bind fun _ => quiet_directory _

theorem quiet_ensureOutputParentDirectory : Quiet target ensureOutputParentDirectory := by
  apply quiet_parentExists.bind
  intro existing
  cases existing with
  | true => exact fun _ _ _ _ hQ => hQ _
  | false => exact (quiet_directory _).mapResult

end Moments

section Temp

variable {Path α : Type} [DecidableEq Path] {target tmp : Path} {content : Result Bytes} {s t : Files Path} {file : File}
  {front back : String} {bytes : Bytes}

/-- A temporary file next to the files that were there before. -/
structure Temp (target : Path) (s : Files Path) (tmp : Path) (file : File) (t : Files Path) : Prop where
  fresh : s tmp = none
  ne : tmp ≠ target
  owner : file.OwnerOnly
  files : t = Function.update s tmp (some file)

namespace Temp

theorem self (h : Temp target s tmp file t) : t tmp = some file := by rw [h.files,Function.update_self]

theorem moment (h : Temp target s tmp file t) : Moment target content s t := h.files ▸ .temp h.fresh h.ne h.owner

theorem update {file' : File} (h : Temp target s tmp file t) (howner : file'.OwnerOnly) :
    Temp target s tmp file' (Function.update t tmp (some file')) :=
  ⟨h.fresh,h.ne,howner,by rw [h.files,Function.update_idem]⟩

/-- Without the temporary file everything is as before. -/
theorem dropped (h : Temp target s tmp file t) : Function.update t tmp none = s := by
  rw [h.files,Function.update_idem,← h.fresh,Function.update_eq_self]

theorem target_eq (h : Temp target s tmp file t) : t target = s target := by
  rw [h.files,Function.update_of_ne h.ne.symm]

end Temp

theorem ensures_tempfileIn : Ensures (.keeping (FileStep target) (Moment target content s)) (tempfileIn front back) s fun r t =>
    (∃ tmp mode, r = .ok tmp ∧ Temp target s tmp ⟨[],mode⟩ t) ∨ ∃ e, r = .error e ∧ t = s := by
  intro r t hstep
  cases hstep with
  | tempfileIn hfresh hne howner =>
    have htemp : Temp target s _ _ _ := ⟨hfresh,hne,howner,rfl⟩
    exact ⟨htemp.moment,.inl ⟨_,_,rfl,htemp⟩⟩
  | tempfileInFailed e => exact ⟨.before,.inr ⟨e,rfl,rfl⟩⟩

theorem ensures_setPermissions (h : Temp target s tmp file t) :
    Ensures (.keeping (FileStep target) (Moment target content s)) (setPermissions tmp secretMode) t fun r u =>
      (r = .ok () ∧ Temp target s tmp ⟨file.content,secretMode⟩ u) ∨ ∃ e, r = .error e ∧ Temp target s tmp file u := by
  intro r u hstep
  cases hstep with
  | setPermissions hfile =>
    obtain rfl := Option.some.inj (h.self.symm.trans hfile)
    have hsecret := h.update (ownerOnly_secret file.content)
    exact ⟨hsecret.moment,.inl ⟨rfl,hsecret⟩⟩
  | setPermissionsFailed e => exact ⟨h.moment,.inr ⟨e,rfl,h⟩⟩

theorem ensures_writeAll (h : Temp target s tmp ⟨[],secretMode⟩ t) :
    Ensures (.keeping (FileStep target) (Moment target content s)) (writeAll tmp bytes) t fun r u =>
      (r = .ok () ∧ Temp target s tmp ⟨bytes,secretMode⟩ u) ∨ ∃ e file, r = .error e ∧ Temp target s tmp file u := by
  intro r u hstep
  cases hstep with
  | writeAll hfile =>
    obtain rfl := Option.some.inj (h.self.symm.trans hfile)
    have hwritten := h.update (ownerOnly_secret bytes)
    exact ⟨hwritten.moment,.inl ⟨rfl,hwritten⟩⟩
  | writeAllFailed e hfile _ =>
    obtain rfl := Option.some.inj (h.self.symm.trans hfile)
    exact ⟨(h.update (ownerOnly_secret _)).moment,.inr ⟨e,_,rfl,h.update (ownerOnly_secret _)⟩⟩

/-- An error ends with the temporary file gone. -/
theorem ensures_droppingTemp {x : FileM Path α} {P : α → Files Path → Prop} {E : Error → Prop}
    (hx : Ensures (.keeping (FileStep target) (Moment target content s)) x t fun r u =>
      (∃ a, r = .ok a ∧ P a u) ∨ ∃ e file, r = .error e ∧ E e ∧ Temp target s tmp file u) :
    Ensures (.keeping (FileStep target) (Moment target content s)) (droppingTemp tmp x) t fun r u =>
      (∃ a, r = .ok a ∧ P a u) ∨ ∃ e, r = .error e ∧ E e ∧ u = s := by
  unfold droppingTemp
  rw [ensures_bind,ensures_attempt]
  apply hx.mono
  rintro r u (⟨a,rfl,hP⟩ | ⟨e,file,rfl,hE,htemp⟩)
  · exact .inl ⟨a,rfl,hP⟩
  · rw [then_ok,ensures_bind]
    intro r v hstep
    cases hstep with
    | dropTemp =>
      rw [htemp.dropped]
      exact ⟨.before,.inr ⟨e,rfl,hE,rfl⟩⟩

theorem ensures_writeSyncedTempSecretFile :
    Ensures (.keeping (FileStep target) (Moment target content s)) (writeSyncedTempSecretFile front back bytes) s fun r t =>
      (∃ tmp, r = .ok tmp ∧ Temp target s tmp ⟨bytes,secretMode⟩ t) ∨ ∃ e, r = .error e ∧ t = s := by
  unfold writeSyncedTempSecretFile
  rw [ensures_bind,ensures_mapResult]
  apply ensures_tempfileIn.mono
  rintro r t (⟨tmp,mode,rfl,htemp⟩ | ⟨e,rfl,rfl⟩)
  · rw [context_ok,then_ok,ensures_bind]
    refine (ensures_droppingTemp (P := fun _ u => Temp target s tmp ⟨bytes,secretMode⟩ u) (E := fun _ => True) ?_).mono ?_
    · rw [ensures_bind,ensures_mapResult,secureCreatedFile,ensures_mapResult]
      apply (ensures_setPermissions htemp).mono
      rintro r u (⟨rfl,hsecret⟩ | ⟨e,rfl,hsecret⟩)
      · rw [context_ok,context_ok,then_ok,ensures_bind,ensures_mapResult]
        apply (ensures_writeAll hsecret).mono
        rintro r u (⟨rfl,hwritten⟩ | ⟨e,file,rfl,hwritten⟩)
        · rw [context_ok,then_ok,ensures_mapResult]
          intro r v hstep
          cases hstep with
          | syncAll r =>
            refine ⟨hwritten.moment,?_⟩
            cases r with
            | ok _ => exact .inl ⟨(),rfl,hwritten⟩
            | error e => exact .inr ⟨_,_,rfl,trivial,hwritten⟩
        · exact .inr ⟨_,file,rfl,trivial,hwritten⟩
      · exact .inr ⟨_,_,rfl,trivial,hsecret⟩
    · rintro r u (⟨_,rfl,hwritten⟩ | ⟨e,rfl,-,rfl⟩)
      · exact .inl ⟨tmp,rfl,hwritten⟩
      · exact .inr ⟨e,rfl,rfl⟩
  · exact .inr ⟨_,rfl,rfl⟩

end Temp

section Install

variable {Path α : Type} [DecidableEq Path] {target tmp : Path} {content : Result Bytes} {s t : Files Path}
  {front back text forceText : String} {bytes : Bytes} {creates force : Bool}

/-- The target is installed, or nothing has changed. -/
def Ends (target : Path) (content : Result Bytes) (creates : Bool) (s : Files Path) (r : Result Unit) (t : Files Path) : Prop :=
  (∃ bytes, content = .ok bytes ∧ t = Function.update s target (some ⟨bytes,secretMode⟩)) ∨
    (t = s ∧ (r = .ok () → creates = true ∧ s target ≠ none))

theorem ends_error (e : Error) : Ends target content creates s (.error e) s :=
  .inr ⟨rfl,fun h => (error_ne_ok h).elim⟩

theorem ensures_persist (hcontent : content = .ok bytes) (h : Temp target s tmp ⟨bytes,secretMode⟩ t) :
    Ensures (.keeping (FileStep target) (Moment target content s)) (persist tmp target) t fun r u =>
      (∃ a, r = .ok a ∧ u = Function.update s target (some ⟨bytes,secretMode⟩)) ∨ ∃ e, r = .error e ∧ True ∧ u = s := by
  apply ensures_droppingTemp
  intro r u hstep
  cases hstep with
  | persist hfile =>
    obtain rfl := Option.some.inj (h.self.symm.trans hfile)
    rw [h.dropped]
    exact ⟨.installed hcontent,.inl ⟨(),rfl,rfl⟩⟩
  | persistFailed e => exact ⟨h.moment,.inr ⟨e,_,rfl,trivial,h⟩⟩

theorem ensures_persistNoclobber (hcontent : content = .ok bytes) (h : Temp target s tmp ⟨bytes,secretMode⟩ t) :
    Ensures (.keeping (FileStep target) (Moment target content s)) (persistNoclobber tmp target) t fun r u =>
      (∃ a, r = .ok a ∧ u = Function.update s target (some ⟨bytes,secretMode⟩)) ∨
        ∃ e, r = .error e ∧ (isAlreadyExistsError e = true → s target ≠ none) ∧ u = s := by
  refine ensures_droppingTemp (E := fun e => isAlreadyExistsError e = true → s target ≠ none) ?_
  intro r u hstep
  cases hstep with
  | persistNoclobber hfile _ =>
    obtain rfl := Option.some.inj (h.self.symm.trans hfile)
    rw [h.dropped]
    exact ⟨.installed hcontent,.inl ⟨(),rfl,rfl⟩⟩
  | persistNoclobberFailed hexists => exact ⟨h.moment,.inr ⟨_,_,rfl,h.target_eq ▸ hexists,h⟩⟩

/-- What follows an installation does not undo it. -/
theorem ensures_validateInstalled (hcontent : content = .ok bytes) :
    Ensures (.keeping (FileStep target) (Moment target content s)) (do validateFileMode target; syncParentDir)
      (Function.update s target (some ⟨bytes,secretMode⟩)) (Ends target content creates s) :=
  ((quiet_validateFileMode target).bind fun _ => quiet_syncParentDir) _ _ _ (.installed hcontent)
    fun _ => .inl ⟨bytes,hcontent,rfl⟩

theorem ensures_installImported (hcontent : content = .ok bytes) (h : Temp target s tmp ⟨bytes,secretMode⟩ t) :
    Ensures (.keeping (FileStep target) (Moment target content s)) (installImported tmp target force forceText text) t
      (Ends target content false s) := by
  unfold installImported
  cases force with
  | true =>
    refine ensures_bind.mpr (ensures_mapResult.mpr ((ensures_persist hcontent h).mono ?_))
    rintro r u (⟨_,rfl,rfl⟩ | ⟨e,rfl,-,rfl⟩)
    · exact ensures_validateInstalled hcontent
    · exact ends_error _
  | false =>
    refine ensures_bind.mpr (ensures_mapResult.mpr ((ensures_persistNoclobber hcontent h).mono ?_))
    rintro r u (⟨_,rfl,rfl⟩ | ⟨e,rfl,-,rfl⟩)
    · exact ensures_validateInstalled hcontent
    · exact ends_error _

theorem ensures_installCreated (hcontent : content = .ok bytes) (h : Temp target s tmp ⟨bytes,secretMode⟩ t) :
    Ensures (.keeping (FileStep target) (Moment target content s)) (installCreated tmp target text) t
      (Ends target content true s) := by
  unfold installCreated
  rw [ensures_bind,ensures_attempt]
  apply (ensures_persistNoclobber hcontent h).mono
  rintro r u (⟨_,rfl,rfl⟩ | ⟨e,rfl,hexists,rfl⟩)
  · exact ensures_validateInstalled hcontent
  · refine ensures_ite.mpr ⟨fun hlost => .inr ⟨rfl,fun _ => ⟨rfl,hexists hlost⟩⟩,fun _ => ends_error _⟩

/-- Nothing has been written yet. -/
theorem ensures_quietly {x : FileM Path α} {f : α → FileM Path Unit} (hx : Quiet target x)
    (hf : ∀ a, Ensures (.keeping (FileStep target) (Moment target content s)) (f a) s (Ends target content creates s)) :
    Ensures (.keeping (FileStep target) (Moment target content s)) (x >>= f) s (Ends target content creates s) := by
  rw [ensures_bind]
  apply hx _ _ _ .before
  intro r
  cases r with
  | ok a => exact hf a
  | error e => exact ends_error e

theorem ensures_checked {r : Result α} {f : α → FileM Path Unit}
    (hf : ∀ a, r = .ok a → Ensures (.keeping (FileStep target) (Moment target content s)) (f a) s (Ends target content creates s)) :
    Ensures (.keeping (FileStep target) (Moment target content s)) (liftResult r >>= f) s (Ends target content creates s) :=
  ensures_check.mpr ⟨hf,fun e _ => ends_error e⟩

theorem ensures_written {f : Path → FileM Path Unit}
    (hf : ∀ tmp t, Temp target s tmp ⟨bytes,secretMode⟩ t →
      Ensures (.keeping (FileStep target) (Moment target content s)) (f tmp) t (Ends target content creates s)) :
    Ensures (.keeping (FileStep target) (Moment target content s)) (writeSyncedTempSecretFile front back bytes >>= f) s
      (Ends target content creates s) := by
  rw [ensures_bind]
  apply ensures_writeSyncedTempSecretFile.mono
  rintro r t (⟨tmp,rfl,htemp⟩ | ⟨e,rfl,rfl⟩)
  · exact hf tmp t htemp
  · exact ends_error e

end Install

section Writers

variable {Path : Type} [DecidableEq Path]

/-- One case for each writer. -/
theorem SecretWriter.ensures (writer : SecretWriter Path) (s : Files Path) :
    Ensures (.keeping (FileStep writer.target) (Moment writer.target writer.content s)) writer.program s
      (Ends writer.target writer.content writer.creates s) := by
  cases writer with
  | inject path bytes =>
    refine ensures_quietly quiet_ensureOutputParentDirectory fun _ => ensures_written fun tmp t htemp => ?_
    refine ensures_bind.mpr (ensures_mapResult.mpr ((ensures_persist rfl htemp).mono ?_))
    rintro r u (⟨_,rfl,rfl⟩ | ⟨e,rfl,-,rfl⟩)
    · exact ensures_validateInstalled rfl
    · exact ends_error _
  | fileImport path key force =>
    refine ensures_quietly quiet_ensureParent fun _ => ensures_quietly (quiet_pathExists path) fun _ => ?_
    exact ensures_checked fun _ _ => ensures_written fun _ _ htemp => ensures_installImported rfl htemp
  | fileCreate path generated =>
    refine ensures_quietly quiet_ensureParent fun _ => ensures_checked fun key hkey => ensures_written fun _ _ htemp => ?_
    exact ensures_installCreated (bind_eq_ok.mpr ⟨key,hkey,rfl⟩) htemp
  | passphraseImport path passphrase wrapped force =>
    refine ensures_checked fun _ _ => ensures_quietly quiet_ensureParent fun _ => ?_
    refine ensures_quietly (quiet_pathExists path) fun _ => ensures_checked fun _ _ => ensures_checked fun bytes hbytes => ?_
    exact ensures_written fun _ _ htemp => ensures_installImported hbytes htemp
  | passphraseCreate path passphrase generated wrap =>
    refine ensures_checked fun _ _ => ensures_quietly quiet_ensureParent fun _ => ensures_checked fun key hkey => ?_
    refine ensures_checked fun bytes hbytes => ensures_written fun _ _ htemp => ?_
    exact ensures_installCreated (bind_eq_ok.mpr ⟨key,hkey,hbytes⟩) htemp
  | tpmBlob path encoded force =>
    refine ensures_checked fun bytes hbytes => ensures_written fun _ _ htemp => ?_
    exact ensures_installImported (context_eq_ok.mp hbytes) htemp

/-- Every writer replaces its target at once, from any files and however its calls fail. -/
theorem secretWriter_atomicPrivate (writer : SecretWriter Path) (s : Files Path) : AtomicPrivate writer s where
  complete _ hpasses := (hpasses.keeps (writer.ensures s) .before).complete
  ownerOnly _ _ _ hpasses hfile := (hpasses.keeps (writer.ensures s) .before).ownerOnly hfile
  success t hexec := by
    obtain ⟨bytes,hcontent,rfl⟩ | ⟨rfl,hlost⟩ := wp_keeping_exec (writer.ensures s) hexec
    · exact .inl ⟨bytes,hcontent,Function.update_self ..⟩
    · exact .inr ⟨(hlost rfl).1,(hlost rfl).2,rfl⟩
  clean r t hexec path hne := by
    obtain ⟨_,-,rfl⟩ | ⟨rfl,-⟩ := wp_keeping_exec (writer.ensures s) hexec
    · exact Function.update_of_ne hne _ _
    · rfl

end Writers
end Avault.SecretFile
