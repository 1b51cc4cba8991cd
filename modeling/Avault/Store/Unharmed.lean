import Avault.Store.CreateSpec
import Avault.Store.ForcedImport

/-! What an operation of the `auto` store that is no forced import leaves behind, when one of its
calls fails and it returns an error. -/
namespace Avault.Store
open Foundation Crypto
open Foundation.Program (Ensures ensures_bind ensures_pure ensures_attempt ensures_ite ensures_map)

/-- The stored bytes are as before. Keys may have been drawn. -/
structure Unwritten (w t : World) : Prop where
  file : t.file = w.file
  tpmFile : t.tpmFile = w.tpmFile
  keychain : t.keychain = w.keychain

theorem Unwritten.refl (w : World) : Unwritten w w := ⟨rfl,rfl,rfl⟩

theorem Unwritten.trans {u v w : World} (h : Unwritten u v) (h' : Unwritten v w) : Unwritten u w :=
  ⟨h'.file.trans h.file,h'.tpmFile.trans h.tpmFile,h'.keychain.trans h.keychain⟩

theorem Kept.unwritten {w t : World} (h : Kept w t) : Unwritten w t := ⟨h.file,h.tpmFile,h.keychain⟩

theorem Kept.unwritten_minted {w t : World} (h : Kept w.minted t) : Unwritten w t :=
  ⟨h.file,h.tpmFile,h.keychain⟩

/-! Creating a key next to a stored one. -/

section Found

variable {M : Machine} {allowed : Call → Error → Prop} {w : World}

/-- Where there is a blob, `get_or_create_with` writes none. -/
theorem tpmGetOrCreate_found (htpm : w.tpmFile ≠ none) :
    Ensures (M.calls allowed) (TpmStore.getOrCreateWith M) w fun _ t => Unwritten w t := by
  refine ensures_bind.mpr (ensures_attempt.mpr (Ensures.mono reads_tpmGetWith ?_))
  rintro (e | key) w ⟨rfl,-⟩
  · refine ensures_ite.mpr ⟨fun _ => ?_,fun _ => ensures_liftResult.mpr (Unwritten.refl w)⟩
    refine ensures_bind.mpr (mayFail_generateLocked.mpr ?_)
    refine ensures_bind.mpr (ensures_attempt.mpr (Ensures.mono (tpmCreate_spec (w := w.minted)) ?_))
    intro r t h
    cases h with
    | done h | late _ h => exact absurd (h.1.resolve_left nofun) htpm
    | refused _ hkept =>
      refine ensures_ite.mpr ⟨fun _ => ?_,fun _ => ensures_liftResult.mpr hkept.unwritten_minted⟩
      apply Ensures.mono reads_tpmGetWith
      rintro r u ⟨rfl,-⟩
      exact hkept.unwritten_minted
  · exact ensures_pure.mpr (Unwritten.refl w)

/-- Where there is a file, `get_or_create` writes none. -/
theorem fileGetOrCreate_found (hfile : w.file ≠ none) :
    Ensures (M.calls allowed) FileStore.getOrCreate w fun _ t => Unwritten w t := by
  have hget {u : World} (hu : Unwritten w u) :
      Ensures (M.calls allowed) FileStore.get u fun _ t => Unwritten w t :=
    Ensures.mono reads_fileGet fun r t h => h.1.symm ▸ hu
  have hcreate : Ensures (M.calls allowed) FileStore.createAtomic w fun _ t => Unwritten w t := by
    refine ensureParent_bind (fun u hkept hdir => ?_) fun _ e t hkept => hkept.unwritten
    refine ensures_bind.mpr (mayFail_generateLocked.mpr ?_)
    have hminted : Unwritten w u.minted := ⟨hkept.file,hkept.tpmFile,hkept.keychain⟩
    have hsome : (u.minted.content .machineKey).isSome = true := by
      rw [World.content,hminted.file]
      exact Option.isSome_iff_ne_none.mpr hfile
    refine Ensures.bind (reads_writeSyncedTempSecretFile (w := u.minted) hdir) ?_ ?_
    · rintro tmp t ⟨rfl,-⟩
      refine ensures_bind.mpr (ensures_attempt.mpr (mayFail_act.mpr ⟨?_,fun e he => ?_⟩))
      · rw [performAct_persistNoclobber_some hsome]
        exact ensures_ite.mpr ⟨fun _ => ensures_pure.mpr hminted,
          fun _ => ensures_liftResult.mpr hminted⟩
      · exact ensures_ite.mpr ⟨fun _ => ensures_pure.mpr hminted,
          fun _ => ensures_liftResult.mpr hminted⟩
    · rintro e t ⟨rfl,-⟩
      exact hminted
  refine ensures_bind.mpr (ensures_attempt.mpr (Ensures.mono reads_fileGet ?_))
  rintro (e | key) w ⟨rfl,-⟩
  · exact Ensures.bind hcreate (fun _ t ht => hget ht) fun _ _ ht => ht
  · exact ensures_pure.mpr (Unwritten.refl w)

/-- `get_or_create_keychain_key` only writes the key it returns. -/
theorem getOrCreateKeychainKey_error :
    Ensures (M.calls allowed) MacAuto.getOrCreateKeychainKey w
      fun r t => ∀ e, r = .error e → Unwritten w t := by
  refine ensures_bind.mpr (ensures_attempt.mpr (Ensures.mono reads_keychain ?_))
  rintro (e | key) w ⟨rfl,-⟩
  · refine ensures_ite.mpr ⟨fun _ => ?_,fun _ => ensures_liftResult.mpr fun _ _ => Unwritten.refl w⟩
    refine ensures_bind.mpr (mayFail_generateLocked.mpr ?_)
    refine ensures_bind.mpr (ensures_attempt.mpr (Ensures.mono (keychainAdd_spec (w := w.minted)) ?_))
    have hminted : Unwritten w w.minted := (Kept.refl w.minted).unwritten_minted
    rintro r t (⟨rfl,-,-⟩ | ⟨rfl,e,rfl,-⟩)
    · exact ensures_pure.mpr nofun
    · refine ensures_ite.mpr ⟨fun _ => ?_,fun _ => ensures_liftResult.mpr fun _ _ => hminted⟩
      apply Ensures.mono reads_keychain
      rintro r u ⟨rfl,-⟩ e -
      exact hminted
  · exact ensures_pure.mpr nofun

end Found

/-- Every call may fail with the error. -/
def AnyFault (e : Error) : Call → Error → Prop := fun _ e' => e' = e

section SingleFault

variable {M : Machine} {e : Error} {w : World} {left : Option ℕ} {α β : Type} {x : StoreM α}

/-- With one fault a program ends as without one, or the fault has struck. -/
theorem ensures_faulty {P : (Call → Error → Prop) → Result α → World → Prop}
    (hx : ∀ allowed, Ensures (M.calls allowed) x w (P allowed)) :
    Ensures (M.faulty e) x ⟨w,left⟩ fun r t => P NoFault r t.world ∧ t.left.isSome = left.isSome ∨
      P (AnyFault e) r t.world ∧ t.left = none ∧ left.isSome = true := by
  refine wp_faulty (s := ⟨w,left⟩) (fun c w => ?_) (fun c w => ?_) (fun c w r hr => ?_) (hx NoFault)
    (hx (AnyFault e))
  · exact .inl rfl
  · exact .inl rfl
  · exact .inr ⟨rfl,e,rfl,hr⟩

/-- What holds whatever fails, holds with one fault. -/
theorem ensures_faulty_any {Q : Result α → World → Prop}
    (hx : ∀ allowed, Ensures (M.calls allowed) x w Q) :
    Ensures (M.faulty e) x ⟨w,left⟩ fun r t => Q r t.world :=
  Ensures.mono (ensures_faulty hx) fun _ _ h => h.elim And.left And.left

end SingleFault

/-- How a program that stores a key ends with at most one fault. Only the fault makes it fail
behind the install. -/
inductive StoreOutcome {α : Type} (w : World) (left : Option ℕ) (installed : World → Prop) :
    Result α → Faulty World → Prop
  | done {a t} : StoreOutcome w left installed (.ok a) t
  | unwritten {e t} : Unwritten w t.world → (t.left.isSome = true → left.isSome = true) →
    StoreOutcome w left installed (.error e) t
  | late {e t} : left.isSome = true → t.left = none → installed t.world →
    StoreOutcome w left installed (.error e) t

section StoreOutcome

variable {M : Machine} {e : Error} {w : World} {left : Option ℕ} {key : Key}

theorem ensures_storeOutcome {α : Type} {x : StoreM α} {installed : World → Prop}
    (hx : ∀ allowed, Ensures (M.calls allowed) x w fun r t => ∀ e, r = .error e →
      Unwritten w t ∨ FilesMayFail allowed ∧ installed t) :
    Ensures (M.faulty e) x ⟨w,left⟩ (StoreOutcome w left installed) := by
  apply Ensures.mono (ensures_faulty hx)
  rintro (e | a) t (⟨h,hleft⟩ | ⟨h,hnone,hleft⟩)
  · have hsome (ht : t.left.isSome = true) : left.isSome = true := hleft ▸ ht
    obtain h | ⟨hf,_⟩ := h e rfl
    · exact .unwritten h hsome
    · exact absurd hf not_filesMayFail_noFault
  · obtain h | ⟨_,h⟩ := h e rfl
    · exact .unwritten h fun _ => hleft
    · exact .late hleft hnone h
  · exact .done
  · exact .done

theorem tpmGetOrCreate_storeOutcome : Ensures (M.faulty e) (TpmStore.getOrCreateWith M) ⟨w,left⟩
    (StoreOutcome w left fun t => w.tpmFile = none ∧ t.file = w.file) := by
  apply ensures_storeOutcome
  intro allowed
  by_cases htpm : w.tpmFile = none
  · apply Ensures.mono (tpmGetOrCreate_spec htpm)
    rintro _ t h e rfl
    cases h with
    | refused _ hkept => exact .inl (hkept.elim Kept.unwritten Kept.unwritten_minted)
    | late hf h => exact .inr ⟨hf,htpm,h.file⟩
  · exact Ensures.mono (tpmGetOrCreate_found htpm) fun _ _ h _ _ => .inl h

theorem fileGetOrCreate_storeOutcome : Ensures (M.faulty e) FileStore.getOrCreate ⟨w,left⟩
    (StoreOutcome w left fun t => w.file = none ∧ t.tpmFile = w.tpmFile) := by
  apply ensures_storeOutcome
  intro allowed
  by_cases hfile : w.file = none
  · apply Ensures.mono (fileGetOrCreate_spec hfile)
    rintro _ t h e rfl
    cases h with
    | refused _ hkept => exact .inl (hkept.elim Kept.unwritten Kept.unwritten_minted)
    | late hf h => exact .inr ⟨hf,hfile,h.tpmFile⟩
  · exact Ensures.mono (fileGetOrCreate_found hfile) fun _ _ h _ _ => .inl h

theorem tpmImport_storeOutcome : Ensures (M.faulty e) (TpmStore.importWith M key false) ⟨w,left⟩
    (StoreOutcome w left fun t => w.tpmFile = none ∧ t.file = w.file) := by
  refine ensures_storeOutcome fun allowed => Ensures.mono tpmImport_spec ?_
  rintro _ t h e rfl
  cases h with
  | refused _ hkept => exact .inl hkept.unwritten
  | late hf h => exact .inr ⟨hf,h.1.resolve_left nofun,h.2.file⟩

theorem fileImport_storeOutcome : Ensures (M.faulty e) (FileStore.importKey key false) ⟨w,left⟩
    (StoreOutcome w left fun t => w.file = none ∧ t.tpmFile = w.tpmFile) := by
  refine ensures_storeOutcome fun allowed => Ensures.mono fileImport_spec ?_
  rintro _ t h e rfl
  cases h with
  | refused _ hkept => exact .inl hkept.unwritten
  | late hf h => exact .inr ⟨hf,h.1.resolve_left nofun,h.2.tpmFile⟩

/-- `Path::exists` answers false for a store that is empty, unless the fault has struck. -/
theorem faulty_pathExists {path : Path} : Ensures (M.faulty e) (pathExists path) ⟨w,left⟩ fun r t =>
    t.world = w ∧ (t.left.isSome = true → left.isSome = true) ∧
      ∃ found, r = .ok found ∧ (found = true → (w.content path).isSome = true) ∧
        (found = false → t.left.isSome = true → w.content path = none) := by
  have hexists (allowed : Call → Error → Prop) : Ensures (M.calls allowed) (pathExists path) w
      fun r t => t = w ∧ (r = .ok (w.content path).isSome ∨ r = .ok false ∧ ∃ c e, allowed c e) :=
    mayFail_pathExists.mpr ⟨⟨rfl,.inl rfl⟩,fun e he => ⟨rfl,.inr ⟨rfl,_,e,he⟩⟩⟩
  have hempty (h : (w.content path).isSome = false) : w.content path = none :=
    Option.isNone_iff_eq_none.mp (Option.isSome_eq_false_iff.mp h)
  apply Ensures.mono (ensures_faulty hexists)
  rintro r t (⟨⟨hw,rfl | ⟨_,_,_,h⟩⟩,hleft⟩ | ⟨⟨hw,rfl | ⟨rfl,_⟩⟩,hnone,hleft⟩)
  · exact ⟨hw,fun h => hleft ▸ h,_,rfl,id,fun h _ => hempty h⟩
  · exact h.elim
  · exact ⟨hw,fun _ => hleft,_,rfl,id,fun h _ => hempty h⟩
  · exact ⟨hw,fun _ => hleft,_,rfl,nofun,fun _ h => by simp [hnone] at h⟩

end StoreOutcome

namespace Platform

/-- The stores agree, and the key that was loaded before is loaded still. -/
def Unharmed (M : Machine) (p : Platform) (w t : World) : Prop :=
  p.Agree M t ∧ ∀ k, p.loads M w = .ok k → p.loads M t = .ok k

/-- An operation that fails leaves the vault unharmed. -/
def FailsUnharmed {α : Type} (M : Machine) (p : Platform) (w : World) (r : Result α) (t : World) : Prop :=
  ∀ e, r = .error e → p.Unharmed M w t

section Unharmed

variable {M : Machine} {p : Platform} {w t : World} {key : Key}

theorem Unharmed.of_unwritten (hagree : p.Agree M w) (h : Unwritten w t) : p.Unharmed M w t := by
  have hkept : Kept w { t with draws := w.draws } := ⟨h.file,h.tpmFile,h.keychain,rfl⟩
  have hloads : p.loads M { t with draws := w.draws } = p.loads M t := by
    rw [loads_eq,loads_eq]
    cases p <;> rfl
  have hstores : p.Agree M { t with draws := w.draws } → p.Agree M t := by
    cases p <;> exact id
  exact ⟨hstores (agree_kept hkept hagree),fun k hk => hloads ▸ loads_kept hkept hk⟩

theorem StrongInstalled.file (h : p.StrongInstalled M key w t) : t.file = w.file := by
  cases p with
  | linux => exact TpmInstalled.file h
  | mac home => exact KeychainInstalled.file h

theorem StrongInstalled.strongKey (h : p.StrongInstalled M key w t) : p.strongKey M t = some key := by
  cases p with
  | linux => exact TpmInstalled.tpmKey h
  | mac home => exact KeychainInstalled.keychainKey h

/-- The key of the file was put in the stronger store. -/
theorem Unharmed.of_migrated (hfile : p.fileKey w = some key) (h : p.StrongInstalled M key w t) :
    p.Unharmed M w t := by
  have hfile' : p.fileKey t = some key := (fileKey_congr h.file).trans hfile
  refine ⟨fun k k' hk hk' => ?_,fun k hk => ?_⟩
  · exact Option.some.inj ((hk.symm.trans hfile').trans (h.strongKey.symm.trans hk'))
  · have hkey := loads_of_file (hasFile_of_fileKey hfile).1 hk
    rw [← Option.some.inj (hfile.symm.trans hkey)]
    exact loads_of_both hfile' h.strongKey

/-- There was no key, and one store has one now. -/
theorem Unharmed.of_first (hfile : ¬ p.hasFile w = true) (hstrong : p.strongKey M w = none)
    (h : p.fileKey t = none ∨ p.strongKey M t = none) : p.Unharmed M w t := by
  refine ⟨fun k k' hk hk' => ?_,fun k hk => ?_⟩
  · obtain h | h := h
    · cases h.symm.trans hk
    · cases h.symm.trans hk'
  · have hkey := (loads_of_no_file hfile).mp hk
    cases hkey.symm.trans hstrong

theorem FailsUnharmed.of_unwritten {α : Type} {r : Result α} (hagree : p.Agree M w)
    (h : ∀ e, r = .error e → Unwritten w t) : p.FailsUnharmed M w r t :=
  fun e he => .of_unwritten hagree (h e he)

theorem FailsUnharmed.of_migrate {r : Result Key} (hagree : p.Agree M w)
    (hfile : p.fileKey w = some key) (h : MigrateOutcome key w (p.StrongInstalled M key w) r t) :
    p.FailsUnharmed M w r t :=
  fun _ _ => h.stores.elim (fun hkept => .of_unwritten hagree hkept.unwritten) (.of_migrated hfile)

end Unharmed

section Unforced

variable {M : Machine} {allowed : Call → Error → Prop} {e : Error} {w : World} {left : Option ℕ} {key : Key}

theorem fileGet_ok : Ensures (M.calls allowed) FileStore.get w
    fun r t => t = w ∧ ∀ key, r = .ok key → Store.fileKey w = some key := by
  apply Ensures.mono reads_fileGet
  rintro r t ⟨rfl,rfl | ⟨e,_,rfl⟩⟩
  · exact ⟨rfl,fun _ => fileRead_eq_ok.mp⟩
  · exact ⟨rfl,nofun⟩

theorem linuxMigrate_spec : Ensures (M.calls allowed) (LinuxAuto.migrateFileKeyToTpm M key) w
    (MigrateOutcome key w (linux.StrongInstalled M key w)) :=
  Ensures.mono migrate_spec fun _ _ h => ⟨h.result,h.stores.imp_right And.right⟩

theorem macMigrate_spec {home : Bool} : Ensures (M.calls allowed) (MacAuto.migrateFileKeyToKeychain key) w
    (MigrateOutcome key w ((mac home).StrongInstalled M key w)) := by
  refine migrateFileKey_spec (fun u => Ensures.mono reads_keychain fun _ _ h => h.1)
    (Ensures.mono keychainAdd_spec ?_)
  rintro r t (⟨-,-,h⟩ | ⟨rfl,-⟩)
  · exact .inr h
  · exact .inl (Kept.refl _)

/-- What loading does on Linux with a file that is there. -/
theorem linuxFile_failsUnharmed (hagree : linux.Agree M w) (hfile : w.file.isSome = true) :
    Ensures (M.calls allowed) (do
      let fileKey ← FileStore.get
      LinuxAuto.migrateFileKeyToTpm M fileKey) w (linux.FailsUnharmed M w) := by
  refine Ensures.bind fileGet_ok ?_ ?_
  · rintro key w ⟨rfl,hkey⟩
    refine Ensures.mono linuxMigrate_spec fun r t h => .of_migrate hagree ?_ h
    rw [fileKey,if_pos (show linux.hasFile _ = true from hfile)]
    exact hkey key rfl
  · rintro e w ⟨rfl,-⟩
    exact .of_unwritten hagree fun _ _ => Unwritten.refl _

theorem linuxLoad_failsUnharmed (hagree : linux.Agree M w) :
    Ensures (M.calls allowed) (LinuxAuto.load M) w (linux.FailsUnharmed M w) := by
  have htpm : Ensures (M.calls allowed) (TpmStore.getWith M) w (linux.FailsUnharmed M w) :=
    Ensures.mono reads_tpmGetWith fun r t h =>
      .of_unwritten hagree fun _ _ => h.1.symm ▸ Unwritten.refl w
  refine ensures_bind.mpr (mayFail_pathExists.mpr ⟨?_,fun _ _ => ensures_ite.mpr ⟨nofun,fun _ => htpm⟩⟩)
  exact ensures_ite.mpr ⟨linuxFile_failsUnharmed hagree,fun _ => htpm⟩

/-- A key put in one store where both were empty. -/
theorem linuxFirst_unharmed {t : World} (hfile : w.file = none) (htpm : w.tpmFile = none)
    (h : t.file = none ∨ t.tpmFile = none) : linux.Unharmed M w t := by
  refine .of_first (by simp [hasFile,hfile]) (by simp [strongKey,tpmKey,htpm]) (h.imp (fun h => ?_) fun h => ?_)
  · simp [fileKey,hasFile,h]
  · simp [strongKey,tpmKey,h]

/-- The file as the fallback of a TPM that failed. -/
theorem linuxFallback_failsUnharmed {α : Type} {x : StoreM α} {u : Faulty World}
    (hx : Ensures (M.faulty e) x u
      (StoreOutcome u.world u.left fun t => u.world.file = none ∧ t.tpmFile = u.world.tpmFile))
    (hunwritten : ∀ t, Unwritten u.world t → linux.Unharmed M w t)
    (hlate : u.left.isSome = true → u.world.file = none → ∀ t, t.tpmFile = u.world.tpmFile →
      linux.Unharmed M w t) :
    Ensures (M.faulty e) x u fun r t => linux.FailsUnharmed M w r t.world := by
  apply Ensures.mono hx
  intro r t h
  cases h with
  | done => exact nofun
  | unwritten h _ => exact fun _ _ => hunwritten _ h
  | late hleft _ h => exact fun _ _ => hlate hleft h.1 _ h.2

theorem storeOutcome_withContext {α : Type} {x : StoreM α} {text : String} {installed : World → Prop}
    (hx : Ensures (M.faulty e) x ⟨w,left⟩ (StoreOutcome w left installed)) :
    Ensures (M.faulty e) (withContext text x) ⟨w,left⟩ (StoreOutcome w left installed) := by
  refine ensures_withContext.mpr (Ensures.mono hx ?_)
  intro r t h
  cases h with
  | done => exact .done
  | unwritten h hleft => exact .unwritten h hleft
  | late hleft hnone h => exact .late hleft hnone h

/-- Both stores look empty; each is, unless the fault has struck. -/
theorem linuxCreate_failsUnharmed (hagree : linux.Agree M w) (hfile : left.isSome = true → w.file = none)
    (htpm : left.isSome = true → w.tpmFile = none) :
    Ensures (M.faulty e) (do
      match ← Program.attempt (TpmStore.getOrCreateWith M) with
      | .ok key => return key
      | .error err =>
        if isTpmUnavailable err then FileStore.getOrCreate
        else liftResult (.error err)) ⟨w,left⟩ fun r t => linux.FailsUnharmed M w r t.world := by
  refine ensures_bind.mpr (ensures_attempt.mpr (Ensures.mono tpmGetOrCreate_storeOutcome ?_))
  intro r u h
  cases h with
  | done => exact ensures_pure.mpr nofun
  | unwritten hunwritten hleft =>
    refine ensures_ite.mpr ⟨fun _ => ?_,fun _ => ensures_liftResult.mpr ?_⟩
    · refine linuxFallback_failsUnharmed fileGetOrCreate_storeOutcome
        (fun t ht => .of_unwritten hagree (hunwritten.trans ht)) fun hsome hnone t ht => ?_
      have hempty : w.tpmFile = none := htpm (hleft hsome)
      exact linuxFirst_unharmed (hunwritten.file ▸ hnone) hempty
        (.inr (ht.trans (hunwritten.tpmFile.trans hempty)))
    · exact .of_unwritten hagree fun _ _ => hunwritten
  | late hleft hnone h =>
    have hempty : w.file = none := hfile hleft
    have hfirst : ∀ t, t.file = u.world.file → linux.Unharmed M w t := fun t ht =>
      linuxFirst_unharmed hempty h.1 (.inl (ht.trans (h.2.trans hempty)))
    refine ensures_ite.mpr ⟨fun _ => ?_,fun _ => ensures_liftResult.mpr fun _ _ => hfirst _ rfl⟩
    refine linuxFallback_failsUnharmed fileGetOrCreate_storeOutcome (fun t ht => hfirst t ht.file) ?_
    rw [hnone]
    exact nofun

theorem linuxLoadOrCreate_failsUnharmed (hagree : linux.Agree M w) :
    Ensures (M.faulty e) (LinuxAuto.loadOrCreate M) ⟨w,left⟩
      fun r t => linux.FailsUnharmed M w r t.world := by
  refine Ensures.bind faulty_pathExists ?_ nofun
  rintro found ⟨w,left⟩ ⟨rfl,-,_,hfound,hhas,hnot⟩
  cases hfound
  refine ensures_ite.mpr ⟨fun hfile => ?_,fun hfile => ?_⟩
  · exact ensures_faulty_any fun _ => linuxFile_failsUnharmed hagree (hhas hfile)
  have hfile := hnot (Bool.not_eq_true _ ▸ hfile)
  refine Ensures.bind faulty_pathExists ?_ nofun
  rintro found ⟨w,left⟩ ⟨rfl,hleft,_,hfound,-,hnot⟩
  cases hfound
  refine ensures_ite.mpr ⟨fun _ => ?_,fun htpm => ?_⟩
  · exact ensures_faulty_any fun _ => Ensures.mono reads_tpmGetWith fun r t h =>
      .of_unwritten hagree fun _ _ => h.1.symm ▸ Unwritten.refl _
  · exact linuxCreate_failsUnharmed hagree (fun h => hfile (hleft h)) (hnot (Bool.not_eq_true _ ▸ htpm))

theorem linuxImport_failsUnharmed (hagree : linux.Agree M w) :
    Ensures (M.faulty e) (LinuxAuto.importKey M key false) ⟨w,left⟩
      fun r t => linux.FailsUnharmed M w r t.world := by
  refine Ensures.bind faulty_pathExists ?_ nofun
  rintro found ⟨w,left⟩ ⟨rfl,-,_,hfound,-,hnot⟩
  cases hfound
  refine ensures_ite.mpr ⟨fun _ => ?_,fun hfile => ?_⟩
  · refine ensures_bind.mpr (ensures_liftResult.mpr ?_)
    exact fun _ _ => .of_unwritten hagree (Unwritten.refl _)
  have hfile := hnot (Bool.not_eq_true _ ▸ hfile)
  refine ensures_bind.mpr (ensures_attempt.mpr (Ensures.mono tpmImport_storeOutcome ?_))
  intro r u h
  cases h with
  | done => exact ensures_pure.mpr nofun
  | unwritten hunwritten _ =>
    have hfails {α : Type} {r : Result α} : linux.FailsUnharmed M w r u.world :=
      .of_unwritten hagree fun _ _ => hunwritten
    refine ensures_ite.mpr ⟨fun _ => ?_,fun _ => ensures_liftResult.mpr hfails⟩
    refine Ensures.bind faulty_pathExists ?_ nofun
    rintro found ⟨t,left⟩ ⟨rfl,_,_,hfound,-,hnot⟩
    cases hfound
    refine ensures_ite.mpr ⟨fun _ => ensures_liftResult.mpr hfails,fun htpm => ?_⟩
    refine linuxFallback_failsUnharmed (storeOutcome_withContext fileImport_storeOutcome)
      (fun t ht => .of_unwritten hagree (hunwritten.trans ht)) fun hsome hnone t ht => ?_
    have hempty := hnot (Bool.not_eq_true _ ▸ htpm) hsome
    exact linuxFirst_unharmed (hunwritten.file ▸ hnone) (hunwritten.tpmFile ▸ hempty) (.inr (ht.trans hempty))
  | late hleft hnone h =>
    have hfirst : ∀ t, t.file = u.world.file → linux.Unharmed M w t := fun t ht =>
      linuxFirst_unharmed (hfile hleft) h.1 (.inl (ht.trans (h.2.trans (hfile hleft))))
    refine ensures_ite.mpr ⟨fun _ => ?_,fun _ => ensures_liftResult.mpr fun _ _ => hfirst _ rfl⟩
    refine Ensures.bind faulty_pathExists ?_ nofun
    rintro found ⟨t,left⟩ ⟨rfl,hleft,_,hfound,-,-⟩
    cases hfound
    refine ensures_ite.mpr ⟨fun _ => ensures_liftResult.mpr fun _ _ => hfirst _ rfl,fun _ => ?_⟩
    refine linuxFallback_failsUnharmed (storeOutcome_withContext fileImport_storeOutcome)
      (fun t ht => hfirst t ht.file) fun hsome => ?_
    rw [hnone] at hleft
    cases hleft hsome

/-! On macOS an operation writes to one store at most. -/

theorem fileExists_spec {home : Bool} : Ensures (M.calls allowed) (MacAuto.fileExists home) w
    fun r t => t = w ∧ ∃ found, r = .ok found ∧ (found = true → (mac home).hasFile w = true) := by
  cases home with
  | false => exact ensures_ite.mpr ⟨nofun,fun _ => ensures_pure.mpr ⟨rfl,_,rfl,nofun⟩⟩
  | true =>
    exact ensures_ite.mpr ⟨fun _ => mayFail_pathExists.mpr
      ⟨⟨rfl,_,rfl,id⟩,fun _ _ => ⟨rfl,_,rfl,nofun⟩⟩,nofun⟩

theorem macLoad_failsUnharmed {home create : Bool} (hagree : (mac home).Agree M w) :
    Ensures (M.calls allowed) (MacAuto.loadAutoMasterKeyWith home create) w
      ((mac home).FailsUnharmed M w) := by
  refine ensures_bind.mpr (Ensures.bind fileExists_spec ?_ fun _ _ h => ?_)
  case refine_2 =>
    obtain ⟨-,_,h,-⟩ := h
    cases h
  rintro found w ⟨rfl,_,hfound,hhas⟩
  cases hfound
  refine ensures_ite.mpr ⟨fun hfile => ?_,fun _ => ?_⟩
  · refine Ensures.bind fileGet_ok ?_ ?_
    · rintro key w ⟨rfl,hkey⟩
      refine ensures_pure.mpr (Ensures.mono macMigrate_spec fun r t h => .of_migrate hagree ?_ h)
      rw [fileKey,if_pos (hhas hfile)]
      exact hkey key rfl
    · rintro e w ⟨rfl,-⟩
      exact .of_unwritten hagree fun _ _ => Unwritten.refl _
  · have hkeychain : Ensures (M.calls allowed)
        (if create then MacAuto.getOrCreateKeychainKey else Keychain.read) w
        fun r t => ∀ e, r = .error e → Unwritten w t := by
      refine ensures_ite.mpr ⟨fun _ => getOrCreateKeychainKey_error,fun _ => ?_⟩
      exact Ensures.mono reads_keychain fun r t h _ _ => h.1.symm ▸ Unwritten.refl w
    refine ensures_pure.mpr (ensures_bind.mpr (ensures_attempt.mpr (Ensures.mono hkeychain ?_)))
    rintro (e | key) t h
    · have hfails {r : Result Key} : (mac home).FailsUnharmed M w r t :=
        .of_unwritten hagree fun _ _ => h e rfl
      exact ensures_ite.mpr ⟨fun _ => ensures_liftResult.mpr hfails,fun _ => ensures_liftResult.mpr hfails⟩
    · apply ensures_pure.mpr
      intro _ he
      cases he

theorem macImport_failsUnharmed {home : Bool} (hagree : (mac home).Agree M w) :
    Ensures (M.calls allowed) (MacAuto.importKey home key false) w
      ((mac home).FailsUnharmed M w) := by
  refine Ensures.bind fileExists_spec ?_ nofun
  rintro found w ⟨rfl,_,hfound,-⟩
  cases hfound
  refine ensures_ite.mpr ⟨fun _ => ?_,fun _ => ?_⟩
  · refine ensures_bind.mpr (ensures_liftResult.mpr ?_)
    exact fun _ _ => .of_unwritten hagree (Unwritten.refl _)
  · have himport : Ensures (M.calls allowed) (MacAuto.importKeychainKey key false) w
        fun r t => ∀ e, r = .error e → Unwritten w t := by
      refine ensures_bind.mpr (ensures_attempt.mpr (Ensures.mono keychainAdd_spec ?_))
      rintro r t (⟨rfl,-,-⟩ | ⟨rfl,e,rfl,-⟩)
      · exact ensures_pure.mpr nofun
      · exact ensures_ite.mpr ⟨fun _ => ensures_liftResult.mpr fun _ _ => Unwritten.refl _,
          fun _ => ensures_liftResult.mpr fun _ _ => Unwritten.refl _⟩
    refine ensures_bind.mpr (ensures_attempt.mpr (Ensures.mono himport ?_))
    rintro (e | ⟨⟩) t h
    · have hfails {r : Result Unit} : (mac home).FailsUnharmed M w r t :=
        .of_unwritten hagree fun _ _ => h e rfl
      exact ensures_ite.mpr ⟨fun _ => ensures_liftResult.mpr hfails,fun _ => ensures_liftResult.mpr hfails⟩
    · exact ensures_pure.mpr nofun

/-- No operation but a forced import harms the vault. -/
theorem unforced_failsUnharmed {p : Platform} {op : Operation} (hagree : p.Agree M w)
    (hop : ∀ key, op ≠ .importKey key true) :
    Ensures (M.faulty e) (p.program M op) ⟨w,left⟩ fun r t => p.FailsUnharmed M w r t.world := by
  have hmap {α : Type} {x : StoreM α} {f : α → Option Key}
      (hx : Ensures (M.faulty e) x ⟨w,left⟩ fun r t => p.FailsUnharmed M w r t.world) :
      Ensures (M.faulty e) (x >>= fun a => pure (f a)) ⟨w,left⟩
        fun r t => p.FailsUnharmed M w r t.world := by
    refine ensures_map.mpr (Ensures.mono hx ?_)
    rintro (e | a) t h
    · exact fun _ _ => h e rfl
    · exact nofun
  match op with
  | .load =>
    cases p with
    | linux => exact hmap (ensures_faulty_any fun _ => linuxLoad_failsUnharmed hagree)
    | mac home => exact hmap (ensures_faulty_any fun _ => macLoad_failsUnharmed hagree)
  | .loadOrCreate =>
    cases p with
    | linux => exact hmap (linuxLoadOrCreate_failsUnharmed hagree)
    | mac home => exact hmap (ensures_faulty_any fun _ => macLoad_failsUnharmed hagree)
  | .importKey key true => exact absurd rfl (hop key)
  | .importKey key false =>
    cases p with
    | linux => exact hmap (linuxImport_failsUnharmed hagree)
    | mac home => exact hmap (ensures_faulty_any fun _ => macImport_failsUnharmed hagree)

end Unforced

end Platform
end Avault.Store
