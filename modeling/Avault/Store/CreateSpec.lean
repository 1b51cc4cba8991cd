import Avault.Store.LinuxAuto
import Avault.Store.Vault

/-! What the operations that may create a key can do, whatever calls may fail. -/
namespace Avault.Store
open Foundation Crypto
open Foundation.Program (Ensures ensures_bind ensures_pure ensures_attempt ensures_ite)

/-- How drawing a key and storing it ends. A key that was not stored may have been drawn. -/
inductive MintOutcome (faults refuses : Prop) (key : Key) (w : World) (installed : World → Prop) :
    Result Key → World → Prop
  | done {t} : installed t → MintOutcome faults refuses key w installed (.ok key) t
  | refused {e t} : refuses → Kept w t ∨ Kept w.minted t →
    MintOutcome faults refuses key w installed (.error e) t
  | late {e t} : faults → installed t → MintOutcome faults refuses key w installed (.error e) t

section Specs

variable {M : Machine} {allowed : Call → Error → Prop} {w : World}

/-- `create_atomic` where no file is there yet. Its answer to an `AlreadyExists` is success. -/
theorem fileCreateAtomic_spec (hfile : w.file = none) :
    Ensures (M.calls allowed) FileStore.createAtomic w fun r t =>
      FileInstalled (M.randomKey w.draws) w.minted t ∧ (r = .ok () ∨ FilesMayFail allowed) ∨
      FilesMayFail allowed ∧ (Kept w t ∨ Kept w.minted t) := by
  refine ensureParent_bind (fun u hkept hdir => ?_) fun hf e t hkept => .inr ⟨hf,.inl hkept⟩
  refine ensures_bind.mpr (mayFail_generateLocked.mpr ?_)
  have hminted : Kept w.minted u.minted :=
    ⟨hkept.file,hkept.tpmFile,hkept.keychain,congrArg (·+1) hkept.draws⟩
  have hnone : u.minted.content .machineKey = none := hkept.file.trans hfile
  have hkey : M.randomKey u.draws = M.randomKey w.draws := by rw [hkept.draws]
  rw [hkey]
  refine Ensures.bind (reads_writeSyncedTempSecretFile (w := u.minted) hdir) ?_ ?_
  · rintro tmp t ⟨rfl,h | ⟨_,_,h⟩⟩
    · cases h
      refine ensures_bind.mpr (ensures_attempt.mpr (mayFail_act.mpr ⟨?_,fun e he => ?_⟩))
      · rw [performAct_persistNoclobber_none hnone]
        have hinstalled : FileInstalled (M.randomKey w.draws) w.minted
            (u.minted.install (M.randomKey w.draws).toList .machineKey) :=
          ⟨rfl,hminted.tpmFile,hminted.keychain,hminted.draws⟩
        refine Ensures.mono (reads_installed ?_ (rfl : (World.content _ .machineKey).isSome = true)) ?_
        · simp [World.install,World.hasDirectory]
        · rintro r t ⟨rfl,rfl | ⟨e,he,rfl⟩⟩
          · exact .inl ⟨hinstalled,.inl rfl⟩
          · exact .inl ⟨hinstalled,.inr he⟩
      · have hf : FilesMayFail allowed := ⟨_,e,he,rfl⟩
        refine ensures_ite.mpr ⟨fun _ => ensures_pure.mpr ?_,fun _ => ensures_liftResult.mpr ?_⟩
        · exact .inr ⟨hf,.inr hminted⟩
        · exact .inr ⟨hf,.inr hminted⟩
    · cases h
  · rintro e t ⟨rfl,h | ⟨_,he,h⟩⟩
    · cases h
    · exact .inr ⟨he,.inr hminted⟩

theorem fileRead_error (hfile : w.file = none) : ∃ e, fileRead w = .error e := by
  cases h : fileRead w with
  | error e => exact ⟨e,rfl⟩
  | ok key =>
    rw [fileRead_eq_ok,fileKey,hfile] at h
    cases h

theorem tpmRead_error (htpm : w.tpmFile = none) : ∃ e, tpmRead M w = .error e := by
  cases h : tpmRead M w with
  | error e => exact ⟨e,rfl⟩
  | ok key =>
    rw [tpmRead_eq_ok,tpmKey,htpm] at h
    cases h

/-- Reading a file that is not there ends in an error. -/
theorem fileGet_missing (hfile : w.file = none) :
    Ensures (M.calls allowed) FileStore.get w fun r t => t = w ∧ ∃ e, r = .error e := by
  obtain ⟨e₀,h₀⟩ := fileRead_error hfile
  apply Ensures.mono reads_fileGet
  rintro r t ⟨rfl,rfl | ⟨e,_,rfl⟩⟩
  · exact ⟨rfl,e₀,h₀⟩
  · exact ⟨rfl,e,rfl⟩

theorem tpmGet_missing (htpm : w.tpmFile = none) :
    Ensures (M.calls allowed) (TpmStore.getWith M) w fun r t => t = w ∧ ∃ e, r = .error e := by
  obtain ⟨e₀,h₀⟩ := tpmRead_error (M := M) htpm
  apply Ensures.mono reads_tpmGetWith
  rintro r t ⟨rfl,rfl | ⟨e,_,rfl⟩⟩
  · exact ⟨rfl,e₀,h₀⟩
  · exact ⟨rfl,e,rfl⟩

/-- `get_or_create` where no file is there yet. -/
theorem fileGetOrCreate_spec (hfile : w.file = none) :
    Ensures (M.calls allowed) FileStore.getOrCreate w
      (MintOutcome (FilesMayFail allowed) (FilesMayFail allowed) (M.randomKey w.draws) w
        (FileInstalled (M.randomKey w.draws) w.minted)) := by
  refine ensures_bind.mpr (ensures_attempt.mpr (Ensures.mono (fileGet_missing hfile) ?_))
  rintro _ _ ⟨rfl,e,rfl⟩
  refine Ensures.bind (fileCreateAtomic_spec hfile) ?_ ?_
  · rintro ⟨⟩ t (⟨hinstalled,_⟩ | ⟨hf,hkept⟩)
    · have hread : fileRead t = .ok (M.randomKey _) := fileRead_eq_ok.mpr hinstalled.fileKey
      apply Ensures.mono reads_fileGet
      rintro r u ⟨rfl,rfl | ⟨e,he,rfl⟩⟩
      · rw [hread]
        exact .done hinstalled
      · exact .late he hinstalled
    · have hnone : t.file = none := hkept.elim (·.file.trans hfile) (·.file.trans hfile)
      apply Ensures.mono (fileGet_missing hnone)
      rintro r u ⟨rfl,e,rfl⟩
      exact .refused hf hkept
  · rintro e t (⟨hinstalled,h | hf⟩ | ⟨hf,hkept⟩)
    · cases h
    · exact .late hf hinstalled
    · exact .refused hf hkept

/-- `get_or_create_with` where no blob is there yet. -/
theorem tpmGetOrCreate_spec (htpm : w.tpmFile = none) :
    Ensures (M.calls allowed) (TpmStore.getOrCreateWith M) w
      (MintOutcome (FilesMayFail allowed) True (M.randomKey w.draws) w
        (TpmInstalled M (M.randomKey w.draws) w.minted)) := by
  refine ensures_bind.mpr (ensures_attempt.mpr (Ensures.mono (tpmGet_missing htpm) ?_))
  rintro _ w ⟨rfl,e,rfl⟩
  refine ensures_ite.mpr ⟨fun _ => ?_,fun _ =>
    ensures_liftResult.mpr (.refused trivial (.inl (Kept.refl w)))⟩
  refine ensures_bind.mpr (mayFail_generateLocked.mpr ?_)
  refine ensures_bind.mpr (ensures_attempt.mpr (Ensures.mono (tpmCreate_spec (w := w.minted)) ?_))
  intro r t h
  cases h with
  | done hinstalled => exact ensures_pure.mpr (.done hinstalled.2)
  | refused _ hkept =>
    refine ensures_ite.mpr ⟨fun _ => ?_,fun _ => ensures_liftResult.mpr (.refused trivial (.inr hkept))⟩
    apply Ensures.mono (tpmGet_missing (hkept.tpmFile.trans htpm))
    rintro r u ⟨rfl,e,rfl⟩
    exact .refused trivial (.inr hkept)
  | late hf hinstalled =>
    refine ensures_ite.mpr ⟨fun _ => ?_,fun _ => ensures_liftResult.mpr (.late hf hinstalled.2)⟩
    have hread : tpmRead M t = .ok (M.randomKey w.draws) := tpmRead_eq_ok.mpr hinstalled.2.tpmKey
    apply Ensures.mono reads_tpmGetWith
    rintro r u ⟨rfl,rfl | ⟨e,_,rfl⟩⟩
    · rw [hread]
      exact .done hinstalled.2
    · exact .late hf hinstalled.2

/-- A migration returns the file key or nothing, and installs it or nothing. -/
structure MigrateOutcome (key : Key) (w : World) (installed : World → Prop) (r : Result Key)
    (t : World) : Prop where
  result : ∀ k, r = .ok k → k = key
  stores : Kept w t ∨ installed t

section Migrate

variable {T : Program.Transformer Call Call.Reply World} {S : StrongStore} {key : Key}
  {installed : World → Prop}

theorem migrate_compare {text : String} {k : Key} {t : World} (ht : Kept w t ∨ installed t) :
    Ensures T (if k = key then pure k else liftResult (bail text)) t
      (MigrateOutcome key w installed) := by
  refine ensures_ite.mpr ⟨fun hk => ensures_pure.mpr ⟨?_,ht⟩,
    fun _ => ensures_liftResult.mpr ⟨nofun,ht⟩⟩
  rintro _ ⟨⟩
  exact hk

/-- A migration through a store whose reads change nothing. -/
theorem migrateFileKey_spec (hread : ∀ u, Ensures T S.read u fun _ t => t = u)
    (hadd : Ensures T (S.add key) w fun _ t => Kept w t ∨ installed t) :
    Ensures T (migrateFileKey S key) w (MigrateOutcome key w installed) := by
  have hkey {t : World} (ht : Kept w t ∨ installed t) : MigrateOutcome key w installed (.ok key) t :=
    ⟨fun _ h => (Except.ok.inj h).symm,ht⟩
  refine ensures_bind.mpr (ensures_attempt.mpr (Ensures.mono (hread w) ?_))
  rintro (e | k) w rfl
  · refine ensures_ite.mpr ⟨fun _ => ?_,fun _ => ensures_ite.mpr ⟨fun _ => ensures_pure.mpr ?_,
      fun _ => ensures_liftResult.mpr ⟨nofun,.inl (Kept.refl _)⟩⟩⟩
    · refine ensures_bind.mpr (ensures_attempt.mpr (Ensures.mono hadd ?_))
      rintro (e | u) t ht
      · refine ensures_ite.mpr ⟨fun _ => ?_,fun _ => ensures_ite.mpr ⟨fun _ => ensures_pure.mpr (hkey ht),
          fun _ => ensures_liftResult.mpr ⟨nofun,ht⟩⟩⟩
        refine Ensures.bind (hread t) ?_ ?_
        · rintro k _ rfl
          exact migrate_compare ht
        · rintro e _ rfl
          exact ⟨nofun,ht⟩
      · exact ensures_pure.mpr (hkey ht)
    · exact hkey (.inl (Kept.refl _))
  · exact migrate_compare (.inl (Kept.refl _))

end Migrate

theorem migrate_spec {key : Key} :
    Ensures (M.calls allowed) (LinuxAuto.migrateFileKeyToTpm M key) w
      (MigrateOutcome key w fun t => w.tpmFile = none ∧ TpmInstalled M key w t) := by
  refine migrateFileKey_spec (fun u => Ensures.mono reads_tpmGetWith fun _ _ h => h.1)
    (Ensures.mono tpmCreate_spec fun r t h => ?_)
  cases h with
  | done h | late _ h => exact .inr ⟨h.1.resolve_left nofun,h.2⟩
  | refused _ hkept => exact .inl hkept

end Specs
end Avault.Store
