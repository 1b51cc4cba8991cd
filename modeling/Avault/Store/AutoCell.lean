import Avault.Store.Session
import Avault.Store.Unharmed

/-! The `auto` store of either platform, one operation at a time, as a single key cell. -/
namespace Avault.Store.Platform
open Foundation Crypto
open Foundation.Program (Ensures ensures_bind ensures_map ensures_pure ensures_attempt ensures_ite)

section Holds

variable (M : Machine) (p : Platform)

/-- The stores that the platform looks at hold the content of the cell, and nothing else. -/
def Holds (w : World) : Option Key → Prop
  | none => p.hasFile w = false ∧ p.strongAbsent w = true
  | some key => (p.hasFile w = false → p.strongAbsent w = false) ∧ (p.hasFile w = true → Store.fileKey w = some key) ∧
      (p.strongAbsent w = false → p.strongKey M w = some key)

variable {M p} {w t : World} {cell : Option Key} {key : Key} {home : Bool}

theorem holds_linux : linux.Holds M w cell ↔ Store.Holds M w cell := by
  cases cell <;> simp [Holds,Store.Holds,hasFile,strongAbsent,strongKey,Option.isSome_iff_ne_none]

/-- On macOS they are the key file, for a process that has a home, and the Keychain. -/
theorem Holds.congr_mac (h : (mac home).Holds M w cell) (hfile : t.file = w.file) (hkeychain : t.keychain = w.keychain) :
    (mac home).Holds M t cell := by
  have hhas : (mac home).hasFile t = (mac home).hasFile w := hasFile_congr hfile
  cases cell with
  | none => exact ⟨hhas.trans h.1,(congrArg Option.isNone hkeychain).trans h.2⟩
  | some key =>
    simp only [Holds,hhas,strongAbsent,strongKey,Store.fileKey,keychainKey,hfile,hkeychain]
    exact h

/-- The Keychain was given the key of the file, or one where there is no file. -/
theorem holds_installed (h : KeychainInstalled key w t)
    (hfile : (mac home).hasFile w = true → Store.fileKey w = some key) : (mac home).Holds M t (some key) := by
  refine ⟨fun _ => by simp [strongAbsent,h.keychain],fun hhas => ?_,fun _ => h.keychainKey⟩
  rw [hasFile_congr h.file] at hhas
  rw [Store.fileKey,h.file]
  exact hfile hhas

end Holds

section Mac

variable {M : Machine} {w : World} {cell : Option Key} {key : Key} {home : Bool} {op : Operation}

/-- An operation on the stores does what one on the cell may. -/
def OnCell (M : Machine) (p : Platform) (cell : Option Key) (op : Operation) (r : Result (Option Key)) (t : World) : Prop :=
  ∃ cell', CellStep cell op r cell' ∧ p.Holds M t cell'

theorem onCell_failed {p : Platform} {e : Error} {t : World} (h : p.Holds M t cell) : p.OnCell M cell op (.error e) t :=
  ⟨cell,.failed,h⟩

/-- It does not matter which error an operation fails with. -/
theorem OnCell.error {p : Platform} {e e' : Error} {t : World} (h : p.OnCell M cell op (.error e) t) :
    p.OnCell M cell op (.error e') t := by
  obtain ⟨cell',hstep,ht⟩ := h
  cases hstep
  exact onCell_failed ht

theorem keychainReplace_spec : Ensures (M.calls TpmMayBeUnavailable) (Keychain.replace key) w
    fun r t => r = .ok () ∧ KeychainInstalled key w t :=
  keychainCall_spec (mayFail_act.mpr ⟨⟨rfl,rfl,rfl,rfl,rfl⟩,fun _ h => nomatch h.1⟩) fun hf => absurd hf not_filesMayFail

/-- A read of the Keychain, where there is no file. -/
theorem keychainRead_onCell (hfound : ∀ key, CellStep (some key) op (.ok (some key)) (some key))
    (hholds : (mac home).Holds M w cell) (hfile : (mac home).hasFile w = false) :
    Ensures (M.calls TpmMayBeUnavailable) Keychain.read w
      fun r t => t = w ∧ (mac home).OnCell M cell op (r.map some) t := by
  apply Ensures.mono reads_keychain
  rintro r t ⟨rfl,rfl | ⟨_,hf,_⟩⟩
  · refine ⟨rfl,?_⟩
    cases hread : keychainRead? t with
    | error e => exact onCell_failed hholds
    | ok key =>
      have hkey := keychainRead?_eq_ok.mp hread
      cases cell with
      | none =>
        rw [keychainKey,Option.isNone_iff_eq_none.mp hholds.2] at hkey
        cases hkey
      | some k =>
        obtain rfl := Option.some.inj ((hholds.2.2 (hholds.1 hfile)).symm.trans hkey)
        exact ⟨some k,hfound k,hholds⟩
  · exact absurd hf not_filesMayFail

/-- A key is only made where there is none, and then it is put into the Keychain. -/
theorem getOrCreateKeychainKey_onCell (hholds : (mac home).Holds M w cell) (hfile : (mac home).hasFile w = false) :
    Ensures (M.calls TpmMayBeUnavailable) MacAuto.getOrCreateKeychainKey w
      fun r t => (mac home).OnCell M cell .loadOrCreate (r.map some) t := by
  refine ensures_bind.mpr (ensures_attempt.mpr (Ensures.mono (keychainRead_onCell (fun _ => .found) hholds hfile) ?_))
  rintro (e | key) w ⟨rfl,hcell⟩
  · refine ensures_ite.mpr ⟨fun _ => ?_,fun _ => ensures_liftResult.mpr hcell⟩
    refine ensures_bind.mpr (mayFail_generateLocked.mpr (ensures_bind.mpr (ensures_attempt.mpr (Ensures.mono keychainAdd_spec ?_))))
    have hminted : (mac home).Holds M w.minted cell := hholds.congr_mac rfl rfl
    rintro r t (⟨rfl,hnone,hinstalled⟩ | ⟨rfl,e,rfl,-⟩)
    · apply ensures_pure.mpr
      cases cell with
      | none => exact ⟨_,.created,holds_installed hinstalled fun h => absurd (hfile.symm.trans h) Bool.false_ne_true⟩
      | some key => exact absurd (hholds.1 hfile) (by simp [strongAbsent,show w.keychain = none from hnone])
    · refine ensures_ite.mpr ⟨fun _ => ?_,fun _ => ensures_liftResult.mpr (onCell_failed hminted)⟩
      exact Ensures.mono (keychainRead_onCell (fun _ => .found) hminted hfile) fun _ _ h => h.2
  · exact ensures_pure.mpr hcell

theorem macLoad_onCell {create : Bool} (hholds : (mac home).Holds M w cell)
    (hop : op = if create then .loadOrCreate else .load) :
    Ensures (M.calls TpmMayBeUnavailable) (MacAuto.loadAutoMasterKeyWith home create) w
      fun r t => (mac home).OnCell M cell op (r.map some) t := by
  have hfound (key : Key) : CellStep (some key) op (.ok (some key)) (some key) := by
    subst hop
    cases create
    · exact .loaded
    · exact .found
  refine ensures_bind.mpr (Ensures.bind (fileExists_exact (fun _ h => nomatch h.1) home) ?_ fun _ _ h => nomatch h.2)
  rintro found w ⟨rfl,h⟩
  obtain rfl := Except.ok.inj h
  refine ensures_ite.mpr ⟨fun hfile => ?_,fun hfile => ?_⟩
  · cases cell with
    | none => exact absurd (hholds.1.symm.trans hfile) Bool.false_ne_true
    | some key =>
      refine Ensures.bind fileGet_ok ?_ ?_
      · rintro k w ⟨rfl,hkey⟩
        obtain rfl := Option.some.inj ((hholds.2.1 hfile).symm.trans (hkey k rfl))
        have hmigrate : Ensures (M.calls TpmMayBeUnavailable) (MacAuto.migrateFileKeyToKeychain key) w
            (MigrateOutcome key w ((mac home).StrongInstalled M key w)) := macMigrate_spec
        refine ensures_pure.mpr (Ensures.mono hmigrate ?_)
        rintro r t ⟨hresult,hstores⟩
        have ht : (mac home).Holds M t (some key) := by
          obtain hkept | hinstalled := hstores
          · exact hholds.congr_mac hkept.file hkept.keychain
          · exact holds_installed hinstalled hholds.2.1
        cases r with
        | error e => exact onCell_failed ht
        | ok k =>
          obtain rfl := hresult k rfl
          exact ⟨_,hfound _,ht⟩
      · rintro e _ ⟨rfl,-⟩
        exact onCell_failed hholds
  · have hfile := Bool.eq_false_iff.mpr hfile
    have hkeychain : Ensures (M.calls TpmMayBeUnavailable) (if create then MacAuto.getOrCreateKeychainKey else Keychain.read) w
        fun r t => (mac home).OnCell M cell op (r.map some) t := by
      subst hop
      cases create with
      | true => exact getOrCreateKeychainKey_onCell hholds hfile
      | false => exact Ensures.mono (keychainRead_onCell (fun _ => .loaded) hholds hfile) fun _ _ h => h.2
    refine ensures_pure.mpr (ensures_bind.mpr (ensures_attempt.mpr (Ensures.mono hkeychain ?_)))
    rintro (e | key) t h
    · exact ensures_ite.mpr ⟨fun _ => ensures_liftResult.mpr h.error,fun _ => ensures_liftResult.mpr h⟩
    · exact ensures_pure.mpr h

/-- A forced import replaces the item of the Keychain; another one adds it. -/
theorem importKeychainKey_onCell {force : Bool} (hholds : (mac home).Holds M w cell) (hfile : (mac home).hasFile w = false) :
    Ensures (M.calls TpmMayBeUnavailable) (MacAuto.importKeychainKey key force) w
      fun r t => (mac home).OnCell M cell (.importKey key force) (r.map fun _ => none) t := by
  have hempty (h : (mac home).hasFile w = true) : Store.fileKey w = some key :=
    absurd (hfile.symm.trans h) Bool.false_ne_true
  cases force with
  | true =>
    refine ensures_withContext.mpr (Ensures.mono keychainReplace_spec ?_)
    rintro r t ⟨rfl,hinstalled⟩
    exact ⟨_,.imported (.inl rfl),holds_installed hinstalled hempty⟩
  | false =>
    refine ensures_bind.mpr (ensures_attempt.mpr (Ensures.mono keychainAdd_spec ?_))
    rintro r t (⟨rfl,hnone,hinstalled⟩ | ⟨rfl,e,rfl,-⟩)
    · apply ensures_pure.mpr
      cases cell with
      | none => exact ⟨_,.imported (.inr rfl),holds_installed hinstalled hempty⟩
      | some k => exact absurd (hholds.1 hfile) (by simp [strongAbsent,hnone])
    · exact ensures_ite.mpr ⟨fun _ => ensures_liftResult.mpr (onCell_failed hholds),
        fun _ => ensures_liftResult.mpr (onCell_failed hholds)⟩

theorem macImport_onCell {force : Bool} (hholds : (mac home).Holds M w cell) :
    Ensures (M.calls TpmMayBeUnavailable) (MacAuto.importKey home key force) w
      fun r t => (mac home).OnCell M cell (.importKey key force) (r.map fun _ => none) t := by
  refine Ensures.bind (fileExists_exact (fun _ h => nomatch h.1) home) ?_ fun _ _ h => nomatch h.2
  rintro found w ⟨rfl,h⟩
  obtain rfl := Except.ok.inj h
  refine ensures_ite.mpr ⟨fun hfile => ?_,fun hfile => ?_⟩
  · refine ensures_bind.mpr (ensures_liftResult.mpr ?_)
    cases force with
    | false => exact onCell_failed hholds
    | true =>
      -- both stores get the key
      refine ensures_bind.mpr (ensures_withContext.mpr (ensures_withContext.mpr (Ensures.mono keychainReplace_spec ?_)))
      rintro r t ⟨rfl,hinstalled⟩
      refine ensures_withContext.mpr (Ensures.mono fileImport_spec ?_)
      intro r u h
      cases h with
      | done h =>
        refine ⟨_,.imported (.inl rfl),fun _ => ?_,fun _ => h.2.fileKey,fun _ => ?_⟩
        · simp [strongAbsent,h.2.keychain,hinstalled.keychain]
        · change keychainKey u = some key
          rw [keychainKey,h.2.keychain]
          exact hinstalled.keychainKey
      | late hf _ => exact absurd hf not_filesMayFail
      | refused h _ =>
        obtain hf | ⟨hforce,-⟩ := h
        · exact absurd hf not_filesMayFail
        · cases hforce
  · have hfile := Bool.eq_false_iff.mpr hfile
    refine ensures_bind.mpr (ensures_attempt.mpr (Ensures.mono (importKeychainKey_onCell hholds hfile) ?_))
    rintro (e | ⟨⟩) t h
    · exact ensures_ite.mpr ⟨fun _ => ensures_liftResult.mpr h.error,fun _ => ensures_liftResult.mpr h⟩
    · exact ensures_pure.mpr h

/-- An operation on the stores that hold a cell, by itself and with no fault but a TPM that is not available, does
what one on the cell may. -/
theorem operation_onCell {p : Platform} (hholds : p.Holds M w cell) :
    Ensures (M.calls TpmMayBeUnavailable) (p.program M op) w (p.OnCell M cell op) := by
  cases p with
  | linux =>
    refine Ensures.mono (operation_stepsCell (holds_linux.mp hholds)) ?_
    rintro r t ⟨⟨cell',hstep,ht⟩,-⟩
    exact ⟨cell',hstep,holds_linux.mpr ht⟩
  | mac home =>
    cases op with
    | load => exact ensures_map.mpr (macLoad_onCell hholds rfl)
    | loadOrCreate => exact ensures_map.mpr (macLoad_onCell hholds rfl)
    | importKey key force => exact ensures_map.mpr (macImport_onCell hholds)

end Mac
end Avault.Store.Platform
