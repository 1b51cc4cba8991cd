import Avault.Store.Spec

/-! The keys the file store and the TPM blob hold. -/
namespace Avault.Store
open Foundation Crypto

def fileKey (w : World) : Option Key := w.file.bind (toArray? keyBytes)

def tpmKey (M : Machine) (w : World) : Option Key :=
  w.tpmFile.bind fun bytes => (TpmStore.parseBlob M bytes >>= M.unsealMasterKey).toOption

theorem Kept.tpmKey {M : Machine} {w t : World} (h : Kept w t) : tpmKey M t = tpmKey M w := by
  rw [Store.tpmKey,h.tpmFile,Store.tpmKey]

theorem FileInstalled.fileKey {key : Key} {w t : World} (h : FileInstalled key w t) :
    fileKey t = some key := by
  rw [Store.fileKey,h.file]
  exact toArray?_toList key

theorem FileInstalled.tpmKey {M : Machine} {key : Key} {w t : World} (h : FileInstalled key w t) :
    tpmKey M t = tpmKey M w := by
  rw [Store.tpmKey,h.tpmFile,Store.tpmKey]

theorem TpmInstalled.tpmKey {M : Machine} {key : Key} {w t : World} (h : TpmInstalled M key w t) :
    tpmKey M t = some key := by
  obtain ⟨n,hn⟩ := h.tpmFile
  rw [Store.tpmKey,hn]
  simp [TpmStore.parseBlob,M.blobJson.decode_encode,M.unseal_seal,Except.toOption]

theorem TpmInstalled.fileKey {M : Machine} {key : Key} {w t : World} (h : TpmInstalled M key w t) :
    fileKey t = fileKey w := by
  rw [Store.fileKey,h.file,Store.fileKey]

theorem fileRead_eq_ok {w : World} {key : Key} : fileRead w = .ok key ↔ fileKey w = some key := by
  unfold fileRead fileKey
  cases hfile : w.file with
  | none => simp [check,bind_eq_ok]
  | some bytes =>
    have hdir : w.hasDirectory = true := by simp [World.hasDirectory,hfile]
    have hlong (h : toArray? keyBytes bytes = some key) : ¬ bytes.length < keyBytes := by
      rw [toArray?_eq_some.mp h,Vector.length_toList]
      exact lt_irrefl _
    simp only [check,hdir,Option.isSome_some,if_true,context_ok,ok_bind,Option.elim_some,
      bind_eq_ok,bailIf_eq_ok,FileStore.parseKey,orError_eq_ok,Option.bind_some]
    constructor
    · rintro ⟨_,_,h⟩
      exact h
    · exact fun h => ⟨(),hlong h,h⟩

theorem tpmRead_eq_ok {M : Machine} {w : World} {key : Key} :
    tpmRead M w = .ok key ↔ tpmKey M w = some key := by
  unfold tpmRead tpmKey
  cases hfile : w.tpmFile with
  | none => simp [check,bind_eq_ok]
  | some bytes =>
    have hdir : w.hasDirectory = true := by simp [World.hasDirectory,hfile]
    simp only [check,hdir,Option.isSome_some,if_true,context_ok,ok_bind,Option.elim_some,
      Option.bind_some]
    cases TpmStore.parseBlob M bytes >>= M.unsealMasterKey <;> simp [Except.toOption]

/-- The stores hold the content of the cell, and nothing else. -/
def Holds (M : Machine) (w : World) : Option Key → Prop
  | none => w.file = none ∧ w.tpmFile = none
  | some key => (w.file = none → w.tpmFile ≠ none) ∧ (w.file ≠ none → fileKey w = some key) ∧
      (w.tpmFile ≠ none → tpmKey M w = some key)

/-- The key the stores hold, the file first. -/
def stored (M : Machine) (w : World) : Option Key := fileKey w <|> tpmKey M w

/-- The file store and the TPM blob do not hold different keys. -/
def Agree (M : Machine) (w : World) : Prop :=
  ∀ k k', fileKey w = some k → tpmKey M w = some k' → k = k'

section Holds

variable {M : Machine} {w t : World} {cell : Option Key} {key : Key}

theorem Holds.stored (h : Holds M w cell) : stored M w = cell := by
  cases cell with
  | none => simp [Store.stored,fileKey,tpmKey,h.1,h.2]
  | some key =>
    obtain ⟨hone,hfile,htpm⟩ := h
    by_cases hf : w.file = none
    · rw [Store.stored,htpm (hone hf)]
      simp [fileKey,hf]
    · rw [Store.stored,hfile hf]
      rfl

theorem Holds.agree (h : Holds M w cell) : Agree M w := by
  intro k k' hk hk'
  cases cell with
  | none => simp [fileKey,h.1] at hk
  | some key =>
    obtain ⟨-,hfile,htpm⟩ := h
    have hf : w.file ≠ none := fun hf => by simp [fileKey,hf] at hk
    have ht : w.tpmFile ≠ none := fun ht => by simp [tpmKey,ht] at hk'
    have heq := (hfile hf).symm.trans hk
    have heq' := (htpm ht).symm.trans hk'
    exact (Option.some.inj heq).symm.trans (Option.some.inj heq')

theorem Holds.congr (h : Holds M w cell) (hfile : t.file = w.file) (htpm : t.tpmFile = w.tpmFile) :
    Holds M t cell := by
  cases cell with
  | none => exact ⟨hfile.trans h.1,htpm.trans h.2⟩
  | some key =>
    simp only [Holds,fileKey,tpmKey,hfile,htpm]
    exact h

theorem Kept.holds (hkept : Kept w t) (h : Holds M w cell) : Holds M t cell :=
  h.congr hkept.file hkept.tpmFile

theorem Holds.unique {cell' : Option Key} (h : Holds M w cell) (h' : Holds M w cell') : cell = cell' :=
  h.stored.symm.trans h'.stored

/-- Installing the cell's key in one store keeps the cell; so does any key where the other
store holds none. -/
theorem TpmInstalled.holds (h : TpmInstalled M key w t)
    (hfile : w.file ≠ none → Store.fileKey w = some key) :
    Holds M t (some key) := by
  obtain ⟨n,hn⟩ := h.tpmFile
  refine ⟨fun _ => by simp [hn],fun hf => ?_,fun _ => h.tpmKey⟩
  rw [h.fileKey]
  exact hfile (h.file ▸ hf)

theorem FileInstalled.holds (h : FileInstalled key w t)
    (htpm : w.tpmFile ≠ none → Store.tpmKey M w = some key) :
    Holds M t (some key) := by
  refine ⟨fun hf => ?_,fun _ => h.fileKey,fun ht => ?_⟩
  · rw [h.file] at hf
    cases hf
  · rw [h.tpmKey]
    exact htpm (h.tpmFile ▸ ht)

end Holds

/-- The TPM calls, and only these, may report the TPM unavailable. -/
def TpmMayBeUnavailable (c : Call) (e : Error) : Prop := c.isTpm = true ∧ isTpmUnavailable e = true

theorem not_filesMayFail : ¬ FilesMayFail TpmMayBeUnavailable := by
  rintro ⟨c,e,⟨htpm,_⟩,h⟩
  rw [htpm] at h
  cases h

end Avault.Store
