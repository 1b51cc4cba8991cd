import Avault.Foundation.Bytes

/-! Authenticated encryption with associated data, and the ideal the crypto arguments
assume of it. -/
namespace Avault.Foundation

/-- The two calls of an AEAD: key, nonce, associated data, then message or ciphertext. -/
structure Aead (κ ν : Type*) where
  encrypt : κ → ν → Bytes → Bytes → Option Bytes
  decrypt : κ → ν → Bytes → Bytes → Option Bytes

namespace Aead

variable {κ ν : Type*} (A : Aead κ ν)

/-- Only ciphertexts made under the same key, nonce and associated data decrypt, and
different ones never make the same ciphertext. -/
structure Ideal : Prop where
  decrypt_eq_some : ∀ {k n a c m}, A.decrypt k n a c = some m ↔ A.encrypt k n a m = some c
  encrypt_context : ∀ {k n a m k' n' a' m' c}, A.encrypt k n a m = some c →
    A.encrypt k' n' a' m' = some c → k = k' ∧ n = n' ∧ a = a'

variable {A}

/-- What a ciphertext decrypts to, whatever key, nonce and associated data are presented. -/
theorem Ideal.decrypt_encrypt (h : A.Ideal) {k n a m c} (hc : A.encrypt k n a m = some c)
    {k' n' a' m'} : A.decrypt k' n' a' c = some m' ↔ k' = k ∧ n' = n ∧ a' = a ∧ m' = m := by
  rw [h.decrypt_eq_some]
  constructor
  · intro hc'
    obtain ⟨rfl,rfl,rfl⟩ := h.encrypt_context hc' hc
    have hm := h.decrypt_eq_some.mpr hc
    rw [h.decrypt_eq_some.mpr hc'] at hm
    exact ⟨rfl,rfl,rfl,Option.some.inj hm⟩
  · rintro ⟨rfl,rfl,rfl,rfl⟩
    exact hc

theorem Ideal.decrypt_eq_none (h : A.Ideal) {k n a m c} (hc : A.encrypt k n a m = some c)
    {k' n' a'} (hne : ¬ (k' = k ∧ n' = n ∧ a' = a)) : A.decrypt k' n' a' c = none := by
  rw [Option.eq_none_iff_forall_ne_some]
  intro m' hm
  obtain ⟨hk,hn,ha,_⟩ := (h.decrypt_encrypt hc).mp hm
  exact hne ⟨hk,hn,ha⟩

/-- An ideal AEAD that hides nothing: the ciphertext spells out the whole context. -/
def transparent (κ ν : ℕ) : Aead (Vector UInt8 κ) (Vector UInt8 ν) where
  encrypt k n a m :=
    if a.length < 256^8 then some (k.toList ++ n.toList ++ field 8 a ++ m) else none
  decrypt k n a c :=
    if a.length < 256^8 then
      if k.toList ++ n.toList ++ field 8 a <+: c then
        some (c.drop (k.toList ++ n.toList ++ field 8 a).length)
      else none
    else none

theorem transparent_encrypt {κ ν : ℕ} {k : Vector UInt8 κ} {n : Vector UInt8 ν} {a m : Bytes}
    (ha : a.length < 256^8) : (transparent κ ν).encrypt k n a m =
      some (k.toList ++ n.toList ++ field 8 a ++ m) := if_pos ha

theorem transparent_ideal (κ ν : ℕ) : (transparent κ ν).Ideal where
  decrypt_eq_some := by
    intro k n a c m
    by_cases ha : a.length < 256^8
    · simp only [transparent,if_pos ha,Option.some.injEq]
      constructor
      · intro h
        split at h
        · rename_i hpre
          obtain ⟨t,rfl⟩ := hpre
          rw [List.drop_left,Option.some.injEq] at h
          rw [h]
        · cases h
      · rintro rfl
        rw [if_pos (List.prefix_append _ _),List.drop_left]
    · simp only [transparent,if_neg ha]
      exact ⟨nofun,nofun⟩
  encrypt_context := by
    intro k n a m k' n' a' m' c h h'
    by_cases ha : a.length < 256^8
    · by_cases ha' : a'.length < 256^8
      · simp only [transparent,if_pos ha,if_pos ha',Option.some.injEq,List.append_assoc] at h h'
        subst c
        obtain ⟨hk,h'⟩ := List.append_inj h' (by simp)
        obtain ⟨hn,h'⟩ := List.append_inj h' (by simp)
        obtain ⟨rfl,_⟩ := isField_prefixFree 8 ⟨ha',rfl⟩ ⟨ha,rfl⟩ h'
        exact ⟨(Vector.toList_inj.mp hk).symm,(Vector.toList_inj.mp hn).symm,rfl⟩
      · simp only [transparent,if_neg ha'] at h'
        cases h'
    · simp only [transparent,if_neg ha] at h
      cases h

end Aead
end Avault.Foundation
