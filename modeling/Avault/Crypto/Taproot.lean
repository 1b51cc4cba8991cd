import Avault.Crypto.Bip340

/-! The secret and the output key of the Taproot key path belong together. -/
namespace Avault.Crypto
open Foundation

section Statement

variable {n : ℕ} {Point : Type} [AddCommGroup Point] [DecidableEq Point] (C : Curve n Point)
  (sha256 : Bytes → Key)

/-- The TapTweak hash of `x(d·G)`, as a number. -/
def tweakValue (d : ℕ) : ℕ := keyValue (taggedHash sha256 tapTweakTag (C.x (d • C.generator)).toList)

/-- The tweaked secret: the one of `d` and `-d` with an even point, and the tweak. -/
def tweakedScalar (d : ℕ) : ZMod n := C.normalize (d : ZMod n) + (tweakValue C sha256 d : ZMod n)

structure KeypathConsistent (schnorr : Schnorr C) (privateKey : Key) : Prop where
  fails : (∃ e, taprootKeypathMaterial C sha256 privateKey = .error e) ↔
    keyValue privateKey = 0 ∨ n ≤ keyValue privateKey ∨ n ≤ tweakValue C sha256 (keyValue privateKey) ∨
      tweakedScalar C sha256 (keyValue privateKey) = 0
  consistent : ∀ material, taprootKeypathMaterial C sha256 privateKey = .ok material →
    0 < keyValue material.tweakedSecret ∧ keyValue material.tweakedSecret < n ∧
      C.x (keyValue material.tweakedSecret • C.generator) = material.outputX
  finite : taprootKeypathMaterial C sha256 privateKey ≠ bail "taproot output key is the point at infinity"
  /-- The keys `d` and `n-d` give the same. -/
  negated : ∀ negated, keyValue privateKey + keyValue negated = n →
    taprootKeypathMaterial C sha256 negated = taprootKeypathMaterial C sha256 privateKey
  /-- What is signed passes the check that follows. -/
  verified : ∀ material digest auxRand, taprootKeypathMaterial C sha256 privateKey = .ok material →
    signSchnorrBip341KeypathWithAux C schnorr sha256 privateKey digest auxRand =
      signSchnorrWithAux C schnorr material.tweakedSecret digest auxRand

end Statement

section Scalar

variable {n : ℕ} {bytes privateKey : Key} {scalar : ZMod n}

theorem fromRepr_eq_some : fromRepr n bytes = some scalar ↔
    keyValue bytes < n ∧ scalar = (keyValue bytes : ZMod n) := by
  unfold fromRepr
  split
  · next h => simp [h,eq_comm]
  · next h => simp [h]

theorem natCast_eq_zero {k : ℕ} (h : k < n) : (k : ZMod n) = 0 ↔ k = 0 := by
  rw [ZMod.natCast_eq_zero_iff]
  exact ⟨fun hdvd => Nat.eq_zero_of_dvd_of_lt hdvd h,fun hk => hk ▸ dvd_zero n⟩

theorem parsePrivateScalar_eq_ok : parsePrivateScalar n privateKey = .ok scalar ↔
    keyValue privateKey ≠ 0 ∧ keyValue privateKey < n ∧ scalar = (keyValue privateKey : ZMod n) := by
  simp only [parsePrivateScalar,bind_eq_ok,orError_eq_ok,fromRepr_eq_some,bailIf_eq_ok,pure_eq_ok,Except.ok.injEq]
  constructor
  · rintro ⟨_,⟨hlt,rfl⟩,_,hne,rfl⟩
    exact ⟨fun hzero => hne ((natCast_eq_zero hlt).mpr hzero),hlt,rfl⟩
  · rintro ⟨hne,hlt,rfl⟩
    exact ⟨_,⟨hlt,rfl⟩,(),fun hzero => hne ((natCast_eq_zero hlt).mp hzero),rfl⟩

end Scalar

section Material

variable {n : ℕ} {Point : Type} [AddCommGroup Point] [DecidableEq Point] {C : Curve n Point}
  {sha256 : Bytes → Key} {privateKey : Key} {material : TaprootKeyMaterial}

theorem parsePrivateScalar_eq : parsePrivateScalar n privateKey =
    if keyValue privateKey = 0 ∨ n ≤ keyValue privateKey then bail "invalid key"
    else .ok (keyValue privateKey : ZMod n) := by
  by_cases hlt : keyValue privateKey < n
  · have hrepr : fromRepr n privateKey = some (keyValue privateKey : ZMod n) := if_pos hlt
    by_cases hzero : keyValue privateKey = 0
    · rw [if_pos (.inl hzero)]
      simp only [parsePrivateScalar,hrepr,orError_some,ok_bind,bailIf]
      rw [if_pos ((natCast_eq_zero hlt).mpr hzero)]
      rfl
    · have hne : ¬ (keyValue privateKey = 0 ∨ n ≤ keyValue privateKey) := by omega
      rw [if_neg hne,parsePrivateScalar_eq_ok]
      exact ⟨hzero,hlt,rfl⟩
  · rw [if_pos (.inr (not_lt.mp hlt)),parsePrivateScalar,show fromRepr n privateKey = none from if_neg hlt]
    rfl

/-- From the normalized secret on, both sides add the same tweak. -/
theorem taprootKeypathMaterialWithTweak_eq (secret : ZMod n) (tweakBytes : Key) :
    taprootKeypathMaterialWithTweak C secret (C.mul secret) tweakBytes =
      if n ≤ keyValue tweakBytes then bail "taproot tweak is out of range"
      else if secret + (keyValue tweakBytes : ZMod n) = 0 then bail "taproot tweaked secret is zero"
      else .ok ⟨scalarBytes (secret + (keyValue tweakBytes : ZMod n)),
        C.x (C.mul (secret + (keyValue tweakBytes : ZMod n)))⟩ := by
  unfold taprootKeypathMaterialWithTweak fromRepr
  by_cases hlt : keyValue tweakBytes < n
  · have hzero : C.mul (secret + (keyValue tweakBytes : ZMod n)) = 0 ↔ secret + (keyValue tweakBytes : ZMod n) = 0 :=
      C.mul_eq_zero
    rw [if_pos hlt,if_neg (not_le.mpr hlt)]
    simp only [orError_some,ok_bind,← C.mul_add,hzero,bailIf]
    split
    · rfl
    · rfl
  · rw [if_neg hlt,if_pos (not_lt.mp hlt)]
    rfl

/-- The whole function of the number that the key is. -/
theorem taprootKeypathMaterial_eq : taprootKeypathMaterial C sha256 privateKey =
    if keyValue privateKey = 0 ∨ n ≤ keyValue privateKey then bail "invalid key"
    else if n ≤ tweakValue C sha256 (keyValue privateKey) then bail "taproot tweak is out of range"
    else if tweakedScalar C sha256 (keyValue privateKey) = 0 then bail "taproot tweaked secret is zero"
    else .ok ⟨scalarBytes (tweakedScalar C sha256 (keyValue privateKey)),
      C.x (C.mul (tweakedScalar C sha256 (keyValue privateKey)))⟩ := by
  rw [taprootKeypathMaterial,parsePrivateScalar_eq]
  by_cases hinvalid : keyValue privateKey = 0 ∨ n ≤ keyValue privateKey
  · rw [if_pos hinvalid,if_pos hinvalid]
    rfl
  · rw [if_neg hinvalid,if_neg hinvalid,ok_bind]
    have hne : (keyValue privateKey : ZMod n) ≠ 0 := fun hzero =>
      hinvalid (.inl ((natCast_eq_zero (by omega)).mp hzero))
    have hx := C.x_mul_normalize hne
    rw [C.mul_natCast] at hx
    change taprootKeypathMaterialWithTweak C (C.normalize (keyValue privateKey : ZMod n))
      (C.mul (C.normalize (keyValue privateKey : ZMod n)))
      (taggedHash sha256 tapTweakTag (C.x (C.mul (C.normalize (keyValue privateKey : ZMod n)))).toList) = _
    rw [hx,taprootKeypathMaterialWithTweak_eq]
    rfl

omit [DecidableEq Point] in
/-- A key and its negation have the same point up to its parity, which is normalized. -/
theorem tweaked_negated {d d' : ℕ} (hsum : d + d' = n) (hd : d ≠ 0) (hd' : d' ≠ 0) :
    tweakValue C sha256 d' = tweakValue C sha256 d ∧ tweakedScalar C sha256 d' = tweakedScalar C sha256 d := by
  have hneg : (d' : ZMod n) = -(d : ZMod n) := by
    refine eq_neg_of_add_eq_zero_right ?_
    rw [← Nat.cast_add,hsum,ZMod.natCast_self]
  have hne : (d : ZMod n) ≠ 0 := fun hzero => hd ((natCast_eq_zero (by omega)).mp hzero)
  have htweak : tweakValue C sha256 d' = tweakValue C sha256 d := by
    rw [tweakValue,tweakValue,← C.mul_natCast,← C.mul_natCast,hneg,C.x_mul_neg hne]
  exact ⟨htweak,by rw [tweakedScalar,tweakedScalar,htweak,hneg,C.normalize_neg hne]⟩

theorem taprootKeypathMaterial_fails : (∃ e, taprootKeypathMaterial C sha256 privateKey = .error e) ↔
    keyValue privateKey = 0 ∨ n ≤ keyValue privateKey ∨ n ≤ tweakValue C sha256 (keyValue privateKey) ∨
      tweakedScalar C sha256 (keyValue privateKey) = 0 := by
  rw [taprootKeypathMaterial_eq]
  split
  · next hinvalid =>
    exact ⟨fun _ => or_assoc.mp (.inl hinvalid),fun _ => ⟨_,rfl⟩⟩
  · next hvalid =>
    split
    · next htweak => exact ⟨fun _ => .inr (.inr (.inl htweak)),fun _ => ⟨_,rfl⟩⟩
    · next htweak =>
      split
      · next hzero => exact ⟨fun _ => .inr (.inr (.inr hzero)),fun _ => ⟨_,rfl⟩⟩
      · next hzero =>
        constructor
        · rintro ⟨e,he⟩
          exact (error_ne_ok he.symm).elim
        · rintro (h | h | h | h)
          · exact (hvalid (.inl h)).elim
          · exact (hvalid (.inr h)).elim
          · exact (htweak h).elim
          · exact (hzero h).elim

theorem taprootKeypathMaterial_eq_ok : taprootKeypathMaterial C sha256 privateKey = .ok material ↔
    ¬ (keyValue privateKey = 0 ∨ n ≤ keyValue privateKey) ∧ ¬ n ≤ tweakValue C sha256 (keyValue privateKey) ∧
      tweakedScalar C sha256 (keyValue privateKey) ≠ 0 ∧
      material = ⟨scalarBytes (tweakedScalar C sha256 (keyValue privateKey)),
        C.x (C.mul (tweakedScalar C sha256 (keyValue privateKey)))⟩ := by
  rw [taprootKeypathMaterial_eq]
  split
  · next hinvalid => exact ⟨fun he => (error_ne_ok he).elim,fun h => (h.1 hinvalid).elim⟩
  · next hvalid =>
    split
    · next htweak => exact ⟨fun he => (error_ne_ok he).elim,fun h => (h.2.1 htweak).elim⟩
    · next htweak =>
      split
      · next hzero => exact ⟨fun he => (error_ne_ok he).elim,fun h => (h.2.2.1 hzero).elim⟩
      · next hzero =>
        exact ⟨fun h => ⟨hvalid,htweak,hzero,(Except.ok.inj h).symm⟩,fun h => congrArg _ h.2.2.2.symm⟩

/-- The point of the tweaked secret is the output point, which is not the identity. -/
theorem taprootKeypathMaterial_consistent (h : taprootKeypathMaterial C sha256 privateKey = .ok material) :
    0 < keyValue material.tweakedSecret ∧ keyValue material.tweakedSecret < n ∧
      C.x (keyValue material.tweakedSecret • C.generator) = material.outputX := by
  have := C.neZero
  obtain ⟨-,-,hne,rfl⟩ := taprootKeypathMaterial_eq_ok.mp h
  rw [keyValue_scalarBytes C.bound]
  exact ⟨Nat.pos_of_ne_zero fun hzero => hne ((ZMod.val_eq_zero _).mp hzero),ZMod.val_lt _,rfl⟩

theorem taprootKeypathMaterial_finite :
    taprootKeypathMaterial C sha256 privateKey ≠ bail "taproot output key is the point at infinity" := by
  rw [taprootKeypathMaterial_eq]
  split
  · exact fun h => absurd (Except.error.inj h) (by decide)
  · split
    · exact fun h => absurd (Except.error.inj h) (by decide)
    · split
      · exact fun h => absurd (Except.error.inj h) (by decide)
      · exact fun h => error_ne_ok h.symm

theorem taprootKeypathMaterial_negated {negated : Key} (hsum : keyValue privateKey + keyValue negated = n) :
    taprootKeypathMaterial C sha256 negated = taprootKeypathMaterial C sha256 privateKey := by
  rw [taprootKeypathMaterial_eq,taprootKeypathMaterial_eq]
  by_cases hd : keyValue privateKey = 0
  · rw [if_pos (by omega : keyValue negated = 0 ∨ n ≤ keyValue negated),if_pos (.inl hd)]
  · by_cases hd' : keyValue negated = 0
    · rw [if_pos (.inl hd'),if_pos (by omega : keyValue privateKey = 0 ∨ n ≤ keyValue privateKey)]
    · obtain ⟨htweak,hscalar⟩ : tweakValue C sha256 (keyValue negated) = tweakValue C sha256 (keyValue privateKey) ∧
          tweakedScalar C sha256 (keyValue negated) = tweakedScalar C sha256 (keyValue privateKey) :=
        tweaked_negated hsum hd hd'
      rw [if_neg (by omega : ¬ (keyValue negated = 0 ∨ n ≤ keyValue negated)),
        if_neg (by omega : ¬ (keyValue privateKey = 0 ∨ n ≤ keyValue privateKey)),htweak,hscalar]

/-- Once there is a signature, its check passes. -/
theorem signSchnorrBip341KeypathWithAux_eq (schnorr : Schnorr C) (digest auxRand : Key)
    (h : taprootKeypathMaterial C sha256 privateKey = .ok material) :
    signSchnorrBip341KeypathWithAux C schnorr sha256 privateKey digest auxRand =
      signSchnorrWithAux C schnorr material.tweakedSecret digest auxRand := by
  obtain ⟨-,-,hne,hmaterial⟩ := taprootKeypathMaterial_eq_ok.mp h
  obtain ⟨verifying,hverifying⟩ := schnorr.verifyingKey_exists _ hne
  have hsecret : material.tweakedSecret = scalarBytes (tweakedScalar C sha256 (keyValue privateKey)) := by
    rw [hmaterial]
  have houtput : schnorr.verifyingKeyFromBytes material.outputX = some verifying := by
    rw [hmaterial,hverifying]
  rw [signSchnorrBip341KeypathWithAux,h,ok_bind]
  unfold signSchnorrWithAux
  cases hsigning : schnorr.signingKeyFromBytes material.tweakedSecret with
  | none => rfl
  | some signing =>
    cases hsignature : schnorr.signPrehashWithAuxRand signing digest auxRand with
    | none =>
      simp only [orError_some,ok_bind,hsignature]
      rfl
    | some signature =>
      have hverifies := schnorr.verifies _ hne signing verifying digest auxRand signature
        (hsecret ▸ hsigning) hverifying hsignature
      simp only [orError_some,ok_bind,pure_eq_ok,hsignature,houtput,schnorr.signature_roundtrip,hverifies,bailIf]
      rfl

end Material

/-- The key-path material is consistent for every private key. -/
theorem taproot_consistent {n : ℕ} {Point : Type} [AddCommGroup Point] [DecidableEq Point] (C : Curve n Point)
    (sha256 : Bytes → Key) (schnorr : Schnorr C) (privateKey : Key) : KeypathConsistent C sha256 schnorr privateKey where
  fails := taprootKeypathMaterial_fails
  consistent _ h := taprootKeypathMaterial_consistent h
  finite := taprootKeypathMaterial_finite
  negated _ hsum := taprootKeypathMaterial_negated hsum
  verified _ digest auxRand h := signSchnorrBip341KeypathWithAux_eq schnorr digest auxRand h

section Sample
open Bip340

def sampleCurve : Curve 251 (ZMod 251) := modCurve (by norm_num) (by decide) (by decide)
def remainderHash (bytes : Bytes) : Key := scalarBytes (readBigEndian bytes : ZMod 251)
def sampleSchnorr : Schnorr sampleCurve := schnorr sampleCurve remainderHash (modLift _ _ _)
def sampleKey (d : ℕ) : Key := scalarBytes (d : ZMod 251)

/-- The keys 5, whose point is odd, and 246 have the same material, with which a digest is signed. -/
theorem taproot_consistent_sample : ∃ material result,
    sampleCurve.yIsOdd (5 • sampleCurve.generator) = true ∧
      taprootKeypathMaterial sampleCurve remainderHash (sampleKey 5) = .ok material ∧
      taprootKeypathMaterial sampleCurve remainderHash (sampleKey 246) = .ok material ∧
      sampleCurve.x (keyValue material.tweakedSecret • sampleCurve.generator) = material.outputX ∧
      signSchnorrWithAux sampleCurve sampleSchnorr material.tweakedSecret (sampleKey 7) (sampleKey 9) = .ok result ∧
      signSchnorrBip341KeypathWithAux sampleCurve sampleSchnorr remainderHash (sampleKey 5) (sampleKey 7) (sampleKey 9) =
        .ok result := by
  have hkey := taproot_consistent sampleCurve remainderHash sampleSchnorr (sampleKey 5)
  cases hmaterial : taprootKeypathMaterial sampleCurve remainderHash (sampleKey 5) with
  | error e => exact absurd (hkey.fails.mp ⟨e,hmaterial⟩) (by decide +kernel)
  | ok material =>
    have hother := (hkey.negated (sampleKey 246) (by decide +kernel)).trans hmaterial
    have hverified := hkey.verified material (sampleKey 7) (sampleKey 9) hmaterial
    have hsigned : (signSchnorrBip341KeypathWithAux sampleCurve sampleSchnorr remainderHash (sampleKey 5) (sampleKey 7)
        (sampleKey 9)).isOk = true := by decide +kernel
    cases hresult : signSchnorrBip341KeypathWithAux sampleCurve sampleSchnorr remainderHash (sampleKey 5) (sampleKey 7)
        (sampleKey 9) with
    | error e =>
      rw [hresult] at hsigned
      cases hsigned
    | ok result =>
      have hodd : sampleCurve.yIsOdd (5 • sampleCurve.generator) = true := by decide +kernel
      exact ⟨material,result,hodd,rfl,hother,(hkey.consistent material hmaterial).2.2,hverified ▸ hresult,rfl⟩

end Sample
end Avault.Crypto
