import Avault.Crypto.Signing
import Mathlib.Tactic.NormNum.Prime

/-! BIP340 signatures over any curve whose points are found from their coordinates: a signer and a
verifier that the Taproot key path can be run with. -/
namespace Avault.Crypto.Bip340
open Foundation

/-- `lift_x`: the point with an even `y` that a coordinate belongs to. -/
structure Lift {n : ℕ} {Point : Type} [AddCommGroup Point] (C : Curve n Point) where
  liftX : Key → Option Point
  liftX_x : ∀ P : Point, P ≠ 0 → C.yIsOdd P = false → liftX (C.x P) = some P

structure SigningKey (n : ℕ) where
  secret : ZMod n
  secret_ne_zero : secret ≠ 0

structure Signature (n : ℕ) where
  r : Key
  s : ZMod n
  s_ne_zero : s ≠ 0

section Encoding

variable {n : ℕ}

def signingKeyFromBytes (n : ℕ) (bytes : Key) : Option (SigningKey n) := do
  let secret ← fromRepr n bytes
  if h : secret = 0 then none else some ⟨secret,h⟩

/-- The coordinate and the scalar, 32 bytes each. -/
def signatureBytes (signature : Signature n) : Bytes := signature.r.toList ++ (scalarBytes signature.s).toList

def signatureTryFrom (n : ℕ) (bytes : Bytes) : Option (Signature n) := do
  let r ← toArray? keyBytes (bytes.take keyBytes)
  let scalar ← toArray? keyBytes (bytes.drop keyBytes)
  let s ← fromRepr n scalar
  if h : s = 0 then none else some ⟨r,s,h⟩

theorem fromRepr_scalarBytes [NeZero n] (scalar : ZMod n) (h : n ≤ 256^keyBytes) :
    fromRepr n (scalarBytes scalar) = some scalar := by
  rw [fromRepr,keyValue_scalarBytes h,if_pos (ZMod.val_lt scalar),ZMod.natCast_zmod_val]

theorem signingKeyFromBytes_scalarBytes [NeZero n] {secret : ZMod n} (hne : secret ≠ 0) (h : n ≤ 256^keyBytes) :
    signingKeyFromBytes n (scalarBytes secret) = some ⟨secret,hne⟩ := by
  rw [signingKeyFromBytes,fromRepr_scalarBytes secret h]
  exact dif_neg hne

theorem signatureTryFrom_signatureBytes [NeZero n] (signature : Signature n) (h : n ≤ 256^keyBytes) :
    signatureTryFrom n (signatureBytes signature) = some signature := by
  have hr : signature.r.toList.length = keyBytes := signature.r.length_toList
  have htake : (signatureBytes signature).take keyBytes = signature.r.toList := List.take_left' hr
  have hdrop : (signatureBytes signature).drop keyBytes = (scalarBytes signature.s).toList := List.drop_left' hr
  rw [signatureTryFrom,htake,hdrop,toArray?_toList,toArray?_toList]
  simp [fromRepr_scalarBytes signature.s h,signature.s_ne_zero]

end Encoding

section Scheme

variable {n : ℕ} {Point : Type} [AddCommGroup Point] [DecidableEq Point] (C : Curve n Point) (sha256 : Bytes → Key)

def challenge (r verifyingX digest : Key) : ZMod n :=
  keyValue (taggedHash sha256 (utf8 "BIP0340/challenge") (r.toList ++ verifyingX.toList ++ digest.toList))

/-- The nonce of a secret: its bytes are masked with the auxiliary randomness. -/
def nonce (secret : ZMod n) (verifyingX digest auxRand : Key) : ZMod n :=
  let mask := taggedHash sha256 (utf8 "BIP0340/aux") auxRand.toList
  let masked := List.zipWith (· ^^^ ·) (scalarBytes secret).toList mask.toList
  keyValue (taggedHash sha256 (utf8 "BIP0340/nonce") (masked ++ verifyingX.toList ++ digest.toList))

def signPrehashWithAuxRand (key : SigningKey n) (digest auxRand : Key) : Option (Signature n) :=
  let d := C.normalize key.secret
  let verifyingX := C.x (C.mul d)
  let k := C.normalize (nonce sha256 d verifyingX digest auxRand)
  let r := C.x (C.mul k)
  let s := k + challenge sha256 r verifyingX digest * d
  if k = 0 then none else if h : s = 0 then none else some ⟨r,s,h⟩

def verifyPrehash (verifyingKey : Point) (digest : Key) (signature : Signature n) : Bool :=
  let e : ZMod n := challenge sha256 signature.r (C.x verifyingKey) digest
  let R := C.mul signature.s - e.val • verifyingKey
  R ≠ 0 ∧ C.yIsOdd R = false ∧ C.x R = signature.r

variable {C} {sha256}

omit [DecidableEq Point] in
theorem liftX_mul (lift : Lift C) {secret : ZMod n} (hne : secret ≠ 0) :
    lift.liftX (C.x (C.mul secret)) = some (C.mul (C.normalize secret)) := by
  rw [← C.x_mul_normalize hne]
  apply lift.liftX_x
  · exact fun h => C.normalize_ne_zero hne (C.mul_eq_zero.mp h)
  · exact C.yIsOdd_mul_normalize hne

/-- `s·G - e·P` is the point of the nonce. -/
theorem verifyPrehash_sign {key : SigningKey n} {digest auxRand : Key} {signature : Signature n}
    (hsign : signPrehashWithAuxRand C sha256 key digest auxRand = some signature) :
    verifyPrehash C sha256 (C.mul (C.normalize key.secret)) digest signature = true := by
  unfold signPrehashWithAuxRand at hsign
  simp only at hsign
  split at hsign
  · cases hsign
  · next hk =>
    split at hsign
    · cases hsign
    · obtain rfl := Option.some.inj hsign
      have hnonce : nonce sha256 (C.normalize key.secret) (C.x (C.mul (C.normalize key.secret))) digest auxRand ≠
          (0 : ZMod n) := fun hzero => hk (by rw [hzero]; simp [PrimeGroup.normalize])
      simp only [verifyPrehash,C.mul_add,C.mul_mul,add_sub_cancel_right,decide_eq_true_eq]
      refine ⟨fun h => hk (C.mul_eq_zero.mp h),C.yIsOdd_mul_normalize hnonce,trivial⟩

theorem verifyPrehash_liftX (lift : Lift C) {secret : ZMod n} (hne : secret ≠ 0) {signing : SigningKey n} {verifying : Point}
    {digest auxRand : Key} {signature : Signature n} (hsigning : signingKeyFromBytes n (scalarBytes secret) = some signing)
    (hverifying : lift.liftX (C.x (C.mul secret)) = some verifying)
    (hsign : signPrehashWithAuxRand C sha256 signing digest auxRand = some signature) :
    verifyPrehash C sha256 verifying digest signature = true := by
  have := C.neZero
  rw [signingKeyFromBytes_scalarBytes hne C.bound] at hsigning
  rw [liftX_mul lift hne] at hverifying
  obtain rfl := Option.some.inj hsigning
  obtain rfl := Option.some.inj hverifying
  have hverifies := verifyPrehash_sign hsign
  exact hverifies

variable (C) (sha256)

/-- The scheme, as the crate that the signer calls. -/
def schnorr (lift : Lift C) : Schnorr C where
  SigningKey := SigningKey n
  VerifyingKey := Point
  Signature := Signature n
  signingKeyFromBytes := signingKeyFromBytes n
  signPrehashWithAuxRand := signPrehashWithAuxRand C sha256
  signatureBytes := signatureBytes
  verifyingKeyFromBytes := lift.liftX
  signatureTryFrom := signatureTryFrom n
  verifyPrehash := verifyPrehash C sha256
  verifyingKey_exists _ hne := ⟨_,liftX_mul lift hne⟩
  signature_roundtrip signature := by
    have := C.neZero
    exact signatureTryFrom_signatureBytes signature C.bound
  verifies _ hne _ _ _ _ _ := verifyPrehash_liftX lift hne

end Scheme

section Modular

variable {n : ℕ}

/-- The one of a residue and its negation in the lower half. -/
def lower (a : ZMod n) : ZMod n := if 2*a.val < n then a else -a

variable [NeZero n]

theorem lower_neg (hodd : n%2 = 1) {a : ZMod n} (ha : a ≠ 0) : lower (-a) = lower a := by
  have hval := ZMod.val_lt a
  have hpos : a.val ≠ 0 := fun h => ha ((ZMod.val_eq_zero a).mp h)
  have := NeZero.mk ha
  unfold lower
  rw [ZMod.val_neg_of_ne_zero,neg_neg]
  by_cases h : 2*a.val < n
  · rw [if_pos h,if_neg (by omega)]
  · rw [if_neg h,if_pos (by omega)]

theorem odd_neg (hodd : n%2 = 1) {a : ZMod n} (ha : a ≠ 0) : (-a).val%2 = 1 ↔ ¬ a.val%2 = 1 := by
  have hval := ZMod.val_lt a
  have := NeZero.mk ha
  rw [ZMod.val_neg_of_ne_zero]
  omega

omit [NeZero n] in
/-- The residues of an odd prime. A residue and its negation share the lower of the two. -/
def modCurve (hprime : n.Prime) (hodd : n%2 = 1) (hbound : n ≤ 256^keyBytes) : Curve n (ZMod n) :=
  have : NeZero n := ⟨hprime.ne_zero⟩
  { prime := hprime
    generator := 1
    order := ZMod.addOrderOf_one n
    generates := fun P => ⟨P.val,by simp⟩
    x := fun P => scalarBytes (lower P)
    yIsOdd := fun P => P.val%2 = 1
    x_neg := fun _ hP => congrArg scalarBytes (lower_neg hodd hP)
    yIsOdd_neg := fun _ hP => by
      rw [← decide_not]
      exact decide_eq_decide.mpr (odd_neg hodd hP)
    bound := hbound }

omit [NeZero n] in
def modLift (hprime : n.Prime) (hodd : n%2 = 1) (hbound : n ≤ 256^keyBytes) : Lift (modCurve hprime hodd hbound) where
  liftX bytes := (fromRepr n bytes).map fun a => if a.val%2 = 1 then -a else a
  liftX_x P hP heven := by
    have : NeZero n := ⟨hprime.ne_zero⟩
    have hP' : ¬ P.val%2 = 1 := of_decide_eq_false heven
    change (fromRepr n (scalarBytes (lower P))).map _ = _
    rw [fromRepr_scalarBytes _ hbound,Option.map_some]
    by_cases hlow : 2*P.val < n
    · rw [lower,if_pos hlow,if_neg hP']
    · rw [lower,if_neg hlow,if_pos ((odd_neg hodd hP).mpr hP'),neg_neg]

end Modular
end Avault.Crypto.Bip340
