import Avault.Crypto.Envelope

/-! The associated data of a blind box. A context is flattened into length-prefixed
fields behind a domain separator, and the operation hash is taken over a second list of
such fields. -/
namespace Avault.Crypto
open Foundation

/-- `BLIND_BOX_AAD_DOMAIN`. -/
def blindBoxAadDomain : Bytes := utf8 "avault:blind-box:aad:v1"

/-- The three `BLIND_BOX_PURPOSE_*` strings; `purpose` is private and holds no other. -/
inductive Purpose
  | «seal»
  | agentDeliver
  | agentSign
deriving DecidableEq, Repr

def Purpose.str : Purpose → String
  | «seal» => "seal"
  | agentDeliver => "agent-deliver"
  | agentSign => "agent-sign"

theorem Purpose.str_injective : Function.Injective Purpose.str := by
  intro p q h
  cases p <;> cases q <;> first | rfl | exact absurd h (by decide)

/-- Operation context authenticated by a blind box. -/
structure BlindBoxContext where
  purpose : Purpose
  name : String
  grantId : Option String
  signScheme : Option String
  digest : Option Key
  approvalNonce : Option Bytes
  approvalExpiresAtUnix : Option UInt64
  operationHash : Option Key
deriving DecidableEq

namespace BlindBoxContext

def new (purpose : Purpose) (name : String) : BlindBoxContext where
  purpose := purpose
  name := name
  grantId := none
  signScheme := none
  digest := none
  approvalNonce := none
  approvalExpiresAtUnix := none
  operationHash := none

def withGrantId (c : BlindBoxContext) (grantId : String) : BlindBoxContext :=
  { c with grantId := some grantId }

def withSigning (c : BlindBoxContext) (signScheme : String) (digest : Key) : BlindBoxContext :=
  { c with signScheme := some signScheme, digest := some digest }

def withApproval (c : BlindBoxContext) (nonce : Bytes) (expiresAtUnix : UInt64) :
    BlindBoxContext :=
  { c with approvalNonce := some nonce, approvalExpiresAtUnix := some expiresAtUnix }

def withOperationHash (c : BlindBoxContext) (operationHash : Key) : BlindBoxContext :=
  { c with operationHash := some operationHash }

def «seal» (name : String) : BlindBoxContext := new Purpose.seal name

def agentDeliver (grantId name : String) : BlindBoxContext :=
  (new .agentDeliver name).withGrantId grantId

def agentSign (grantId name signScheme : String) (digest : Key) : BlindBoxContext :=
  ((new .agentSign name).withGrantId grantId).withSigning signScheme digest

end BlindBoxContext

/-- `push_aad_field`; `none` is the panic of `expect` on a length that is no `u32`. -/
def pushAadField (out value : Bytes) : Option Bytes :=
  if value.length < 2^32 then some (out ++ bigEndian 4 value.length ++ value) else none

/-- The bytes `operation_hash` feeds to SHA-256, with the same panic. -/
def operationHashInput (values : List Bytes) : Option Bytes := values.foldlM pushAadField []

def operationHash (sha256 : Bytes → Key) (values : List Bytes) : Option Key :=
  (operationHashInput values).map sha256

def BlindBoxContext.aadBytes (c : BlindBoxContext) : Option Bytes := do
  let out := blindBoxAadDomain
  let out ← pushAadField out (utf8 c.purpose.str)
  let out ← pushAadField out (utf8 c.name)
  let out ← pushAadField out (utf8 wrapScheme)
  let out ← pushAadField out [wrapMetaVersion]
  let out ← pushAadField out (utf8 (c.grantId.getD ""))
  -- the reserved field of the v1 layout
  let out ← pushAadField out []
  let out ← pushAadField out (utf8 (c.signScheme.getD ""))
  let out ← pushAadField out ((c.digest.map Vector.toList).getD [])
  let out ← pushAadField out (c.approvalNonce.getD [])
  let out ← pushAadField out ((c.approvalExpiresAtUnix.map toBeBytes).getD [])
  pushAadField out ((c.operationHash.map Vector.toList).getD [])

/-- The fields of the AAD in order. `aadBytes` concatenates them behind the domain. -/
def BlindBoxContext.aadFields (c : BlindBoxContext) : List Bytes :=
  [utf8 c.purpose.str,utf8 c.name,utf8 wrapScheme,[wrapMetaVersion],utf8 (c.grantId.getD ""),[],
    utf8 (c.signScheme.getD ""),(c.digest.map Vector.toList).getD [],c.approvalNonce.getD [],
    (c.approvalExpiresAtUnix.map toBeBytes).getD [],(c.operationHash.map Vector.toList).getD []]

theorem pushAadField_eq_some {out value out' : Bytes} :
    pushAadField out value = some out' ↔ value.length < 2^32 ∧ out' = out ++ field 4 value := by
  by_cases h : value.length < 2^32
  · rw [pushAadField,if_pos h,field,List.append_assoc,Option.some.injEq]
    exact ⟨fun heq => ⟨h,heq.symm⟩,fun heq => heq.2.symm⟩
  · rw [pushAadField,if_neg h]
    exact ⟨fun heq => (Option.some_ne_none _ heq.symm).elim,fun heq => absurd heq.1 h⟩

theorem foldlM_pushAadField {values : List Bytes} {out out' : Bytes} :
    values.foldlM pushAadField out = some out' ↔
      (∀ v ∈ values, v.length < 2^32) ∧ out' = out ++ fields 4 values := by
  induction values generalizing out with
  | nil => simp [fields,eq_comm]
  | cons v vs ih =>
    simp only [List.foldlM_cons,Option.bind_eq_bind,Option.bind_eq_some_iff,pushAadField_eq_some,
      List.forall_mem_cons]
    constructor
    · rintro ⟨_,⟨hv,rfl⟩,hrest⟩
      obtain ⟨hvs,rfl⟩ := ih.mp hrest
      exact ⟨⟨hv,hvs⟩,by simp [fields]⟩
    · rintro ⟨⟨hv,hvs⟩,rfl⟩
      exact ⟨_,⟨hv,rfl⟩,ih.mpr ⟨hvs,by simp [fields]⟩⟩

theorem operationHashInput_eq_some {values : List Bytes} {b : Bytes} :
    operationHashInput values = some b ↔
      (∀ v ∈ values, v.length < 2^32) ∧ b = fields 4 values := foldlM_pushAadField

theorem aadBytes_eq_foldlM (c : BlindBoxContext) :
    c.aadBytes = c.aadFields.foldlM pushAadField blindBoxAadDomain := by
  simp [BlindBoxContext.aadBytes,BlindBoxContext.aadFields]

namespace BlindBoxContext

/-- Every variable-length field is short enough for its 32-bit length prefix. -/
structure Fits (c : BlindBoxContext) : Prop where
  name : (utf8 c.name).length < 2^32
  grantId : (utf8 (c.grantId.getD "")).length < 2^32
  signScheme : (utf8 (c.signScheme.getD "")).length < 2^32
  approvalNonce : (c.approvalNonce.getD []).length < 2^32

/-- Equality field by field, where an absent field counts as the empty one. -/
structure SameFields (c d : BlindBoxContext) : Prop where
  purpose : c.purpose = d.purpose
  name : c.name = d.name
  grantId : c.grantId.getD "" = d.grantId.getD ""
  signScheme : c.signScheme.getD "" = d.signScheme.getD ""
  digest : (c.digest.map Vector.toList).getD [] = (d.digest.map Vector.toList).getD []
  approvalNonce : c.approvalNonce.getD [] = d.approvalNonce.getD []
  approvalExpiresAtUnix : (c.approvalExpiresAtUnix.map toBeBytes).getD [] =
    (d.approvalExpiresAtUnix.map toBeBytes).getD []
  operationHash : (c.operationHash.map Vector.toList).getD [] =
    (d.operationHash.map Vector.toList).getD []

theorem aadFields_eq_iff {c d : BlindBoxContext} : c.aadFields = d.aadFields ↔ SameFields c d := by
  constructor
  · intro h
    simp only [aadFields,List.cons.injEq,utf8_inj] at h
    obtain ⟨hp,hn,_,_,hg,_,hs,hd,ha,he,ho,_⟩ := h
    exact ⟨Purpose.str_injective hp,hn,hg,hs,hd,ha,he,ho⟩
  · rintro ⟨hp,hn,hg,hs,hd,ha,he,ho⟩
    simp only [aadFields,hp,hn,hg,hs,hd,ha,he,ho]

/-- The fixed-size fields always fit, so only the variable-length ones are in question. -/
theorem fits_iff_aadFields {c : BlindBoxContext} :
    c.Fits ↔ ∀ v ∈ c.aadFields, v.length < 2^32 := by
  have hpurpose : (utf8 c.purpose.str).length < 2^32 := by cases c.purpose <;> decide
  have hkey (k : Option Key) : ((k.map Vector.toList).getD []).length < 2^32 := by
    cases k with
    | none => exact Nat.two_pow_pos 32
    | some k =>
      change k.toList.length < 2^32
      rw [Vector.length_toList]
      decide
  have hexpiry (v : Option UInt64) : ((v.map toBeBytes).getD []).length < 2^32 := by
    cases v with
    | none => exact Nat.two_pow_pos 32
    | some v => simp
  have hscheme : (utf8 wrapScheme).length < 2^32 := by decide
  simp only [aadFields,List.forall_mem_cons,hpurpose,hkey,hexpiry,hscheme]
  constructor
  · rintro ⟨hn,hg,hs,ha⟩
    simpa using ⟨hn,hg,hs,ha⟩
  · rintro ⟨_,hn,_,_,hg,_,hs,_,ha,_⟩
    exact ⟨hn,hg,hs,ha⟩

theorem aadBytes_eq_some {c : BlindBoxContext} {a : Bytes} :
    c.aadBytes = some a ↔ c.Fits ∧ a = blindBoxAadDomain ++ fields 4 c.aadFields := by
  rw [aadBytes_eq_foldlM,foldlM_pushAadField,fits_iff_aadFields]

/-- The AAD determines the context. -/
theorem aadBytes_inj {c d : BlindBoxContext} {a : Bytes} (hc : c.aadBytes = some a)
    (hd : d.aadBytes = some a) : SameFields c d := by
  obtain ⟨hfc,rfl⟩ := aadBytes_eq_some.mp hc
  obtain ⟨hfd,heq⟩ := aadBytes_eq_some.mp hd
  have hfields := List.append_cancel_left heq
  exact aadFields_eq_iff.mp (fields_injOn (by decide) (fits_iff_aadFields.mp hfc)
    (fits_iff_aadFields.mp hfd) hfields)

theorem aadBytes_congr {c d : BlindBoxContext} (h : SameFields c d) : c.aadBytes = d.aadBytes := by
  rw [aadBytes_eq_foldlM,aadBytes_eq_foldlM,aadFields_eq_iff.mpr h]

end BlindBoxContext

theorem operationHashInput_inj {vs ws : List Bytes} {b : Bytes}
    (hv : operationHashInput vs = some b) (hw : operationHashInput ws = some b) : vs = ws := by
  obtain ⟨hfv,rfl⟩ := operationHashInput_eq_some.mp hv
  obtain ⟨hfw,heq⟩ := operationHashInput_eq_some.mp hw
  exact fields_injOn (by decide) hfv hfw heq

/-! Opening a blind box. -/

def blindBoxScheme : String := "hpke-x25519-hkdfsha256-aes256gcm-v1"
def blindBoxHpkeInfo : Bytes := utf8 "avault:blind-box:v1"

structure BlindBox where
  scheme : String
  enc : String
  ct : String
deriving DecidableEq, Repr

/-- A receiver key pair, as `hpke::single_shot_open` with its private key: from the encapsulated
key, the info, the ciphertext and the associated data to the plaintext. -/
structure BlindBoxKeypair where
  singleShotOpen : Key → Bytes → Bytes → Bytes → Option Bytes

/-- `BlindBoxKeypair::open`. The AAD is `none` where taking it panics, which this makes an error. -/
def BlindBoxKeypair.openBox (keypair : BlindBoxKeypair) (P : Primitives) (blindBox : BlindBox)
    (ctx : BlindBoxContext) : Result Bytes := do
  bailIf (blindBox.scheme ≠ blindBoxScheme) "unsupported blind-box scheme"
  let enc ← P.unb64 blindBox.enc "enc"
  let ct ← P.unb64 blindBox.ct "ct"
  let encappedKey ← orError "enc has invalid length" (toArray? keyBytes enc)
  let aad ← orError "AAD field fits in u32" ctx.aadBytes
  orError "blind-box open failed" (keypair.singleShotOpen encappedKey blindBoxHpkeInfo ct aad)

/-- A box that opens was opened under the associated data of the context. -/
theorem BlindBoxKeypair.openBox_eq_ok {keypair : BlindBoxKeypair} {P : Primitives} {blindBox : BlindBox}
    {ctx : BlindBoxContext} {plaintext : Bytes} :
    keypair.openBox P blindBox ctx = .ok plaintext ↔ blindBox.scheme = blindBoxScheme ∧
      ∃ enc ct aad, P.unb64 blindBox.enc "enc" = .ok (Vector.toList enc) ∧ P.unb64 blindBox.ct "ct" = .ok ct ∧
        ctx.aadBytes = some aad ∧ keypair.singleShotOpen enc blindBoxHpkeInfo ct aad = some plaintext := by
  simp only [openBox,bind_eq_ok,bailIf_eq_ok,not_not,orError_eq_ok,toArray?_eq_some]
  constructor
  · rintro ⟨_,hscheme,_,henc,ct,hct,enc,rfl,aad,haad,hopen⟩
    exact ⟨hscheme,enc,ct,aad,henc,hct,haad,hopen⟩
  · rintro ⟨hscheme,enc,ct,aad,henc,hct,haad,hopen⟩
    exact ⟨(),hscheme,_,henc,ct,hct,enc,rfl,aad,haad,hopen⟩

end Avault.Crypto
