import Avault.Crypto.Key
import Avault.Error
import Avault.Foundation.Aead
import Avault.Foundation.Codec
import Avault.Foundation.JsonText

/-! The standard-tier envelope: a value under a fresh DEK, the DEK under the master key, and
the two tries of `open`. -/
namespace Avault.Crypto
open Foundation

/-- `ProtectedRecordMeta`. -/
inductive RecordMeta
  | static
  | keypair (publicKey : String)
deriving DecidableEq, Repr

structure WrapMeta where
  v : UInt8
  scheme : String
  wrappedDek : String
  dekNonce : String
  recordMeta : Option RecordMeta
deriving DecidableEq, Repr

/-- An envelope-encrypted value, as its three text columns. -/
structure Sealed where
  ciphertext : String
  nonce : String
  wrapMeta : String
deriving DecidableEq, Repr

/-- What the crate calls of `aes_gcm`, `base64` and `serde_json`. -/
structure Primitives where
  aead : Aead Key Nonce
  base64 : Codec Error Bytes String
  json : JsonText.Serializer
  wrapMeta : Codec Error WrapMeta String

namespace Primitives

variable (P : Primitives)

def encryptWithKey (key : Key) (nonce : Nonce) (plaintext aad : Bytes) : Result Bytes :=
  orError "encryption failed" (P.aead.encrypt key nonce aad plaintext)

def decryptWithKey (key : Key) (nonce : Nonce) (ciphertext aad : Bytes) : Result Bytes :=
  orError "authentication failed" (P.aead.decrypt key nonce aad ciphertext)

def b64 (raw : Bytes) : String := P.base64.encode raw

def unb64 (text label : String) : Result Bytes :=
  context (label ++ " is not valid base64") (P.base64.decode text)

def decodeNonce (text label : String) : Result Nonce := do
  let raw ← P.unb64 text label
  orError (label ++ " has invalid length") (toArray? nonceBytes raw)

end Primitives

def sliceToKey (key : Bytes) : Result Key := orError "invalid key length" (toArray? keyBytes key)

/-- Name, scheme and version, one after the other and with nothing in between. -/
def aad (name : String) : Bytes := utf8 name ++ utf8 wrapScheme ++ [wrapMetaVersion]

/-- The random bytes of one call of `seal`, in the order they are drawn. -/
structure SealDraws where
  dek : Key
  valueNonce : Nonce
  dekNonce : Nonce

namespace Primitives

variable (P : Primitives)

/-- `seal`, given the random bytes it draws. -/
def sealWith (draws : SealDraws) (masterKey : Key) (name : String) (value : Bytes) :
    Result Sealed := do
  let ciphertext ← P.encryptWithKey draws.dek draws.valueNonce value (aad name)
  let wrappedDek ← P.encryptWithKey masterKey draws.dekNonce draws.dek.toList []
  let wrapMeta : WrapMeta := {
    v := wrapMetaVersion
    scheme := wrapScheme
    wrappedDek := P.b64 wrappedDek
    dekNonce := P.b64 draws.dekNonce.toList
    recordMeta := none }
  return {
    ciphertext := P.b64 ciphertext
    nonce := P.b64 draws.valueNonce.toList
    wrapMeta := P.wrapMeta.encode wrapMeta }

/-- Decryption of the value columns under a first AAD and, where that fails, a second one.
An error is always the first attempt's. -/
def openColumns (dek : Key) (box : Sealed) (firstAad secondAad : Bytes) : Result Bytes := do
  let valueNonce ← P.decodeNonce box.nonce "nonce"
  let ciphertext ← P.unb64 box.ciphertext "ciphertext"
  match P.decryptWithKey dek valueNonce ciphertext firstAad with
  | .ok plaintext => .ok plaintext
  | .error firstErr =>
    match P.decryptWithKey dek valueNonce ciphertext secondAad with
    | .ok plaintext => .ok plaintext
    | .error _ => context "value decrypt failed" (.error firstErr)

/-- `open_value_with_dek`: the P1 AAD, then the empty AAD of rows older than it. -/
def openValueWithDek (dek : Key) (name : String) (box : Sealed) : Result Bytes :=
  P.openColumns dek box (aad name) []

/-- The columns `open` and `open_with_dek` read first, and the versions they admit. -/
def admittedWrapMeta (box : Sealed) : Result WrapMeta := do
  let wrap ← context "wrap_meta is not valid JSON" (P.wrapMeta.decode box.wrapMeta)
  bailIf (wrap.scheme ≠ wrapScheme) "unsupported wrap scheme"
  bailIf (wrap.v ≠ wrapMetaVersion) "unsupported wrap_meta version"
  return wrap

/-- `open`. -/
def openSealed (masterKey : Key) (name : String) (box : Sealed) : Result Bytes := do
  let wrap ← P.admittedWrapMeta box
  let dekNonce ← P.decodeNonce wrap.dekNonce "dek_nonce"
  let wrappedDek ← P.unb64 wrap.wrappedDek "wrapped_dek"
  let dek ← context "DEK unwrap failed" (P.decryptWithKey masterKey dekNonce wrappedDek [])
  bailIf (dek.length ≠ keyBytes) "DEK unwrap produced invalid length"
  let dek ← sliceToKey dek
  P.openValueWithDek dek name box

end Primitives

theorem aad_ne_nil (name : String) : aad name ≠ [] := by simp [aad]

theorem aad_injective : Function.Injective aad := by
  intro n n' h
  simp only [aad,List.append_assoc] at h
  exact utf8_injective (List.append_cancel_right h)

namespace Primitives

variable {P : Primitives}

@[simp] theorem unb64_b64 {raw : Bytes} {label : String} : P.unb64 (P.b64 raw) label = .ok raw := by
  rw [unb64,b64,P.base64.decode_encode]
  rfl

@[simp] theorem b64_inj {a b : Bytes} : P.b64 a = P.b64 b ↔ a = b := P.base64.encode_inj

@[simp] theorem decodeNonce_b64 {nonce : Nonce} {label : String} :
    P.decodeNonce (P.b64 nonce.toList) label = .ok nonce := by
  unfold decodeNonce
  rw [unb64_b64]
  exact orError_eq_ok.mpr (toArray?_toList nonce)

@[simp] theorem encryptWithKey_eq_ok {key : Key} {nonce : Nonce} {plaintext aad c : Bytes} :
    P.encryptWithKey key nonce plaintext aad = .ok c ↔
      P.aead.encrypt key nonce aad plaintext = some c := orError_eq_ok

@[simp] theorem decryptWithKey_eq_ok {key : Key} {nonce : Nonce} {c aad plaintext : Bytes} :
    P.decryptWithKey key nonce c aad = .ok plaintext ↔
      P.aead.decrypt key nonce aad c = some plaintext := orError_eq_ok

/-- What `seal` writes. -/
theorem sealWith_eq_ok {draws : SealDraws} {masterKey : Key} {name : String} {value : Bytes}
    {box : Sealed} : P.sealWith draws masterKey name value = .ok box ↔
    ∃ c w, P.aead.encrypt draws.dek draws.valueNonce (aad name) value = some c ∧
      P.aead.encrypt masterKey draws.dekNonce [] draws.dek.toList = some w ∧
      box = ⟨P.b64 c,P.b64 draws.valueNonce.toList,P.wrapMeta.encode
        ⟨wrapMetaVersion,wrapScheme,P.b64 w,P.b64 draws.dekNonce.toList,none⟩⟩ := by
  simp only [sealWith,bind_eq_ok,encryptWithKey_eq_ok]
  constructor
  · rintro ⟨c,hc,w,hw,h⟩
    exact ⟨c,w,hc,hw,(Except.ok.inj h).symm⟩
  · rintro ⟨c,w,hc,hw,rfl⟩
    exact ⟨c,hc,w,hw,rfl⟩

theorem openColumns_eq_ok {dek : Key} {box : Sealed} {a₁ a₂ v : Bytes} :
    P.openColumns dek box a₁ a₂ = .ok v ↔
      ∃ n, P.decodeNonce box.nonce "nonce" = .ok n ∧
      ∃ c, P.unb64 box.ciphertext "ciphertext" = .ok c ∧
      (P.aead.decrypt dek n a₁ c = some v ∨
        P.aead.decrypt dek n a₁ c = none ∧ P.aead.decrypt dek n a₂ c = some v) := by
  simp only [openColumns,bind_eq_ok]
  refine exists_congr fun n => and_congr_right fun _ => exists_congr fun c =>
    and_congr_right fun _ => ?_
  cases h₁ : P.aead.decrypt dek n a₁ c with
  | some m => simp [decryptWithKey,orError,h₁]
  | none =>
    cases h₂ : P.aead.decrypt dek n a₂ c with
    | some m => simp [decryptWithKey,orError,bail,h₁,h₂]
    | none => simp [decryptWithKey,orError,bail,context,h₁,h₂]

/-- Under an ideal AEAD the two tries amount to the ciphertext's own AAD being one of the two. -/
theorem openColumns_encrypt (hP : P.aead.Ideal) {k : Key} {n : Nonce} {a m c : Bytes}
    (hc : P.aead.encrypt k n a m = some c) {dek : Key} {box : Sealed}
    (hbox : box.ciphertext = P.b64 c) {a₁ a₂ v : Bytes} :
    P.openColumns dek box a₁ a₂ = .ok v ↔
      P.decodeNonce box.nonce "nonce" = .ok n ∧ dek = k ∧ (a₁ = a ∨ a₂ = a) ∧ v = m := by
  rw [openColumns_eq_ok,hbox,unb64_b64]
  constructor
  · rintro ⟨n',hn',_,⟨⟩,h₁ | ⟨_,h₂⟩⟩
    · obtain ⟨rfl,rfl,rfl,rfl⟩ := (hP.decrypt_encrypt hc).mp h₁
      exact ⟨hn',rfl,.inl rfl,rfl⟩
    · obtain ⟨rfl,rfl,rfl,rfl⟩ := (hP.decrypt_encrypt hc).mp h₂
      exact ⟨hn',rfl,.inr rfl,rfl⟩
  · rintro ⟨hn,rfl,ha,rfl⟩
    refine ⟨n,hn,c,rfl,?_⟩
    by_cases ha₁ : a₁ = a
    · exact .inl ((hP.decrypt_encrypt hc).mpr ⟨rfl,rfl,ha₁,rfl⟩)
    · have hother : ¬ (dek = dek ∧ n = n ∧ a₁ = a) := fun h => ha₁ h.2.2
      have hnone := hP.decrypt_eq_none hc hother
      exact .inr ⟨hnone,(hP.decrypt_encrypt hc).mpr ⟨rfl,rfl,ha.resolve_left ha₁,rfl⟩⟩

theorem admittedWrapMeta_eq_ok {box : Sealed} {wrap : WrapMeta} :
    P.admittedWrapMeta box = .ok wrap ↔ P.wrapMeta.decode box.wrapMeta = .ok wrap ∧
      wrap.scheme = wrapScheme ∧ wrap.v = wrapMetaVersion := by
  simp only [admittedWrapMeta,bind_eq_ok,context_eq_ok,bailIf_eq_ok,not_not]
  constructor
  · rintro ⟨w,hw,_,hs,_,hv,⟨⟩⟩
    exact ⟨hw,hs,hv⟩
  · rintro ⟨hw,hs,hv⟩
    exact ⟨wrap,hw,(),hs,(),hv,rfl⟩

theorem openSealed_eq_ok {masterKey : Key} {name : String} {box : Sealed} {v : Bytes} :
    P.openSealed masterKey name box = .ok v ↔
      ∃ wrap, P.admittedWrapMeta box = .ok wrap ∧
      ∃ n, P.decodeNonce wrap.dekNonce "dek_nonce" = .ok n ∧
      ∃ w, P.unb64 wrap.wrappedDek "wrapped_dek" = .ok w ∧
      ∃ dek : Key, P.aead.decrypt masterKey n [] w = some dek.toList ∧
        P.openValueWithDek dek name box = .ok v := by
  simp only [openSealed,bind_eq_ok,context_eq_ok,decryptWithKey_eq_ok,bailIf_eq_ok,not_not,
    sliceToKey,orError_eq_ok,toArray?_eq_some]
  constructor
  · rintro ⟨wrap,hwrap,n,hn,w,hw,_,hd,_,_,dek,rfl,h⟩
    exact ⟨wrap,hwrap,n,hn,w,hw,dek,hd,h⟩
  · rintro ⟨wrap,hwrap,n,hn,w,hw,dek,hd,h⟩
    exact ⟨wrap,hwrap,n,hn,w,hw,_,hd,(),dek.length_toList,dek,rfl,h⟩

end Primitives
end Avault.Crypto
