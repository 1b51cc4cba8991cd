import Avault.Crypto.Envelope

/-! The passphrase-wrapped export of a master key, and what can be imported from it. -/
namespace Avault.Crypto
open Foundation

/-- Passphrase-wrapped master-key export scheme. -/
def exportScheme : String := "machine-key-export-v1"

def scryptN : UInt32 := (1 : UInt32) <<< 15
def scryptR : UInt32 := 8
def scryptP : UInt32 := 1

abbrev Salt := Vector UInt8 16

@[ext] structure ExportBlob where
  scheme : String
  kdf : String
  n : UInt32
  r : UInt32
  p : UInt32
  salt : String
  nonce : String
  ciphertext : String
deriving DecidableEq, Repr

/-- What the crate calls of `scrypt`: `Params::new`, and the derivation of a key. -/
structure Scrypt where
  Params : Type
  new : UInt8 → UInt32 → UInt32 → ℕ → Result Params
  scrypt : Bytes → Bytes → Params → Result Key

/-- What a key is derived from. -/
structure ScryptInput where
  passphrase : Bytes
  salt : Bytes
  logN : UInt8
  r : UInt32
  p : UInt32
deriving DecidableEq

/-- `u32::is_power_of_two`. -/
def isPowerOfTwo (n : UInt32) : Bool := n.toNat = 2^n.toNat.log2

/-- `u32::checked_ilog2`, cast to a byte. -/
def checkedIlog2 (n : UInt32) : Option UInt8 := if n = 0 then none else some (UInt8.ofNat n.toNat.log2)

def validateScryptParams (n r p : UInt32) : Result Unit := do
  bailIf (n < 2 ∨ ¬ isPowerOfTwo n ∨ n > (1 : UInt32) <<< 17) "scrypt N out of bounds"
  bailIf (¬ (1 ≤ r ∧ r ≤ 16)) "scrypt r out of bounds"
  bailIf (¬ (1 ≤ p ∧ p ≤ 16)) "scrypt p out of bounds"

namespace Scrypt

variable (S : Scrypt)

def derive (input : ScryptInput) : Result Key := do
  let params ← context "invalid scrypt parameters" (S.new input.logN input.r input.p keyBytes)
  context "scrypt derivation failed" (S.scrypt input.passphrase input.salt params)

def deriveKekScrypt (passphrase salt : Bytes) (n r p : UInt32) : Result Key := do
  validateScryptParams n r p
  let logN ← orError "invalid scrypt N" (checkedIlog2 n)
  S.derive ⟨passphrase,salt,logN,r,p⟩

end Scrypt

/-- The random bytes of one export, in the order they are drawn. -/
structure ExportDraws where
  salt : Salt
  nonce : Nonce

namespace Primitives

variable (P : Primitives) (S : Scrypt)

/-- `export_master_key`, given the random bytes it draws. -/
def exportMasterKeyWith (draws : ExportDraws) (masterKey : Key) (passphrase : Bytes) : Result ExportBlob := do
  bailIf (passphrase = []) "a non-empty passphrase is required"
  let kek ← S.deriveKekScrypt passphrase draws.salt.toList scryptN scryptR scryptP
  let ciphertext ← P.encryptWithKey kek draws.nonce masterKey.toList []
  return {
    scheme := exportScheme
    kdf := "scrypt"
    n := scryptN
    r := scryptR
    p := scryptP
    salt := P.b64 draws.salt.toList
    nonce := P.b64 draws.nonce.toList
    ciphertext := P.b64 ciphertext }

def importMasterKey (blob : ExportBlob) (passphrase : Bytes) : Result Key := do
  bailIf (passphrase = []) "a non-empty passphrase is required"
  bailIf (blob.scheme ≠ exportScheme ∨ blob.kdf ≠ "scrypt") "unrecognized machine-key export blob"
  validateScryptParams blob.n blob.r blob.p
  let salt ← P.unb64 blob.salt "salt"
  let nonce ← P.decodeNonce blob.nonce "nonce"
  let ciphertext ← P.unb64 blob.ciphertext "ciphertext"
  let kek ← S.deriveKekScrypt passphrase salt blob.n blob.r blob.p
  let key ← context "import failed (wrong passphrase or corrupt export)" (P.decryptWithKey kek nonce ciphertext [])
  bailIf (key.length ≠ keyBytes) "imported key has invalid length"
  orError "imported key has invalid length" (toArray? keyBytes key)

end Primitives

theorem validateScryptParams_exported : validateScryptParams scryptN scryptR scryptP = .ok () := by decide

/-- `n` is a power of two within bounds. -/
theorem checkedIlog2_of_valid {n r p : UInt32} (h : validateScryptParams n r p = .ok ()) :
    ∃ logN : UInt8, checkedIlog2 n = some logN ∧ n.toNat = 2^logN.toNat := by
  simp only [validateScryptParams,bind_eq_ok,bailIf_eq_ok] at h
  obtain ⟨_,hn,-⟩ := h
  rw [not_or,not_or,not_not] at hn
  obtain ⟨hlow,hpower,hhigh⟩ := hn
  have hpos : n ≠ 0 := by
    rintro rfl
    exact hlow (by decide)
  have hpower : n.toNat = 2^n.toNat.log2 := of_decide_eq_true hpower
  have hlog : n.toNat.log2 < 32 := by
    by_contra hge
    have hbig : 2^32 ≤ 2^n.toNat.log2 := Nat.pow_le_pow_right (by decide) (by omega)
    have hlt := n.toNat_lt
    omega
  refine ⟨_,if_neg hpos,?_⟩
  rw [UInt8.toNat_ofNat_of_lt' (by change _ < 256; omega)]
  exact hpower

theorem deriveKekScrypt_eq_ok {S : Scrypt} {passphrase salt : Bytes} {n r p : UInt32} {kek : Key} :
    S.deriveKekScrypt passphrase salt n r p = .ok kek ↔ ∃ logN : UInt8, validateScryptParams n r p = .ok () ∧
      n.toNat = 2^logN.toNat ∧ S.derive ⟨passphrase,salt,logN,r,p⟩ = .ok kek := by
  simp only [Scrypt.deriveKekScrypt,bind_eq_ok,orError_eq_ok]
  constructor
  · rintro ⟨_,hvalid,logN,hlog,hderive⟩
    obtain ⟨logN',hlog',hn⟩ := checkedIlog2_of_valid hvalid
    obtain rfl := Option.some.inj (hlog.symm.trans hlog')
    exact ⟨logN,hvalid,hn,hderive⟩
  · rintro ⟨logN,hvalid,hn,hderive⟩
    obtain ⟨logN',hlog',hn'⟩ := checkedIlog2_of_valid hvalid
    have hlog : logN' = logN := UInt8.toNat_inj.mp (Nat.pow_right_injective (Nat.le_refl 2) (hn'.symm.trans hn))
    exact ⟨(),hvalid,logN,hlog ▸ hlog',hderive⟩

/-- An export that has been made. -/
structure Export (P : Primitives) (S : Scrypt) where
  draws : ExportDraws
  masterKey : Key
  passphrase : Bytes
  kek : Key
  ciphertext : Bytes
  nonempty : passphrase ≠ []
  derived : S.derive ⟨passphrase,draws.salt.toList,15,scryptR,scryptP⟩ = .ok kek
  encrypted : P.aead.encrypt kek draws.nonce [] masterKey.toList = some ciphertext

namespace Export

variable {P : Primitives} {S : Scrypt}

def input (x : Export P S) : ScryptInput := ⟨x.passphrase,x.draws.salt.toList,15,scryptR,scryptP⟩

def blob (x : Export P S) : ExportBlob where
  scheme := exportScheme
  kdf := "scrypt"
  n := scryptN
  r := scryptR
  p := scryptP
  salt := P.b64 x.draws.salt.toList
  nonce := P.b64 x.draws.nonce.toList
  ciphertext := P.b64 x.ciphertext

/-- What is assumed of the primitives, where these are the exports and the ciphertexts there are: whoever
does not have the key of an export comes up with no other ciphertext for it. A key of fixed length cannot
be different for all inputs, but the key of an export belongs to no other input. -/
structure Ideal (exports : Export P S → Prop) (ciphertexts : Bytes → Prop) : Prop where
  canonical : P.base64.Canonical
  decrypts : ∀ {k n a m c}, P.aead.encrypt k n a m = some c → P.aead.decrypt k n a c = some m
  authentic : ∀ {input kek nonce c m}, S.derive input = .ok kek → ciphertexts c → P.aead.decrypt kek nonce [] c = some m →
    ∃ x, exports x ∧ kek = x.kek ∧ nonce = x.draws.nonce ∧ c = x.ciphertext
  injective : ∀ {x input}, exports x → S.derive input = .ok x.kek → input = x.input

end Export

section Spec

variable {P : Primitives} {S : Scrypt} {draws : ExportDraws} {masterKey key : Key} {passphrase : Bytes} {blob : ExportBlob}
  {exports : Export P S → Prop}

theorem text_of_unb64 (hcanonical : P.base64.Canonical) {text label : String} {raw : Bytes}
    (h : P.unb64 text label = .ok raw) : text = P.b64 raw := hcanonical (context_eq_ok.mp h)

theorem text_of_decodeNonce (hcanonical : P.base64.Canonical) {text label : String} {nonce : Nonce}
    (h : P.decodeNonce text label = .ok nonce) : text = P.b64 nonce.toList := by
  obtain ⟨raw,hraw,harray⟩ := bind_eq_ok.mp h
  rw [← toArray?_eq_some.mp (orError_eq_ok.mp harray)]
  exact text_of_unb64 hcanonical hraw

theorem exportMasterKeyWith_eq_ok : P.exportMasterKeyWith S draws masterKey passphrase = .ok blob ↔
    ∃ x : Export P S, x.draws = draws ∧ x.masterKey = masterKey ∧ x.passphrase = passphrase ∧ x.blob = blob := by
  have hn : scryptN.toNat = 2^(15 : UInt8).toNat := by decide
  simp only [Primitives.exportMasterKeyWith,bind_eq_ok,bailIf_eq_ok,deriveKekScrypt_eq_ok,Primitives.encryptWithKey_eq_ok]
  constructor
  · rintro ⟨_,hne,kek,⟨logN,-,hlog,hderive⟩,c,hc,hblob⟩
    have hlogN : logN = 15 := UInt8.toNat_inj.mp (Nat.pow_right_injective (Nat.le_refl 2) (hlog.symm.trans hn))
    subst hlogN
    exact ⟨⟨draws,masterKey,passphrase,kek,c,hne,hderive,hc⟩,rfl,rfl,rfl,Except.ok.inj hblob⟩
  · rintro ⟨x,rfl,rfl,rfl,rfl⟩
    exact ⟨(),x.nonempty,x.kek,⟨15,validateScryptParams_exported,hn,x.derived⟩,x.ciphertext,x.encrypted,rfl⟩

theorem importMasterKey_blob (x : Export P S)
    (hdecrypts : ∀ {k n a m c}, P.aead.encrypt k n a m = some c → P.aead.decrypt k n a c = some m) :
    P.importMasterKey S x.blob x.passphrase = .ok x.masterKey := by
  have hn : scryptN.toNat = 2^(15 : UInt8).toNat := by decide
  simp only [Primitives.importMasterKey,bind_eq_ok,bailIf_eq_ok,deriveKekScrypt_eq_ok,context_eq_ok,
    Primitives.decryptWithKey_eq_ok,orError_eq_ok,toArray?_eq_some,not_or,not_not]
  exact ⟨(),x.nonempty,(),⟨rfl,rfl⟩,(),validateScryptParams_exported,_,Primitives.unb64_b64,_,Primitives.decodeNonce_b64,
    _,Primitives.unb64_b64,x.kek,⟨15,validateScryptParams_exported,hn,x.derived⟩,_,hdecrypts x.encrypted,(),
    Vector.length_toList,rfl⟩

/-- Nothing can be imported but an export, with its passphrase. -/
theorem importMasterKey_sound {ciphertexts : Bytes → Prop} (hideal : Export.Ideal exports ciphertexts)
    (hcirculates : ∀ c, P.unb64 blob.ciphertext "ciphertext" = .ok c → ciphertexts c)
    (h : P.importMasterKey S blob passphrase = .ok key) :
    ∃ x, exports x ∧ blob = x.blob ∧ passphrase = x.passphrase ∧ key = x.masterKey := by
  have hn : scryptN.toNat = 2^(15 : UInt8).toNat := by decide
  simp only [Primitives.importMasterKey,bind_eq_ok,bailIf_eq_ok,deriveKekScrypt_eq_ok,context_eq_ok,
    Primitives.decryptWithKey_eq_ok,orError_eq_ok,toArray?_eq_some,not_or,not_not] at h
  obtain ⟨_,-,_,⟨hscheme,hkdf⟩,_,-,salt,hsalt,nonce,hnonce,c,hc,kek,⟨logN,-,hlog,hderive⟩,m,hm,_,-,hkey⟩ := h
  obtain ⟨x,hx,rfl,rfl,rfl⟩ := hideal.authentic hderive (hcirculates c hc) hm
  obtain ⟨rfl,rfl,rfl,hr,hp⟩ := ScryptInput.mk.inj (hideal.injective hx hderive)
  have hn' : blob.n = scryptN := UInt32.toNat_inj.mp (hlog.trans hn.symm)
  have hsalt := text_of_unb64 hideal.canonical hsalt
  have hnonce := text_of_decodeNonce hideal.canonical hnonce
  have hc := text_of_unb64 hideal.canonical hc
  have hmaster : m = x.masterKey.toList := Option.some.inj (hm.symm.trans (hideal.decrypts x.encrypted))
  exact ⟨x,hx,ExportBlob.ext hscheme hkdf hn' hr hp hsalt hnonce hc,rfl,Vector.toList_inj.mp (hkey.symm.trans hmaster)⟩

end Spec
end Avault.Crypto
