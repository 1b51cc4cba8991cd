import Avault.Crypto.BlindBox
import Avault.Crypto.Concrete
import Avault.Foundation.Hex

/-! The receiver that the one-shot commands derive from the master key, and the other side of its boxes. -/
namespace Avault.Crypto
open Foundation

def cliDerivedReceiverSalt : Bytes := utf8 "avault:blind-box:receiver-salt:v1"
def cliDerivedReceiverInfo : Bytes := utf8 "avault:blind-box:receiver-x25519:v1"

/-- What the crate calls of `hkdf`, `hpke` and `sha2`. -/
structure Hpke where
  /-- 32 bytes of HKDF-SHA256 from a salt, a key and an info. -/
  hkdf : Bytes → Key → Bytes → Key
  PrivateKey : Type
  deriveKeypair : Key → PrivateKey × Key
  singleShotOpen : PrivateKey → Key → Bytes → Bytes → Bytes → Option Bytes
  /-- From a public key, random bytes, the info, a plaintext and its associated data. -/
  singleShotSeal : Key → Key → Bytes → Bytes → Bytes → Option (Key × Bytes)
  sha256 : Bytes → Key

/-- `BlindBoxKeypair`, with its public key. -/
structure ReceiverKeypair extends BlindBoxKeypair where
  publicKey : Key

namespace ReceiverKeypair

variable (keypair : ReceiverKeypair)

def publicKeyBytes : Bytes := keypair.publicKey.toList
def publicKeyB64 (P : Primitives) : String := P.b64 keypair.publicKeyBytes
def fingerprintHex (H : Hpke) : String := Hex.encode (H.sha256 keypair.publicKeyBytes).toList

end ReceiverKeypair

namespace Hpke

variable (H : Hpke)

def deriveBlindBoxKeypair (ikm : Key) : ReceiverKeypair where
  singleShotOpen := H.singleShotOpen (H.deriveKeypair ikm).1
  publicKey := (H.deriveKeypair ikm).2

def deriveBlindBoxKeypairFromMaster (masterKey : Key) : ReceiverKeypair :=
  H.deriveBlindBoxKeypair (H.hkdf cliDerivedReceiverSalt masterKey cliDerivedReceiverInfo)

/-- The box that a browser makes for a public key, as `seal_blind_box_for_tests` does. -/
def sealBlindBox (P : Primitives) (publicKeyB64 : String) (plaintext : Bytes) (seed : Key) (ctx : BlindBoxContext) :
    Result BlindBox := do
  let raw ← P.unb64 publicKeyB64 "public_key"
  let publicKey ← orError "public_key has invalid length" (toArray? keyBytes raw)
  let aad ← orError "AAD field fits in u32" ctx.aadBytes
  let (encappedKey,ct) ← orError "blind-box seal failed" (H.singleShotSeal publicKey seed blindBoxHpkeInfo plaintext aad)
  return ⟨blindBoxScheme,P.b64 encappedKey.toList,P.b64 ct⟩

/-- A box opens with the private key of the public key it was made for, under its associated data, and with
nothing else. -/
def Ideal : Prop := ∀ {ikm ikm' seed info plaintext aad enc ct aad' plaintext'},
  H.singleShotSeal (H.deriveKeypair ikm).2 seed info plaintext aad = some (enc,ct) →
    (H.singleShotOpen (H.deriveKeypair ikm').1 enc info ct aad' = some plaintext' ↔
      (H.deriveKeypair ikm').2 = (H.deriveKeypair ikm).2 ∧ aad' = aad ∧ plaintext' = plaintext)

variable {H} {P : Primitives} {key key' seed : Key} {name : String} {plaintext plaintext' : Bytes}
  {ctx : BlindBoxContext} {blindBox : BlindBox}

/-- What a box opens to that was made for a derived public key. -/
theorem Ideal.openBox_sealBlindBox (h : H.Ideal)
    (hbox : H.sealBlindBox P ((H.deriveBlindBoxKeypairFromMaster key).publicKeyB64 P) plaintext seed ctx = .ok blindBox)
    {ctx' : BlindBoxContext} :
    (H.deriveBlindBoxKeypairFromMaster key').openBox P blindBox ctx' = .ok plaintext' ↔
      (H.deriveBlindBoxKeypairFromMaster key').publicKey = (H.deriveBlindBoxKeypairFromMaster key).publicKey ∧
        ctx'.aadBytes = ctx.aadBytes ∧ plaintext' = plaintext := by
  simp only [sealBlindBox,bind_eq_ok,orError_eq_ok,toArray?_eq_some] at hbox
  obtain ⟨raw,hraw,publicKey,hpublicKey,aad,haad,⟨enc,ct⟩,hseal,hbox⟩ := hbox
  obtain rfl := Except.ok.inj hbox
  rw [ReceiverKeypair.publicKeyB64,Primitives.unb64_b64] at hraw
  obtain rfl := Except.ok.inj hraw
  obtain rfl := Vector.toList_inj.mp hpublicKey
  rw [BlindBoxKeypair.openBox_eq_ok]
  constructor
  · rintro ⟨-,enc',ct',aad',henc,hct,haad',hopen⟩
    rw [Primitives.unb64_b64] at henc hct
    obtain rfl := Vector.toList_inj.mp (Except.ok.inj henc)
    obtain rfl := Except.ok.inj hct
    obtain ⟨hkey,rfl,rfl⟩ := (h hseal).mp hopen
    exact ⟨hkey,haad'.trans haad.symm,rfl⟩
  · rintro ⟨hkey,haad',rfl⟩
    exact ⟨rfl,enc,ct,aad,Primitives.unb64_b64,Primitives.unb64_b64,haad'.trans haad,(h hseal).mpr ⟨hkey,rfl,rfl⟩⟩

/-- A box for sealing a name is one for that name only. -/
theorem Ideal.openBox_seal (h : H.Ideal)
    (hbox : H.sealBlindBox P ((H.deriveBlindBoxKeypairFromMaster key).publicKeyB64 P) plaintext seed (.seal name) = .ok blindBox)
    {name' : String} : (H.deriveBlindBoxKeypairFromMaster key').openBox P blindBox (.seal name') = .ok plaintext' ↔
      (H.deriveBlindBoxKeypairFromMaster key').publicKey = (H.deriveBlindBoxKeypairFromMaster key).publicKey ∧
        name' = name ∧ plaintext' = plaintext := by
  rw [h.openBox_sealBlindBox hbox]
  refine and_congr_right fun _ => and_congr_left fun _ => ⟨fun haad => ?_,fun hname => hname ▸ rfl⟩
  simp only [sealBlindBox,bind_eq_ok,orError_eq_ok] at hbox
  obtain ⟨_,_,_,_,aad,hsome,_⟩ := hbox
  exact (BlindBoxContext.aadBytes_inj (haad.trans hsome) hsome).name

end Hpke

/-- An HPKE in which the private key is the public one, and a box shows whom it is for. -/
noncomputable def Hpke.transparent : Hpke where
  hkdf _ key _ := key
  PrivateKey := Key
  deriveKeypair ikm := (ikm,ikm)
  singleShotOpen key _ _ ct aad := Primitives.concrete.aead.decrypt key (.replicate 12 0) aad ct
  singleShotSeal publicKey seed _ plaintext aad :=
    (Primitives.concrete.aead.encrypt publicKey (.replicate 12 0) aad plaintext).map (seed,·)
  sha256 _ := .replicate 32 0

theorem Hpke.transparent_ideal : Hpke.transparent.Ideal := by
  intro ikm ikm' seed info plaintext aad enc ct aad' plaintext' hseal
  obtain ⟨c,hc,heq⟩ := Option.map_eq_some_iff.mp hseal
  obtain ⟨rfl,rfl⟩ := Prod.mk.inj heq
  refine (Primitives.concrete_ideal.decrypt_encrypt hc).trans ?_
  exact and_congr_right fun _ => and_iff_right rfl

end Avault.Crypto
