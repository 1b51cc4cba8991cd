import Avault.Crypto.Concrete
import Avault.Store.Call

/-! A machine that behaves as assumed: a sealed blob carries the key in the clear. -/
namespace Avault.Store
open Foundation Crypto

def tpmStoreScheme : String := "machine-key-tpm2-sealed-v1"

section Text

variable (J : JsonText.Serializer)

/-- The fields in declaration order. -/
def blobText (blob : TpmMasterBlob) : String :=
  "\x7b\"scheme\":" ++ J.toText blob.scheme ++ ",\"hierarchy\":" ++ J.toText blob.hierarchy ++
    ",\"public\":" ++ J.toText blob.publicPart ++ ",\"private\":" ++ J.toText blob.privatePart ++ "\x7d"

theorem blobText_injective : Function.Injective (blobText J) := by
  rintro ⟨scheme,hierarchy,public',private'⟩ ⟨scheme',hierarchy',public'',private''⟩ h
  have htext := congrArg String.toList h
  unfold blobText at htext
  simp only [String.toList_append,List.append_assoc] at htext
  obtain ⟨rfl,hhierarchy⟩ := J.append_inj (List.append_cancel_left htext)
  obtain ⟨rfl,hpublic⟩ := J.append_inj (List.append_cancel_left hhierarchy)
  obtain ⟨rfl,hprivate⟩ := J.append_inj (List.append_cancel_left hpublic)
  obtain ⟨rfl,_⟩ := J.append_inj (List.append_cancel_left hprivate)
  rfl

def blobBytes (blob : TpmMasterBlob) : Bytes := utf8 (blobText J blob)

theorem blobBytes_injective : Function.Injective (blobBytes J) := by
  intro b b' h
  exact blobText_injective J (utf8_injective h)

end Text

/-- `validate_tpm_blob`. -/
def validateTpmBlob (blob : TpmMasterBlob) : Result Unit :=
  bailIf (blob.scheme ≠ tpmStoreScheme ∨ blob.hierarchy ≠ "owner") "unrecognized TPM master key"

def clearBase64 : Codec Error Bytes String := Base64.standard [.message "private is not valid base64"]

def sealClear (n : ℕ) (key : Key) : TpmMasterBlob where
  scheme := tpmStoreScheme
  hierarchy := "owner"
  publicPart := n.repr
  privatePart := clearBase64.encode key.toList

def unsealClear (blob : TpmMasterBlob) : Result Key := do
  validateTpmBlob blob
  let bytes ← clearBase64.decode blob.privatePart
  orError "unsealed TPM master key has invalid length" (toArray? keyBytes bytes)

theorem unsealClear_sealClear (n : ℕ) (key : Key) : unsealClear (sealClear n key) = .ok key := by
  have hvalid : validateTpmBlob (sealClear n key) = .ok () := bailIf_neg (by simp [sealClear])
  rw [unsealClear,hvalid,ok_bind]
  simp [sealClear,clearBase64.decode_encode]

/-- The keys of a counter in place of random ones. -/
def counterKey (n : ℕ) : Key := Vector.replicate keyBytes (UInt8.ofNat n)

noncomputable def Machine.clear : Machine where
  sealMasterKey := sealClear
  unsealMasterKey := unsealClear
  unseal_seal := unsealClear_sealClear
  blobJson := Codec.ofInjective (blobBytes JsonText.minimal) (blobBytes_injective JsonText.minimal)
    [.message "expected value at line 1 column 1"]
  randomKey := counterKey

def World.empty : World := ⟨false,none,none,none,0,0⟩

end Avault.Store
