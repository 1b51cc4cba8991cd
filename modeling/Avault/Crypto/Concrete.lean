import Avault.Crypto.Envelope

/-! One choice of the primitives that meets all that is assumed of them: a transparent AEAD,
padded base64, and the JSON text of `wrap_meta`. -/
namespace Avault.Crypto
open Foundation

def readDecimal (digits : List Char) : ℕ := digits.foldl (fun n c => n*10+(c.toNat-48)) 0

theorem readDecimal_repr : ∀ n < 256, readDecimal n.repr.toList = n := by decide +kernel

theorem comma_notMem_repr : ∀ n < 256, ',' ∉ n.repr.toList := by decide +kernel

/-- The version number ends at the comma behind it. -/
theorem version_append_inj {v v' : UInt8} {s t : List Char}
    (h : v.toNat.repr.toList ++ ','::s = v'.toNat.repr.toList ++ ','::t) : v = v' ∧ s = t := by
  have hv := comma_notMem_repr _ v.toNat_lt
  have hv' := comma_notMem_repr _ v'.toNat_lt
  obtain ⟨hrepr,hst⟩ := append_stop_inj hv hv' h
  have hread := congrArg readDecimal hrepr
  rw [readDecimal_repr _ v.toNat_lt,readDecimal_repr _ v'.toNat_lt] at hread
  exact ⟨UInt8.toNat_inj.mp hread,hst⟩

section Text

variable (J : JsonText.Serializer)

def recordMetaText : Option RecordMeta → String
  | none => ""
  | some .static => ",\"record_meta\":\x7b\"kind\":\"static\"\x7d"
  | some (.keypair publicKey) =>
    ",\"record_meta\":\x7b\"kind\":\"keypair\",\"public_key\":" ++ J.toText publicKey ++ "\x7d"

/-- The fields in declaration order, an absent `record_meta` left out. -/
def wrapMetaText (wrap : WrapMeta) : String :=
  "\x7b\"v\":" ++ wrap.v.toNat.repr ++ ",\"scheme\":" ++ J.toText wrap.scheme ++
    ",\"wrapped_dek\":" ++ J.toText wrap.wrappedDek ++ ",\"dek_nonce\":" ++
    J.toText wrap.dekNonce ++ recordMetaText J wrap.recordMeta ++ "\x7d"

end Text

variable {J : JsonText.Serializer}

@[simp] theorem recordMetaText_none : recordMetaText J none = "" := rfl
@[simp] theorem recordMetaText_static : recordMetaText J (some .static) =
    ",\"record_meta\":\x7b\"kind\":\"static\"\x7d" := rfl
@[simp] theorem recordMetaText_keypair (publicKey : String) :
    recordMetaText J (some (.keypair publicKey)) =
      ",\"record_meta\":\x7b\"kind\":\"keypair\",\"public_key\":" ++ J.toText publicKey ++ "\x7d" := rfl

theorem recordMetaText_inj {r r' : Option RecordMeta}
    (h : (recordMetaText J r).toList ++ ['}'] = (recordMetaText J r').toList ++ ['}']) : r = r' := by
  match r,r' with
  | none,none => rfl
  | some .static,some .static => rfl
  | some (.keypair p),some (.keypair q) =>
    simp only [recordMetaText_keypair,String.toList_append,List.append_assoc] at h
    obtain ⟨rfl,_⟩ := J.append_inj (List.append_cancel_left h)
    rfl
  | none,some .static | none,some (.keypair _) | some .static,none | some (.keypair _),none
  | some .static,some (.keypair _) | some (.keypair _),some .static =>
    simp at h

theorem wrapMetaText_injective : Function.Injective (wrapMetaText J) := by
  rintro ⟨v,scheme,dek,nonce,record⟩ ⟨v',scheme',dek',nonce',record'⟩ h
  have htext := congrArg String.toList h
  unfold wrapMetaText at htext
  simp only [String.toList_append,List.append_assoc] at htext
  obtain ⟨rfl,hscheme⟩ := version_append_inj (List.append_cancel_left htext)
  have hscheme : "\"scheme\":".toList ++ _ = "\"scheme\":".toList ++ _ := hscheme
  obtain ⟨rfl,hdek⟩ := J.append_inj (List.append_cancel_left hscheme)
  obtain ⟨rfl,hnonce⟩ := J.append_inj (List.append_cancel_left hdek)
  obtain ⟨rfl,hrecord⟩ := J.append_inj (List.append_cancel_left hnonce)
  rw [recordMetaText_inj hrecord]

noncomputable def Primitives.concrete : Primitives where
  aead := Aead.transparent keyBytes nonceBytes
  base64 := Base64.standard [.message "Invalid symbol"]
  json := JsonText.minimal
  wrapMeta := Codec.ofInjective (wrapMetaText JsonText.minimal) wrapMetaText_injective
    [.message "expected value"]

theorem Primitives.concrete_ideal : Primitives.concrete.aead.Ideal :=
  Aead.transparent_ideal keyBytes nonceBytes

end Avault.Crypto
