import Avault.Crypto.Concrete

/-! Protected records: their AAD is hand-built JSON text over the name and the record
metadata, and the AAD of older rows is tried second. -/
namespace Avault.Crypto
open Foundation

/-- `to_ascii_lowercase`; `Char.toLower` leaves every character outside `A`-`Z` alone. -/
def toAsciiLowercase (s : String) : String := String.ofList (s.toList.map Char.toLower)

section Text

variable (J : JsonText.Serializer)

def recordText : Option RecordMeta → String
  | some .static => "\x7b\"kind\":\"static\"\x7d"
  | some (.keypair publicKey) =>
    "\x7b\"kind\":\"keypair\",\"public_key\":" ++ J.toText (toAsciiLowercase publicKey) ++ "\x7d"
  | none => "null"

def protectedRecordText (name : String) (wrap : WrapMeta) : String :=
  "\x7b\"domain\":\"avault:protected-record:aad:v2\",\"name\":" ++ J.toText name ++
    ",\"record\":" ++ recordText J wrap.recordMeta ++ ",\"scheme\":" ++ J.toText wrap.scheme ++
    ",\"version\":" ++ toString wrap.v.toNat ++ "\x7d"

def protectedRecordAad (name : String) (wrap : WrapMeta) : Bytes :=
  utf8 (protectedRecordText J name wrap)

end Text

namespace Primitives

variable (P : Primitives)

/-- `open_protected_value_with_dek`: the v2 AAD, then the AAD of standard envelopes. -/
def openProtectedValueWithDek (dek : Key) (name : String) (box : Sealed) (wrap : WrapMeta) :
    Result Bytes :=
  P.openColumns dek box (protectedRecordAad P.json name wrap) (aad name)

/-- `open_with_dek`. -/
def openWithDek (dek : Key) (name : String) (box : Sealed) : Result Bytes := do
  let wrap ← P.admittedWrapMeta box
  P.openProtectedValueWithDek dek name box wrap

end Primitives

/-- Scheme and version as `open_with_dek` admits them. -/
structure WrapMeta.Admitted (wrap : WrapMeta) : Prop where
  scheme : wrap.scheme = wrapScheme
  v : wrap.v = wrapMetaVersion

/-- The same record metadata up to the ASCII case of the public key. -/
inductive SameRecord : Option RecordMeta → Option RecordMeta → Prop
  | absent : SameRecord none none
  | static : SameRecord (some .static) (some .static)
  | keypair {p q} : toAsciiLowercase p = toAsciiLowercase q →
      SameRecord (some (.keypair p)) (some (.keypair q))

variable {J : JsonText.Serializer}

@[simp] theorem recordText_none : recordText J none = "null" := rfl
@[simp] theorem recordText_static : recordText J (some .static) = "\x7b\"kind\":\"static\"\x7d" := rfl
@[simp] theorem recordText_keypair (publicKey : String) : recordText J (some (.keypair publicKey)) =
    "\x7b\"kind\":\"keypair\",\"public_key\":" ++ J.toText (toAsciiLowercase publicKey) ++ "\x7d" := rfl

theorem recordText_congr {r r' : Option RecordMeta} (h : SameRecord r r') :
    recordText J r = recordText J r' := by
  cases h with
  | absent | static => rfl
  | keypair hkey => rw [recordText_keypair,recordText_keypair,hkey]

/-- The opening characters tell the three kinds of record apart, and the key of a keypair
is a whole JSON literal, so none of its characters can close the object early. -/
theorem recordText_append_inj {r r' : Option RecordMeta} {s t : List Char}
    (h : (recordText J r).toList ++ s = (recordText J r').toList ++ t) :
    SameRecord r r' ∧ s = t := by
  match r,r' with
  | none,none => exact ⟨.absent,List.append_cancel_left h⟩
  | some .static,some .static => exact ⟨.static,List.append_cancel_left h⟩
  | some (.keypair p),some (.keypair q) =>
    simp only [recordText_keypair,String.toList_append,List.append_assoc] at h
    obtain ⟨hkey,hrest⟩ := J.append_inj (List.append_cancel_left h)
    exact ⟨.keypair hkey,List.append_cancel_left hrest⟩
  | none,some .static | none,some (.keypair _) | some .static,none | some (.keypair _),none
  | some .static,some (.keypair _) | some (.keypair _),some .static =>
    simp at h

theorem protectedRecordAad_inj {n n' : String} {w w' : WrapMeta}
    (h : protectedRecordAad J n w = protectedRecordAad J n' w') :
    n = n' ∧ SameRecord w.recordMeta w'.recordMeta := by
  have htext := congrArg String.toList (utf8_injective h)
  unfold protectedRecordText at htext
  simp only [String.toList_append,List.append_assoc] at htext
  obtain ⟨hname,hrest⟩ := J.append_inj (List.append_cancel_left htext)
  obtain ⟨hrecord,_⟩ := recordText_append_inj (List.append_cancel_left hrest)
  exact ⟨hname,hrecord⟩

theorem protectedRecordAad_congr {n : String} {w w' : WrapMeta} (hw : w.Admitted)
    (hw' : w'.Admitted) (h : SameRecord w.recordMeta w'.recordMeta) :
    protectedRecordAad J n w = protectedRecordAad J n w' := by
  unfold protectedRecordAad protectedRecordText
  rw [hw.scheme,hw.v,hw'.scheme,hw'.v,recordText_congr h]

theorem protectedRecordAad_getLast? (n : String) (w : WrapMeta) :
    (protectedRecordAad J n w).getLast? = some 0x7d := by
  unfold protectedRecordAad protectedRecordText
  rw [utf8_append,show utf8 "\x7d" = [0x7d] by decide,List.getLast?_append]
  rfl

/-- The legacy AAD ends in the version byte, the v2 text in a brace. -/
theorem protectedRecordAad_ne_aad (n n' : String) (w : WrapMeta) :
    protectedRecordAad J n w ≠ aad n' := by
  intro h
  have hlast := protectedRecordAad_getLast? (J := J) n w
  rw [h,aad,List.getLast?_append] at hlast
  exact absurd (Option.some.inj hlast) (by decide)

theorem protectedRecordAad_ne_nil (n : String) (w : WrapMeta) : protectedRecordAad J n w ≠ [] := by
  intro h
  have hlast := protectedRecordAad_getLast? (J := J) n w
  rw [h] at hlast
  cases hlast

namespace Primitives

variable {P : Primitives}

/-- A value opens through `open_with_dek` under its own DEK exactly where the presented name
and metadata reproduce the AAD it was sealed with, as the v2 or as the legacy AAD. -/
theorem openWithDek_encrypt (hP : P.aead.Ideal) {dek : Key} {n : Nonce} {a m c : Bytes}
    (hc : P.aead.encrypt dek n a m = some c) {name wrapText : String} {v : Bytes} :
    P.openWithDek dek name ⟨P.b64 c,P.b64 n.toList,wrapText⟩ = .ok v ↔
      v = m ∧ ∃ w, P.wrapMeta.decode wrapText = .ok w ∧ w.Admitted ∧
        (protectedRecordAad P.json name w = a ∨ aad name = a) := by
  simp only [openWithDek,bind_eq_ok,admittedWrapMeta_eq_ok,openProtectedValueWithDek]
  constructor
  · rintro ⟨w,⟨hw,hs,hv⟩,h⟩
    obtain ⟨_,_,ha,rfl⟩ := (openColumns_encrypt hP hc rfl).mp h
    exact ⟨rfl,w,hw,⟨hs,hv⟩,ha⟩
  · rintro ⟨rfl,w,hw,⟨hs,hv⟩,ha⟩
    exact ⟨w,⟨hw,hs,hv⟩,(openColumns_encrypt hP hc rfl).mpr ⟨decodeNonce_b64,rfl,ha,rfl⟩⟩

theorem openWithDek_v2 (hP : P.aead.Ideal) {dek : Key} {n : Nonce} {name : String}
    {wrap : WrapMeta} (hwrap : wrap.Admitted) {m c : Bytes}
    (hc : P.aead.encrypt dek n (protectedRecordAad P.json name wrap) m = some c)
    {name' wrapText : String} {v : Bytes} :
    P.openWithDek dek name' ⟨P.b64 c,P.b64 n.toList,wrapText⟩ = .ok v ↔
      v = m ∧ ∃ w, P.wrapMeta.decode wrapText = .ok w ∧ w.Admitted ∧
        name' = name ∧ SameRecord w.recordMeta wrap.recordMeta := by
  rw [openWithDek_encrypt hP hc]
  refine and_congr_right fun _ => exists_congr fun w => and_congr_right fun _ =>
    and_congr_right fun hw => ?_
  constructor
  · rintro (h | h)
    · exact protectedRecordAad_inj h
    · exact absurd h.symm (protectedRecordAad_ne_aad _ _ _)
  · rintro ⟨rfl,hrecord⟩
    exact .inl (protectedRecordAad_congr hw hwrap hrecord)

theorem openWithDek_legacy (hP : P.aead.Ideal) {dek : Key} {n : Nonce} {name : String}
    {m c : Bytes} (hc : P.aead.encrypt dek n (aad name) m = some c)
    {name' wrapText : String} {v : Bytes} :
    P.openWithDek dek name' ⟨P.b64 c,P.b64 n.toList,wrapText⟩ = .ok v ↔
      v = m ∧ ∃ w, P.wrapMeta.decode wrapText = .ok w ∧ w.Admitted ∧ name' = name := by
  rw [openWithDek_encrypt hP hc]
  refine and_congr_right fun _ => exists_congr fun w => and_congr_right fun _ =>
    and_congr_right fun _ => ?_
  constructor
  · rintro (h | h)
    · exact absurd h (protectedRecordAad_ne_aad _ _ _)
    · exact aad_injective h
  · rintro rfl
    exact .inr rfl

theorem openWithDek_empty (hP : P.aead.Ideal) {dek : Key} {n : Nonce} {m c : Bytes}
    (hc : P.aead.encrypt dek n [] m = some c) {name wrapText : String} {v : Bytes} :
    P.openWithDek dek name ⟨P.b64 c,P.b64 n.toList,wrapText⟩ ≠ .ok v := by
  intro h
  obtain ⟨_,w,_,_,h | h⟩ := (openWithDek_encrypt hP hc).mp h
  · exact protectedRecordAad_ne_nil _ _ h
  · exact aad_ne_nil _ h

end Primitives

/-- Protected records are bound to their name and metadata, through both AAD formats. -/
theorem protectedRecord_binding (P : Primitives) (hP : P.aead.Ideal) :
    (∀ n₁ n₂ w₁ w₂, w₁.Admitted → w₂.Admitted →
      (protectedRecordAad P.json n₁ w₁ = protectedRecordAad P.json n₂ w₂ ↔
        n₁ = n₂ ∧ SameRecord w₁.recordMeta w₂.recordMeta)) ∧
    (∀ n w n', protectedRecordAad P.json n w ≠ aad n' ∧ protectedRecordAad P.json n w ≠ [] ∧
      aad n' ≠ []) ∧
    ∀ dek nonce m c, (
      (∀ name w, w.Admitted →
        P.aead.encrypt dek nonce (protectedRecordAad P.json name w) m = some c →
        ∀ name' wrapText v, P.openWithDek dek name' ⟨P.b64 c,P.b64 nonce.toList,wrapText⟩ = .ok v ↔
          v = m ∧ ∃ w', P.wrapMeta.decode wrapText = .ok w' ∧ w'.Admitted ∧
            name' = name ∧ SameRecord w'.recordMeta w.recordMeta) ∧
      (∀ name, P.aead.encrypt dek nonce (aad name) m = some c →
        ∀ name' wrapText v, P.openWithDek dek name' ⟨P.b64 c,P.b64 nonce.toList,wrapText⟩ = .ok v ↔
          v = m ∧ ∃ w', P.wrapMeta.decode wrapText = .ok w' ∧ w'.Admitted ∧ name' = name) ∧
      (P.aead.encrypt dek nonce [] m = some c → ∀ name' wrapText v,
        P.openWithDek dek name' ⟨P.b64 c,P.b64 nonce.toList,wrapText⟩ ≠ .ok v)) := by
  refine ⟨?_,fun n w n' => ⟨protectedRecordAad_ne_aad n n' w,protectedRecordAad_ne_nil n w,
    aad_ne_nil n'⟩,fun dek nonce m c => ⟨?_,?_,?_⟩⟩
  · intro n₁ n₂ w₁ w₂ hw₁ hw₂
    refine ⟨protectedRecordAad_inj,?_⟩
    rintro ⟨rfl,hrecord⟩
    exact protectedRecordAad_congr hw₁ hw₂ hrecord
  · intro name w hw hc name' wrapText v
    exact Primitives.openWithDek_v2 hP hw hc
  · intro name hc name' wrapText v
    exact Primitives.openWithDek_legacy hP hc
  · intro hc name' wrapText v
    exact Primitives.openWithDek_empty hP hc

/-- One keypair record: another spelling of its public key opens it, another name does not. -/
theorem protectedRecord_binding_keypair :
    let P := Primitives.concrete
    let wrap (key : String) : WrapMeta := ⟨1,"machine-aesgcm-v1","","",some (.keypair key)⟩
    ∃ c, P.aead.encrypt (Vector.replicate 32 1) (Vector.replicate 12 2)
        (protectedRecordAad P.json "KEY" (wrap "02aB")) [9] = some c ∧
      P.openWithDek (Vector.replicate 32 1) "KEY"
        ⟨P.b64 c,P.b64 (Vector.replicate 12 2).toList,P.wrapMeta.encode (wrap "02Ab")⟩ = .ok [9] ∧
      P.openWithDek (Vector.replicate 32 1) "KEY2"
        ⟨P.b64 c,P.b64 (Vector.replicate 12 2).toList,P.wrapMeta.encode (wrap "02aB")⟩ ≠ .ok [9] := by
  intro P wrap
  have hwrap (key : String) : (wrap key).Admitted := ⟨rfl,rfl⟩
  have hlen : (protectedRecordAad P.json "KEY" (wrap "02aB")).length < 256^8 := by decide +kernel
  have hc := Aead.transparent_encrypt (k := Vector.replicate keyBytes 1)
    (n := Vector.replicate nonceBytes 2) (m := [9]) hlen
  obtain ⟨_,_,hopen⟩ := protectedRecord_binding P Primitives.concrete_ideal
  have hv2 := (hopen _ _ _ _).1 "KEY" (wrap "02aB") (hwrap _) hc
  refine ⟨_,hc,(hv2 _ _ _).mpr ?_,fun h => ?_⟩
  · exact ⟨rfl,wrap "02Ab",P.wrapMeta.decode_encode _,hwrap _,rfl,.keypair (by decide)⟩
  · obtain ⟨_,_,_,_,hname,_⟩ := (hv2 _ _ _).mp h
    exact absurd hname (by decide)

end Avault.Crypto
