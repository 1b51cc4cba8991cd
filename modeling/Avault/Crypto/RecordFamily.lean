import Avault.Crypto.Concrete

/-! Families of standard envelopes whose columns are mixed by whoever holds the table. -/
namespace Avault.Crypto
open Foundation

/-- One call of `seal`, with the random bytes it draws. -/
structure SealCall where
  draws : SealDraws
  masterKey : Key
  name : String
  value : Bytes

/-- Records written by `seal`, no two of them under one DEK. -/
structure RecordFamily (P : Primitives) (ι : Type*) where
  call : ι → SealCall
  record : ι → Sealed
  sealWith_eq : ∀ i,
    P.sealWith (call i).draws (call i).masterKey (call i).name (call i).value = .ok (record i)
  dek_injective : Function.Injective fun i => (call i).draws.dek

namespace RecordFamily

variable {P : Primitives} {ι : Type*} (F : RecordFamily P ι)

/-- The columns of up to three records, put together as one row. -/
def mix (i j k : ι) : Sealed :=
  ⟨(F.record i).ciphertext,(F.record j).nonce,(F.record k).wrapMeta⟩

@[simp] theorem mix_ciphertext (i j k : ι) :
    (F.mix i j k).ciphertext = (F.record i).ciphertext := rfl
@[simp] theorem mix_nonce (i j k : ι) : (F.mix i j k).nonce = (F.record j).nonce := rfl
@[simp] theorem mix_wrapMeta (i j k : ι) : (F.mix i j k).wrapMeta = (F.record k).wrapMeta := rfl

/-- The ciphertext and wrapped DEK behind the columns of a record. -/
theorem exists_columns (i : ι) : ∃ c w,
    P.aead.encrypt (F.call i).draws.dek (F.call i).draws.valueNonce (aad (F.call i).name)
      (F.call i).value = some c ∧
    P.aead.encrypt (F.call i).masterKey (F.call i).draws.dekNonce []
      (F.call i).draws.dek.toList = some w ∧
    F.record i = ⟨P.b64 c,P.b64 (F.call i).draws.valueNonce.toList,P.wrapMeta.encode
      ⟨wrapMetaVersion,wrapScheme,P.b64 w,P.b64 (F.call i).draws.dekNonce.toList,none⟩⟩ :=
  Primitives.sealWith_eq_ok.mp (F.sealWith_eq i)

/-- The empty AAD is no record's, so the retry of `open` has nothing to find. -/
theorem decrypt_empty_aad (hP : P.aead.Ideal) (i : ι) {c : Bytes}
    (hc : P.unb64 (F.record i).ciphertext "ciphertext" = .ok c) (dek : Key) (nonce : Nonce) :
    P.aead.decrypt dek nonce [] c = none := by
  obtain ⟨c',_,hc',_,hrecord⟩ := F.exists_columns i
  rw [hrecord,Primitives.unb64_b64] at hc
  obtain rfl := Except.ok.inj hc
  exact hP.decrypt_eq_none hc' fun h => aad_ne_nil _ h.2.2.symm

/-- Which record a mixed row opens as, in terms of the calls of its three columns. -/
theorem openSealed_mix (hP : P.aead.Ideal) {i j k : ι} {masterKey : Key} {name : String}
    {v : Bytes} : P.openSealed masterKey name (F.mix i j k) = .ok v ↔
      k = i ∧ (F.call j).draws.valueNonce = (F.call i).draws.valueNonce ∧
      masterKey = (F.call i).masterKey ∧ name = (F.call i).name ∧ v = (F.call i).value := by
  obtain ⟨c,_,hc,_,hi⟩ := F.exists_columns i
  obtain ⟨_,_,_,_,hj⟩ := F.exists_columns j
  obtain ⟨_,w,_,hw,hk⟩ := F.exists_columns k
  have hvalue (dek : Key) : P.openValueWithDek dek name (F.mix i j k) = .ok v ↔
      (F.call j).draws.valueNonce = (F.call i).draws.valueNonce ∧ dek = (F.call i).draws.dek ∧
      name = (F.call i).name ∧ v = (F.call i).value := by
    rw [Primitives.openValueWithDek,Primitives.openColumns_encrypt hP hc (by rw [mix,hi]),mix,hj,
      Primitives.decodeNonce_b64,Except.ok.injEq,or_iff_left (aad_ne_nil _).symm,
      aad_injective.eq_iff]
  have hwrap : P.admittedWrapMeta (F.mix i j k) = .ok
      ⟨wrapMetaVersion,wrapScheme,P.b64 w,P.b64 (F.call k).draws.dekNonce.toList,none⟩ := by
    rw [Primitives.admittedWrapMeta_eq_ok,mix,hk]
    exact ⟨P.wrapMeta.decode_encode _,rfl,rfl⟩
  rw [Primitives.openSealed_eq_ok,hwrap]
  constructor
  · rintro ⟨_,⟨⟩,n,hn,w',hw',dek,hdek,hopen⟩
    obtain rfl := Except.ok.inj (Primitives.unb64_b64.symm.trans hw')
    obtain ⟨rfl,_,_,hd⟩ := (hP.decrypt_encrypt hw).mp hdek
    obtain ⟨hnonce,rfl,hname,hv⟩ := (hvalue dek).mp hopen
    have hki : k = i := F.dek_injective (Vector.toList_inj.mp hd).symm
    subst hki
    exact ⟨rfl,hnonce,rfl,hname,hv⟩
  · rintro ⟨rfl,hnonce,rfl,hname,hv⟩
    have hdek := (hP.decrypt_encrypt hw).mpr ⟨rfl,rfl,rfl,rfl⟩
    exact ⟨_,rfl,_,Primitives.decodeNonce_b64,_,Primitives.unb64_b64,_,hdek,
      (hvalue _).mpr ⟨hnonce,rfl,hname,hv⟩⟩

/-- Distinct records have distinct ciphertext columns. -/
theorem ciphertext_injective (hP : P.aead.Ideal) :
    Function.Injective fun i => (F.record i).ciphertext := by
  intro i l h
  obtain ⟨c,_,hc,_,hi⟩ := F.exists_columns i
  obtain ⟨c',_,hc',_,hl⟩ := F.exists_columns l
  simp only [hi,hl,Primitives.b64_inj] at h
  subst h
  exact F.dek_injective (hP.encrypt_context hc hc').1

/-- A wrapped DEK unwraps to one DEK, so distinct records differ in this column too. -/
theorem wrapMeta_injective (hP : P.aead.Ideal) :
    Function.Injective fun i => (F.record i).wrapMeta := by
  intro k l h
  obtain ⟨_,w,_,hw,hk⟩ := F.exists_columns k
  obtain ⟨_,w',_,hw',hl⟩ := F.exists_columns l
  simp only [hk,hl,Codec.encode_inj,WrapMeta.mk.injEq,Primitives.b64_inj,true_and] at h
  obtain ⟨rfl,_⟩ := h
  obtain ⟨_,_,_,hdek⟩ := (hP.decrypt_encrypt hw).mp (hP.decrypt_eq_some.mpr hw')
  exact F.dek_injective (Vector.toList_inj.mp hdek).symm

/-- A row mixed from the columns of a family opens exactly where it is one of the records,
under that record's key and name, and then as that record's value. -/
theorem openSealed_mix_iff (hP : P.aead.Ideal) (i j k : ι) (masterKey : Key) (name : String)
    (v : Bytes) :
    (P.openSealed masterKey name (F.mix i j k) = .ok v ↔
      ∃ l, F.mix i j k = F.record l ∧ masterKey = (F.call l).masterKey ∧
        name = (F.call l).name ∧ v = (F.call l).value) ∧
    ∀ c, P.unb64 (F.record i).ciphertext "ciphertext" = .ok c →
      ∀ dek nonce, P.aead.decrypt dek nonce [] c = none := by
  refine ⟨?_,fun c hc dek nonce => F.decrypt_empty_aad hP i hc dek nonce⟩
  rw [F.openSealed_mix hP]
  obtain ⟨c,w,_,_,hi⟩ := F.exists_columns i
  obtain ⟨_,_,_,_,hj⟩ := F.exists_columns j
  constructor
  · rintro ⟨rfl,hnonce,hrest⟩
    refine ⟨k,?_,hrest⟩
    rw [mix,hj,hi,hnonce]
  · rintro ⟨l,hmix,hrest⟩
    have hciphertext : (F.record i).ciphertext = (F.record l).ciphertext := by
      rw [← hmix,mix_ciphertext]
    obtain rfl := F.ciphertext_injective hP hciphertext
    have hwrapMeta : (F.record k).wrapMeta = (F.record i).wrapMeta := by
      rw [← hmix,mix_wrapMeta]
    obtain rfl := F.wrapMeta_injective hP hwrapMeta
    have hnonce := congrArg Sealed.nonce hmix
    rw [mix_nonce,hj,hi] at hnonce
    exact ⟨rfl,Vector.toList_inj.mp (Primitives.b64_inj.mp hnonce),hrest⟩

/-- Two records under one master key and one name, with the two draws of the nonces equal. -/
def twoCalls (second : Bool) : SealCall where
  draws := ⟨Vector.replicate 32 (if second then 1 else 0),Vector.replicate 12 2,Vector.replicate 12 3⟩
  masterKey := Vector.replicate 32 7
  name := "KEY"
  value := if second then [5,6] else [4]

/-- Their rows open, and the row with the first ciphertext and the second `wrap_meta` does not. -/
theorem openSealed_mix_iff_twoCalls : ∃ F : RecordFamily Primitives.concrete Bool,
    F.call = twoCalls ∧
    Primitives.concrete.openSealed (Vector.replicate 32 7) "KEY" (F.record true) = .ok [5,6] ∧
    ∀ v, Primitives.concrete.openSealed (Vector.replicate 32 7) "KEY"
      (F.mix false true true) ≠ .ok v := by
  have haad : (aad "KEY").length < 256^8 := by decide
  have hseal (b : Bool) : ∃ box, Primitives.concrete.sealWith (twoCalls b).draws
      (twoCalls b).masterKey (twoCalls b).name (twoCalls b).value = .ok box :=
    ⟨_,Primitives.sealWith_eq_ok.mpr ⟨_,_,Aead.transparent_encrypt haad,
      Aead.transparent_encrypt (by decide),rfl⟩⟩
  choose record hrecord using hseal
  have hdek : Function.Injective fun b => (twoCalls b).draws.dek := by
    intro b c h
    cases b <;> cases c <;> first | rfl | exact absurd h (by decide)
  let F : RecordFamily Primitives.concrete Bool := ⟨twoCalls,record,hrecord,hdek⟩
  refine ⟨F,rfl,?_,fun v h => ?_⟩
  · exact (F.openSealed_mix_iff Primitives.concrete_ideal true true true _ _ _).1.mpr
      ⟨true,rfl,rfl,rfl,rfl⟩
  · obtain ⟨l,hmix,_⟩ :=
      (F.openSealed_mix_iff Primitives.concrete_ideal false true true _ _ _).1.mp h
    have hfalse : (F.record false).ciphertext = (F.record l).ciphertext := by
      rw [← hmix,mix_ciphertext]
    have htrue : (F.record true).wrapMeta = (F.record l).wrapMeta := by rw [← hmix,mix_wrapMeta]
    have hl := F.ciphertext_injective Primitives.concrete_ideal hfalse
    have hl' := F.wrapMeta_injective Primitives.concrete_ideal htrue
    exact absurd (hl.trans hl'.symm) (by decide)

end RecordFamily
end Avault.Crypto
