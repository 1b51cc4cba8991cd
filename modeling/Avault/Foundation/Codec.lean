import Avault.Foundation.Bytes
import Mathlib.Logic.Function.Basic

/-! Codecs that read back what they write, and the base64 of RFC 4648 with padding. -/
namespace Avault.Foundation

/-- A reader may accept more than the writer writes, but it reads that back. -/
structure Codec (ε α β : Type*) where
  encode : α → β
  decode : β → Except ε α
  decode_encode : ∀ a, decode (encode a) = .ok a

namespace Codec

variable {ε α β : Type*}

theorem encode_injective (C : Codec ε α β) : Function.Injective C.encode := by
  intro a b h
  have hdecode := congrArg C.decode h
  rw [C.decode_encode,C.decode_encode] at hdecode
  exact Except.ok.inj hdecode

@[simp] theorem encode_inj (C : Codec ε α β) {a b : α} : C.encode a = C.encode b ↔ a = b :=
  C.encode_injective.eq_iff

/-- The codec of an injective writer, with the reader that accepts exactly its output. -/
noncomputable def ofInjective (f : α → β) (hf : Function.Injective f) (rejected : ε) :
    Codec ε α β where
  encode := f
  decode b := (Function.partialInv f b).elim (.error rejected) .ok
  decode_encode a := by rw [Function.partialInv_left hf]; rfl

/-- The reader accepts nothing that the writer does not write. -/
def Canonical (C : Codec ε α β) : Prop := ∀ {b a}, C.decode b = .ok a → b = C.encode a

end Codec

namespace Base64

/-- The character of a six-bit value. -/
def digit (n : ℕ) : Char :=
  if n < 26 then Char.ofNat (65+n)
  else if n < 52 then Char.ofNat (71+n)
  else if n < 62 then Char.ofNat (n-4)
  else if n = 62 then '+' else '/'

def digitValue? (c : Char) : Option ℕ :=
  if 'A' ≤ c ∧ c ≤ 'Z' then some (c.toNat-65)
  else if 'a' ≤ c ∧ c ≤ 'z' then some (c.toNat-71)
  else if '0' ≤ c ∧ c ≤ '9' then some (c.toNat+4)
  else if c = '+' then some 62
  else if c = '/' then some 63
  else none

theorem digitValue?_digit : ∀ n < 64, digitValue? (digit n) = some n := by decide

theorem digitValue?_eq_some {c : Char} {n : ℕ} (h : digitValue? c = some n) : c = digit n ∧ n < 64 := by
  have hle (a b : Char) : a ≤ b ↔ a.toNat ≤ b.toNat := Iff.rfl
  unfold digitValue? at h
  simp only [hle] at h
  split_ifs at h with hupper hlower hdigit hplus hslash
  · obtain rfl := Option.some.inj h
    obtain ⟨hlow,hhigh⟩ : 65 ≤ c.toNat ∧ c.toNat ≤ 90 := hupper
    rw [digit,if_pos (by omega),show 65+(c.toNat-65) = c.toNat by omega,Char.ofNat_toNat]
    exact ⟨rfl,by omega⟩
  · obtain rfl := Option.some.inj h
    obtain ⟨hlow,hhigh⟩ : 97 ≤ c.toNat ∧ c.toNat ≤ 122 := hlower
    rw [digit,if_neg (by omega),if_pos (by omega),show 71+(c.toNat-71) = c.toNat by omega,Char.ofNat_toNat]
    exact ⟨rfl,by omega⟩
  · obtain rfl := Option.some.inj h
    obtain ⟨hlow,hhigh⟩ : 48 ≤ c.toNat ∧ c.toNat ≤ 57 := hdigit
    rw [digit,if_neg (by omega),if_neg (by omega),if_pos (by omega),show c.toNat+4-4 = c.toNat by omega,Char.ofNat_toNat]
    exact ⟨rfl,by omega⟩
  · obtain rfl := Option.some.inj h
    exact ⟨hplus,by decide⟩
  · obtain rfl := Option.some.inj h
    exact ⟨hslash,by decide⟩

theorem digit_ne_pad : ∀ n < 64, digit n ≠ '=' := by decide

def encodeChars : Bytes → List Char
  | [] => []
  | [a] => [digit (a.toNat/4),digit (a.toNat%4*16),'=','=']
  | [a,b] => [digit (a.toNat/4),digit (a.toNat%4*16+b.toNat/16),digit (b.toNat%16*4),'=']
  | a::b::c::rest =>
    digit (a.toNat/4)::digit (a.toNat%4*16+b.toNat/16)::
      digit (b.toNat%16*4+c.toNat/64)::digit (c.toNat%64)::encodeChars rest

def byte₁ (p q : ℕ) : UInt8 := UInt8.ofNat (p*4+q/16)
def byte₂ (q r : ℕ) : UInt8 := UInt8.ofNat (q%16*16+r/4)
def byte₃ (r s : ℕ) : UInt8 := UInt8.ofNat (r%4*64+s)

/-- Strict decoding: padding is required and the unused low bits of the last digit are zero. -/
def decodeChars : List Char → Option Bytes
  | [] => some []
  | p::q::r::s::rest =>
    if s = '=' then
      if rest ≠ [] then none
      else if r = '=' then do
        let p ← digitValue? p
        let q ← digitValue? q
        if q%16 = 0 then some [byte₁ p q] else none
      else do
        let p ← digitValue? p
        let q ← digitValue? q
        let r ← digitValue? r
        if r%4 = 0 then some [byte₁ p q,byte₂ q r] else none
    else do
      let p ← digitValue? p
      let q ← digitValue? q
      let r ← digitValue? r
      let s ← digitValue? s
      let tail ← decodeChars rest
      some (byte₁ p q::byte₂ q r::byte₃ r s::tail)
  | _ => none

theorem byte₁_eq (a : UInt8) {q : ℕ} (hq : q/16 = a.toNat%4) : byte₁ (a.toNat/4) q = a := by
  rw [byte₁,show a.toNat/4*4+q/16 = a.toNat by omega,UInt8.ofNat_toNat]

theorem byte₂_eq (b : UInt8) {q r : ℕ} (hq : q%16 = b.toNat/16) (hr : r/4 = b.toNat%16) :
    byte₂ q r = b := by
  rw [byte₂,show q%16*16+r/4 = b.toNat by omega,UInt8.ofNat_toNat]

theorem byte₃_eq (c : UInt8) {r s : ℕ} (hr : r%4 = c.toNat/64) (hs : s = c.toNat%64) :
    byte₃ r s = c := by
  rw [byte₃,show r%4*64+s = c.toNat by omega,UInt8.ofNat_toNat]

theorem decodeChars_encodeChars (b : Bytes) : decodeChars (encodeChars b) = some b := by
  fun_induction encodeChars b with
  | case1 => rfl
  | case2 a =>
    have ha := a.toNat_lt
    simp [decodeChars,digitValue?_digit (a.toNat/4) (by omega),
      digitValue?_digit (a.toNat%4*16) (by omega),byte₁_eq a (q := a.toNat%4*16) (by omega)]
  | case3 a b =>
    have ha := a.toNat_lt
    have hb := b.toNat_lt
    have h₁ := byte₁_eq a (q := a.toNat%4*16+b.toNat/16) (by omega)
    have h₂ := byte₂_eq b (q := a.toNat%4*16+b.toNat/16) (r := b.toNat%16*4) (by omega) (by omega)
    simp [decodeChars,digitValue?_digit (a.toNat/4) (by omega),
      digitValue?_digit (a.toNat%4*16+b.toNat/16) (by omega),
      digitValue?_digit (b.toNat%16*4) (by omega),digit_ne_pad (b.toNat%16*4) (by omega),h₁,h₂]
  | case4 a b c rest ih =>
    have ha := a.toNat_lt
    have hb := b.toNat_lt
    have hc := c.toNat_lt
    have h₁ := byte₁_eq a (q := a.toNat%4*16+b.toNat/16) (by omega)
    have h₂ := byte₂_eq b (q := a.toNat%4*16+b.toNat/16) (r := b.toNat%16*4+c.toNat/64)
      (by omega) (by omega)
    have h₃ := byte₃_eq c (r := b.toNat%16*4+c.toNat/64) (s := c.toNat%64) (by omega) rfl
    simp [decodeChars,digitValue?_digit (a.toNat/4) (by omega),
      digitValue?_digit (a.toNat%4*16+b.toNat/16) (by omega),
      digitValue?_digit (b.toNat%16*4+c.toNat/64) (by omega),
      digitValue?_digit (c.toNat%64) (by omega),digit_ne_pad (c.toNat%64) (by omega),ih,h₁,h₂,h₃]

/-- The standard alphabet with padding. -/
def standard {ε : Type*} (rejected : ε) : Codec ε Bytes String where
  encode b := String.ofList (encodeChars b)
  decode s := (decodeChars s.toList).elim (.error rejected) .ok
  decode_encode b := by rw [String.toList_ofList,decodeChars_encodeChars]; rfl

theorem byte₁_toNat {p q : ℕ} (hp : p < 64) (hq : q < 64) : (byte₁ p q).toNat = p*4+q/16 :=
  UInt8.toNat_ofNat_of_lt' (by change _ < 256; omega)

theorem byte₂_toNat {q r : ℕ} (hr : r < 64) : (byte₂ q r).toNat = q%16*16+r/4 :=
  UInt8.toNat_ofNat_of_lt' (by change _ < 256; omega)

theorem byte₃_toNat {r s : ℕ} (hs : s < 64) : (byte₃ r s).toNat = r%4*64+s :=
  UInt8.toNat_ofNat_of_lt' (by change _ < 256; omega)

/-- Padding and unused bits are what the encoder writes, so there is one text for every content. -/
theorem encodeChars_of_decodeChars {text : List Char} {b : Bytes} (h : decodeChars text = some b) : text = encodeChars b := by
  fun_induction decodeChars text generalizing b with
  | case1 =>
    obtain rfl := Option.some.inj h
    rfl
  | case2 => cases h
  | case3 p q rest hrest =>
    simp only [Option.bind_eq_bind,Option.bind_eq_some_iff,Option.ite_none_right_eq_some] at h
    obtain ⟨p,hp,q,hq,hlow,hb⟩ := h
    obtain rfl := Option.some.inj hb
    obtain ⟨rfl,hp'⟩ := digitValue?_eq_some hp
    obtain ⟨rfl,hq'⟩ := digitValue?_eq_some hq
    obtain rfl := not_not.mp hrest
    rw [encodeChars,byte₁_toNat hp' hq',show (p*4+q/16)/4 = p by omega,show (p*4+q/16)%4*16 = q by omega]
  | case4 p q r rest hrest hr =>
    simp only [Option.bind_eq_bind,Option.bind_eq_some_iff,Option.ite_none_right_eq_some] at h
    obtain ⟨p,hp,q,hq,r,hr,hlow,hb⟩ := h
    obtain rfl := Option.some.inj hb
    obtain ⟨rfl,hp'⟩ := digitValue?_eq_some hp
    obtain ⟨rfl,hq'⟩ := digitValue?_eq_some hq
    obtain ⟨rfl,hr'⟩ := digitValue?_eq_some hr
    obtain rfl := not_not.mp hrest
    rw [encodeChars,byte₁_toNat hp' hq',byte₂_toNat hr',show (p*4+q/16)/4 = p by omega,
      show (p*4+q/16)%4*16+(q%16*16+r/4)/16 = q by omega,show (q%16*16+r/4)%16*4 = r by omega]
  | case5 p q r s rest hs ih =>
    simp only [Option.bind_eq_bind,Option.bind_eq_some_iff] at h
    obtain ⟨p,hp,q,hq,r,hr,s,hs,tail,htail,hb⟩ := h
    obtain rfl := Option.some.inj hb
    obtain ⟨rfl,hp'⟩ := digitValue?_eq_some hp
    obtain ⟨rfl,hq'⟩ := digitValue?_eq_some hq
    obtain ⟨rfl,hr'⟩ := digitValue?_eq_some hr
    obtain ⟨rfl,hs'⟩ := digitValue?_eq_some hs
    rw [encodeChars,byte₁_toNat hp' hq',byte₂_toNat hr',byte₃_toNat hs',ih htail,show (p*4+q/16)/4 = p by omega,
      show (p*4+q/16)%4*16+(q%16*16+r/4)/16 = q by omega,show (q%16*16+r/4)%16*4+(r%4*64+s)/64 = r by omega,
      show (r%4*64+s)%64 = s by omega]
  | case6 => cases h

theorem standard_canonical {ε : Type*} (rejected : ε) : (standard rejected).Canonical := by
  intro text b h
  change (decodeChars text.toList).elim (Except.error rejected) Except.ok = Except.ok b at h
  cases hdecode : decodeChars text.toList with
  | none =>
    rw [hdecode] at h
    cases h
  | some content =>
    rw [hdecode] at h
    obtain rfl := Except.ok.inj h
    change text = String.ofList (encodeChars content)
    rw [← encodeChars_of_decodeChars hdecode,String.ofList_toList]

end Base64
end Avault.Foundation
