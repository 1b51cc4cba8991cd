import Avault.Foundation.Bytes

/-! Hexadecimal text. -/
namespace Avault.Foundation.Hex

/-- A digit of either case. -/
def value (b : UInt8) : Option UInt8 :=
  if 0x30 ≤ b ∧ b ≤ 0x39 then some (b-0x30)
  else if 0x41 ≤ b ∧ b ≤ 0x46 then some (b-0x37)
  else if 0x61 ≤ b ∧ b ≤ 0x66 then some (b-0x57)
  else none

def decode : Bytes → Option Bytes
  | [] => some []
  | [_] => none
  | high::low::rest => do
    let high ← value high
    let low ← value low
    let rest ← decode rest
    return (high*16+low)::rest

def digit (n : UInt8) : Char := "0123456789abcdef".toList.getD n.toNat '0'

def encodeByte (b : UInt8) : List Char := [digit (b >>> 4),digit (b &&& 0x0f)]

/-- In lower case. -/
def encode (bytes : Bytes) : String := String.ofList (bytes.flatMap encodeByte)

theorem forall_byte {P : UInt8 → Prop} (h : ∀ n < 256, P (UInt8.ofNat n)) (b : UInt8) : P b := by
  rw [← UInt8.ofNat_toNat (x := b)]
  exact h b.toNat b.toNat_lt

/-- The bytes of the two digits of a byte. -/
def digitBytes (b : UInt8) : UInt8 × UInt8 := ((digit (b >>> 4)).toUInt8,(digit (b &&& 0x0f)).toUInt8)

theorem utf8_encodeByte (b : UInt8) :
    (encodeByte b).flatMap String.utf8EncodeChar = [(digitBytes b).1,(digitBytes b).2] :=
  forall_byte (P := fun b => (encodeByte b).flatMap String.utf8EncodeChar =
    [(digitBytes b).1,(digitBytes b).2]) (by decide +kernel) b

theorem value_digitBytes (b : UInt8) : (do
    let high ← value (digitBytes b).1
    let low ← value (digitBytes b).2
    return high*16+low) = some b :=
  forall_byte (P := fun b => (do
    let high ← value (digitBytes b).1
    let low ← value (digitBytes b).2
    return high*16+low) = some b) (by decide +kernel) b

theorem decode_encode (bytes : Bytes) : decode (utf8 (encode bytes)) = some bytes := by
  rw [utf8,encode,String.toList_ofList,List.flatMap_assoc]
  simp only [utf8_encodeByte]
  induction bytes with
  | nil => rfl
  | cons b bytes ih =>
    obtain ⟨high,hhigh,hvalue⟩ := Option.bind_eq_some_iff.mp (value_digitBytes b)
    obtain ⟨low,hlow,heq⟩ := Option.bind_eq_some_iff.mp hvalue
    rw [List.flatMap_cons,List.cons_append,List.cons_append,List.nil_append,decode,hhigh,hlow,ih]
    exact congrArg (fun b => some (b::bytes)) (Option.some.inj heq)

theorem encode_injective : Function.Injective encode := by
  intro a b h
  have hdecode := congrArg (fun text => decode (utf8 text)) h
  simpa only [decode_encode,Option.some.injEq] using hdecode

@[simp] theorem encode_inj {a b : Bytes} : encode a = encode b ↔ a = b := encode_injective.eq_iff

/-- The two cases of a letter are the same digit. -/
theorem value_toLower (c : Char) : (String.utf8EncodeChar c.toLower).map value =
    (String.utf8EncodeChar c).map value := by
  by_cases hc : c.val ≥ 'A'.val ∧ c.val ≤ 'Z'.val
  · have hlow : 65 ≤ c.toNat := hc.1
    have hhigh : c.toNat ≤ 90 := hc.2
    have hcode (n : ℕ) (hn : n < 91) (hn' : 65 ≤ n) :
        (String.utf8EncodeChar (Char.ofNat n).toLower).map value =
          (String.utf8EncodeChar (Char.ofNat n)).map value := by
      revert n
      decide +kernel
    have hn := hcode c.toNat (Nat.lt_succ_of_le hhigh) hlow
    rwa [Char.ofNat_toNat] at hn
  · have hsame : c.toLower = c := dif_neg hc
    rw [hsame]

theorem decode_congr {a b : Bytes} (h : a.map value = b.map value) : decode a = decode b := by
  induction a using decode.induct generalizing b with
  | case1 => rw [List.map_eq_nil_iff.mp h.symm]
  | case2 x =>
    obtain ⟨y,rfl,_⟩ := List.map_eq_singleton_iff.mp h.symm
    rfl
  | case3 high low rest ih =>
    obtain ⟨high',b,rfl,hhigh,h⟩ := List.map_eq_cons_iff.mp h.symm
    obtain ⟨low',rest',rfl,hlow,hrest⟩ := List.map_eq_cons_iff.mp h
    rw [decode,decode,hhigh,hlow,ih hrest.symm]

/-- The case of the digits makes no difference. -/
theorem map_value_ignoreCase {s t : String} (h : s.toList.map Char.toLower = t.toList.map Char.toLower) :
    (utf8 s).map value = (utf8 t).map value := by
  have hlower (s : String) :
      (utf8 s).map value = ((s.toList.map Char.toLower).flatMap String.utf8EncodeChar).map value := by
    rw [utf8,List.map_flatMap,List.map_flatMap,List.flatMap_map]
    simp only [value_toLower]
  rw [hlower s,hlower t,h]

end Avault.Foundation.Hex
