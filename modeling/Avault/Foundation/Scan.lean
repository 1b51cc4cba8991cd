import Avault.Foundation.Bytes

/-! Positions in a byte string, by what stands there, and the bytes of a text. -/
namespace Avault.Foundation

/-- The bytes from an index on. -/
def At (input : Bytes) (index : ℕ) (rest : Bytes) : Prop := input.drop index = rest

namespace At

variable {input a b rest : Bytes} {byte : UInt8} {index : ℕ}

theorem start (input : Bytes) : At input 0 input := rfl

theorem step (h : At input index (a ++ rest)) : At input (index + a.length) rest := by
  rw [At,← List.drop_drop,h]
  exact List.drop_left

theorem next (h : At input index (byte::rest)) : At input (index + 1) rest := step (a := [byte]) h

theorem length (h : At input index (byte::rest)) : index < input.length := by
  have hlen := congrArg List.length h
  rw [List.length_drop,List.length_cons] at hlen
  omega

theorem getElem (h : At input index (byte::rest)) (hlt : index < input.length) : input[index] = byte := by
  rw [At,List.drop_eq_getElem_cons hlt] at h
  exact (List.cons.inj h).1

theorem getElem? (h : At input index (byte::rest)) : input[index]? = some byte := by
  rw [List.getElem?_eq_getElem h.length,h.getElem h.length]

/-- The same position in the slice from another one on. -/
theorem drop {start : ℕ} (h : At input (start + index) rest) : At (input.drop start) index rest := by
  rw [At,List.drop_drop]
  exact h

end At

/-- The byte of an ASCII character. -/
def ascii (c : Char) : UInt8 := UInt8.ofNat c.toNat

/-- The UTF-8 encoding of characters. -/
def encode (text : List Char) : Bytes := text.flatMap String.utf8EncodeChar

@[simp] theorem encode_nil : encode [] = [] := rfl

@[simp] theorem encode_cons (c : Char) (text : List Char) : encode (c::text) = String.utf8EncodeChar c ++ encode text :=
  rfl

@[simp] theorem encode_append (a b : List Char) : encode (a ++ b) = encode a ++ encode b := List.flatMap_append

theorem encodeChar_ascii {c : Char} (h : c.toNat < 128) : String.utf8EncodeChar c = [ascii c] :=
  if_pos (Nat.le_of_lt_succ h)

theorem encode_replicate {c : Char} (h : c.toNat < 128) (n : ℕ) :
    encode (List.replicate n c) = List.replicate n (ascii c) := by
  induction n with
  | zero => rfl
  | succ n ih =>
    rw [List.replicate_succ,List.replicate_succ,encode_cons,encodeChar_ascii h,ih]
    rfl

theorem encodeChar_length (c : Char) : (String.utf8EncodeChar c).length ≤ 4 := by
  rw [String.length_utf8EncodeChar]
  exact c.utf8Size_le_four

/-- Every byte of ASCII is a character. -/
theorem exists_encodeChar {byte : UInt8} (h : byte < 128) : ∃ c, String.utf8EncodeChar c = [byte] := by
  have hlt : byte.toNat < 128 := UInt8.lt_iff_toNat_lt.mp h
  have hvalid : byte.toNat.isValidChar := .inl (by omega)
  refine ⟨Char.ofNatAux byte.toNat hvalid,?_⟩
  rw [encodeChar_ascii (c := Char.ofNatAux byte.toNat hvalid) hlt]
  exact congrArg (fun byte => [byte]) UInt8.ofNat_toNat

/-- A byte of a character is the character itself, or none of ASCII. -/
theorem mem_encodeChar {c : Char} {byte : UInt8} (h : byte ∈ String.utf8EncodeChar c) :
    (c.toNat < 128 ∧ byte.toNat = c.toNat) ∨ (128 ≤ c.toNat ∧ 128 ≤ byte.toNat) := by
  have hvalid : c.toNat < 0xd800 ∨ 0xdfff < c.toNat ∧ c.toNat < 0x110000 := c.valid
  unfold String.utf8EncodeChar at h
  change byte ∈ (if c.toNat ≤ 0x7f then _ else _) at h
  split at h
  · next hascii =>
    refine .inl ⟨Nat.lt_succ_of_le hascii,?_⟩
    rw [List.mem_singleton.mp h]
    exact UInt8.toNat_ofNat_of_lt' (show c.toNat < 256 by omega)
  · next hascii =>
    refine .inr ⟨by omega,?_⟩
    split at h
    · simp only [List.mem_cons,List.not_mem_nil,or_false] at h
      obtain rfl | rfl := h <;> rw [UInt8.toNat_ofNat_of_lt' (by change _ < 256; omega)] <;> omega
    · split at h
      · simp only [List.mem_cons,List.not_mem_nil,or_false] at h
        obtain rfl | rfl | rfl := h <;> rw [UInt8.toNat_ofNat_of_lt' (by change _ < 256; omega)] <;> omega
      · simp only [List.mem_cons,List.not_mem_nil,or_false] at h
        obtain rfl | rfl | rfl | rfl := h <;> rw [UInt8.toNat_ofNat_of_lt' (by change _ < 256; omega)] <;> omega

/-- An ASCII byte of a text is a character of it. -/
theorem char_of_mem_encodeChar {c d : Char} (h : ascii d ∈ String.utf8EncodeChar c) (hd : d.toNat < 128) : c = d := by
  have hbyte : (ascii d).toNat = d.toNat := UInt8.toNat_ofNat_of_lt' (by change _ < 256; omega)
  obtain ⟨-,heq⟩ | ⟨-,hle⟩ := mem_encodeChar h
  · exact Char.ext (UInt32.toNat_inj.mp (heq.symm.trans hbyte))
  · omega

end Avault.Foundation
