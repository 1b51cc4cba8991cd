import Avault.Foundation.PrefixFree
import Mathlib.Data.List.Induction
import Mathlib.Tactic.Ring
import Mathlib.Data.Nat.Notation

/-! Byte strings: UTF-8 text, fixed-width big-endian integers, length-prefixed fields. -/
namespace Avault.Foundation

abbrev Bytes := List UInt8

/-- The UTF-8 encoding of a text. -/
def utf8 (s : String) : Bytes := s.toList.flatMap String.utf8EncodeChar

/-- Strict decoding: `none` on any byte string that is not well-formed UTF-8. -/
def fromUtf8 (b : Bytes) : Option String := String.fromUTF8? b.toByteArray

theorem utf8_toByteArray (s : String) : (utf8 s).toByteArray = s.toByteArray := by
  have h := String.toByteArray_ofList (l := s.toList)
  simpa [utf8,List.utf8Encode] using h.symm

theorem utf8_injective : Function.Injective utf8 := by
  intro s t h
  apply String.toByteArray_inj.mp
  rw [← utf8_toByteArray,← utf8_toByteArray,h]

@[simp] theorem utf8_inj {s t : String} : utf8 s = utf8 t ↔ s = t := utf8_injective.eq_iff

@[simp] theorem utf8_append (s t : String) : utf8 (s ++ t) = utf8 s ++ utf8 t := by
  simp [utf8,String.toList_append]

@[simp] theorem utf8_eq_nil {s : String} : utf8 s = [] ↔ s = "" := by
  rw [show ([] : Bytes) = utf8 "" from rfl,utf8_inj]

theorem fromUtf8_eq_some {b : Bytes} {s : String} : fromUtf8 b = some s ↔ b = utf8 s := by
  unfold fromUtf8 String.fromUTF8?
  constructor
  · intro h
    split at h
    · obtain rfl := Option.some.inj h
      apply List.toByteArray_inj.mp
      rw [utf8_toByteArray]
      rfl
    · cases h
  · rintro rfl
    simp only [utf8_toByteArray]
    rw [dif_pos s.isValidUTF8]
    rfl

@[simp] theorem fromUtf8_utf8 (s : String) : fromUtf8 (utf8 s) = some s :=
  fromUtf8_eq_some.mpr rfl

/-- The `n` low-order base-256 digits of `v`, most significant first. -/
def bigEndian : ℕ → ℕ → Bytes
  | 0, _ => []
  | n+1, v => bigEndian n (v/256) ++ [UInt8.ofNat (v%256)]

def readBigEndian (b : Bytes) : ℕ := b.foldl (fun acc d => acc*256+d.toNat) 0

@[simp] theorem bigEndian_length (n v : ℕ) : (bigEndian n v).length = n := by
  induction n generalizing v with
  | zero => rfl
  | succ n ih => simp [bigEndian,ih]

theorem readBigEndian_bigEndian {n v : ℕ} (h : v < 256^n) : readBigEndian (bigEndian n v) = v := by
  induction n generalizing v with
  | zero => simp_all [bigEndian,readBigEndian]
  | succ n ih =>
    have hdiv : v/256 < 256^n := by
      rw [Nat.div_lt_iff_lt_mul (by decide),← pow_succ]
      exact h
    have hread := ih hdiv
    unfold readBigEndian at hread ⊢
    simp only [bigEndian,List.foldl_append,hread,List.foldl_cons,List.foldl_nil,
      UInt8.toNat_ofNat']
    omega

theorem bigEndian_injOn {n v w : ℕ} (hv : v < 256^n) (hw : w < 256^n)
    (h : bigEndian n v = bigEndian n w) : v = w := by
  rw [← readBigEndian_bigEndian hv,h,readBigEndian_bigEndian hw]

theorem readBigEndian_concat (b : Bytes) (d : UInt8) :
    readBigEndian (b ++ [d]) = readBigEndian b*256 + d.toNat := by
  rw [readBigEndian,List.foldl_append]
  rfl

theorem readBigEndian_lt (b : Bytes) : readBigEndian b < 256^b.length := by
  induction b using List.reverseRecOn with
  | nil => decide
  | append_singleton b d ih =>
    have hd := d.toNat_lt
    rw [readBigEndian_concat,List.length_append,List.length_singleton,pow_succ]
    omega

/-- Every word of `n` bytes is the number it is read as. -/
theorem bigEndian_readBigEndian (b : Bytes) : bigEndian b.length (readBigEndian b) = b := by
  induction b using List.reverseRecOn with
  | nil => rfl
  | append_singleton b d ih =>
    have hd := d.toNat_lt
    rw [readBigEndian_concat,List.length_append,List.length_singleton,bigEndian,
      show (readBigEndian b*256 + d.toNat)/256 = readBigEndian b by omega,ih,
      show (readBigEndian b*256 + d.toNat)%256 = d.toNat by omega,UInt8.ofNat_toNat]

/-- A field preceded by its own length in `n` bytes. -/
def field (n : ℕ) (value : Bytes) : Bytes := bigEndian n value.length ++ value

def fields (n : ℕ) (values : List Bytes) : Bytes := values.flatMap (field n)

/-- The fields whose length fits the prefix are a code. -/
def IsField (n : ℕ) (value word : Bytes) : Prop := value.length < 256^n ∧ word = field n value

theorem isField_prefixFree (n : ℕ) : PrefixFree (IsField n) := by
  rintro v w _ _ r s ⟨hv,rfl⟩ ⟨hw,rfl⟩ h
  simp only [field,List.append_assoc] at h ⊢
  obtain ⟨hlen,hrest⟩ := List.append_inj h (by simp)
  have hsize := bigEndian_injOn hv hw hlen
  obtain ⟨rfl,rfl⟩ := List.append_inj hrest hsize
  exact ⟨rfl,rfl,rfl⟩

theorem isField_ne_nil {n : ℕ} (hn : 0 < n) (v : Bytes) : ¬ IsField n v [] := by
  rintro ⟨_,h⟩
  have hlen := congrArg List.length h
  simp only [field,List.length_nil,List.length_append,bigEndian_length] at hlen
  omega

theorem fields_sequence {n : ℕ} {values : List Bytes} (h : ∀ v ∈ values, v.length < 256^n) :
    Sequence (IsField n) values (fields n values) := by
  induction values with
  | nil => exact .nil
  | cons v vs ih =>
    have hv : IsField n v (field n v) := ⟨h v (by simp),rfl⟩
    exact .cons hv (ih fun w hw => h w (by simp [hw]))

/-- Field lists of any two lengths: no field can be mistaken for the prefix of another. -/
theorem fields_injOn {n : ℕ} (hn : 0 < n) {vs ws : List Bytes}
    (hvs : ∀ v ∈ vs, v.length < 256^n) (hws : ∀ w ∈ ws, w.length < 256^n)
    (h : fields n vs = fields n ws) : vs = ws :=
  (isField_prefixFree n).sequence_injective (isField_ne_nil hn) (fields_sequence hvs)
    (h ▸ fields_sequence hws)

/-! What a read may take from a stream of bytes. -/

/-- A read into a buffer takes some of the stream, and nothing only at its end. -/
structure Takes (room : ℕ) (stream chunk rest : Bytes) : Prop where
  split : stream = chunk ++ rest
  fits : chunk.length ≤ room
  ended : chunk = [] → 0 < room → stream = []

namespace Takes

variable {room : ℕ} {stream chunk rest : Bytes}

theorem exists_chunk (room : ℕ) (stream : Bytes) : ∃ chunk rest, Takes room stream chunk rest := by
  cases room with
  | zero => exact ⟨[],stream,rfl,Nat.le_refl _,fun _ h => absurd h (Nat.lt_irrefl 0)⟩
  | succ room =>
    cases stream with
    | nil => exact ⟨[],[],rfl,Nat.zero_le _,fun _ _ => rfl⟩
    | cons byte rest => exact ⟨[byte],rest,rfl,Nat.succ_le_succ (Nat.zero_le _),fun h => by cases h⟩

theorem nil_iff (hroom : 0 < room) : Takes room stream [] rest ↔ stream = [] ∧ rest = [] := by
  constructor
  · intro h
    have hstream := h.ended rfl hroom
    exact ⟨hstream,h.split.symm.trans hstream⟩
  · rintro ⟨rfl,rfl⟩
    exact ⟨rfl,Nat.zero_le _,fun _ _ => rfl⟩

/-- A read of one byte takes the next one. -/
theorem one (h : Takes 1 stream chunk rest) :
    (chunk = [] ∧ stream = [] ∧ rest = []) ∨ ∃ byte, chunk = [byte] ∧ stream = byte::rest := by
  obtain ⟨hsplit,hfits,hended⟩ := h
  cases chunk with
  | nil =>
    obtain rfl := hended rfl Nat.one_pos
    exact .inl ⟨rfl,rfl,hsplit.symm⟩
  | cons byte chunk =>
    obtain rfl := List.length_eq_zero_iff.mp (Nat.le_zero.mp (Nat.le_of_succ_le_succ hfits))
    exact .inr ⟨byte,rfl,hsplit⟩

end Takes

end Avault.Foundation
