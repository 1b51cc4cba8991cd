import Avault.Foundation.Bytes

/-! The constants and fixed-size byte arrays shared by the envelope and the blind box. -/
namespace Avault.Crypto
open Foundation

/-- AES-256 key length. -/
def keyBytes : ℕ := 32

/-- AES-GCM nonce length. -/
def nonceBytes : ℕ := 12

def wrapScheme : String := "machine-aesgcm-v1"
def wrapMetaVersion : UInt8 := 1

abbrev Key := Vector UInt8 keyBytes
abbrev Nonce := Vector UInt8 nonceBytes

/-- `try_into` of a slice: only a slice of exactly `n` bytes is an array of `n` bytes. -/
def toArray? (n : ℕ) (raw : Bytes) : Option (Vector UInt8 n) :=
  if h : raw.length = n then some ⟨raw.toArray,h⟩ else none

theorem toArray?_eq_some {n : ℕ} {raw : Bytes} {v : Vector UInt8 n} :
    toArray? n raw = some v ↔ raw = v.toList := by
  unfold toArray?
  constructor
  · intro h
    split at h
    · obtain rfl := Option.some.inj h
      rfl
    · cases h
  · rintro rfl
    rw [dif_pos v.length_toList]
    rfl

@[simp] theorem toArray?_toList {n : ℕ} (v : Vector UInt8 n) : toArray? n v.toList = some v :=
  toArray?_eq_some.mpr rfl

/-- `to_be_bytes` of a `u64`. -/
def toBeBytes (v : UInt64) : Bytes := bigEndian 8 v.toNat

theorem toBeBytes_injective : Function.Injective toBeBytes := by
  intro v w h
  have hv : v.toNat < 256^8 := v.toNat_lt
  have hw : w.toNat < 256^8 := w.toNat_lt
  exact UInt64.toNat_inj.mp (bigEndian_injOn hv hw h)

@[simp] theorem toBeBytes_inj {v w : UInt64} : toBeBytes v = toBeBytes w ↔ v = w :=
  toBeBytes_injective.eq_iff

@[simp] theorem toBeBytes_length (v : UInt64) : (toBeBytes v).length = 8 := bigEndian_length 8 _

end Avault.Crypto
