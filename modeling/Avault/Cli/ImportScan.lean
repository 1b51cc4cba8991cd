import Avault.Cli.ImportJson
import Avault.Foundation.Json

/-! On a JSON object, the scanner of the key import finds what the text says. -/
namespace Avault.Cli.ImportJson
open Foundation Foundation.JsonText

section Space

variable {input rest : Bytes} {index : ℕ} {byte : UInt8} {ws : List Char}

theorem skipJsonWs_step (h : At input index (byte::rest)) :
    skipJsonWs input index = if isJsonWs byte then skipJsonWs input (index + 1) else index := by
  rw [skipJsonWs,dif_pos h.length,h.getElem]

theorem jsonScalarEnd_step (h : At input index (byte::rest)) :
    jsonScalarEnd input index = if isScalarByte byte then jsonScalarEnd input (index + 1) else index := by
  rw [jsonScalarEnd,dif_pos h.length,h.getElem]

theorem isWs_byte {c : Char} (h : Json.isWs c = true) :
    String.utf8EncodeChar c = [ascii c] ∧ isJsonWs (ascii c) = true := by
  simp only [Json.isWs,Bool.or_eq_true,beq_iff_eq] at h
  obtain ((rfl | rfl) | rfl) | rfl := h <;> exact ⟨rfl,by decide⟩

/-- White space is skipped up to the next byte that is none. -/
theorem skipJsonWs_encode (hws : Json.Ws ws) (h : At input index (encode ws ++ byte::rest)) (hbyte : isJsonWs byte = false) :
    skipJsonWs input index = index + (encode ws).length := by
  induction ws generalizing index with
  | nil =>
    rw [skipJsonWs_step h,hbyte]
    rfl
  | cons c ws ih =>
    obtain ⟨hc,hws⟩ := List.forall_mem_cons.mp hws
    obtain ⟨hencode,hspace⟩ := isWs_byte hc
    rw [encode_cons,hencode] at h ⊢
    rw [skipJsonWs_step h,hspace,if_pos rfl,ih hws h.next,List.singleton_append,List.length_cons]
    omega

end Space

section Bytes

/-- A byte that stands for itself in a string. -/
def IsPlain (byte : UInt8) : Prop := byte ≠ ascii '"' ∧ byte ≠ ascii '\\' ∧ ¬ byte < 0x20

instance (byte : UInt8) : Decidable (IsPlain byte) := inferInstanceAs (Decidable (_ ∧ _))

variable {c e p q r s : Char} {v : ℕ}

theorem isPlain_encodeChar (hquote : c ≠ '"') (hback : c ≠ '\\') (hcontrol : 0x20 ≤ c.toNat) :
    ∀ byte ∈ String.utf8EncodeChar c, IsPlain byte := by
  intro byte hbyte
  refine ⟨?_,?_,fun hlt => ?_⟩
  · rintro rfl
    exact hquote (char_of_mem_encodeChar hbyte (by decide))
  · rintro rfl
    exact hback (char_of_mem_encodeChar hbyte (by decide))
  · have hlt : byte.toNat < 32 := UInt8.lt_iff_toNat_lt.mp hlt
    obtain ⟨-,heq⟩ | ⟨-,hle⟩ := mem_encodeChar hbyte <;> omega

theorem hexDigit_bound (h : hexDigit? c = some v) : c.toNat < 128 := by
  have hle {d : Char} (hcd : c ≤ d) : c.toNat ≤ d.toNat := UInt32.le_iff_toNat_le.mp hcd
  unfold hexDigit? at h
  split_ifs at h with hdigit hlower hupper
  · exact Nat.lt_of_le_of_lt (hle hdigit.2) (by decide)
  · exact Nat.lt_of_le_of_lt (hle hlower.2) (by decide)
  · exact Nat.lt_of_le_of_lt (hle hupper.2) (by decide)

theorem hexDigit_all : ∀ n < 128, (hexDigit? (Char.ofNat n)).all (fun v =>
    hexValue (ascii (Char.ofNat n)) = .ok v ∧ IsPlain (ascii (Char.ofNat n))) = true := by decide

/-- A digit of a `\u` escape is one byte, which the scanner reads as the same number. -/
theorem hexDigit_byte (h : hexDigit? c = some v) : String.utf8EncodeChar c = [ascii c] ∧ hexValue (ascii c) = .ok v ∧
    IsPlain (ascii c) := by
  have hlt := hexDigit_bound h
  have hall := hexDigit_all c.toNat hlt
  rw [Char.ofNat_toNat,h] at hall
  exact ⟨encodeChar_ascii hlt,of_decide_eq_true hall⟩

theorem shortEscape_cases (h : shortEscape? e = some c) : e ≠ 'u' ∧ String.utf8EncodeChar e = [ascii e] ∧
    shortEscape (ascii e) = some (ascii c) ∧ String.utf8EncodeChar c = [ascii c] := by
  unfold shortEscape? at h
  split at h
  all_goals first
    | (obtain rfl := Option.some.inj h; exact ⟨by decide,rfl,by decide,rfl⟩)
    | cases h

/-- The four digits of a unit, as bytes and as a number. -/
theorem codeUnit_bytes (h : codeUnit? p q r s = some v) :
    encode [p,q,r,s] = [ascii p,ascii q,ascii r,ascii s] ∧ (∀ byte ∈ encode [p,q,r,s], IsPlain byte) ∧
      ∀ input start rest, At input start (encode [p,q,r,s] ++ rest) → decodeHexQuad input start = .ok v := by
  simp only [codeUnit?,Option.bind_eq_bind,Option.bind_eq_some_iff] at h
  obtain ⟨a,ha,b,hb,c,hc,d,hd,hv⟩ := h
  obtain rfl := Option.some.inj hv
  obtain ⟨hp,hpv,hpp⟩ := hexDigit_byte ha
  obtain ⟨hq,hqv,hqp⟩ := hexDigit_byte hb
  obtain ⟨hr,hrv,hrp⟩ := hexDigit_byte hc
  obtain ⟨hs,hsv,hsp⟩ := hexDigit_byte hd
  have hencode : encode [p,q,r,s] = [ascii p,ascii q,ascii r,ascii s] := by
    simp only [encode_cons,encode_nil,hp,hq,hr,hs,List.cons_append,List.nil_append]
  refine ⟨hencode,?_,fun input start rest h => ?_⟩
  · rw [hencode]
    simp only [List.forall_mem_cons]
    exact ⟨hpp,hqp,hrp,hsp,fun _ h => (List.not_mem_nil h).elim⟩
  · rw [hencode] at h
    have hlen : start + 4 ≤ input.length := by
      have := congrArg List.length h
      rw [List.length_drop] at this
      simp only [List.length_append,List.length_cons,List.length_nil] at this
      omega
    have hrange : getRange input start 4 = some [ascii p,ascii q,ascii r,ascii s] := by
      rw [getRange,if_pos hlen,h]
      rfl
    simp only [decodeHexQuad,hrange,orError_some,ok_bind,List.foldlM_cons,List.foldlM_nil,hpv,hqv,hrv,hsv,pure_eq_ok]
    rw [Nat.zero_mul,Nat.zero_add]

end Bytes

section StringEnd

variable {input chunk rest : Bytes} {index : ℕ} {byte : UInt8} {c : Char} {text : List Char}

theorem jsonStringEndLoop_plain (hplain : ∀ byte ∈ chunk, IsPlain byte) (h : At input index (chunk ++ rest)) :
    jsonStringEndLoop input index = jsonStringEndLoop input (index + chunk.length) := by
  induction chunk generalizing index with
  | nil => rfl
  | cons byte chunk ih =>
    obtain ⟨⟨hquote,hback,hcontrol⟩,hrest⟩ := List.forall_mem_cons.mp hplain
    rw [jsonStringEndLoop,dif_pos h.length,h.getElem,if_neg hquote,if_neg hback,if_neg hcontrol,ih hrest h.next,
      List.length_cons]
    congr 1
    omega

theorem jsonStringEndLoop_escape (h : At input index (ascii '\\'::byte::rest)) :
    jsonStringEndLoop input index = jsonStringEndLoop input (index + 1 + 1) := by
  have hnext : input[index + 1]? ≠ none := by rw [h.next.getElem?]; exact Option.some_ne_none _
  rw [jsonStringEndLoop,dif_pos h.length,h.getElem,if_neg (by decide),if_pos rfl,if_neg hnext]

theorem jsonStringEndLoop_quote (h : At input index (ascii '"'::rest)) :
    jsonStringEndLoop input index = .ok ⟨index + 1,Nat.succ_pos _⟩ := by
  rw [jsonStringEndLoop,dif_pos h.length,h.getElem,if_pos rfl]

/-- An escape of a unit: the letter is passed, and the digits are plain. -/
theorem jsonStringEndLoop_unit {p q r s : Char} {v : ℕ} (hunit : codeUnit? p q r s = some v)
    (h : At input index (encode ['\\','u',p,q,r,s] ++ rest)) :
    jsonStringEndLoop input index = jsonStringEndLoop input (index + (encode ['\\','u',p,q,r,s]).length) := by
  obtain ⟨-,hplain,-⟩ := codeUnit_bytes hunit
  have hsplit : encode ['\\','u',p,q,r,s] = ascii '\\'::ascii 'u'::encode [p,q,r,s] := rfl
  rw [hsplit,List.cons_append,List.cons_append] at h
  rw [jsonStringEndLoop_escape h,jsonStringEndLoop_plain hplain h.next.next,hsplit]
  congr 1
  simp only [List.length_cons]
  omega

theorem jsonStringEndLoop_item (hitem : Item c text) (h : At input index (encode text ++ rest)) :
    jsonStringEndLoop input index = jsonStringEndLoop input (index + (encode text).length) := by
  cases hitem with
  | plain hquote hback hcontrol =>
    refine jsonStringEndLoop_plain (fun byte hbyte => ?_) h
    rw [encode_cons,encode_nil,List.append_nil] at hbyte
    exact isPlain_encodeChar hquote hback hcontrol byte hbyte
  | @short e hshort =>
    obtain ⟨-,he,-,-⟩ := shortEscape_cases hshort
    have hsplit : encode ['\\',e] = [ascii '\\',ascii e] := by rw [encode_cons,encode_cons,he]; rfl
    rw [hsplit] at h ⊢
    exact jsonStringEndLoop_escape h
  | unit hunit => exact jsonStringEndLoop_unit hunit h
  | @pair p q r s p' q' r' s' hi lo hhigh _ hlow _ _ =>
    have hsplit : encode ['\\','u',p,q,r,s,'\\','u',p',q',r',s'] =
        encode ['\\','u',p,q,r,s] ++ encode ['\\','u',p',q',r',s'] := by rw [← encode_append]; rfl
    rw [hsplit,List.append_assoc] at h
    rw [jsonStringEndLoop_unit hhigh h,jsonStringEndLoop_unit hlow h.step,hsplit,List.length_append,Nat.add_assoc]

theorem jsonStringEndLoop_items {value : List Char} (hitems : Sequence Item value text)
    (h : At input index (encode text ++ rest)) :
    jsonStringEndLoop input index = jsonStringEndLoop input (index + (encode text).length) := by
  induction hitems generalizing index with
  | nil => rfl
  | cons hitem _ ih =>
    rw [encode_append,List.append_assoc] at h
    rw [jsonStringEndLoop_item hitem h,ih h.step,encode_append,List.length_append,Nat.add_assoc]

/-- The end of a string is behind its closing quote. -/
theorem jsonStringEnd_literal {value : String} (hliteral : Literal value text) (h : At input index (encode text ++ rest)) :
    ∃ hpos, jsonStringEnd (input.drop index) = .ok ⟨(encode text).length,hpos⟩ := by
  obtain ⟨body,hitems,rfl⟩ := hliteral
  have hsplit : encode ('"'::(body ++ ['"'])) = ascii '"'::(encode body ++ [ascii '"']) := by
    rw [encode_cons,encode_append]
    rfl
  rw [hsplit] at h ⊢
  have hbody : At (input.drop index) 1 (encode body ++ ascii '"'::rest) := by
    apply At.drop
    rw [List.cons_append,List.append_assoc] at h
    exact h.next
  have hhead : (input.drop index).head? = some (ascii '"') := by
    rw [show input.drop index = _ from h]
    rfl
  refine ⟨Nat.succ_pos _,?_⟩
  rw [jsonStringEnd,bailIf_neg (not_not.mpr hhead),ok_bind,jsonStringEndLoop_items hitems hbody,
    jsonStringEndLoop_quote hbody.step]
  congr 2
  simp only [List.length_cons,List.length_append,List.length_nil]
  omega

end StringEnd

section Decode

variable {input chunk rest out pushed : Bytes} {index consumed : ℕ} {c : Char} {text : List Char}

theorem decodeJsonStringLoop_plain (hplain : ∀ byte ∈ chunk, IsPlain byte) (h : At input index (chunk ++ rest))
    (hsize : out.length + chunk.length ≤ maxStdinSecretBytes) :
    decodeJsonStringLoop input index out = decodeJsonStringLoop input (index + chunk.length) (out ++ chunk) := by
  induction chunk generalizing index out with
  | nil =>
    rw [List.append_nil]
    rfl
  | cons byte chunk ih =>
    obtain ⟨⟨hquote,hback,hcontrol⟩,hrest⟩ := List.forall_mem_cons.mp hplain
    rw [List.length_cons] at hsize
    have hroom : ¬ maxStdinSecretBytes < (out ++ [byte]).length := by
      rw [List.length_append,List.length_singleton]
      omega
    have hmore : (out ++ [byte]).length + chunk.length ≤ maxStdinSecretBytes := by
      rw [List.length_append,List.length_singleton]
      omega
    rw [decodeJsonStringLoop,dif_pos h.length,h.getElem,if_neg hquote,if_neg hback,if_neg hcontrol,bailIf_neg hroom,
      ok_bind,ih hrest h.next hmore,List.append_assoc,List.length_cons]
    congr 1
    omega

theorem decodeJsonStringLoop_escape (h : At input index (ascii '\\'::rest))
    (hescape : decodeJsonEscape input (index + 1) = .ok (pushed,consumed))
    (hsize : out.length + pushed.length ≤ maxStdinSecretBytes) :
    decodeJsonStringLoop input index out = decodeJsonStringLoop input (index + 1 + consumed + 1) (out ++ pushed) := by
  have hroom : ¬ maxStdinSecretBytes < (out ++ pushed).length := by
    rw [List.length_append]
    omega
  rw [decodeJsonStringLoop,dif_pos h.length,h.getElem,if_neg (by decide),if_pos rfl,hescape,ok_bind]
  simp only [bailIf_neg hroom,ok_bind]

theorem decodeJsonStringLoop_quote (h : At input index (ascii '"'::rest)) : decodeJsonStringLoop input index out = .ok out := by
  rw [decodeJsonStringLoop,dif_pos h.length,h.getElem,if_pos rfl]

theorem charFromU32_toNat (c : Char) : charFromU32 c.toNat = some c := by
  have hvalid : c.toNat.isValidChar := c.valid
  rw [charFromU32,dif_pos hvalid]
  exact congrArg some (Char.ext (UInt32.toNat_inj.mp rfl))

theorem decodeJsonUnicodeEscape_unit {p q r s : Char} {start : ℕ} (hunit : codeUnit? p q r s = some c.toNat)
    (h : At input start (encode [p,q,r,s] ++ rest)) : decodeJsonUnicodeEscape input start = .ok (c,4) := by
  obtain ⟨-,-,hquad⟩ := codeUnit_bytes hunit
  have hvalid : c.toNat < 0xd800 ∨ 0xdfff < c.toNat ∧ c.toNat < 0x110000 := c.valid
  rw [decodeJsonUnicodeEscape,hquad input start rest h,ok_bind,if_neg (by omega),if_neg (by omega),charFromU32_toNat]
  rfl

theorem decodeJsonUnicodeEscape_pair {p q r s p' q' r' s' : Char} {start hi lo : ℕ}
    (hhigh : codeUnit? p q r s = some (0xd800+hi)) (hhi : hi < 0x400)
    (hlow : codeUnit? p' q' r' s' = some (0xdc00+lo)) (hlo : lo < 0x400) (hvalue : c.toNat = 0x10000+hi*0x400+lo)
    (h : At input start (encode [p,q,r,s] ++ (ascii '\\'::ascii 'u'::(encode [p',q',r',s'] ++ rest)))) :
    decodeJsonUnicodeEscape input start = .ok (c,10) := by
  obtain ⟨hfour,-,hquad⟩ := codeUnit_bytes hhigh
  obtain ⟨-,-,hquad'⟩ := codeUnit_bytes hlow
  have hback : At input (start + 4) (ascii '\\'::ascii 'u'::(encode [p',q',r',s'] ++ rest)) := by
    have hstep := h.step
    rw [hfour] at hstep
    exact hstep
  have hscalar : 0x10000 + (0xd800 + hi - 0xd800)*1024 + (0xdc00 + lo - 0xdc00) = c.toNat := by omega
  have hescape : ¬ (input[start + 4]? ≠ some (ascii '\\') ∨ input[start + 5]? ≠ some (ascii 'u')) := by
    rw [hback.getElem?,hback.next.getElem?]
    simp
  rw [decodeJsonUnicodeEscape,hquad input start _ h,ok_bind,if_pos (by omega),bailIf_neg hescape,ok_bind,
    hquad' input (start + 6) rest hback.next.next,ok_bind,bailIf_neg (by omega),ok_bind]
  simp only [hscalar,charFromU32_toNat,orError_some,ok_bind,pure_eq_ok]

/-- The escape of a unicode scalar, behind its backslash. -/
theorem decodeJsonEscape_unicode (h : At input index (ascii 'u'::rest))
    (hunicode : decodeJsonUnicodeEscape input (index + 1) = .ok (c,consumed)) :
    decodeJsonEscape input index = .ok (String.utf8EncodeChar c,consumed) := by
  have hshort : shortEscape (ascii 'u') = none := by decide
  rw [decodeJsonEscape,h.getElem?,orError_some,ok_bind,hshort]
  simp only [if_true,hunicode,ok_bind,pure_eq_ok]

theorem encode_pair (p q r s p' q' r' s' : Char) : encode ['\\','u',p,q,r,s,'\\','u',p',q',r',s'] =
    ascii '\\'::ascii 'u'::(encode [p,q,r,s] ++ ascii '\\'::ascii 'u'::encode [p',q',r',s']) := by
  change encode (['\\','u'] ++ ([p,q,r,s] ++ (['\\','u'] ++ [p',q',r',s']))) = _
  rw [encode_append,encode_append,encode_append]
  rfl

theorem item_length (hitem : Item c text) : (String.utf8EncodeChar c).length ≤ (encode text).length := by
  have hsize := encodeChar_length c
  cases hitem with
  | plain => simp
  | short hshort =>
    obtain ⟨-,he,-,hc⟩ := shortEscape_cases hshort
    simp [he,hc]
  | @unit p q r s hunit =>
    obtain ⟨hfour,-,-⟩ := codeUnit_bytes hunit
    have hsplit : encode ['\\','u',p,q,r,s] = ascii '\\'::ascii 'u'::encode [p,q,r,s] := rfl
    rw [hsplit,hfour]
    exact hsize.trans (Nat.le_add_left _ _)
  | @pair p q r s p' q' r' s' _ _ hhigh _ _ _ _ =>
    obtain ⟨hfour,-,-⟩ := codeUnit_bytes hhigh
    rw [encode_pair,hfour]
    simp only [List.length_cons,List.length_append]
    omega

theorem decodeJsonStringLoop_item (hitem : Item c text) (h : At input index (encode text ++ rest))
    (hsize : out.length + (String.utf8EncodeChar c).length ≤ maxStdinSecretBytes) :
    decodeJsonStringLoop input index out =
      decodeJsonStringLoop input (index + (encode text).length) (out ++ String.utf8EncodeChar c) := by
  cases hitem with
  | plain hquote hback hcontrol =>
    rw [encode_cons,encode_nil,List.append_nil] at h ⊢
    exact decodeJsonStringLoop_plain (isPlain_encodeChar hquote hback hcontrol) h hsize
  | @short e hshort =>
    obtain ⟨-,he,hescape,hc⟩ := shortEscape_cases hshort
    have hsplit : encode ['\\',e] = [ascii '\\',ascii e] := by rw [encode_cons,encode_cons,he]; rfl
    rw [hsplit] at h ⊢
    have hnext : At input (index + 1) (ascii e::rest) := h.next
    have hdecode : decodeJsonEscape input (index + 1) = .ok ([ascii c],0) := by
      rw [decodeJsonEscape,hnext.getElem?,orError_some,ok_bind,hescape]
      rfl
    rw [hc] at hsize ⊢
    exact decodeJsonStringLoop_escape h hdecode hsize
  | @unit p q r s hunit =>
    obtain ⟨hfour,-,-⟩ := codeUnit_bytes hunit
    have hsplit : encode ['\\','u',p,q,r,s] = ascii '\\'::ascii 'u'::encode [p,q,r,s] := rfl
    rw [hsplit] at h ⊢
    have hdecode := decodeJsonEscape_unicode h.next (decodeJsonUnicodeEscape_unit hunit h.next.next)
    rw [decodeJsonStringLoop_escape h hdecode hsize,hfour]
    rfl
  | @pair p q r s p' q' r' s' hi lo hhigh hhi hlow hlo hvalue =>
    obtain ⟨hfour,-,-⟩ := codeUnit_bytes hhigh
    obtain ⟨hfour',-,-⟩ := codeUnit_bytes hlow
    rw [encode_pair,List.cons_append,List.cons_append,List.append_assoc,List.cons_append,List.cons_append] at h
    have hunicode := decodeJsonUnicodeEscape_pair hhigh hhi hlow hlo hvalue h.next.next
    rw [decodeJsonStringLoop_escape h (decodeJsonEscape_unicode h.next hunicode) hsize,encode_pair,hfour,hfour']
    rfl

theorem items_length {value : List Char} (hitems : Sequence Item value text) : (encode value).length ≤ (encode text).length := by
  induction hitems with
  | nil => exact Nat.le_refl _
  | cons hitem _ ih =>
    have hhead := item_length hitem
    simp only [encode_cons,encode_append,List.length_append]
    omega

theorem decodeJsonStringLoop_items {value : List Char} (hitems : Sequence Item value text)
    (h : At input index (encode text ++ rest)) (hsize : out.length + (encode value).length ≤ maxStdinSecretBytes) :
    decodeJsonStringLoop input index out =
      decodeJsonStringLoop input (index + (encode text).length) (out ++ encode value) := by
  induction hitems generalizing index out with
  | nil =>
    rw [encode_nil,List.append_nil]
    rfl
  | cons hitem _ ih =>
    rw [encode_append,List.append_assoc] at h
    rw [encode_cons,List.length_append] at hsize
    have hmore := hsize
    rw [← Nat.add_assoc,← List.length_append] at hmore
    rw [decodeJsonStringLoop_item hitem h (by omega),ih h.step hmore,encode_append,encode_cons,List.length_append,
      List.append_assoc,Nat.add_assoc]

/-- A string is decoded to the UTF-8 of what it denotes. -/
theorem decodeJsonStringBytes_literal {value : String} (hliteral : Literal value text)
    (h : At input index (encode text ++ rest)) (hsize : input.length ≤ maxStdinSecretBytes) :
    decodeJsonStringBytes (input.drop index) = .ok (utf8 value) := by
  obtain ⟨body,hitems,rfl⟩ := hliteral
  have hsplit : encode ('"'::(body ++ ['"'])) = ascii '"'::(encode body ++ [ascii '"']) := by
    rw [encode_cons,encode_append]
    rfl
  rw [hsplit,List.cons_append,List.append_assoc] at h
  have hbody : At (input.drop index) 1 (encode body ++ ascii '"'::rest) := At.drop h.next
  have hhead : (input.drop index).head? = some (ascii '"') := by
    rw [show input.drop index = _ from h]
    rfl
  have hlen : (encode value.toList).length ≤ maxStdinSecretBytes := by
    have hinput := congrArg List.length h
    simp only [List.length_drop,List.length_cons,List.length_append] at hinput
    have hvalue := items_length hitems
    omega
  rw [decodeJsonStringBytes,bailIf_neg (not_not.mpr hhead),ok_bind,decodeJsonStringLoop_items hitems hbody
    (by rw [List.length_nil,Nat.zero_add]; exact hlen),decodeJsonStringLoop_quote hbody.step]
  rfl

end Decode

section Compound

variable {input rest : Bytes} {index start : ℕ} {byte : UInt8} {stack : List UInt8} {text inner : List Char} {c : Char}

/-- A character that the brackets are found without. -/
def IsInert (c : Char) : Prop := c ∉ ['"','\x7b','[','\x7d',']']

instance : Decidable (IsInert c) := inferInstanceAs (Decidable (¬ c ∈ ['"','\x7b','[','\x7d',']']))

theorem inert_all (h : text.all (fun c => decide (IsInert c)) = true) : ∀ c ∈ text, IsInert c :=
  fun c hc => of_decide_eq_true (List.all_eq_true.mp h c hc)

theorem jsonCompoundEndLoop_inert (hc : IsInert c) (hbyte : byte ∈ String.utf8EncodeChar c) (h : At input index (byte::rest)) :
    jsonCompoundEndLoop input index stack = jsonCompoundEndLoop input (index + 1) stack := by
  have hne (d : Char) (hd : d ∈ ['"','\x7b','[','\x7d',']']) (hascii : d.toNat < 128) : byte ≠ ascii d := by
    rintro rfl
    exact hc (char_of_mem_encodeChar hbyte hascii ▸ hd)
  rw [jsonCompoundEndLoop,dif_pos h.length,h.getElem,if_neg (hne '"' (by decide) (by decide)),
    if_neg (not_or.mpr ⟨hne '\x7b' (by decide) (by decide),hne '[' (by decide) (by decide)⟩),
    if_neg (hne '\x7d' (by decide) (by decide)),if_neg (hne ']' (by decide) (by decide))]

theorem jsonCompoundEndLoop_open (hopen : byte = ascii '\x7b' ∨ byte = ascii '[') (h : At input index (byte::rest)) :
    jsonCompoundEndLoop input index stack = jsonCompoundEndLoop input (index + 1) (byte::stack) := by
  have hquote : byte ≠ ascii '"' := by obtain rfl | rfl := hopen <;> decide
  rw [jsonCompoundEndLoop,dif_pos h.length,h.getElem,if_neg hquote,if_pos hopen]

/-- An opening bracket and the closing one that matches it. -/
inductive Brackets : Char → Char → Prop
  | object : Brackets '\x7b' '\x7d'
  | array : Brackets '[' ']'

theorem jsonCompoundEndLoop_close {front back : Char} (hbrackets : Brackets front back) (h : At input index (ascii back::rest)) :
    jsonCompoundEndLoop input index (ascii front::stack) =
      if stack = [] then .ok (index + 1) else jsonCompoundEndLoop input (index + 1) stack := by
  cases hbrackets with
  | object =>
    rw [jsonCompoundEndLoop,dif_pos h.length,h.getElem,if_neg (by decide),if_neg (by decide),if_pos rfl,if_neg (by simp)]
    rfl
  | array =>
    rw [jsonCompoundEndLoop,dif_pos h.length,h.getElem,if_neg (by decide),if_neg (by decide),if_neg (by decide),if_pos rfl,
      if_neg (by simp)]
    rfl

/-- Inside of a bracket, the loop comes to the end of the text with the stack it had before. -/
def Passed (text : List Char) : Prop := ∀ input index rest stack, stack ≠ [] → At input index (encode text ++ rest) →
  jsonCompoundEndLoop input index stack = jsonCompoundEndLoop input (index + (encode text).length) stack

theorem Passed.append {a b : List Char} (ha : Passed a) (hb : Passed b) : Passed (a ++ b) := by
  intro input index rest stack hstack h
  rw [encode_append,List.append_assoc] at h
  rw [ha input index _ stack hstack h,hb input _ rest stack hstack h.step,encode_append,List.length_append,Nat.add_assoc]

theorem passed_inert (hinert : ∀ c ∈ text, IsInert c) : Passed text := by
  intro input index rest stack _ h
  suffices hbytes : ∀ (bytes : Bytes) index, (∀ byte ∈ bytes, ∃ c ∈ text, byte ∈ String.utf8EncodeChar c) →
      At input index (bytes ++ rest) →
      jsonCompoundEndLoop input index stack = jsonCompoundEndLoop input (index + bytes.length) stack from
    hbytes (encode text) index (fun byte hbyte => List.mem_flatMap.mp hbyte) h
  intro bytes
  induction bytes with
  | nil => exact fun _ _ _ => rfl
  | cons byte bytes ih =>
    intro index hmem h
    obtain ⟨⟨c,hc,hbyte⟩,hmem⟩ := List.forall_mem_cons.mp hmem
    rw [jsonCompoundEndLoop_inert (hinert c hc) hbyte h,ih (index + 1) hmem h.next,List.length_cons]
    congr 1
    omega

theorem passed_literal {value : String} (hliteral : Literal value text) : Passed text := by
  intro input index rest stack _ h
  obtain ⟨hpos,hend⟩ := jsonStringEnd_literal hliteral h
  obtain ⟨body,-,rfl⟩ := hliteral
  have hquote : At input index (ascii '"'::(encode (body ++ ['"']) ++ rest)) := h
  rw [jsonCompoundEndLoop,dif_pos hquote.length,hquote.getElem,if_pos rfl,hend]
  rfl

theorem Brackets.front_byte {front back : Char} (h : Brackets front back) :
    String.utf8EncodeChar front = [ascii front] ∧ (ascii front = ascii '\x7b' ∨ ascii front = ascii '[') := by
  cases h with
  | object => exact ⟨rfl,.inl rfl⟩
  | array => exact ⟨rfl,.inr rfl⟩

theorem encode_brackets {front back : Char} (h : Brackets front back) (inner : List Char) :
    encode (front::(inner ++ [back])) = ascii front::(encode inner ++ [ascii back]) := by
  cases h <;> rw [encode_cons,encode_append] <;> rfl

theorem passed_brackets {front back : Char} (hbrackets : Brackets front back) (hinner : Passed inner) :
    Passed (front::(inner ++ [back])) := by
  intro input index rest stack hstack h
  rw [encode_brackets hbrackets,List.cons_append,List.append_assoc] at h
  rw [jsonCompoundEndLoop_open hbrackets.front_byte.2 h,hinner input _ _ _ (List.cons_ne_nil _ _) h.next,
    jsonCompoundEndLoop_close hbrackets h.next.step,if_neg hstack,encode_brackets hbrackets]
  congr 1
  simp only [List.length_cons,List.length_append,List.length_nil]
  omega

theorem inert_ws (hws : Json.Ws text) : ∀ c ∈ text, IsInert c := by
  intro c hc
  have h := hws c hc
  simp only [Json.isWs,Bool.or_eq_true,beq_iff_eq] at h
  obtain ((rfl | rfl) | rfl) | rfl := h <;> unfold IsInert <;> decide

theorem isDigit_bound (hc : c.isDigit = true) : 48 ≤ c.toNat ∧ c.toNat < 58 := by
  obtain ⟨hlower,hupper⟩ := Char.isDigit_iff_toNat.mp hc
  exact ⟨hlower,Nat.lt_succ_of_le hupper⟩

theorem isDigit_byte (hc : c.isDigit = true) : c.toNat < 128 ∧ isAsciiDigit (ascii c) = true ∧ IsInert c := by
  have hall : ∀ n < 58, 48 ≤ n → isAsciiDigit (ascii (Char.ofNat n)) = true ∧
      Char.ofNat n ∉ ['"','\x7b','[','\x7d',']'] := by decide
  obtain ⟨hlower,hupper⟩ := isDigit_bound hc
  have hbyte := hall c.toNat hupper hlower
  rw [Char.ofNat_toNat] at hbyte
  exact ⟨by omega,hbyte⟩

/-- What a number is made of. -/
theorem number_chars (hnumber : Json.Number text) : ∀ c ∈ text, c.isDigit = true ∨ c ∈ ['-','+','.','e','E'] := by
  obtain ⟨⟨minus,int,frac,exp⟩,⟨hminus,hint,hfrac,hexp⟩,rfl⟩ := hnumber
  intro c hc
  rw [List.mem_append,List.mem_append,List.mem_append] at hc
  obtain hc | hc | hc | hc := hc
  · obtain rfl | rfl := hminus
    · exact (List.not_mem_nil hc).elim
    · obtain rfl := List.mem_singleton.mp hc
      exact .inr (by decide)
  · obtain rfl | ⟨⟨-,hdigits⟩,-⟩ := hint
    · obtain rfl := List.mem_singleton.mp hc
      exact .inl rfl
    · exact .inl (hdigits c hc)
  · obtain rfl | ⟨digits,⟨-,hdigits⟩,rfl⟩ := hfrac
    · exact (List.not_mem_nil hc).elim
    · obtain rfl | hc := List.mem_cons.mp hc
      · exact .inr (by decide)
      · exact .inl (hdigits c hc)
  · obtain rfl | ⟨e,sign,digits,he,hsign,⟨-,hdigits⟩,rfl⟩ := hexp
    · exact (List.not_mem_nil hc).elim
    · obtain rfl | hc := List.mem_cons.mp hc
      · obtain rfl | rfl := he <;> exact .inr (by decide)
      · obtain hc | hc := List.mem_append.mp hc
        · obtain rfl | rfl | rfl := hsign
          · exact (List.not_mem_nil hc).elim
          · obtain rfl := List.mem_singleton.mp hc
            exact .inr (by decide)
          · obtain rfl := List.mem_singleton.mp hc
            exact .inr (by decide)
        · exact .inl (hdigits c hc)

theorem number_byte (hc : c.isDigit = true ∨ c ∈ ['-','+','.','e','E']) :
    String.utf8EncodeChar c = [ascii c] ∧ isScalarByte (ascii c) = true ∧ IsInert c := by
  obtain hdigit | hc := hc
  · obtain ⟨hlt,hbyte,hinert⟩ := isDigit_byte hdigit
    refine ⟨encodeChar_ascii hlt,?_,hinert⟩
    simp [isScalarByte,hbyte]
  · simp only [List.mem_cons,List.not_mem_nil,or_false] at hc
    obtain rfl | rfl | rfl | rfl | rfl := hc <;> exact ⟨rfl,by decide,by unfold IsInert; decide⟩

theorem inert_word (hword : text ∈ ["true".toList,"false".toList,"null".toList]) : ∀ c ∈ text, IsInert c := by
  simp only [List.mem_cons,List.not_mem_nil,or_false] at hword
  obtain rfl | rfl | rfl := hword <;> exact inert_all (by decide)

theorem passed_padded {value : List Char} (hvalue : Passed value) (hpadded : Json.Padded value text) : Passed text := by
  obtain ⟨before,after,hbefore,hafter,rfl⟩ := hpadded
  exact (passed_inert (inert_ws hbefore)).append (hvalue.append (passed_inert (inert_ws hafter)))

theorem passed_member {name : String} {value : List Char} (hvalue : Passed value) (hmember : Json.Member name value text) :
    Passed text := by
  obtain ⟨literal,key,padded,hliteral,hkey,hpadded,rfl⟩ := hmember
  have hcolon : Passed [':'] := passed_inert (inert_all (by decide))
  exact (passed_padded (passed_literal hliteral) hkey).append (hcolon.append (passed_padded hvalue hpadded))

/-- By induction on the text: a bracket inside of it is closed before its end. -/
theorem passed_text {part : Json.Part} (h : Json.Text part text) : Passed text := by
  have hcomma : Passed [','] := passed_inert (inert_all (by decide))
  induction h with
  | word hword => exact passed_inert (inert_word hword)
  | number hnumber => exact passed_inert fun c hc => (number_byte (number_chars hnumber c hc)).2.2
  | string hliteral => exact passed_literal hliteral
  | emptyArray hws => exact passed_brackets .array (passed_inert (inert_ws hws))
  | array _ ih => exact passed_brackets .array ih
  | emptyObject hws => exact passed_brackets .object (passed_inert (inert_ws hws))
  | object _ ih => exact passed_brackets .object ih
  | item _ hpadded ih => exact passed_padded ih hpadded
  | items _ hpadded _ ih ihrest => exact (passed_padded ih hpadded).append (hcomma.append ihrest)
  | member _ hmember ih => exact passed_member ih hmember
  | members _ hmember _ ih ihrest => exact (passed_member ih hmember).append (hcomma.append ihrest)

end Compound

section Value

variable {input rest : Bytes} {index start : ℕ} {byte : UInt8} {text inner ws : List Char}

/-- Nothing stands here that would belong to a number in front of it. -/
def Stops (rest : Bytes) : Prop := ∀ byte ∈ rest.head?, isScalarByte byte = false

theorem stops_ws (hws : Json.Ws ws) (hbyte : isScalarByte byte = false) : Stops (encode ws ++ byte::rest) := by
  cases ws with
  | nil =>
    rintro b hb
    exact Option.some.inj hb ▸ hbyte
  | cons c ws =>
    have hc := hws c List.mem_cons_self
    simp only [Json.isWs,Bool.or_eq_true,beq_iff_eq] at hc
    rintro b hb
    obtain ((rfl | rfl) | rfl) | rfl := hc <;> exact Option.some.inj hb ▸ by decide

theorem jsonScalarEnd_encode (hscalar : ∀ c ∈ text, String.utf8EncodeChar c = [ascii c] ∧ isScalarByte (ascii c) = true)
    (h : At input index (encode text ++ rest)) (hstops : Stops rest) :
    jsonScalarEnd input index = index + (encode text).length := by
  induction text generalizing index with
  | nil =>
    cases rest with
    | nil =>
      have hend : ¬ index < input.length := not_lt.mpr (List.drop_eq_nil_iff.mp h)
      rw [jsonScalarEnd,dif_neg hend]
      rfl
    | cons byte rest =>
      rw [jsonScalarEnd_step h,hstops byte rfl]
      rfl
  | cons c text ih =>
    obtain ⟨⟨hencode,hbyte⟩,hscalar⟩ := List.forall_mem_cons.mp hscalar
    rw [encode_cons,hencode] at h ⊢
    rw [jsonScalarEnd_step h,hbyte,if_pos rfl,ih hscalar h.next,List.singleton_append,List.length_cons]
    omega

theorem jsonCompoundEnd_brackets {front back : Char} (hbrackets : Brackets front back) (hinner : Passed inner)
    (h : At input start (encode (front::(inner ++ [back])) ++ rest)) :
    jsonCompoundEnd input start = .ok (start + (encode (front::(inner ++ [back]))).length) := by
  rw [encode_brackets hbrackets,List.cons_append,List.append_assoc] at h
  rw [jsonCompoundEnd,h.getElem?]
  change jsonCompoundEndLoop input (start + 1) [ascii front] = _
  rw [hinner input _ _ _ (List.cons_ne_nil _ _) h.next,jsonCompoundEndLoop_close hbrackets h.next.step,if_pos rfl,
    encode_brackets hbrackets]
  congr 1
  simp only [List.length_cons,List.length_append,List.length_nil]
  omega

theorem jsonValueEnd_brackets {front back : Char} (hbrackets : Brackets front back) (hinner : Passed inner)
    (h : At input start (encode (front::(inner ++ [back])) ++ rest)) :
    jsonValueEnd input start = .ok (start + (encode (front::(inner ++ [back]))).length) := by
  have hend := jsonCompoundEnd_brackets hbrackets hinner h
  rw [encode_brackets hbrackets,List.cons_append,List.append_assoc] at h
  have hquote : ascii front ≠ ascii '"' := by cases hbrackets <;> decide
  rw [jsonValueEnd,h.getElem?,orError_some,ok_bind,if_neg hquote,if_pos hbrackets.front_byte.2,hend]

/-- A word of the grammar, by its first letter. -/
theorem jsonValueEnd_word (word : String) (hword : word ∈ ["true","false","null"])
    (h : At input start (encode word.toList ++ rest)) : jsonValueEnd input start = .ok (start + (encode word.toList).length) := by
  have hrange : getRange input start (encode word.toList).length = some (utf8 word) := by
    have hlen := congrArg List.length h
    rw [List.length_drop,List.length_append] at hlen
    have hpos : 0 < (encode word.toList).length := by
      simp only [List.mem_cons,List.not_mem_nil,or_false] at hword
      obtain rfl | rfl | rfl := hword <;> decide
    rw [getRange,if_pos (by omega),h,List.take_left]
    rfl
  simp only [List.mem_cons,List.not_mem_nil,or_false] at hword
  obtain rfl | rfl | rfl := hword
  · have hfirst : input[start]? = some (ascii 't') := At.getElem? h
    rw [jsonValueEnd,hfirst,orError_some,ok_bind,if_neg (by decide),if_neg (by decide),if_neg (by decide),if_pos ⟨rfl,hrange⟩]
    rfl
  · have hfirst : input[start]? = some (ascii 'f') := At.getElem? h
    rw [jsonValueEnd,hfirst,orError_some,ok_bind,if_neg (by decide),if_neg (by decide),if_neg (by decide),
      if_neg fun hother => absurd hother.1 (by decide),if_pos ⟨rfl,hrange⟩]
    rfl
  · have hfirst : input[start]? = some (ascii 'n') := At.getElem? h
    rw [jsonValueEnd,hfirst,orError_some,ok_bind,if_neg (by decide),if_neg (by decide),if_neg (by decide),
      if_neg fun hother => absurd hother.1 (by decide),if_neg fun hother => absurd hother.1 (by decide),if_pos ⟨rfl,hrange⟩]
    rfl

theorem number_first {c : Char} (hc : c = '-' ∨ c.isDigit = true) : c ≠ '"' ∧ c ≠ '\x7b' ∧ c ≠ '[' := by
  obtain rfl | hdigit := hc
  · decide
  · have hbound := isDigit_bound hdigit
    refine ⟨?_,?_,?_⟩ <;> rintro rfl <;> exact absurd hbound (by decide)

theorem jsonValueEnd_number (hnumber : Json.Number text) (h : At input start (encode text ++ rest)) (hstops : Stops rest) :
    jsonValueEnd input start = .ok (start + (encode text).length) := by
  have hend := jsonScalarEnd_encode (fun c hc => ⟨(number_byte (number_chars hnumber c hc)).1,
    (number_byte (number_chars hnumber c hc)).2.1⟩) h hstops
  obtain ⟨c,text,rfl,hc⟩ := hnumber.cons
  have hcase : c.isDigit = true ∨ c ∈ ['-','+','.','e','E'] := by
    obtain rfl | hdigit := hc
    · exact .inr (by decide)
    · exact .inl hdigit
  obtain ⟨hencode,-,-⟩ := number_byte hcase
  have hfirst : input[start]? = some (ascii c) := by
    rw [encode_cons,hencode] at h
    exact At.getElem? h
  have hne {d : Char} (hd : d.toNat < 128) (hcd : c ≠ d) : ascii c ≠ ascii d := by
    intro heq
    refine hcd (char_of_mem_encodeChar ?_ hd)
    rw [hencode,heq]
    exact List.mem_singleton_self _
  obtain ⟨hquote,hbrace,hbracket⟩ := number_first hc
  have hstart : ascii c = ascii '-' ∨ isAsciiDigit (ascii c) = true := by
    obtain rfl | hdigit := hc
    · exact .inl rfl
    · exact .inr (isDigit_byte hdigit).2.1
  rw [jsonValueEnd,hfirst,orError_some,ok_bind,if_neg (hne (by decide) hquote),
    if_neg (not_or.mpr ⟨hne (by decide) hbrace,hne (by decide) hbracket⟩),if_pos hstart,hend]
  rfl

/-- The end of a value, whatever it is. -/
theorem jsonValueEnd_text (htext : Json.Text .value text) (h : At input start (encode text ++ rest)) (hstops : Stops rest) :
    jsonValueEnd input start = .ok (start + (encode text).length) := by
  cases htext with
  | word hword =>
    simp only [List.mem_cons,List.not_mem_nil,or_false] at hword
    obtain rfl | rfl | rfl := hword
    · exact jsonValueEnd_word "true" (by decide) h
    · exact jsonValueEnd_word "false" (by decide) h
    · exact jsonValueEnd_word "null" (by decide) h
  | number hnumber => exact jsonValueEnd_number hnumber h hstops
  | string hliteral =>
    obtain ⟨hpos,hend⟩ := jsonStringEnd_literal hliteral h
    obtain ⟨body,-,rfl⟩ := hliteral
    have hfirst : input[start]? = some (ascii '"') := At.getElem? h
    rw [jsonValueEnd,hfirst,orError_some,ok_bind,if_pos rfl,hend]
    rfl
  | emptyArray hws => exact jsonValueEnd_brackets .array (passed_inert (inert_ws hws)) h
  | array hitems => exact jsonValueEnd_brackets .array (passed_text hitems) h
  | emptyObject hws => exact jsonValueEnd_brackets .object (passed_inert (inert_ws hws)) h
  | object hmembers => exact jsonValueEnd_brackets .object (passed_text hmembers) h

/-- A value begins with an ASCII character that is no white space. -/
theorem value_first (htext : Json.Text .value text) :
    ∃ c more, text = c::more ∧ String.utf8EncodeChar c = [ascii c] ∧ isJsonWs (ascii c) = false := by
  cases htext with
  | word hword =>
    simp only [List.mem_cons,List.not_mem_nil,or_false] at hword
    obtain rfl | rfl | rfl := hword <;> exact ⟨_,_,rfl,rfl,by decide⟩
  | number hnumber =>
    obtain ⟨c,more,rfl,hc⟩ := hnumber.cons
    refine ⟨c,more,rfl,?_⟩
    obtain rfl | hdigit := hc
    · exact ⟨rfl,by decide⟩
    · have hall : ∀ n < 58, 48 ≤ n → isJsonWs (ascii (Char.ofNat n)) = false := by decide
      obtain ⟨hlower,hupper⟩ := isDigit_bound hdigit
      have hws := hall c.toNat hupper hlower
      rw [Char.ofNat_toNat] at hws
      exact ⟨encodeChar_ascii (by omega),hws⟩
  | string hliteral =>
    obtain ⟨body,-,rfl⟩ := hliteral
    exact ⟨_,_,rfl,rfl,by decide⟩
  | emptyArray | array | emptyObject | object => exact ⟨_,_,rfl,rfl,by decide⟩

end Value
end Avault.Cli.ImportJson
