import Avault.Cli.ImportChecked
import Avault.Cli.ImportScan

/-! Where the scanner of a key import may stop, on any bytes. -/
namespace Avault.Cli.ImportJson
open Foundation

variable {input out pushed : Bytes} {index start consumed : ℕ} {stack : List UInt8}

theorem skipJsonWs_bounds (h : index ≤ input.length) :
    index ≤ skipJsonWs input index ∧ skipJsonWs input index ≤ input.length := by
  fun_induction skipJsonWs input index with
  | case1 index hlt _ ih =>
    obtain ⟨hlow,hhigh⟩ := ih hlt
    exact ⟨by omega,hhigh⟩
  | case2 | case3 => exact ⟨Nat.le_refl _,h⟩

theorem jsonScalarEnd_bounds (h : index ≤ input.length) :
    index ≤ jsonScalarEnd input index ∧ jsonScalarEnd input index ≤ input.length := by
  fun_induction jsonScalarEnd input index with
  | case1 index hlt _ ih =>
    obtain ⟨hlow,hhigh⟩ := ih hlt
    exact ⟨by omega,hhigh⟩
  | case2 | case3 => exact ⟨Nat.le_refl _,h⟩

theorem getRange_eq_some {length : ℕ} {bytes : Bytes} (h : getRange input start length = some bytes) :
    start + length ≤ input.length ∧ bytes = (input.drop start).take length := by
  unfold getRange at h
  split at h
  · next hle => exact ⟨hle,(Option.some.inj h).symm⟩
  · cases h

/-- A string ends behind its start and within the input. -/
theorem jsonStringEndLoop_bounds {stop : {n : ℕ // 0 < n}} (h : jsonStringEndLoop input index = .ok stop) :
    index < stop.val ∧ stop.val ≤ input.length := by
  fun_induction jsonStringEndLoop input index with
  | case1 index hlt _ =>
    obtain rfl := Except.ok.inj h
    exact ⟨Nat.lt_succ_self _,hlt⟩
  | case3 index _ _ _ _ ih | case5 index _ _ _ _ ih =>
    obtain ⟨hlow,hhigh⟩ := ih h
    exact ⟨by omega,hhigh⟩
  | case2 | case4 | case6 => cases h

theorem jsonStringEnd_bounds {stop : {n : ℕ // 0 < n}} (h : jsonStringEnd input = .ok stop) :
    1 < stop.val ∧ stop.val ≤ input.length := by
  obtain ⟨_,-,h⟩ := bind_eq_ok.mp h
  exact jsonStringEndLoop_bounds h

theorem jsonCompoundEndLoop_bounds {stop : ℕ} (h : jsonCompoundEndLoop input index stack = .ok stop) :
    index < stop ∧ stop ≤ input.length := by
  fun_induction jsonCompoundEndLoop input index stack with
  | case1 index stack hlt hquote ih =>
    obtain ⟨stringEnd,-,hrest⟩ := bind_eq_ok.mp h
    obtain ⟨hlow,hhigh⟩ := ih stringEnd hrest
    have hpos := stringEnd.property
    exact ⟨by omega,hhigh⟩
  | case2 index _ _ _ _ ih | case5 index _ _ _ _ _ _ _ ih | case8 index _ _ _ _ _ _ _ _ ih | case9 index _ _ _ _ _ _ ih =>
    obtain ⟨hlow,hhigh⟩ := ih h
    exact ⟨by omega,hhigh⟩
  | case4 index _ hlt | case7 index _ hlt =>
    obtain rfl := Except.ok.inj h
    exact ⟨Nat.lt_succ_self _,hlt⟩
  | case3 | case6 | case10 => cases h

theorem jsonCompoundEnd_bounds {stop : ℕ} (h : jsonCompoundEnd input start = .ok stop) : start < stop ∧ stop ≤ input.length := by
  obtain ⟨hlow,hhigh⟩ := jsonCompoundEndLoop_bounds h
  exact ⟨by omega,hhigh⟩

/-- The end of a value is behind its start and within the input. -/
theorem jsonValueEnd_bounds {stop : ℕ} (h : jsonValueEnd input start = .ok stop) : start < stop ∧ stop ≤ input.length := by
  obtain ⟨byte,hbyte,h⟩ := bind_eq_ok.mp h
  obtain ⟨hlt,hget⟩ := List.getElem?_eq_some_iff.mp (orError_eq_ok.mp hbyte)
  split at h
  · obtain ⟨stringEnd,hend,h⟩ := bind_eq_ok.mp h
    obtain ⟨hlow,hhigh⟩ := jsonStringEnd_bounds hend
    obtain rfl := Except.ok.inj h
    rw [List.length_drop] at hhigh
    omega
  · split at h
    · exact jsonCompoundEnd_bounds h
    · split at h
      · next hscalar =>
        obtain rfl := Except.ok.inj h
        have hbyte : isScalarByte input[start] = true := by
          rw [hget]
          obtain rfl | hdigit := hscalar
          · rfl
          · exact decide_eq_true (.inr (.inr (.inr (.inl hdigit))))
        rw [jsonScalarEnd,dif_pos hlt,if_pos hbyte]
        exact jsonScalarEnd_bounds hlt
      · split at h
        · next hword => 
          obtain rfl := Except.ok.inj h
          have hlength := (getRange_eq_some hword.2).1
          omega
        · split at h
          · next hword =>
            obtain rfl := Except.ok.inj h
            have hlength := (getRange_eq_some hword.2).1
            omega
          · split at h
            · next hword =>
              obtain rfl := Except.ok.inj h
              have hlength := (getRange_eq_some hword.2).1
              omega
            · cases h

/-! Decoding a string and looking for its end stop at the same quote. -/

theorem hexValue_ok {byte : UInt8} {v : ℕ} (h : hexValue byte = .ok v) :
    (48 ≤ byte.toNat ∧ byte.toNat ≤ 57 ∧ v = byte.toNat - 48) ∨ (97 ≤ byte.toNat ∧ byte.toNat ≤ 102 ∧ v = byte.toNat - 97 + 10) ∨
      65 ≤ byte.toNat ∧ byte.toNat ≤ 70 ∧ v = byte.toNat - 65 + 10 := by
  unfold hexValue at h
  split at h
  · next hdigit =>
    obtain ⟨hlow,hhigh⟩ := of_decide_eq_true hdigit
    exact .inl ⟨UInt8.le_iff_toNat_le.mp hlow,UInt8.le_iff_toNat_le.mp hhigh,(Except.ok.inj h).symm⟩
  · split at h
    · next hlower =>
      exact .inr (.inl ⟨UInt8.le_iff_toNat_le.mp hlower.1,UInt8.le_iff_toNat_le.mp hlower.2,(Except.ok.inj h).symm⟩)
    · split at h
      · next hupper =>
        exact .inr (.inr ⟨UInt8.le_iff_toNat_le.mp hupper.1,UInt8.le_iff_toNat_le.mp hupper.2,(Except.ok.inj h).symm⟩)
      · exact (bail_ne_ok h).elim

theorem hexValue_lt {byte : UInt8} {v : ℕ} (h : hexValue byte = .ok v) : v < 16 := by
  obtain h | h | h := hexValue_ok h <;> omega

theorem hexValue_plain {byte : UInt8} {v : ℕ} (h : hexValue byte = .ok v) : IsPlain byte := by
  have hrange := hexValue_ok h
  refine ⟨?_,?_,fun hlt => ?_⟩
  · rintro rfl
    have hquote : (ascii '"').toNat = 34 := by decide
    omega
  · rintro rfl
    have hback : (ascii '\\').toNat = 92 := by decide
    omega
  · have hlt : byte.toNat < 32 := UInt8.lt_iff_toNat_lt.mp hlt
    omega

theorem hexDigits_ok {bytes : Bytes} {value v : ℕ}
    (h : bytes.foldlM (fun value byte => do return value*16 + (← hexValue byte)) value = (.ok v : Result ℕ)) :
    ∀ byte ∈ bytes, IsPlain byte := by
  induction bytes generalizing value with
  | nil => exact List.forall_mem_nil _
  | cons byte bytes ih =>
    rw [List.foldlM_cons] at h
    obtain ⟨next,hnext,hrest⟩ := bind_eq_ok.mp h
    obtain ⟨digit,hdigit,-⟩ := bind_eq_ok.mp hnext
    exact List.forall_mem_cons.mpr ⟨hexValue_plain hdigit,ih hrest⟩

/-- Four digits are read within the input, and passed over by who looks for a quote. -/
theorem decodeHexQuad_ok {v : ℕ} (h : decodeHexQuad input start = .ok v) :
    start + 4 ≤ input.length ∧ jsonStringEndLoop input start = jsonStringEndLoop input (start + 4) := by
  obtain ⟨bytes,hbytes,hdigits⟩ := bind_eq_ok.mp h
  obtain ⟨hlength,rfl⟩ := getRange_eq_some (orError_eq_ok.mp hbytes)
  have hat : At input start ((input.drop start).take 4 ++ (input.drop start).drop 4) := (List.take_append_drop _ _).symm
  have hfour : ((input.drop start).take 4).length = 4 := by
    rw [List.length_take,List.length_drop]
    omega
  refine ⟨hlength,?_⟩
  rw [jsonStringEndLoop_plain (hexDigits_ok hdigits) hat,hfour]

/-- An escape in front of the index, with what follows its backslash. -/
theorem jsonStringEndLoop_backslash (hback : input[index]? = some (ascii '\\')) (hnext : input[index + 1]? ≠ none) :
    jsonStringEndLoop input index = jsonStringEndLoop input (index + 2) := by
  obtain ⟨hlt,hget⟩ := List.getElem?_eq_some_iff.mp hback
  rw [jsonStringEndLoop,dif_pos hlt,hget,if_neg (by decide),if_pos rfl,if_neg hnext]

theorem decodeJsonUnicodeEscape_ok {scalar : Char} (h : decodeJsonUnicodeEscape input start = .ok (scalar,consumed)) :
    4 ≤ consumed ∧ start + consumed ≤ input.length ∧
      jsonStringEndLoop input start = jsonStringEndLoop input (start + consumed) := by
  obtain ⟨first,hfirst,h⟩ := bind_eq_ok.mp h
  obtain ⟨hlength,hpass⟩ := decodeHexQuad_ok hfirst
  split at h
  · obtain ⟨_,hpair,h⟩ := bind_eq_ok.mp h
    obtain ⟨hback,hletter⟩ := not_or.mp (bailIf_eq_ok.mp hpair)
    obtain ⟨second,hsecond,h⟩ := bind_eq_ok.mp h
    obtain ⟨_,-,h⟩ := bind_eq_ok.mp h
    obtain ⟨_,-,h⟩ := bind_eq_ok.mp h
    obtain ⟨rfl,rfl⟩ := Prod.mk.inj (Except.ok.inj h)
    obtain ⟨hlength',hpass'⟩ := decodeHexQuad_ok hsecond
    have hescape := jsonStringEndLoop_backslash (not_not.mp hback) (by rw [not_not.mp hletter]; exact Option.some_ne_none _)
    exact ⟨by omega,by omega,hpass.trans (hescape.trans hpass')⟩
  · split at h
    · cases h
    · obtain ⟨_,-,h⟩ := bind_eq_ok.mp h
      obtain ⟨rfl,rfl⟩ := Prod.mk.inj (Except.ok.inj h)
      exact ⟨by omega,hlength,hpass⟩

theorem shortEscape_ascii {escaped byte : UInt8} (h : shortEscape escaped = some byte) : byte < 128 := by
  unfold shortEscape at h
  split_ifs at h <;> (obtain rfl := Option.some.inj h; decide)

/-- An escape pushes a character, of at most as many bytes as it has itself. -/
theorem decodeJsonEscape_ok (h : decodeJsonEscape input index = .ok (pushed,consumed)) :
    pushed.length ≤ consumed + 1 ∧ index + consumed < input.length ∧ (∃ c, String.utf8EncodeChar c = pushed) ∧
      jsonStringEndLoop input (index + 1) = jsonStringEndLoop input (index + 1 + consumed) := by
  obtain ⟨escaped,hescaped,h⟩ := bind_eq_ok.mp h
  obtain ⟨hlt,-⟩ := List.getElem?_eq_some_iff.mp (orError_eq_ok.mp hescaped)
  cases hshort : shortEscape escaped with
  | some byte =>
    rw [hshort] at h
    obtain ⟨rfl,rfl⟩ := Prod.mk.inj (Except.ok.inj h)
    exact ⟨Nat.le_refl _,hlt,exists_encodeChar (shortEscape_ascii hshort),rfl⟩
  | none =>
    rw [hshort] at h
    split at h
    · next hnone => cases hnone
    · split at h
      · obtain ⟨⟨scalar,length⟩,hunicode,h⟩ := bind_eq_ok.mp h
        obtain ⟨rfl,rfl⟩ := Prod.mk.inj (Except.ok.inj h)
        obtain ⟨hfour,hlength,hpass⟩ := decodeJsonUnicodeEscape_ok hunicode
        have hsize := encodeChar_length scalar
        exact ⟨by omega,by omega,⟨scalar,rfl⟩,hpass⟩
      · cases h

/-- A decoded string ends where its end is found, is no longer than that, and is a text if it is made of
ASCII bytes and escapes. -/
theorem decodeJsonStringLoop_ok {decoded : Bytes} (h : decodeJsonStringLoop input index out = .ok decoded) :
    ∃ stop, jsonStringEndLoop input index = .ok stop ∧ decoded.length + index + 1 ≤ out.length + stop.val ∧
      ((∀ j (hj : j < input.length), index ≤ j → j < stop.val → input[j] < 128) →
        ∀ t, out = encode t → ∃ t', decoded = encode t') := by
  fun_induction decodeJsonStringLoop input index out with
  | case1 index out hlt hquote =>
    obtain rfl := Except.ok.inj h
    refine ⟨⟨index + 1,Nat.succ_pos _⟩,?_,by simp only; omega,fun _ t ht => ⟨t,ht⟩⟩
    rw [jsonStringEndLoop,dif_pos hlt,if_pos hquote]
  | case2 index out hlt hquote hback ih =>
    obtain ⟨⟨pushed,consumed⟩,hescape,h⟩ := bind_eq_ok.mp h
    obtain ⟨_,-,h⟩ := bind_eq_ok.mp h
    obtain ⟨hpushed,hwithin,⟨c,hc⟩,hpass⟩ := decodeJsonEscape_ok hescape
    obtain ⟨stop,hstop,hlength,htext⟩ := ih _ _ h
    have hnext : jsonStringEndLoop input index = jsonStringEndLoop input (index + 2) :=
      jsonStringEndLoop_backslash (by rw [List.getElem?_eq_getElem hlt,hback]) (by
        rw [List.getElem?_eq_getElem (by omega)]
        exact Option.some_ne_none _)
    refine ⟨stop,?_,?_,fun hascii t ht => ?_⟩
    · rw [hnext,hpass,← hstop]
      congr 1
      omega
    · rw [List.length_append] at hlength
      omega
    · refine htext (fun j hj hlow hhigh => hascii j hj (by omega) hhigh) (t ++ [c]) ?_
      rw [encode_append,ht,encode_cons,hc,encode_nil,List.append_nil]
  | case3 => cases h
  | case4 index out hlt hquote hback hcontrol ih =>
    obtain ⟨_,-,h⟩ := bind_eq_ok.mp h
    obtain ⟨stop,hstop,hlength,htext⟩ := ih h
    have hnext : jsonStringEndLoop input index = jsonStringEndLoop input (index + 1) := by
      rw [jsonStringEndLoop,dif_pos hlt,if_neg hquote,if_neg hback,if_neg hcontrol]
    have hbounds := (jsonStringEndLoop_bounds hstop).1
    refine ⟨stop,hnext.trans hstop,?_,fun hascii t ht => ?_⟩
    · rw [List.length_append,List.length_singleton] at hlength
      omega
    · obtain ⟨c,hc⟩ := exists_encodeChar (hascii index hlt (Nat.le_refl _) (by omega))
      refine htext (fun j hj hlow hhigh => hascii j hj (by omega) hhigh) (t ++ [c]) ?_
      rw [encode_append,ht,encode_cons,hc,encode_nil,List.append_nil]
  | case5 => cases h

end Avault.Cli.ImportJson
