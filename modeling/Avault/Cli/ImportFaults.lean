import Avault.Cli.ImportBounds

/-! The scanner of a key import has no faults: it stops, and every index and sum is within its bounds. -/
namespace Avault.Cli.ImportChecked
open Foundation Foundation.Checked
open ImportJson (getRange shortEscape skipJsonWs_bounds jsonStringEnd_bounds jsonValueEnd_bounds decodeJsonEscape_ok
  decodeJsonUnicodeEscape_ok hexValue_lt)

/-- No slice is so long that a sum of a few more than its length does not fit. -/
theorem Slice.room {T : Target} (input : Slice T) : input.bytes.length + 16 < T.usize := by
  have hfits := input.fits
  have hwide := T.wide
  have hhalf : 2^15 ≤ 2^(T.bits - 1) := Nat.pow_le_pow_right (by decide) (by omega)
  have hdouble : T.usize = 2*2^(T.bits - 1) := by
    rw [Target.usize,← Nat.pow_succ',show (T.bits - 1).succ = T.bits by omega]
  unfold Target.isizeMax at hfits
  omega

section Numbers

variable {T : Target} {input : Bytes} {index start turns : ℕ}

theorem advance_clean {p : UInt8 → Bool} {f : ℕ → ℕ} (hroom : input.length + 16 < T.usize)
    (hf : ∀ index, f index = if h : index < input.length then if p input[index] then f (index + 1) else index else index)
    (hturns : input.length - index < turns) : Clean (advance T p input turns index) (.ok (f index)) := by
  induction turns generalizing index with
  | zero => exact absurd hturns (Nat.not_lt_zero _)
  | succ turns ih =>
    rw [advance,hf]
    by_cases hlt : index < input.length
    · rw [dif_pos hlt,List.getElem?_eq_getElem hlt,Option.any_some]
      by_cases hp : p input[index] = true
      · rw [if_pos hp,if_pos hp]
        exact (clean_add (by omega)).next (ih (by omega))
      · rw [if_neg hp,if_neg hp]
        exact clean_pure _
    · rw [dif_neg hlt,List.getElem?_eq_none (by omega)]
      exact clean_pure _

theorem skipJsonWs_clean (hroom : input.length + 16 < T.usize) :
    Clean (skipJsonWs T input index) (.ok (ImportJson.skipJsonWs input index)) :=
  advance_clean hroom (fun index => by rw [ImportJson.skipJsonWs]) (by unfold turnsFor; omega)

theorem jsonScalarEnd_clean (hroom : input.length + 16 < T.usize) :
    Clean (jsonScalarEnd T input index) (.ok (ImportJson.jsonScalarEnd input index)) :=
  advance_clean hroom (fun index => by rw [ImportJson.jsonScalarEnd]) (by unfold turnsFor; omega)

theorem hexValue_clean (byte : UInt8) : Clean (hexValue byte) (ImportJson.hexValue byte) := by
  unfold hexValue ImportJson.hexValue
  split
  · next hdigit => exact clean_sub (UInt8.le_iff_toNat_le.mp (of_decide_eq_true hdigit).1)
  · split
    · next hlower =>
      refine (clean_sub (UInt8.le_iff_toNat_le.mp hlower.1)).next (clean_add ?_)
      have hhigh : byte.toNat ≤ 102 := UInt8.le_iff_toNat_le.mp hlower.2
      omega
    · split
      · next hupper =>
        refine (clean_sub (UInt8.le_iff_toNat_le.mp hupper.1)).next (clean_add ?_)
        have hhigh : byte.toNat ≤ 70 := UInt8.le_iff_toNat_le.mp hupper.2
        omega
      · exact clean_lift _

/-- A digit is put in behind four bits of zeros. -/
theorem shiftLeft_or {value digit : ℕ} (hvalue : value < 16^3) (hdigit : digit < 16) :
    shiftLeft (2^16) value 4 ||| digit = value*16 + digit := by
  have hshift : shiftLeft (2^16) value 4 = 2^4*value := by
    rw [shiftLeft,Nat.shiftLeft_eq,Nat.mod_eq_of_lt (by omega),Nat.mul_comm]
  rw [hshift,← Nat.two_pow_add_eq_or_of_lt hdigit,Nat.mul_comm]

theorem hexDigits_clean {bytes : Bytes} {value : ℕ} (read : ℕ) (hread : read + bytes.length ≤ 4) (hvalue : value < 16^read) :
    Clean (hexDigits value bytes) (bytes.foldlM (fun value byte => do return value*16 + (← ImportJson.hexValue byte)) value) := by
  induction bytes generalizing value read with
  | nil => exact clean_pure _
  | cons byte bytes ih =>
    rw [List.length_cons] at hread
    have hthree : 16^read ≤ 16^3 := Nat.pow_le_pow_right (by decide) (by omega)
    rw [hexDigits,List.foldlM_cons,List.foldlM_cons]
    have hstep : Clean (do return shiftLeft (2^16) value 4 ||| (← hexValue byte))
        (do return value*16 + (← ImportJson.hexValue byte)) := by
      apply (hexValue_clean byte).bind
      intro digit hdigit
      exact (clean_pure _).eq (congrArg Except.ok (shiftLeft_or (by omega) (hexValue_lt hdigit)))
    refine hstep.bind fun next hnext => ih (read + 1) (by omega) ?_
    obtain ⟨digit,hdigit,hsum⟩ := bind_eq_ok.mp hnext
    have hlt := hexValue_lt hdigit
    have hsum : value*16 + digit = next := Except.ok.inj hsum
    rw [Nat.pow_succ]
    omega

theorem decodeHexQuad_clean (hstart : start + 4 < T.usize) :
    Clean (decodeHexQuad T input start) (ImportJson.decodeHexQuad input start) := by
  refine (clean_add hstart).next ((clean_lift _).bind fun bytes hbytes => ?_)
  obtain ⟨hlength,rfl⟩ := ImportJson.getRange_eq_some (orError_eq_ok.mp hbytes)
  refine hexDigits_clean 0 ?_ (by decide)
  rw [List.length_take]
  omega

end Numbers

theorem map_eq_bind {ε α β : Type} {r : Except ε α} {f : α → β} : r.map f = r >>= fun a => .ok (f a) := by
  cases r <;> rfl

theorem bailIf_or {p q : Prop} [Decidable p] [Decidable q] {text : String} :
    bailIf (p ∨ q) text = (do bailIf p text; bailIf q text) := by
  by_cases hp : p
  · rw [bailIf,bailIf,if_pos (.inl hp),if_pos hp]
    rfl
  · simp only [bailIf,hp,false_or,if_false,ok_bind]

section Strings

variable {T : Target} {input out : Bytes} {index start turns : ℕ} {stack : List UInt8}

theorem decodeJsonUnicodeEscape_clean (hstart : start + 10 < T.usize) :
    Clean (decodeJsonUnicodeEscape T input start) (ImportJson.decodeJsonUnicodeEscape input start) := by
  refine (decodeHexQuad_clean (by omega)).bind fun first _ => ?_
  split
  · next hfirst =>
    rw [bailIf_or,bind_assoc]
    refine (clean_add (by omega)).next ((clean_lift _).bind fun _ _ => ?_)
    refine (clean_add (by omega)).next ((clean_lift _).bind fun _ _ => ?_)
    refine (clean_add (by omega)).next ((decodeHexQuad_clean (by omega)).bind fun second _ => ?_)
    apply (clean_lift _).bind
    intro _ hsecond
    have hsecond := not_not.mp (bailIf_eq_ok.mp hsecond)
    have hhigh : shiftLeft (2^32) (first - 0xd800) 10 = (first - 0xd800)*1024 := by
      rw [shiftLeft,Nat.shiftLeft_eq,Nat.mod_eq_of_lt (by omega)]
    refine (clean_sub hfirst.1).next ((clean_add (by omega)).next ((clean_sub hsecond.1).next ((clean_add (by omega)).next ?_)))
    rw [hhigh]
    exact (clean_lift _).bind fun scalar _ => clean_pure _
  · split
    · exact clean_lift _
    · exact (clean_lift _).bind fun scalar _ => clean_pure _

theorem decodeJsonEscape_clean (hroom : input.length + 16 < T.usize) : Clean (decodeJsonEscape T input index)
    ((ImportJson.decodeJsonEscape input index).map fun found => (found.1,index + found.2)) := by
  unfold decodeJsonEscape ImportJson.decodeJsonEscape
  rw [map_eq_bind,bind_assoc]
  apply (clean_lift _).bind
  intro escaped hescaped
  obtain ⟨hlt,-⟩ := List.getElem?_eq_some_iff.mp (orError_eq_ok.mp hescaped)
  cases shortEscape escaped with
  | some byte => exact clean_pure _
  | none =>
    dsimp only
    by_cases hunicode : escaped = ascii 'u'
    · rw [if_pos hunicode,if_pos hunicode,bind_assoc]
      refine (clean_add (by omega)).next ((decodeJsonUnicodeEscape_clean (by omega)).bind fun found hfound => ?_)
      obtain ⟨scalar,consumed⟩ := found
      obtain ⟨-,hwithin,-⟩ := decodeJsonUnicodeEscape_ok hfound
      exact (clean_add (by omega)).next (clean_pure _)
    · rw [if_neg hunicode,if_neg hunicode]
      exact clean_lift _

theorem decodeJsonStringLoop_clean (hroom : input.length + 16 < T.usize) (hturns : input.length - index < turns) :
    Clean (decodeJsonStringLoop T input turns index out) (ImportJson.decodeJsonStringLoop input index out) := by
  induction turns generalizing index out with
  | zero => exact absurd hturns (Nat.not_lt_zero _)
  | succ turns ih =>
    rw [decodeJsonStringLoop,ImportJson.decodeJsonStringLoop]
    by_cases hlt : index < input.length
    · rw [if_pos hlt,dif_pos hlt]
      apply (clean_elem hlt).next
      split
      · exact clean_pure _
      · unfold decodeJsonByte
        split
        · rw [bind_assoc]
          refine (clean_add (by omega)).next ?_
          apply (decodeJsonEscape_clean hroom).mapBind
          intro found hfound
          obtain ⟨pushed,consumed⟩ := found
          obtain ⟨-,hwithin,-⟩ := decodeJsonEscape_ok hfound
          exact (clean_lift _).bind fun _ _ => (clean_add (by omega)).next (ih (by omega))
        · split
          · exact clean_lift _
          · refine (clean_pure _).next ((clean_lift _).bind fun _ _ => ?_)
            exact (clean_add (by omega)).next (ih (by omega))
    · rw [if_neg hlt,dif_neg hlt]
      exact clean_lift _

theorem decodeJsonStringBytes_clean (hroom : input.length + 16 < T.usize) :
    Clean (decodeJsonStringBytes T input) (ImportJson.decodeJsonStringBytes input) :=
  (clean_lift _).bind fun _ _ => decodeJsonStringLoop_clean hroom (by unfold turnsFor; omega)

theorem jsonStringEndLoop_clean (hroom : input.length + 16 < T.usize) (hturns : input.length - index < turns) :
    Clean (jsonStringEndLoop T input turns index) ((ImportJson.jsonStringEndLoop input index).map Subtype.val) := by
  induction turns generalizing index with
  | zero => exact absurd hturns (Nat.not_lt_zero _)
  | succ turns ih =>
    rw [jsonStringEndLoop,ImportJson.jsonStringEndLoop]
    by_cases hlt : index < input.length
    · rw [if_pos hlt,dif_pos hlt]
      apply (clean_elem hlt).next
      split
      · exact clean_add (by omega)
      · split
        · refine (clean_add (by omega)).next ?_
          by_cases hnone : input[index + 1]? = none
          · rw [bailIf,if_pos hnone,if_pos hnone]
            exact clean_lift _
          · rw [bailIf_neg hnone,if_neg hnone]
            exact (clean_lift (.ok ())).next ((clean_add (by omega)).next (ih (by omega)))
        · split
          · exact clean_lift _
          · exact (clean_add (by omega)).next (ih (by omega))
    · rw [if_neg hlt,dif_neg hlt]
      exact clean_lift _

theorem jsonStringEnd_clean (hroom : input.length + 16 < T.usize) :
    Clean (jsonStringEnd T input) ((ImportJson.jsonStringEnd input).map Subtype.val) := by
  rw [ImportJson.jsonStringEnd,map_eq_bind,bind_assoc]
  apply (clean_lift _).bind
  intro _ _
  rw [← map_eq_bind]
  exact jsonStringEndLoop_clean hroom (by unfold turnsFor; omega)

/-- The scan of a string within the input. -/
theorem jsonStringEnd_suffix_clean {β : Type} {f : ℕ → Scan β} {g : {n : ℕ // 0 < n} → Result β}
    (hroom : input.length + 16 < T.usize) (hstart : start < input.length)
    (hf : ∀ stringEnd, ImportJson.jsonStringEnd (input.drop start) = .ok stringEnd →
      start + stringEnd.val ≤ input.length → Clean (f stringEnd.val) (g stringEnd)) :
    Clean (do let stringEnd ← jsonStringEnd T (← suffix input start); f stringEnd)
      (ImportJson.jsonStringEnd (input.drop start) >>= g) := by
  refine (clean_suffix hstart.le).next ((jsonStringEnd_clean ?_).mapBind fun stringEnd hend => hf stringEnd hend ?_)
  · rw [List.length_drop]
    omega
  · have hbounds := (jsonStringEnd_bounds hend).2
    rw [List.length_drop] at hbounds
    omega

end Strings

section Values

variable {T : Target} {input field : Bytes} {index start turns : ℕ} {stack : List UInt8}

theorem jsonCompoundEndLoop_clean (hroom : input.length + 16 < T.usize) (hturns : input.length - index < turns) :
    Clean (jsonCompoundEndLoop T input turns index stack) (ImportJson.jsonCompoundEndLoop input index stack) := by
  induction turns generalizing index stack with
  | zero => exact absurd hturns (Nat.not_lt_zero _)
  | succ turns ih =>
    rw [jsonCompoundEndLoop,ImportJson.jsonCompoundEndLoop]
    by_cases hlt : index < input.length
    · rw [if_pos hlt,dif_pos hlt]
      apply (clean_elem hlt).next
      have hclosing (bracket : UInt8) (text : String) : Clean (do
          lift (bailIf (stack.head? ≠ some bracket) text)
          let index ← add T.usize index 1
          if stack.tail = [] then return index else jsonCompoundEndLoop T input turns index stack.tail)
          (if stack.head? ≠ some bracket then bail text
            else if stack.tail = [] then .ok (index + 1)
            else ImportJson.jsonCompoundEndLoop input (index + 1) stack.tail) := by
        by_cases hopen : stack.head? ≠ some bracket
        · rw [bailIf,if_pos hopen,if_pos hopen]
          exact clean_lift _
        · rw [bailIf_neg hopen,if_neg hopen]
          refine (clean_lift (.ok ())).next ((clean_add (by omega)).next ?_)
          split
          · exact clean_pure _
          · exact ih (by omega)
      split
      · apply jsonStringEnd_suffix_clean hroom hlt
        intro stringEnd _ hwithin
        have hpos := stringEnd.property
        exact (clean_add (by omega)).next (ih (by omega))
      · split
        · exact (clean_add (by omega)).next (ih (by omega))
        · split
          · exact hclosing _ _
          · split
            · exact hclosing _ _
            · exact (clean_add (by omega)).next (ih (by omega))
    · rw [if_neg hlt,dif_neg hlt]
      exact clean_lift _

theorem jsonCompoundEnd_clean (hroom : input.length + 16 < T.usize) (hlt : start < input.length) :
    Clean (jsonCompoundEnd T input start) (ImportJson.jsonCompoundEnd input start) := by
  rw [ImportJson.jsonCompoundEnd,List.getElem?_eq_getElem hlt]
  refine (clean_elem hlt).next ((clean_add (by omega)).next ?_)
  exact jsonCompoundEndLoop_clean hroom (by unfold turnsFor; omega)

theorem wordEnd_clean {word : String} (hstart : start + (utf8 word).length < T.usize) :
    Clean (wordEnd T input start word) (if getRange input start (utf8 word).length = some (utf8 word) then
      .ok (start + (utf8 word).length) else bail "invalid JSON value") := by
  apply (clean_add hstart).next
  by_cases hword : getRange input start (utf8 word).length = some (utf8 word)
  · rw [bailIf_neg (not_not.mpr hword),if_pos hword]
    exact (clean_lift (.ok ())).next (clean_pure _)
  · rw [bailIf,if_pos hword,if_neg hword]
    exact clean_lift _

theorem jsonValueEnd_clean (hroom : input.length + 16 < T.usize) :
    Clean (jsonValueEnd T input start) (ImportJson.jsonValueEnd input start) := by
  apply (clean_lift _).bind
  intro byte hbyte
  obtain ⟨hlt,-⟩ := List.getElem?_eq_some_iff.mp (orError_eq_ok.mp hbyte)
  split
  · exact jsonStringEnd_suffix_clean hroom hlt fun stringEnd _ hwithin => clean_add (by omega)
  · split
    · exact jsonCompoundEnd_clean hroom hlt
    · split
      · exact jsonScalarEnd_clean hroom
      · have hfour : Clean (wordEnd T input start "true") (if getRange input start 4 = some (utf8 "true") then
            .ok (start + 4) else bail "invalid JSON value") := wordEnd_clean (show start + 4 < T.usize by omega)
        have hfive : Clean (wordEnd T input start "false") (if getRange input start 5 = some (utf8 "false") then
            .ok (start + 5) else bail "invalid JSON value") := wordEnd_clean (show start + 5 < T.usize by omega)
        have hnull : Clean (wordEnd T input start "null") (if getRange input start 4 = some (utf8 "null") then
            .ok (start + 4) else bail "invalid JSON value") := wordEnd_clean (show start + 4 < T.usize by omega)
        have htf : ascii 't' ≠ ascii 'f' := by decide
        have htn : ascii 't' ≠ ascii 'n' := by decide
        have hfn : ascii 'f' ≠ ascii 'n' := by decide
        by_cases ht : byte = ascii 't'
        · subst ht
          simp only [if_true,true_and,htf,htn,false_and,if_false]
          exact hfour
        · by_cases hf : byte = ascii 'f'
          · subst hf
            simp only [if_true,true_and,ht,hfn,false_and,if_false]
            exact hfive
          · by_cases hn : byte = ascii 'n'
            · subst hn
              simp only [if_true,true_and,ht,hf,false_and,if_false]
              exact hnull
            · simp only [ht,hf,hn,false_and,if_false]
              exact clean_lift _

/-- The turns of both loops are enough, as every turn but the last reads on. -/
theorem findJsonFieldLoop_clean {turns' : ℕ} (hroom : input.length + 16 < T.usize) (hindex : index ≤ input.length)
    (hturns : input.length - index < turns) (hturns' : input.length - index < turns') :
    Clean (findJsonFieldLoop T input field turns index) (ImportJson.findJsonFieldLoop input field turns' index) := by
  induction turns generalizing index turns' with
  | zero => exact absurd hturns (Nat.not_lt_zero _)
  | succ turns ih =>
    obtain ⟨turns',rfl⟩ : ∃ n, turns' = n + 1 := ⟨turns' - 1,by omega⟩
    rw [findJsonFieldLoop,ImportJson.findJsonFieldLoop]
    apply (skipJsonWs_clean hroom).next
    obtain ⟨hkeyLow,-⟩ := skipJsonWs_bounds hindex
    generalize ImportJson.skipJsonWs input index = keyStart at hkeyLow
    refine (clean_lift _).bind fun _ _ => (clean_lift _).bind fun _ hquote => ?_
    obtain ⟨hlt,-⟩ := List.getElem?_eq_some_iff.mp (not_not.mp (bailIf_eq_ok.mp hquote))
    refine (clean_suffix hlt.le).next ((decodeJsonStringBytes_clean ?_).bind fun key _ => ?_)
    · rw [List.length_drop]
      omega
    apply jsonStringEnd_suffix_clean hroom hlt
    intro stringEnd hend hwithin
    have hpos := stringEnd.property
    refine (clean_add (by omega)).next ((skipJsonWs_clean hroom).next ?_)
    obtain ⟨hcolonLow,-⟩ := @skipJsonWs_bounds input (stringEnd.val + keyStart) (by omega)
    generalize ImportJson.skipJsonWs input (stringEnd.val + keyStart) = colon at hcolonLow
    apply (clean_lift _).bind
    intro _ hcolon
    obtain ⟨hcolonLt,-⟩ := List.getElem?_eq_some_iff.mp (not_not.mp (bailIf_eq_ok.mp hcolon))
    refine (clean_add (by omega)).next ((skipJsonWs_clean hroom).next ?_)
    obtain ⟨hvalueLow,-⟩ := @skipJsonWs_bounds input (colon + 1) hcolonLt
    generalize ImportJson.skipJsonWs input (colon + 1) = value at hvalueLow
    by_cases hkey : key = field
    · simp only [hkey,if_true]
      exact clean_pure _
    · simp only [hkey,if_false]
      apply (jsonValueEnd_clean hroom).bind
      intro valueEnd hvalueEnd
      obtain ⟨hendLow,hendHigh⟩ := jsonValueEnd_bounds hvalueEnd
      apply (skipJsonWs_clean hroom).next
      obtain ⟨hnextLow,hnextHigh⟩ := skipJsonWs_bounds hendHigh
      generalize ImportJson.skipJsonWs input valueEnd = next at hnextLow hnextHigh
      by_cases hcomma : input[next]? = some (ascii ',')
      · obtain ⟨hnextLt,-⟩ := List.getElem?_eq_some_iff.mp hcomma
        simp only [hcomma,if_true]
        exact (clean_add (by omega)).next (ih hnextLt (by omega) (by omega))
      · simp only [hcomma,if_false]
        split <;> exact clean_lift _

theorem findJsonFieldValue_clean (hroom : input.length + 16 < T.usize) :
    Clean (findJsonFieldValue T input field) (ImportJson.findJsonFieldValue input field) := by
  refine (skipJsonWs_clean hroom).next ((clean_lift _).bind fun _ hopen => ?_)
  obtain ⟨hlt,-⟩ := List.getElem?_eq_some_iff.mp (not_not.mp (bailIf_eq_ok.mp hopen))
  exact (clean_add (by omega)).next (findJsonFieldLoop_clean hroom hlt (by unfold turnsFor; omega) (by omega))

theorem importBlobFromJson_clean {Blob : Type} {fromSlice : Bytes → Result Blob} (hroom : input.length + 16 < T.usize) :
    Clean (importBlobFromJson T fromSlice input) (ImportJson.importBlobFromJson fromSlice input) := by
  apply (findJsonFieldValue_clean hroom).bind
  intro valueStart _
  apply (jsonValueEnd_clean hroom).bind
  intro valueEnd hend
  obtain ⟨hlow,hhigh⟩ := jsonValueEnd_bounds hend
  exact (clean_range hlow.le hhigh).next (clean_lift _)

theorem importPassphraseFromJson_clean (hroom : input.length + 16 < T.usize) :
    Clean (importPassphraseFromJson T input) (ImportJson.importPassphraseFromJson input) := by
  refine (findJsonFieldValue_clean hroom).bind fun passphraseStart _ => (clean_lift _).bind fun _ hquote => ?_
  obtain ⟨hlt,-⟩ := List.getElem?_eq_some_iff.mp (not_not.mp (bailIf_eq_ok.mp hquote))
  refine (clean_suffix hlt.le).next (decodeJsonStringBytes_clean ?_)
  rw [List.length_drop]
  omega

end Values

/-- What is decoded as the passphrase stands between two quotes in the input. -/
theorem importPassphraseFromJson_ok {input passphrase : Bytes} (h : ImportJson.importPassphraseFromJson input = .ok passphrase) :
    ∃ start stop, ImportJson.findJsonFieldValue input (utf8 "passphrase") = .ok start ∧
      ImportJson.jsonValueEnd input start = .ok stop ∧ passphrase.length + 2 ≤ stop - start ∧
      ((∀ byte ∈ (input.drop start).take (stop - start), byte < 128) → ∃ text, passphrase = encode text) := by
  obtain ⟨start,hstart,h⟩ := bind_eq_ok.mp h
  obtain ⟨_,hquote,h⟩ := bind_eq_ok.mp h
  have hquote := not_not.mp (bailIf_eq_ok.mp hquote)
  obtain ⟨_,hhead,hdecode⟩ := bind_eq_ok.mp h
  obtain ⟨stop,hstop,hlength,htext⟩ := ImportJson.decodeJsonStringLoop_ok hdecode
  have hend : ImportJson.jsonStringEnd (input.drop start) = .ok stop := by
    rw [ImportJson.jsonStringEnd,hhead,ok_bind,hstop]
  refine ⟨start,start + stop.val,hstart,?_,?_,fun hascii => htext (fun j hj _ hlow => hascii _ ?_) [] rfl⟩
  · rw [ImportJson.jsonValueEnd,hquote,orError_some,ok_bind,if_pos rfl,hend,ok_bind]
    rfl
  · rw [List.length_nil] at hlength
    omega
  · rw [Nat.add_sub_cancel_left]
    exact List.mem_iff_getElem.mpr ⟨j,by rw [List.length_take]; omega,List.getElem_take⟩

/-- The scanner on any bytes, as it stands in the program. -/
structure InBounds {T : Target} (input : Slice T) (field : Bytes) : Prop where
  find : Clean (findJsonFieldValue T input.bytes field) (ImportJson.findJsonFieldValue input.bytes field)
  valueEnd : ∀ start, Clean (jsonValueEnd T input.bytes start) (ImportJson.jsonValueEnd input.bytes start)
  ends : ∀ start stop, ImportJson.jsonValueEnd input.bytes start = .ok stop → start < stop ∧ stop ≤ input.bytes.length
  blob : ∀ {Blob : Type} (fromSlice : Bytes → Result Blob), Clean (importBlobFromJson T fromSlice input.bytes)
    (ImportJson.importBlobFromJson fromSlice input.bytes)
  passphrase : Clean (importPassphraseFromJson T input.bytes) (ImportJson.importPassphraseFromJson input.bytes)
  decoded : ∀ passphrase, ImportJson.importPassphraseFromJson input.bytes = .ok passphrase →
    passphrase.length ≤ input.bytes.length ∧
    ∃ start stop, ImportJson.findJsonFieldValue input.bytes (utf8 "passphrase") = .ok start ∧
      ImportJson.jsonValueEnd input.bytes start = .ok stop ∧
      ((∀ byte ∈ (input.bytes.drop start).take (stop - start), byte < 128) → ∃ text, passphrase = encode text)

/-- The scanner ends without a fault on all input, well-formed or not. -/
theorem scanner_inBounds {T : Target} (input : Slice T) (field : Bytes) : InBounds input field where
  find := findJsonFieldValue_clean input.room
  valueEnd _ := jsonValueEnd_clean input.room
  ends _ _ h := jsonValueEnd_bounds h
  blob _ := importBlobFromJson_clean input.room
  passphrase := importPassphraseFromJson_clean input.room
  decoded passphrase h := by
    obtain ⟨start,stop,hstart,hstop,hlength,htext⟩ := importPassphraseFromJson_ok h
    have hbounds := jsonValueEnd_bounds hstop
    exact ⟨by omega,start,stop,hstart,hstop,htext⟩

def word : Target := ⟨64,by decide⟩

def sampleInput : Slice word := ⟨utf8 "\x7b\"passphrase\":\"pw\"\x7d",by decide⟩

/-- On a machine of 64 bits. -/
theorem scanner_inBounds_word : ImportJson.importPassphraseFromJson sampleInput.bytes = .ok (utf8 "pw") ∧
    InBounds sampleInput (utf8 "passphrase") := ⟨by decide +kernel,scanner_inBounds sampleInput (utf8 "passphrase")⟩

end Avault.Cli.ImportChecked
