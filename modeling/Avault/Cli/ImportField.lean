import Avault.Cli.ImportScan

/-! The field of a key import is the first member of that name. -/
namespace Avault.Cli.ImportJson
open Foundation Foundation.JsonText

section Turn

variable {input rest : Bytes} {index : ℕ} {byte : UInt8} {name : String} {key value ws : List Char}

/-- One turn of the loop, at a member that is followed by a comma or by the closing brace. -/
theorem findJsonFieldLoop_member (field : Bytes) (turns : ℕ) (hsize : input.length ≤ maxStdinSecretBytes) (hkey : Json.Key name key)
    (hvalue : Json.Text .value value) (hws : Json.Ws ws) (hbyte : byte = ascii ',' ∨ byte = ascii '\x7d')
    (h : At input index (encode (key ++ (value ++ ws)) ++ byte::rest)) :
    findJsonFieldLoop input field (turns + 1) index =
      if utf8 name = field then .ok (index + (encode key).length)
      else if byte = ascii ',' then findJsonFieldLoop input field turns (index + (encode (key ++ (value ++ ws))).length + 1)
      else bail "key import JSON missing required field" := by
  obtain ⟨before,literal,after,gap,hbefore,hliteral,hafter,hgap,rfl⟩ := hkey
  obtain ⟨c,more,hvalueEq,hc,hcws⟩ := value_first hvalue
  simp only [encode_append,encode_cons,List.append_assoc] at h
  -- the positions in front of the name, behind it, and in front of the value
  have hname : At input (index + (encode before).length) (encode literal ++ (encode after ++ (String.utf8EncodeChar ':' ++
      (encode gap ++ (encode value ++ (encode ws ++ byte::rest)))))) := h.step
  have hquote : ∃ tail, encode literal = ascii '"'::tail := by
    obtain ⟨body,-,rfl⟩ := hliteral
    exact ⟨_,rfl⟩
  obtain ⟨tail,htail⟩ := hquote
  have hfirst : At input (index + (encode before).length) (ascii '"'::(tail ++ (encode after ++ (String.utf8EncodeChar ':' ++
      (encode gap ++ (encode value ++ (encode ws ++ byte::rest))))))) := by
    rw [htail,List.cons_append] at hname
    exact hname
  have hskip : skipJsonWs input index = index + (encode before).length := by
    rw [htail,List.cons_append] at h
    exact skipJsonWs_encode hbefore h (by decide)
  obtain ⟨hpos,hend⟩ := jsonStringEnd_literal hliteral hname
  have hdecode := decodeJsonStringBytes_literal hliteral hname hsize
  have hcolon : skipJsonWs input (index + (encode before).length + (encode literal).length) =
      index + (encode before).length + (encode literal).length + (encode after).length :=
    skipJsonWs_encode hafter hname.step (by decide)
  have hcolonAt : At input (index + (encode before).length + (encode literal).length + (encode after).length)
      (ascii ':'::(encode gap ++ (encode value ++ (encode ws ++ byte::rest)))) := hname.step.step
  have hgapSkip : skipJsonWs input (index + (encode before).length + (encode literal).length + (encode after).length + 1) =
      index + (encode before).length + (encode literal).length + (encode after).length + 1 + (encode gap).length := by
    have hnext := hcolonAt.next
    rw [hvalueEq,encode_cons,hc,List.cons_append,List.cons_append] at hnext
    exact skipJsonWs_encode hgap hnext hcws
  have hvalueAt := hcolonAt.next.step
  have hbyteScalar : isScalarByte byte = false := by obtain rfl | rfl := hbyte <;> decide
  have hbyteWs : isJsonWs byte = false := by obtain rfl | rfl := hbyte <;> decide
  have hvalueEnd := jsonValueEnd_text hvalue hvalueAt (stops_ws hws hbyteScalar)
  have hlast := skipJsonWs_encode hws hvalueAt.step hbyteWs
  have hbyteAt := hvalueAt.step.step
  have hkeyLength : index + (encode (before ++ (literal ++ (after ++ ':'::gap)))).length =
      index + (encode before).length + (encode literal).length + (encode after).length + 1 + (encode gap).length := by
    simp only [encode_append,encode_cons,List.length_append,show (String.utf8EncodeChar ':').length = 1 from rfl]
    omega
  have hmemberLength : index + (encode (before ++ (literal ++ (after ++ ':'::gap)) ++ (value ++ ws))).length =
      index + (encode before).length + (encode literal).length + (encode after).length + 1 + (encode gap).length +
        (encode value).length + (encode ws).length := by
    rw [encode_append,List.length_append,← Nat.add_assoc,hkeyLength,encode_append,List.length_append]
    omega
  rw [findJsonFieldLoop,hskip]
  simp only [hfirst.getElem?]
  rw [bailIf_neg (by decide),ok_bind,bailIf_neg (by simp),ok_bind,hdecode,ok_bind,hend,ok_bind]
  simp only [Nat.add_comm _ (index + (encode before).length),hcolon,hcolonAt.getElem?]
  rw [bailIf_neg (by simp),ok_bind,hgapSkip,hkeyLength,hmemberLength]
  split
  · rfl
  · rw [hvalueEnd,ok_bind]
    simp only [hlast,hbyteAt.getElem?,Option.some.injEq]
    obtain rfl | rfl := hbyte
    · rfl
    · rfl

end Turn

section Members

variable {input rest : Bytes} {index turns : ℕ} {front text : List Char} {members : List Json.Located}

/-- The field that is looked for. -/
def Named (field : Bytes) (member : Json.Located) : Bool := utf8 member.name = field

/-- The end of the members is the closing brace. -/
theorem findJsonFieldLoop_members (field : Bytes) (hsize : input.length ≤ maxStdinSecretBytes) (h : Json.LocatedMembers front members text)
    (hat : At input index (encode text ++ ascii '\x7d'::rest)) (hindex : index = (encode front).length)
    (hturns : members.length ≤ turns) : findJsonFieldLoop input field turns index =
      (members.find? (Named field)).elim (bail "key import JSON missing required field")
        fun member => .ok (encode member.before).length := by
  induction h generalizing index turns with
  | @last front name key value ws hkey hvalue hws =>
    obtain ⟨turns,rfl⟩ := Nat.exists_eq_add_of_le' hturns
    have hturn := findJsonFieldLoop_member field turns hsize hkey hvalue hws (.inr rfl) hat
    rw [List.length_singleton,hturn]
    by_cases hname : utf8 name = field
    · have hnamed : Named field ⟨name,front ++ key,value⟩ = true := decide_eq_true hname
      rw [if_pos hname,List.find?_cons_of_pos hnamed,hindex,← List.length_append,← encode_append]
      rfl
    · have hnamed : ¬ Named field ⟨name,front ++ key,value⟩ = true := fun h => hname (of_decide_eq_true h)
      rw [if_neg hname,List.find?_cons_of_neg hnamed,if_neg (by decide)]
      rfl
  | @cons front name key value ws members more hkey hvalue hws _ ih =>
    rw [List.length_cons] at hturns
    obtain ⟨turns,rfl⟩ : ∃ n, turns = n + 1 := ⟨turns - 1,by omega⟩
    have hsplit : encode (key ++ (value ++ (ws ++ ','::more))) ++ ascii '\x7d'::rest =
        encode (key ++ (value ++ ws)) ++ ascii ','::(encode more ++ ascii '\x7d'::rest) := by
      simp only [encode_append,encode_cons,List.append_assoc]
      rfl
    rw [hsplit] at hat
    have hturn := findJsonFieldLoop_member field turns hsize hkey hvalue hws (.inl rfl) hat
    have hnext : index + (encode (key ++ (value ++ ws))).length + 1 =
        (encode (front ++ (key ++ (value ++ (ws ++ [',']))))).length := by
      simp only [hindex,encode_append,List.length_append,show (encode [',']).length = 1 from rfl]
      omega
    rw [hturn]
    by_cases hname : utf8 name = field
    · have hnamed : Named field ⟨name,front ++ key,value⟩ = true := decide_eq_true hname
      rw [if_pos hname,List.find?_cons_of_pos hnamed,hindex,← List.length_append,← encode_append]
      rfl
    · have hnamed : ¬ Named field ⟨name,front ++ key,value⟩ = true := fun h => hname (of_decide_eq_true h)
      rw [if_neg hname,if_pos rfl,List.find?_cons_of_neg hnamed]
      exact ih hat.step.next hnext (by omega)

/-- A value stands at its place, and is followed by nothing that could be read as part of it. -/
theorem located_at (h : Json.LocatedMembers front members text) (hat : At input index (encode text ++ ascii '\x7d'::rest))
    (hindex : index = (encode front).length) : ∀ member ∈ members, Json.Text .value member.value ∧
      ∃ more, Stops more ∧ At input (encode member.before).length (encode member.value ++ more) := by
  induction h generalizing index with
  | @last front name key value ws hkey hvalue hws =>
    intro member hmember
    obtain rfl := List.mem_singleton.mp hmember
    refine ⟨hvalue,encode ws ++ ascii '\x7d'::rest,stops_ws hws (by decide),?_⟩
    simp only [encode_append,List.append_assoc,List.length_append] at hat ⊢
    exact hindex ▸ hat.step
  | @cons front name key value ws members more hkey hvalue hws _ ih =>
    have hsplit : encode (key ++ (value ++ (ws ++ ','::more))) ++ ascii '\x7d'::rest =
        encode key ++ (encode value ++ (encode ws ++ ascii ','::(encode more ++ ascii '\x7d'::rest))) := by
      simp only [encode_append,encode_cons,List.append_assoc]
      rfl
    rw [hsplit] at hat
    intro member hmember
    obtain rfl | hmember := List.mem_cons.mp hmember
    · refine ⟨hvalue,encode ws ++ ascii ','::(encode more ++ ascii '\x7d'::rest),stops_ws hws (by decide),?_⟩
      rw [encode_append,List.length_append]
      exact hindex ▸ hat.step
    · refine ih hat.step.step.step.next ?_ member hmember
      simp only [hindex,encode_append,List.length_append,show (encode [',']).length = 1 from rfl]
      omega

/-- Every member takes up a byte. -/
theorem located_length (h : Json.LocatedMembers front members text) : members.length ≤ (encode text).length := by
  have hcolon {name : String} {key : List Char} (hkey : Json.Key name key) : 1 ≤ (encode key).length := by
    obtain ⟨before,literal,after,gap,-,-,-,-,rfl⟩ := hkey
    simp only [encode_append,encode_cons,List.length_append,show (String.utf8EncodeChar ':').length = 1 from rfl]
    omega
  induction h with
  | last hkey _ _ =>
    have hpos := hcolon hkey
    rw [encode_append,List.length_append,List.length_singleton]
    omega
  | cons hkey _ _ _ ih =>
    have hpos := hcolon hkey
    simp only [encode_append,encode_cons,List.length_append,List.length_cons]
    omega

end Members

/-- What the scanner says of a field, if the text has this member for it. -/
def ScansTo (input field : Bytes) : Option Json.Located → Prop
  | none => ∃ e, findJsonFieldValue input field = .error e
  | some member =>
    findJsonFieldValue input field = .ok (encode member.before).length ∧
    jsonValueEnd input (encode member.before).length = .ok (encode (member.before ++ member.value)).length ∧
    ∀ denoted, Literal denoted member.value →
      decodeJsonStringBytes (input.drop (encode member.before).length) = .ok (utf8 denoted)

section Document

variable {text : List Char} {members : List Json.Located}

/-- Where the scanner finds a field, and what stands there. -/
theorem document_scans (h : Json.Document members text) (hsize : (encode text).length ≤ maxStdinSecretBytes) (field : Bytes) :
    findJsonFieldValue (encode text) field =
      (members.find? (Named field)).elim (bail "key import JSON missing required field")
        (fun member => .ok (encode member.before).length) ∧
    ∀ member ∈ members, Json.Text .value member.value ∧
      ∃ more, Stops more ∧ At (encode text) (encode member.before).length (encode member.value ++ more) := by
  obtain ⟨before,object,after,hbefore,-,hobject,rfl⟩ := h
  have hstart : At (encode (before ++ (object ++ after))) 0 (encode before ++ (encode object ++ encode after)) := by
    rw [← encode_append,← encode_append]
    exact At.start _
  cases hobject with
  | empty hws =>
    rename_i ws
    have hsplit : encode ('\x7b'::(ws ++ ['\x7d'])) ++ encode after =
        ascii '\x7b'::(encode ws ++ ascii '\x7d'::encode after) := by
      rw [encode_brackets .object,List.cons_append,List.append_assoc]
      rfl
    rw [hsplit] at hstart
    have hskip := skipJsonWs_encode hbefore hstart (by decide)
    rw [Nat.zero_add] at hskip
    have hopen := hstart.step
    rw [Nat.zero_add] at hopen
    have hpos : 0 < (encode (before ++ ('\x7b'::(ws ++ ['\x7d']) ++ after))).length := Nat.lt_of_le_of_lt (Nat.zero_le _) hopen.length
    obtain ⟨turns,hturns⟩ := Nat.exists_eq_add_of_lt hpos
    have hclose := skipJsonWs_encode hws hopen.next (by decide)
    refine ⟨?_,List.forall_mem_nil _⟩
    rw [findJsonFieldValue,hskip]
    simp only [hopen.getElem?]
    rw [bailIf_neg (by simp),ok_bind,hturns,findJsonFieldLoop,hclose,hopen.next.step.getElem?,bailIf,if_pos rfl]
    rfl
  | members hmembers =>
    rename_i inner
    have hsplit : encode ('\x7b'::(inner ++ ['\x7d'])) ++ encode after =
        ascii '\x7b'::(encode inner ++ ascii '\x7d'::encode after) := by
      rw [encode_brackets .object,List.cons_append,List.append_assoc]
      rfl
    rw [hsplit] at hstart
    have hskip := skipJsonWs_encode hbefore hstart (by decide)
    have hopen := hstart.step
    rw [Nat.zero_add] at hskip hopen
    have hindex : (encode before).length + 1 = (encode (before ++ ['\x7b'])).length := by
      rw [encode_append,List.length_append]
      rfl
    have hlength := located_length hmembers
    have hturns : members.length ≤ (encode (before ++ ('\x7b'::(inner ++ ['\x7d']) ++ after))).length := by
      rw [encode_append,List.length_append,encode_append,List.length_append,encode_brackets .object,List.length_cons,
        List.length_append]
      omega
    refine ⟨?_,located_at hmembers hopen.next hindex⟩
    rw [findJsonFieldValue,hskip]
    simp only [hopen.getElem?]
    rw [bailIf_neg (by simp),ok_bind]
    exact findJsonFieldLoop_members field hsize hmembers hopen.next hindex hturns

/-- The scanner agrees with the grammar about the first member of every name. -/
theorem scanner_agrees (h : Json.Document members text) (hsize : (encode text).length ≤ maxStdinSecretBytes) (field : Bytes) :
    ScansTo (encode text) field (members.find? (Named field)) := by
  obtain ⟨hfind,hplaces⟩ := document_scans h hsize field
  cases hfound : members.find? (Named field) with
  | none =>
    rw [hfound] at hfind
    exact ⟨_,hfind⟩
  | some member =>
    rw [hfound] at hfind
    obtain ⟨htext,more,hstops,hat⟩ := hplaces member (List.mem_of_find?_eq_some hfound)
    refine ⟨hfind,?_,fun denoted hliteral => decodeJsonStringBytes_literal hliteral hat hsize⟩
    rw [jsonValueEnd_text htext hat hstops,encode_append,List.length_append]

theorem importPassphraseFromJson_document (h : Json.Document members text) (hsize : (encode text).length ≤ maxStdinSecretBytes)
    {member : Json.Located} {denoted : String} (hfound : members.find? (Named (utf8 "passphrase")) = some member)
    (hliteral : Literal denoted member.value) : importPassphraseFromJson (encode text) = .ok (utf8 denoted) := by
  obtain ⟨hfind,hplaces⟩ := document_scans h hsize (utf8 "passphrase")
  rw [hfound] at hfind
  obtain ⟨-,more,-,hat⟩ := hplaces member (List.mem_of_find?_eq_some hfound)
  have hquote : (encode text)[(encode member.before).length]? = some (ascii '"') := by
    obtain ⟨body,-,hvalue⟩ := hliteral
    rw [hvalue] at hat
    exact hat.getElem?
  have hfind : findJsonFieldValue (encode text) (utf8 "passphrase") = .ok (encode member.before).length := hfind
  rw [importPassphraseFromJson,hfind,ok_bind,bailIf_neg (not_not.mpr hquote),ok_bind]
  exact decodeJsonStringBytes_literal hliteral hat hsize

theorem importBlobFromJson_document {Blob : Type} {fromSlice : Bytes → Result Blob} (h : Json.Document members text)
    (hsize : (encode text).length ≤ maxStdinSecretBytes) {member : Json.Located}
    (hfound : members.find? (Named (utf8 "blob")) = some member) :
    importBlobFromJson fromSlice (encode text) = context "key import blob is invalid" (fromSlice (encode member.value)) := by
  obtain ⟨hfind,hplaces⟩ := document_scans h hsize (utf8 "blob")
  rw [hfound] at hfind
  obtain ⟨htext,more,hstops,hat⟩ := hplaces member (List.mem_of_find?_eq_some hfound)
  have hfind : findJsonFieldValue (encode text) (utf8 "blob") = .ok (encode member.before).length := hfind
  have hslice : (encode text).drop (encode member.before).length = encode member.value ++ more := hat
  rw [importBlobFromJson,hfind,ok_bind,jsonValueEnd_text htext hat hstops,ok_bind,Nat.add_sub_cancel_left,hslice,List.take_left]

theorem literal_letter {c : Char} (hquote : c ≠ '"') (hback : c ≠ '\\') (hcontrol : 0x20 ≤ c.toNat) :
    Literal (String.ofList [c]) ['"',c,'"'] := by
  refine ⟨[c] ++ [],?_,rfl⟩
  rw [String.toList_ofList]
  exact .cons (.plain hquote hback hcontrol) .nil

theorem key_letter {c : Char} (hquote : c ≠ '"') (hback : c ≠ '\\') (hcontrol : 0x20 ≤ c.toNat) :
    Json.Key (String.ofList [c]) ['"',c,'"',':'] :=
  ⟨[],['"',c,'"'],[],[],List.forall_mem_nil _,literal_letter hquote hback hcontrol,List.forall_mem_nil _,List.forall_mem_nil _,rfl⟩

/-- `b` is found behind an object that has a member of the same name, and its value is decoded. -/
theorem scanner_agrees_nested : ScansTo (encode "\x7b\"a\":\x7b\"b\":null\x7d,\"b\":\"x\"\x7d".toList) (utf8 "b")
    (some ⟨"b","\x7b\"a\":\x7b\"b\":null\x7d,\"b\":".toList,"\"x\"".toList⟩) :=
  have hnil : Json.Ws [] := List.forall_mem_nil _
  have hnull : Json.Text .value "null".toList := .word (by decide)
  have hb : Json.Key "b" "\"b\":".toList := key_letter (c := 'b') (by decide) (by decide) (by decide)
  have hinner : Json.Member "b" "null".toList "\"b\":null".toList :=
    ⟨"\"b\"".toList,"\"b\"".toList,"null".toList,literal_letter (c := 'b') (by decide) (by decide) (by decide),
      ⟨[],[],hnil,hnil,rfl⟩,⟨[],[],hnil,hnil,rfl⟩,rfl⟩
  have hvalue : Json.Text .value "\x7b\"b\":null\x7d".toList := .object (.member hnull hinner)
  have hx : Json.Text .value "\"x\"".toList := .string (literal_letter (c := 'x') (by decide) (by decide) (by decide))
  have hlast := @Json.LocatedMembers.last "\x7b\"a\":\x7b\"b\":null\x7d,".toList _ _ _ [] hb hx hnil
  have hmembers := @Json.LocatedMembers.cons ['\x7b'] _ _ _ [] _ _
    (key_letter (c := 'a') (by decide) (by decide) (by decide)) hvalue hnil hlast
  scanner_agrees ⟨[],_,[],hnil,hnil,.members hmembers,rfl⟩ (by decide) (utf8 "b")

end Document
end Avault.Cli.ImportJson
