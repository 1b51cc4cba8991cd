import Avault.Fetch.Request

/-! The URL of a request whose credential goes into the query. -/
namespace Avault.Fetch
open Foundation

/-- Of the table `HEX`. -/
def hexChar (n : UInt8) : Char := "0123456789ABCDEF".toList.getD n.toNat '0'

/-- The body of the loop of `push_query_encoded`. -/
def pushQueryByte (out : String) (byte : UInt8) : String :=
  if UrlText.isUnreserved byte then out.push (Char.ofNat byte.toNat)
  else if byte = 0x20 then out.push '+'
  else ((out.push '%').push (hexChar (byte >>> 4))).push (hexChar (byte &&& 0x0f))

def pushQueryEncoded (out value : String) : String := (utf8 value).foldl pushQueryByte out

def encodedQueryLen (value : String) : ℕ :=
  ((utf8 value).map fun byte => if UrlText.isUnreserved byte ∨ byte = 0x20 then 1 else 3).sum

/-- What `build_secret_query_url` reserves for the text it builds. -/
def secretQueryUrlCapacity (url name value : String) : ℕ :=
  let base := url.toList.takeWhile (· ≠ '#')
  let fragment := url.toList.dropWhile (· ≠ '#')
  (UrlText.bytesOf base).length+1+encodedQueryLen name+1+encodedQueryLen value+
    (UrlText.bytesOf fragment).length

def buildSecretQueryUrl (U : UrlCrate) (url name value : String) : Result String := do
  let _ ← context "fetch url is invalid" (U.parse url)
  let base := url.toList.takeWhile (· ≠ '#')
  let fragment := url.toList.dropWhile (· ≠ '#')
  let separator := if '?' ∈ base then '&' else '?'
  let out := (String.ofList base).push separator
  let out := pushQueryEncoded out name
  let out := out.push '='
  let out := pushQueryEncoded out value
  return out ++ String.ofList fragment

/-! The inserted text. -/

def queryByteChars (byte : UInt8) : List Char := (pushQueryByte "" byte).toList

def queryChars (value : String) : List Char := (utf8 value).flatMap queryByteChars

theorem pushQueryByte_toList (out : String) (byte : UInt8) :
    (pushQueryByte out byte).toList = out.toList ++ queryByteChars byte := by
  unfold queryByteChars pushQueryByte
  split
  · simp
  · split <;> simp

theorem pushQueryEncoded_toList (out value : String) :
    (pushQueryEncoded out value).toList = out.toList ++ queryChars value := by
  unfold pushQueryEncoded queryChars
  induction utf8 value generalizing out with
  | nil => simp
  | cons byte rest ih => rw [List.foldl_cons,ih,pushQueryByte_toList,List.flatMap_cons,List.append_assoc]

theorem queryByteChars_bytes (byte : UInt8) :
    UrlText.bytesOf (queryByteChars byte) = UrlText.formEncodeByte byte :=
  Hex.forall_byte (P := fun byte =>
    UrlText.bytesOf (queryByteChars byte) = UrlText.formEncodeByte byte) (by decide +kernel) byte

theorem queryByteChars_visible (byte : UInt8) :
    ∀ c ∈ queryByteChars byte, UrlText.isControlOrSpace c = false ∧ c ≠ '#' := by
  have hall : (queryByteChars byte).all (fun c => !UrlText.isControlOrSpace c && c != '#') = true :=
    Hex.forall_byte (P := fun byte =>
      (queryByteChars byte).all (fun c => !UrlText.isControlOrSpace c && c != '#') = true) (by decide +kernel) byte
  intro c hc
  simpa using List.all_eq_true.mp hall c hc

theorem bytesOf_queryChars (value : String) :
    UrlText.bytesOf (queryChars value) = UrlText.formEncode (utf8 value) := by
  rw [queryChars,UrlText.bytesOf,List.flatMap_assoc,UrlText.formEncode]
  exact congrArg (fun f => (utf8 value).flatMap f) (funext queryByteChars_bytes)

theorem queryChars_visible (value : String) :
    ∀ c ∈ queryChars value, UrlText.isControlOrSpace c = false ∧ c ≠ '#' := by
  intro c hc
  obtain ⟨byte,_,hc⟩ := List.mem_flatMap.mp hc
  exact queryByteChars_visible byte c hc

theorem queryByteChars_formText (byte : UInt8) : UrlText.FormText (queryByteChars byte) := by
  have hunreserved : UrlText.isUnreserved byte = true → (Char.ofNat byte.toNat).isAlphanum ∨
      Char.ofNat byte.toNat ∈ "-._~+=".toList :=
    Hex.forall_byte (P := fun byte => UrlText.isUnreserved byte = true →
      (Char.ofNat byte.toNat).isAlphanum ∨ Char.ofNat byte.toNat ∈ "-._~+=".toList)
      (by decide +kernel) byte
  have hhex : hexChar (byte >>> 4) ∈ "0123456789ABCDEF".toList ∧
      hexChar (byte &&& 0x0f) ∈ "0123456789ABCDEF".toList :=
    Hex.forall_byte (P := fun byte => hexChar (byte >>> 4) ∈ "0123456789ABCDEF".toList ∧
      hexChar (byte &&& 0x0f) ∈ "0123456789ABCDEF".toList) (by decide +kernel) byte
  unfold queryByteChars pushQueryByte
  split
  · next h =>
    rw [String.toList_push]
    exact .char (hunreserved h) .nil
  · split
    · exact .char (.inr (by decide)) .nil
    · simp only [String.toList_push,List.append_assoc]
      exact .escape hhex.1 hhex.2 .nil

theorem queryChars_formText (value : String) : UrlText.FormText (queryChars value) := by
  unfold queryChars
  induction utf8 value with
  | nil => exact .nil
  | cons byte rest ih =>
    rw [List.flatMap_cons]
    exact (queryByteChars_formText byte).append ih

/-- The predicted length is that of the encoded text. -/
theorem encodedQueryLen_eq (value : String) :
    encodedQueryLen value = (UrlText.bytesOf (queryChars value)).length := by
  have hbyte (byte : UInt8) : (UrlText.formEncodeByte byte).length =
      if UrlText.isUnreserved byte ∨ byte = 0x20 then 1 else 3 :=
    Hex.forall_byte (P := fun byte => (UrlText.formEncodeByte byte).length =
      if UrlText.isUnreserved byte ∨ byte = 0x20 then 1 else 3) (by decide +kernel) byte
  rw [bytesOf_queryChars,UrlText.formEncode,List.length_flatMap,encodedQueryLen]
  simp only [hbyte]

/-- The parameter between the name and the end of its value. -/
def queryPair (name value : String) : List Char := queryChars name ++ '='::queryChars value

theorem queryPair_visible (name value : String) :
    ∀ c ∈ queryPair name value, UrlText.isControlOrSpace c = false ∧ c ≠ '#' := by
  intro c hc
  obtain h | h := List.mem_append.mp hc
  · exact queryChars_visible name c h
  · obtain rfl | h := List.mem_cons.mp h
    · exact ⟨rfl,by decide⟩
    · exact queryChars_visible value c h

theorem formPairs_queryPair (name value : String) :
    UrlText.formPairs (UrlText.bytesOf (queryPair name value)) = [(utf8 name,utf8 value)] := by
  rw [queryPair,UrlText.bytesOf_append,bytesOf_queryChars]
  change UrlText.formPairs (_ ++ UrlText.equals::UrlText.bytesOf (queryChars value)) = _
  rw [bytesOf_queryChars,UrlText.formPairs_encode]

theorem queryPair_formText (name value : String) : UrlText.FormText (queryPair name value) :=
  (queryChars_formText name).append (.char (.inr (by decide)) (queryChars_formText value))

theorem buildSecretQueryUrl_eq_ok {U : UrlCrate} {url name value built : String} :
    buildSecretQueryUrl U url name value = .ok built ↔ (∃ parsed, U.parse url = .ok parsed) ∧
      built.toList = url.toList.takeWhile (· ≠ '#') ++
        (if '?' ∈ url.toList.takeWhile (· ≠ '#') then '&' else '?')::queryPair name value ++
        url.toList.dropWhile (· ≠ '#') := by
  have hbuilt : (pushQueryEncoded ((pushQueryEncoded
      ((String.ofList (url.toList.takeWhile (· ≠ '#'))).push
        (if '?' ∈ url.toList.takeWhile (· ≠ '#') then '&' else '?')) name).push '=') value ++
      String.ofList (url.toList.dropWhile (· ≠ '#'))).toList =
      url.toList.takeWhile (· ≠ '#') ++
        (if '?' ∈ url.toList.takeWhile (· ≠ '#') then '&' else '?')::queryPair name value ++
        url.toList.dropWhile (· ≠ '#') := by
    simp [pushQueryEncoded_toList,queryPair]
  simp only [buildSecretQueryUrl,bind_eq_ok,context_eq_ok]
  rw [← hbuilt,String.toList_inj]
  constructor
  · rintro ⟨parsed,hparse,⟨⟩⟩
    exact ⟨⟨parsed,hparse⟩,rfl⟩
  · rintro ⟨⟨parsed,hparse⟩,rfl⟩
    exact ⟨parsed,hparse,rfl⟩

/-- The built text, read as a URL, is the original one with one more parameter. -/
structure AddsParameter (U : UrlCrate) (text name value built : String) : Prop where
  front : (UrlText.read built.toList).front = (UrlText.read text.toList).front
  fragment : (UrlText.read built.toList).fragment = (UrlText.read text.toList).fragment
  pairs : (UrlText.read built.toList).pairs =
    (UrlText.read text.toList).pairs ++ [(utf8 name,utf8 value)]
  /-- No other pair has a name that the parser shows as this one. -/
  only : (UrlText.read built.toList).pairs.filter (fun pair => U.decodeUtf8Lossy pair.1 = name) =
    [(utf8 name,utf8 value)]
  inserted : ∃ base separator inserted fragment, text.toList = base ++ fragment ∧
    built.toList = base ++ separator::inserted ++ fragment ∧ separator ∈ ['?','&'] ∧
    UrlText.FormText inserted
  /-- The reserved space is used up, so the text never moved while it was built. -/
  capacity : (utf8 built).length = secretQueryUrlCapacity text name value

theorem secretQueryUrlCapacity_eq {url name value built : String} {separator : Char}
    (hseparator : separator ∈ ['?','&']) (hbuilt : built.toList = url.toList.takeWhile (· ≠ '#') ++
      separator::queryPair name value ++ url.toList.dropWhile (· ≠ '#')) :
    (utf8 built).length = secretQueryUrlCapacity url name value := by
  have hone {c : Char} {s : List Char} (h : c ∈ ['?','&','=']) :
      (UrlText.bytesOf (c::s)).length = 1+(UrlText.bytesOf s).length := by
    simp only [List.mem_cons,List.not_mem_nil,or_false] at h
    obtain rfl | rfl | rfl := h <;> exact Nat.add_comm _ _
  change (UrlText.bytesOf built.toList).length = _
  rw [hbuilt]
  simp only [secretQueryUrlCapacity,queryPair,UrlText.bytesOf_append,List.length_append,
    encodedQueryLen_eq,hone (c := '=') (by decide),
    hone (List.mem_append_left ['='] hseparator : separator ∈ ['?','&','='])]
  omega

/-- The query that is sent is the one that was checked, with the credential added to it, just when
the text of the URL has a fragment or does not end in something a parser would trim. -/
theorem buildSecretQueryUrl_adds_iff {U : UrlCrate} (hU : U.Lawful) {fetch : FetchInput} {url : Url}
    {isLoopback : Bool} {name value : String}
    (haccept : validateFetchInput U fetch = .ok (url,isLoopback))
    (hinject : fetch.request.inject = .query name) :
    (∃ built, buildSecretQueryUrl U fetch.request.url name value = .ok built ∧
      AddsParameter U fetch.request.url name value built) ↔
      UrlText.KeepsEnd fetch.request.url.toList := by
  obtain ⟨hparse,-,-,-,-,-,hchecked⟩ := validateFetchInput_eq_ok.mp haccept
  rw [validateFetchInject,hinject] at hchecked
  obtain ⟨⟨⟩,-,hconflict⟩ := bind_eq_ok.mp hchecked
  generalize fetch.request.url = text at hparse ⊢
  let base := text.toList.takeWhile (· ≠ '#')
  let fragment := text.toList.dropWhile (· ≠ '#')
  let separator := if '?' ∈ base then '&' else '?'
  have hseparator : separator ∈ ['?','&'] := by
    unfold separator
    split <;> decide
  have hsplit : base ++ fragment = text.toList := List.takeWhile_append_dropWhile
  have hhash : '#' ∉ base := fun h => by simpa using List.mem_takeWhile_imp h
  have hfragment : UrlText.IsFragment fragment := UrlText.isFragment_dropWhile text.toList
  have hvisible : ∃ c ∈ base, UrlText.isControlOrSpace c = false := by
    obtain ⟨rest,hscheme⟩ := hU.scheme hparse
    refine UrlText.visible_of_front (fun hnil => ?_) hfragment
    rw [← hsplit,hnil] at hscheme
    simp at hscheme
  obtain ⟨hkeepsFragment,hkeeps⟩ := UrlText.read_insert hvisible hhash hfragment
    (fun c hc => (queryPair_visible name value c hc).1)
    (fun h => (queryPair_visible name value '#' h).2 rfl)
  rw [formPairs_queryPair,hsplit] at hkeeps
  rw [hsplit] at hkeepsFragment
  rw [← hkeeps]
  constructor
  · rintro ⟨built,hbuilt,hadds⟩
    rw [← (buildSecretQueryUrl_eq_ok.mp hbuilt).2]
    exact ⟨hadds.front,hadds.pairs⟩
  · rintro ⟨hfront,hpairs⟩
    let built := String.ofList (base ++ separator::queryPair name value ++ fragment)
    have htext : built.toList = base ++ separator::queryPair name value ++ fragment :=
      String.toList_ofList
    refine ⟨built,buildSecretQueryUrl_eq_ok.mpr ⟨⟨url,hparse⟩,htext⟩,?_⟩
    rw [← htext] at hfront hpairs hkeepsFragment
    refine ⟨hfront,hkeepsFragment,hpairs,?_,⟨base,separator,_,fragment,hsplit.symm,htext,hseparator,
      queryPair_formText name value⟩,secretQueryUrlCapacity_eq hseparator htext⟩
    -- the checked query had no pair of this name
    have hnone : ∀ pair ∈ (UrlText.read text.toList).pairs, U.decodeUtf8Lossy pair.1 ≠ name := by
      intro pair hpair heq
      rw [rejectQueryConflict,bailIf_eq_ok,hU.queryPairs hparse] at hconflict
      exact hconflict (List.any_eq_true.mpr ⟨_,List.mem_map_of_mem hpair,by simpa using heq⟩)
    rw [hpairs,List.filter_append,List.filter_eq_nil_iff.mpr (by simpa using hnone),List.nil_append]
    simp [hU.decodeUtf8Lossy_utf8]

/-- A parser that knows one text. -/
def oneUrlCrate (text : String) (url : Url) : UrlCrate where
  parse s := if s = text then .ok url else bail "relative URL without a base"
  decodeUtf8Lossy b := (fromUtf8 b).getD "\ufffd"

theorem oneUrlCrate_lawful (text : String) (url : Url)
    (hscheme : ∃ rest, (UrlText.read text.toList).front.map Char.toLower = url.scheme.toList ++ ':'::rest)
    (hpairs : url.queryPairs = (UrlText.read text.toList).pairs.map fun pair =>
      ((fromUtf8 pair.1).getD "\ufffd",(fromUtf8 pair.2).getD "\ufffd")) :
    (oneUrlCrate text url).Lawful := by
  have hparse {s : String} {parsed : Url} (h : (oneUrlCrate text url).parse s = .ok parsed) :
      s = text ∧ parsed = url := by
    change (if s = text then Except.ok url else bail _) = _ at h
    split at h
    · next hs => exact ⟨hs,(Except.ok.inj h).symm⟩
    · cases h
  constructor
  · intro s parsed h
    obtain ⟨rfl,rfl⟩ := hparse h
    exact hscheme
  · intro s parsed h
    obtain ⟨rfl,rfl⟩ := hparse h
    exact hpairs
  · intro s
    change (fromUtf8 (utf8 s)).getD _ = s
    rw [fromUtf8_utf8]
    rfl

/-- A request for one URL whose credential goes into the query parameter `token`. -/
def tokenRequest (url : String) : FetchInput where
  name := "API_TOKEN"
  tier := .standard
  envelope := ⟨"","",""⟩
  dekBlindbox := none
  approval := none
  request := {
    method := "get"
    url := url
    allowedHosts := ["api.example.com"]
    headers := []
    body := none
    inject := .query "token" }

def exampleUrl (queryPairs : List (String × String)) : Url :=
  ⟨"https",some (.domain "api.example.com"),queryPairs⟩

theorem buildSecretQueryUrl_adds_page :
    ∃ built, buildSecretQueryUrl
        (oneUrlCrate "https://api.example.com/v1?page=2#top" (exampleUrl [("page","2")]))
        "https://api.example.com/v1?page=2#top" "token" "s3 cret" = .ok built ∧
      AddsParameter (oneUrlCrate "https://api.example.com/v1?page=2#top" (exampleUrl [("page","2")]))
        "https://api.example.com/v1?page=2#top" "token" "s3 cret" built := by
  have hpairs : (UrlText.read "https://api.example.com/v1?page=2#top".toList).pairs =
      [(utf8 "page",utf8 "2")] := by decide +kernel
  have hlawful := oneUrlCrate_lawful "https://api.example.com/v1?page=2#top" (exampleUrl [("page","2")])
    ⟨"//api.example.com/v1".toList,by decide +kernel⟩
    (by rw [hpairs]; simp [exampleUrl])
  have haccept : validateFetchInput
      (oneUrlCrate "https://api.example.com/v1?page=2#top" (exampleUrl [("page","2")]))
      (tokenRequest "https://api.example.com/v1?page=2#top") =
      .ok (exampleUrl [("page","2")],false) := rfl
  exact (buildSecretQueryUrl_adds_iff hlawful haccept rfl).mpr (by decide +kernel)

/-- A space at the end, which the parser trims, ends up in the path that is requested. -/
theorem buildSecretQueryUrl_trailingSpace :
    ¬ ∀ (U : UrlCrate) (_ : U.Lawful) (fetch : FetchInput) (url : Url) (isLoopback : Bool)
      (name value : String), validateFetchInput U fetch = .ok (url,isLoopback) →
      fetch.request.inject = .query name → '\x00' ∉ value.toList →
      ∃ built, buildSecretQueryUrl U fetch.request.url name value = .ok built ∧
        AddsParameter U fetch.request.url name value built := by
  intro hclaim
  have hlawful := oneUrlCrate_lawful "https://api.example.com/v1 " (exampleUrl [])
    ⟨"//api.example.com/v1".toList,by decide +kernel⟩ (by decide +kernel)
  obtain ⟨built,hbuilt,hadds⟩ := hclaim (oneUrlCrate "https://api.example.com/v1 " (exampleUrl []))
    hlawful (tokenRequest "https://api.example.com/v1 ") (exampleUrl []) false "token" "s3cret" rfl rfl
    (by decide)
  have htext := (buildSecretQueryUrl_eq_ok.mp hbuilt).2
  have hfront := hadds.front
  rw [htext] at hfront
  exact absurd hfront (by decide +kernel)

end Avault.Fetch
