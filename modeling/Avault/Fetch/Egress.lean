import Mathlib
import Avault.Fetch.Execute
import Avault.Fetch.Target

/-! What a checked request sends, and where. -/
namespace Avault.Fetch
open Foundation Crypto Deliver

/-- The URL leads over TLS or to a loopback host, to a host that the request allows. -/
structure AllowedTarget (request : FetchRequest) (url : Url) : Prop where
  scheme : url.scheme = "https" ∨ url.scheme = "http" ∧ isLoopbackUrl url = true
  host : ∃ host, fetchUrlHost url = some host ∧ ∃ allowed ∈ request.allowedHosts, eqIgnoreAsciiCase host allowed = true

/-- Letters only, and none of the methods that reflect the request or open a tunnel. -/
structure PlainMethod (method : String) : Prop where
  letters : method ≠ "" ∧ ∀ byte ∈ utf8 method, isAsciiAlphabetic byte = true
  allowed : ∀ forbidden ∈ ["TRACE","TRACK","CONNECT"], eqIgnoreAsciiCase method forbidden = false

/-- The request asks for an allowed target by a plain method. -/
structure Confined (U : UrlCrate) (request : FetchRequest) : Prop where
  target : ∃ url, U.parse request.url = .ok url ∧ AllowedTarget request url
  method : PlainMethod request.method

/-- The header cannot end early, and does not name the host. -/
structure SafeHeader (header : String × String) : Prop where
  token : header.1 ≠ "" ∧ ∀ byte ∈ utf8 header.1, isHeaderTokenByte byte = true
  notHost : eqIgnoreAsciiCase header.1 "host" = false
  value : ∀ byte ∈ utf8 header.2, ¬ byte < 0x20 ∧ byte ≠ 0x7f

/-- Just one header has this name, and this value. -/
def OnlyHeader (headers : List (String × String)) (name : String) (value : Bytes) : Prop :=
  ∃ text, utf8 text = value ∧ headers.filter (fun header => eqIgnoreAsciiCase header.1 name) = [(name,text)]

/-- The credential is where it was to be injected, which is one header or else the query of the
URL. The rest is as requested. -/
def CarriesCredential (U : UrlCrate) (request : FetchRequest) (secret : Bytes) (sent : HttpRequest) : Prop :=
  match request.inject with
  | .bearer => sent.url = request.url ∧ ∃ credential,
    fetchHeaderCredentialBytes secret "fetch bearer credential" = .ok credential ∧
    OnlyHeader sent.headers "Authorization" (utf8 "Bearer " ++ credential)
  | .header name => sent.url = request.url ∧ ∃ credential,
    fetchHeaderCredentialBytes secret "fetch header credential" = .ok credential ∧
    OnlyHeader sent.headers name credential
  | .query name => sent.headers = request.headers ∧ ∃ credential,
    secretUtf8 secret "fetch query credential" = .ok credential ∧
    buildSecretQueryUrl U request.url name credential = .ok sent.url

/-- What is sent, for a request that was checked. -/
structure SafeRequest (U : UrlCrate) (request : FetchRequest) (secret : Bytes) (sent : HttpRequest) : Prop where
  confined : Confined U request
  /-- The URL that is asked for leads to the scheme and the host that were checked. -/
  target : ∃ url, U.parse request.url = .ok url ∧ sent.proxyFromEnv = !isLoopbackUrl url ∧
    (U.ReadsHost → ∀ url', U.parse sent.url = .ok url' → url'.scheme = url.scheme ∧ url'.host = url.host ∧
      AllowedTarget request url')
  method : sent.method = toAsciiUppercase request.method ∧ PlainMethod sent.method
  body : sent.body = request.body
  noRedirect : sent.redirects = 0
  headers : ∀ header ∈ sent.headers, SafeHeader header
  credential : CarriesCredential U request secret sent

section Case

theorem map_toUpper_congr {s t : List Char} (h : s.map Char.toLower = t.map Char.toLower) :
    s.map Char.toUpper = t.map Char.toUpper := by
  have hmap (s : List Char) : s.map Char.toUpper = (s.map Char.toLower).map Char.toUpper := by
    simp [Function.comp_def,Char.toUpper_toLower_eq_toUpper]
  rw [hmap s,hmap t,h]

theorem toAsciiUppercase_congr {s t : String} (h : eqIgnoreAsciiCase s t = true) :
    toAsciiUppercase s = toAsciiUppercase t :=
  congrArg String.ofList (map_toUpper_congr (beq_iff_eq.mp h))

/-- A character that is no letter after being put in upper case was none before. -/
theorem alphabetic_of_toUpper {c : Char}
    (h : ∀ byte ∈ String.utf8EncodeChar c.toUpper, isAsciiAlphabetic byte = true) :
    ∀ byte ∈ String.utf8EncodeChar c, isAsciiAlphabetic byte = true := by
  by_cases hc : c.val ≥ 'a'.val ∧ c.val ≤ 'z'.val
  · have hlow : 97 ≤ c.toNat := hc.1
    have hhigh : c.toNat ≤ 122 := hc.2
    have hcode (n : ℕ) (hn : n < 123) (hn' : 97 ≤ n) :
        (String.utf8EncodeChar (Char.ofNat n)).all isAsciiAlphabetic = true := by
      revert n
      decide +kernel
    have hn := hcode c.toNat (Nat.lt_succ_of_le hhigh) hlow
    rw [Char.ofNat_toNat] at hn
    exact List.all_eq_true.mp hn
  · have hsame : c.toUpper = c := dif_neg hc
    rwa [hsame] at h

end Case

section Checks

variable {U : UrlCrate} {request : FetchRequest} {fetch : FetchInput} {url : Url} {isLoopback : Bool}
  {name value method : String} {headers : List (String × String)}

theorem validateFetchUrl_eq_ok : validateFetchUrl url = .ok () ↔
    url.scheme = "https" ∨ url.scheme = "http" ∧ isLoopbackUrl url = true := by
  unfold validateFetchUrl
  by_cases hhttps : url.scheme = "https"
  · simp [hhttps]
  by_cases hhttp : url.scheme = "http"
  · by_cases hloopback : isLoopbackUrl url = true <;> simp [hhttp,hloopback]
  · simp [hhttps,hhttp]

theorem validateAllowedFetchHost_allowed {allowedHosts : List String}
    (h : validateAllowedFetchHost url allowedHosts = .ok ()) : ∃ host, fetchUrlHost url = some host ∧
      ∃ allowed ∈ allowedHosts, eqIgnoreAsciiCase host allowed = true := by
  simp only [validateAllowedFetchHost,bind_eq_ok,bailIf_eq_ok,orError_eq_ok,Bool.not_eq_false,
    List.any_eq_true] at h
  obtain ⟨_,_,_,_,host,hhost,hallowed⟩ := h
  exact ⟨host,hhost,hallowed⟩

theorem toAsciiUppercase_idem (method : String) :
    toAsciiUppercase (toAsciiUppercase method) = toAsciiUppercase method := by
  refine toAsciiUppercase_congr (beq_iff_eq.mpr ?_)
  simp [toAsciiUppercase,Function.comp_def,Char.toLower_toUpper_eq_toLower]

/-- The checks look at the method in upper case only. -/
theorem validateFetchMethod_upper (method : String) :
    validateFetchMethod (toAsciiUppercase method) = validateFetchMethod method := by
  rw [validateFetchMethod,validateFetchMethod,toAsciiUppercase_idem]

theorem validateFetchMethod_plain (h : validateFetchMethod method = .ok ()) : PlainMethod method := by
  simp only [validateFetchMethod,bind_eq_ok,bailIf_eq_ok,not_or] at h
  obtain ⟨_,⟨hne,hletters⟩,hallowed⟩ := h
  refine ⟨⟨fun hempty => hne (by rw [hempty]; rfl),fun byte hbyte => ?_⟩,fun forbidden hforbidden => ?_⟩
  · obtain ⟨c,hc,hbyte⟩ := List.mem_flatMap.mp hbyte
    refine alphabetic_of_toUpper (fun upper hupper => ?_) byte hbyte
    have hmem : upper ∈ utf8 (toAsciiUppercase method) := by
      rw [utf8,toAsciiUppercase,String.toList_ofList]
      exact List.mem_flatMap.mpr ⟨_,List.mem_map_of_mem hc,hupper⟩
    by_contra hother
    exact hletters (List.any_eq_true.mpr ⟨upper,hmem,by simpa using hother⟩)
  · by_contra hsame
    have hupper := toAsciiUppercase_congr (Bool.not_eq_false _ ▸ hsame)
    have hfixed : ∀ forbidden ∈ ["TRACE","TRACK","CONNECT"], toAsciiUppercase forbidden = forbidden := by decide
    exact hallowed (hupper.trans (hfixed forbidden hforbidden) ▸ hforbidden)

theorem safeHeader_of_name (hname : validateHeaderName name = .ok ())
    (hvalue : ∀ byte ∈ utf8 value, ¬ byte < 0x20 ∧ byte ≠ 0x7f) : SafeHeader (name,value) := by
  simp only [validateHeaderName,bailIf_eq_ok,not_or,List.any_eq_true,not_exists,not_and,Bool.not_eq_true] at hname
  obtain ⟨hne,hhost,htoken⟩ := hname
  exact ⟨⟨hne,fun byte hbyte => by simpa using htoken byte hbyte⟩,hhost,hvalue⟩

theorem validateHeader_safe (h : validateHeader name value = .ok ()) : SafeHeader (name,value) := by
  simp only [validateHeader,bind_eq_ok,bailIf_eq_ok,List.any_eq_true,not_exists,not_and] at h
  obtain ⟨_,hname,hvalue⟩ := h
  exact safeHeader_of_name hname fun byte hbyte => by simpa [isHttpControlByte] using hvalue byte hbyte

/-- A header that no other one has the name of is the only one once it is set. -/
theorem onlyHeader_append (text : String) (h : rejectHeaderConflict headers name = .ok ()) :
    OnlyHeader (headers ++ [(name,text)]) name (utf8 text) := by
  have hnone : headers.filter (fun header => eqIgnoreAsciiCase header.1 name) = [] := by
    simpa [rejectHeaderConflict] using h
  refine ⟨text,rfl,?_⟩
  rw [List.filter_append,hnone,List.filter_singleton]
  simp [eqIgnoreAsciiCase]

theorem fetchHeaderCredentialBytes_safe {bytes credential : Bytes} {label : String}
    (h : fetchHeaderCredentialBytes bytes label = .ok credential) :
    ∀ byte ∈ credential, ¬ byte < 0x20 ∧ byte ≠ 0x7f := by
  simp only [fetchHeaderCredentialBytes,bind_eq_ok,bailIf_eq_ok,pure_eq_ok,Except.ok.injEq] at h
  obtain ⟨_,_,_,hcontrol,rfl⟩ := h
  intro byte hbyte
  by_contra hbad
  exact hcontrol (List.any_eq_true.mpr ⟨byte,hbyte,by simpa [isHttpControlByte,or_iff_not_imp_left] using hbad⟩)

theorem injectHeader_eq_ok {before label : String} {credential : Bytes} {injection : Injection} {target : String}
    (h : injectHeader target name before credential label = .ok injection) : injection.targetUrl = target ∧
      ∃ text, utf8 text = credential ∧ injection.secretHeader = some (name,before ++ text) := by
  simp only [injectHeader,bind_eq_ok,context_eq_ok,orError_eq_ok,fromUtf8_eq_some,pure_eq_ok,Except.ok.injEq] at h
  obtain ⟨text,htext,rfl⟩ := h
  exact ⟨rfl,text,htext.symm,rfl⟩

theorem AllowedTarget.congr {url' : Url} {request : FetchRequest} (h : AllowedTarget request url)
    (hscheme : url'.scheme = url.scheme) (hhost : url'.host = url.host) : AllowedTarget request url' := by
  refine ⟨?_,?_⟩
  · rw [hscheme,isLoopbackUrl,hhost]
    exact h.scheme
  · rw [fetchUrlHost,hhost]
    exact h.host

theorem validateFetchInput_target {target : Url × Bool} (h : validateFetchInput U fetch = .ok target) :
    U.parse fetch.request.url = .ok target.1 ∧ target.2 = isLoopbackUrl target.1 ∧
      AllowedTarget fetch.request target.1 := by
  obtain ⟨hparse,hloopback,hurl,hhost,-,-,-⟩ := validateFetchInput_eq_ok.mp h
  exact ⟨hparse,hloopback,validateFetchUrl_eq_ok.mp hurl,validateAllowedFetchHost_allowed hhost⟩

theorem validateFetchInput_confined {target : Url × Bool} (h : validateFetchInput U fetch = .ok target) :
    Confined U fetch.request := by
  obtain ⟨-,-,-,-,hmethod,-,-⟩ := validateFetchInput_eq_ok.mp h
  obtain ⟨hparse,-,hallowed⟩ := validateFetchInput_target h
  exact ⟨⟨target.1,hparse,hallowed⟩,validateFetchMethod_plain hmethod⟩

/-- The URL that is asked for leads where the URL that was checked does. -/
theorem injectSecret_target {target : Url × Bool} {secret : Bytes} {injection : Injection} {url' : Url}
    (hU : U.ReadsHost) (hvalid : validateFetchInput U fetch = .ok target)
    (hinject : injectSecret U fetch.request secret = .ok injection) (hurl : U.parse injection.targetUrl = .ok url') :
    url'.scheme = target.1.scheme ∧ url'.host = target.1.host := by
  obtain ⟨hparse,-,hallowed⟩ := validateFetchInput_target hvalid
  have hsame (h : injection.targetUrl = fetch.request.url) : url'.scheme = target.1.scheme ∧ url'.host = target.1.host := by
    rw [h,hparse] at hurl
    obtain rfl := Except.ok.inj hurl
    exact ⟨rfl,rfl⟩
  cases hmode : fetch.request.inject with
  | bearer =>
    simp only [injectSecret,hmode,bind_eq_ok] at hinject
    obtain ⟨_,_,hinjected⟩ := hinject
    exact hsame (injectHeader_eq_ok hinjected).1
  | header name =>
    simp only [injectSecret,hmode,bind_eq_ok] at hinject
    obtain ⟨_,_,hinjected⟩ := hinject
    exact hsame (injectHeader_eq_ok hinjected).1
  | query name =>
    simp only [injectSecret,hmode,bind_eq_ok,pure_eq_ok,Except.ok.injEq] at hinject
    obtain ⟨_,_,built,hbuilt,rfl⟩ := hinject
    have hweb : target.1.scheme ∈ webSchemes := by
      obtain hscheme | ⟨hscheme,-⟩ := hallowed.scheme <;> rw [hscheme] <;> decide
    exact buildSecretQueryUrl_target hU hparse hweb hbuilt hurl

/-- Where the credential ends up, and that every header is one that was checked. -/
theorem injectSecret_carries (isLoopback : Bool) {target : Url × Bool} {secret : Bytes} {injection : Injection}
    (hvalid : validateFetchInput U fetch = .ok target) (hinject : injectSecret U fetch.request secret = .ok injection) :
    (∀ header ∈ (httpRequest fetch.request injection isLoopback).headers, SafeHeader header) ∧
      CarriesCredential U fetch.request secret (httpRequest fetch.request injection isLoopback) := by
  obtain ⟨_,_,_,_,_,hheaders,hfree⟩ := validateFetchInput_eq_ok.mp hvalid
  have hcaller : ∀ header ∈ fetch.request.headers, SafeHeader header :=
    fun header hheader => validateHeader_safe (hheaders header hheader)
  have hsafe (header : String × String) (hheader : SafeHeader header) :
      ∀ sent ∈ fetch.request.headers ++ [header], SafeHeader sent := by
    intro sent hsent
    obtain hsent | hsent := List.mem_append.mp hsent
    · exact hcaller sent hsent
    · exact List.mem_singleton.mp hsent ▸ hheader
  cases hmode : fetch.request.inject with
  | bearer =>
    simp only [injectSecret,hmode,bind_eq_ok] at hinject
    obtain ⟨credential,hcredential,hinjected⟩ := hinject
    obtain ⟨htarget,text,htext,hheader⟩ := injectHeader_eq_ok hinjected
    simp only [validateFetchInject,hmode] at hfree
    have hsecret : SafeHeader ("Authorization","Bearer " ++ text) := by
      refine safeHeader_of_name (by decide) fun byte hbyte => ?_
      rw [utf8_append,htext] at hbyte
      obtain hbyte | hbyte := List.mem_append.mp hbyte
      · have hbearer : (utf8 "Bearer ").all (fun byte => !decide (byte < 0x20) && byte != 0x7f) = true := by decide
        simpa using List.all_eq_true.mp hbearer byte hbyte
      · exact fetchHeaderCredentialBytes_safe hcredential byte hbyte
    have honly := onlyHeader_append ("Bearer " ++ text) hfree
    rw [utf8_append,htext] at honly
    refine ⟨?_,?_⟩
    · simpa only [httpRequest,hheader,Option.toList_some] using hsafe _ hsecret
    · simp only [CarriesCredential,hmode,httpRequest,hheader,Option.toList_some]
      exact ⟨htarget,credential,hcredential,honly⟩
  | header name =>
    simp only [injectSecret,hmode,bind_eq_ok] at hinject
    obtain ⟨credential,hcredential,hinjected⟩ := hinject
    obtain ⟨htarget,text,htext,hheader⟩ := injectHeader_eq_ok hinjected
    simp only [validateFetchInject,hmode,bind_eq_ok] at hfree
    obtain ⟨_,hname,hfree⟩ := hfree
    rw [String.empty_append] at hheader
    have hsecret : SafeHeader (name,text) := safeHeader_of_name hname fun byte hbyte =>
      fetchHeaderCredentialBytes_safe hcredential byte (htext ▸ hbyte)
    have honly := onlyHeader_append text hfree
    rw [htext] at honly
    refine ⟨?_,?_⟩
    · simpa only [httpRequest,hheader,Option.toList_some] using hsafe _ hsecret
    · simp only [CarriesCredential,hmode,httpRequest,hheader,Option.toList_some]
      exact ⟨htarget,credential,hcredential,honly⟩
  | query name =>
    simp only [injectSecret,hmode,bind_eq_ok,pure_eq_ok,Except.ok.injEq] at hinject
    obtain ⟨credential,hcredential,built,hbuilt,rfl⟩ := hinject
    have hsame : fetch.request.headers ++ (none : Option (String × String)).toList = fetch.request.headers :=
      List.append_nil _
    refine ⟨?_,?_⟩
    · simpa only [httpRequest,hsame] using hcaller
    · simp only [CarriesCredential,hmode,httpRequest,hsame]
      exact ⟨trivial,credential,hcredential,hbuilt⟩

/-- What is sent with an injected credential. -/
theorem safeRequest {target : Url × Bool} {secret : Bytes} {injection : Injection}
    (hvalid : validateFetchInput U fetch = .ok target) (hinject : injectSecret U fetch.request secret = .ok injection) :
    SafeRequest U fetch.request secret (httpRequest fetch.request injection target.2) := by
  obtain ⟨hparse,hloopback,hallowed⟩ := validateFetchInput_target hvalid
  obtain ⟨-,-,-,-,hmethod,-,-⟩ := validateFetchInput_eq_ok.mp hvalid
  obtain ⟨hheaders,hcredential⟩ := injectSecret_carries target.2 hvalid hinject
  refine ⟨validateFetchInput_confined hvalid,⟨target.1,hparse,?_,fun hU url' hurl => ?_⟩,⟨rfl,?_⟩,rfl,rfl,hheaders,
    hcredential⟩
  · rw [httpRequest,hloopback]
  · obtain ⟨hscheme,hhost⟩ := injectSecret_target hU hvalid hinject hurl
    exact ⟨hscheme,hhost,hallowed.congr hscheme hhost⟩
  · exact validateFetchMethod_plain ((validateFetchMethod_upper _).trans hmethod)

end Checks
end Avault.Fetch
