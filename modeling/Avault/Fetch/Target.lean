import Avault.Fetch.QueryUrl
import Avault.Foundation.UrlHost

/-! Where a request goes, when its credential has been added to the query of its URL. -/
namespace Avault.Fetch
open Foundation

def webSchemes : List String := ["http","https"]

/-- Scheme and host are read off the text before the query. In a host that is accepted there is no
space and no control character. -/
structure UrlCrate.ReadsHost (U : UrlCrate) : Prop where
  scheme : ∀ {text : String} {url : Url}, U.parse text = .ok url → ':' ∈ (UrlText.read text.toList).front ∧
    url.scheme.toList = (UrlText.schemeText text.toList).map Char.toLower
  visible : ∀ {text : String} {url : Url}, U.parse text = .ok url → url.scheme ∈ webSchemes →
    ∀ c ∈ UrlText.hostText text.toList, UrlText.isControlOrSpace c = false
  host : ∀ {text text' : String} {url url' : Url}, U.parse text = .ok url → U.parse text' = .ok url' →
    url.scheme ∈ webSchemes → url'.scheme = url.scheme →
    UrlText.hostText text'.toList = UrlText.hostText text.toList → url'.host = url.host

section Built

variable {U : UrlCrate} {text name value built : String} {url url' : Url}

/-- A parser that accepts the built text finds the scheme and the host that were checked. -/
theorem buildSecretQueryUrl_target (hU : U.ReadsHost) (hparse : U.parse text = .ok url)
    (hweb : url.scheme ∈ webSchemes) (hbuild : buildSecretQueryUrl U text name value = .ok built)
    (hbuilt : U.parse built = .ok url') : url'.scheme = url.scheme ∧ url'.host = url.host := by
  have htext := (buildSecretQueryUrl_eq_ok.mp hbuild).2
  have hsplit : text.toList.takeWhile (· ≠ '#') ++ text.toList.dropWhile (· ≠ '#') = text.toList :=
    List.takeWhile_append_dropWhile
  have hhash : '#' ∉ text.toList.takeWhile (· ≠ '#') := fun h => by simpa using List.mem_takeWhile_imp h
  have hfragment := UrlText.isFragment_dropWhile text.toList
  obtain ⟨hcolon,hscheme⟩ := hU.scheme hparse
  have hvisible : ∃ c ∈ text.toList.takeWhile (· ≠ '#'), UrlText.isControlOrSpace c = false := by
    refine UrlText.visible_of_front ?_ hfragment
    rw [hsplit]
    exact List.ne_nil_of_mem hcolon
  obtain ⟨hsame,hhost⟩ := UrlText.host_insert hvisible hhash hfragment
    (fun c hc => (queryPair_visible name value c hc).1) (fun h => (queryPair_visible name value '#' h).2 rfl)
    (hsplit.symm ▸ hcolon)
  rw [hsplit,← htext] at hsame hhost
  have hscheme' : url'.scheme = url.scheme := by
    rw [← String.toList_inj,(hU.scheme hbuilt).2,hsame,hscheme]
  refine ⟨hscheme',hU.host hparse hbuilt hweb hscheme' (hhost.resolve_right ?_)⟩
  rintro ⟨c,hc,hcontrol⟩
  have hplain := hU.visible hbuilt (hscheme'.symm ▸ hweb) c hc
  rw [hcontrol] at hplain
  cases hplain

end Built

/-! A parser for URLs of the web whose host is a plain name. -/

def isNameChar (c : Char) : Bool := c.isAlphanum || c == '-' || c == '.'

def plainUrl (text : String) : Url where
  scheme := String.ofList ((UrlText.schemeText text.toList).map Char.toLower)
  host := some (.domain (String.ofList ((UrlText.hostText text.toList).map Char.toLower)))
  queryPairs := (UrlText.read text.toList).pairs.map fun pair =>
    ((fromUtf8 pair.1).getD "\ufffd",(fromUtf8 pair.2).getD "\ufffd")

def plainParse (text : String) : Result Url :=
  if ':' ∈ (UrlText.read text.toList).front ∧ (plainUrl text).scheme ∈ webSchemes ∧
      UrlText.hostText text.toList ≠ [] ∧ (UrlText.hostText text.toList).all isNameChar = true then
    .ok (plainUrl text)
  else bail "invalid domain character"

def plainUrlCrate : UrlCrate := ⟨plainParse,fun b => (fromUtf8 b).getD "\ufffd"⟩

section Plain

variable {text : String} {url : Url}

theorem plainUrlCrate_parse : plainUrlCrate.parse text = plainParse text := by rw [plainUrlCrate]

theorem plainParse_eq_ok (h : plainParse text = .ok url) :
    ':' ∈ (UrlText.read text.toList).front ∧ (UrlText.hostText text.toList).all isNameChar = true ∧
      url = plainUrl text := by
  unfold plainParse at h
  split at h
  · next hc => exact ⟨hc.1,hc.2.2.2,(Except.ok.inj h).symm⟩
  · cases h

theorem plainUrlCrate_parse_of_eq {scheme host : String} {pairs : List (String × String)}
    (hscheme : String.ofList ((UrlText.schemeText text.toList).map Char.toLower) = scheme)
    (hhost : String.ofList ((UrlText.hostText text.toList).map Char.toLower) = host)
    (hpairs : ((UrlText.read text.toList).pairs.map fun pair =>
      ((fromUtf8 pair.1).getD "\ufffd",(fromUtf8 pair.2).getD "\ufffd")) = pairs)
    (hok : ':' ∈ (UrlText.read text.toList).front ∧ scheme ∈ webSchemes ∧ UrlText.hostText text.toList ≠ [] ∧
      (UrlText.hostText text.toList).all isNameChar = true) :
    plainUrlCrate.parse text = .ok ⟨scheme,some (.domain host),pairs⟩ := by
  rw [plainUrlCrate_parse,plainParse,plainUrl,hscheme,hhost,hpairs,if_pos hok]

theorem visible_of_isNameChar {c : Char} (h : isNameChar c = true) : UrlText.isControlOrSpace c = false := by
  have hnone : ∀ n : Fin 33,isNameChar (Char.ofNat n) = false := by decide +kernel
  by_contra hc
  rw [Bool.not_eq_false,UrlText.isControlOrSpace,decide_eq_true_eq] at hc
  have hsmall : c.toNat < 33 := Nat.lt_succ_of_le hc
  have hname := hnone ⟨c.toNat,hsmall⟩
  rw [Char.ofNat_toNat,h] at hname
  cases hname

theorem plainUrlCrate_readsHost : plainUrlCrate.ReadsHost where
  scheme h := by
    rw [plainUrlCrate_parse] at h
    obtain ⟨hcolon,-,rfl⟩ := plainParse_eq_ok h
    rw [plainUrl,String.toList_ofList]
    exact ⟨hcolon,rfl⟩
  visible h _ c hc := by
    rw [plainUrlCrate_parse] at h
    exact visible_of_isNameChar (List.all_eq_true.mp (plainParse_eq_ok h).2.1 c hc)
  host h h' _ _ hsame := by
    rw [plainUrlCrate_parse] at h h'
    obtain ⟨-,-,rfl⟩ := plainParse_eq_ok h
    obtain ⟨-,-,rfl⟩ := plainParse_eq_ok h'
    rw [plainUrl,plainUrl,hsame]

end Plain

/-! A request with a query, a fragment and capital letters in its host. -/

def sampleUrl : String := "https://API.example.com/v1?page=2#top"

def sampleRequest (inject : FetchInject) : FetchRequest where
  method := "get"
  url := sampleUrl
  allowedHosts := ["api.example.com"]
  headers := [("Accept","*/*")]
  body := none
  inject := inject

def sampleTarget : Url := ⟨"https",some (.domain "api.example.com"),[("page","2")]⟩

theorem sampleUrl_parsed : plainUrlCrate.parse sampleUrl = .ok sampleTarget :=
  plainUrlCrate_parse_of_eq (by decide +kernel) (by decide +kernel) (by decide +kernel) (by decide +kernel)

theorem sampleInput_valid {fetch : FetchInput} (hrequest : fetch.request = sampleRequest .bearer ∨
    fetch.request = sampleRequest (.query "token")) : validateFetchInput plainUrlCrate fetch = .ok (sampleTarget,false) := by
  obtain h | h := hrequest
  all_goals
    refine validateFetchInput_eq_ok.mpr ⟨?_,rfl,rfl,?_⟩
    · rw [h]
      exact sampleUrl_parsed
    · rw [h]
      refine ⟨by decide +kernel,by decide +kernel,?_,by decide +kernel⟩
      exact List.forall_mem_singleton.mpr (by decide +kernel)

end Avault.Fetch
