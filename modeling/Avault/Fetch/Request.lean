import Avault.Deliver.Inject
import Avault.Foundation.Net
import Avault.Foundation.UrlText

/-! Fetch requests, and the checks on them before their secret is opened. -/
namespace Avault.Fetch
open Foundation Crypto Deliver

/-! What the `url` crate reports about a text. -/

inductive Host
  | domain (host : String)
  | ipv4 (addr : Ipv4Addr)
  | ipv6 (addr : Ipv6Addr)

structure Url where
  scheme : String
  host : Option Host
  queryPairs : List (String × String)

structure UrlCrate where
  parse : String → Result Url
  /-- Bytes that are not UTF-8 are replaced. -/
  decodeUtf8Lossy : Bytes → String

/-- The text starts with its scheme, and its query is form-urlencoded. -/
structure UrlCrate.Lawful (U : UrlCrate) : Prop where
  scheme : ∀ {text : String} {url : Url}, U.parse text = .ok url →
    ∃ rest, (UrlText.read text.toList).front.map Char.toLower = url.scheme.toList ++ ':'::rest
  queryPairs : ∀ {text : String} {url : Url}, U.parse text = .ok url →
    url.queryPairs = (UrlText.read text.toList).pairs.map fun pair =>
      (U.decodeUtf8Lossy pair.1,U.decodeUtf8Lossy pair.2)
  decodeUtf8Lossy_utf8 : ∀ s, U.decodeUtf8Lossy (utf8 s) = s

inductive FetchInject
  | bearer
  | header (name : String)
  | query (name : String)
deriving DecidableEq, Repr

structure FetchRequest where
  method : String
  url : String
  allowedHosts : List String
  /-- A `BTreeMap`, in the order of its keys. -/
  headers : List (String × String)
  body : Option String
  inject : FetchInject
deriving DecidableEq, Repr

structure FetchInput where
  name : String
  tier : SecretTier
  envelope : Sealed
  dekBlindbox : Option BlindBox
  approval : Option JsonValue
  request : FetchRequest
deriving DecidableEq, Repr

def fetchUrlHost (url : Url) : Option String :=
  url.host.map fun
    | .domain host => host
    | .ipv4 addr => Ipv4Addr.toText addr
    | .ipv6 addr => Ipv6Addr.toText addr

def isLoopbackUrl (url : Url) : Bool :=
  match url.host with
  | some (.domain host) => eqIgnoreAsciiCase host "localhost"
  | some (.ipv4 addr) => Ipv4Addr.isLoopback addr
  | some (.ipv6 addr) => Ipv6Addr.isLoopback addr
  | none => false

def validateFetchUrl (url : Url) : Result Unit :=
  if url.scheme = "https" then .ok ()
  else if url.scheme = "http" then
    if isLoopbackUrl url then .ok () else bail "refusing to attach a credential over plaintext HTTP"
  else bail "fetch URL scheme must be https, or http for loopback"

def validateAllowedHost (host : String) : Result Unit := do
  bailIf (trim host = "" ∨ trim host ≠ host ∨
    ("/\\@[]\r\n?#".toList.any fun c => host.toList.contains c) = true) "invalid fetch allowed host"
  bailIf (':' ∈ host.toList ∧ parseIpv6Addr host = none) "invalid fetch allowed host"

def validateAllowedFetchHost (url : Url) (allowedHosts : List String) : Result Unit := do
  bailIf (allowedHosts = []) "fetch allowed_hosts is required"
  allowedHosts.forM validateAllowedHost
  let host ← orError "fetch url host is required" (fetchUrlHost url)
  bailIf ((allowedHosts.any fun allowed => eqIgnoreAsciiCase host allowed) = false)
    "fetch host is not allowed"

def isAsciiAlphabetic (b : UInt8) : Bool := (0x41 ≤ b && b ≤ 0x5a) || (0x61 ≤ b && b ≤ 0x7a)

def validateFetchMethod (method : String) : Result Unit := do
  let method := toAsciiUppercase method
  bailIf (method = "" ∨ (utf8 method).any (fun byte => !isAsciiAlphabetic byte) = true)
    "invalid fetch method"
  bailIf (method ∈ ["TRACE","TRACK","CONNECT"]) "fetch method is not allowed"

def isHttpControlByte (byte : UInt8) : Bool := byte < 0x20 || byte == 0x7f

def isHeaderTokenByte (byte : UInt8) : Bool :=
  byte ∈ utf8 "!#$%&'*+-.^_`|~" || (0x30 ≤ byte && byte ≤ 0x39) || isAsciiAlphabetic byte

def validateHeaderName (name : String) : Result Unit :=
  bailIf (name = "" ∨ eqIgnoreAsciiCase name "host" = true ∨
    (utf8 name).any (fun byte => !isHeaderTokenByte byte) = true) "invalid fetch header name"

def validateHeader (name value : String) : Result Unit := do
  validateHeaderName name
  bailIf ((utf8 value).any isHttpControlByte = true) "invalid fetch header value"

def rejectHeaderConflict (headers : List (String × String)) (injectedName : String) : Result Unit :=
  bailIf (headers.any (fun header => eqIgnoreAsciiCase header.1 injectedName) = true)
    "fetch request already contains injected header"

def validateQueryName (name : String) : Result Unit :=
  bailIf (name = "" ∨ '\r' ∈ name.toList ∨ '\n' ∈ name.toList) "invalid fetch query parameter name"

def rejectQueryConflict (url : Url) (injectedName : String) : Result Unit :=
  bailIf (url.queryPairs.any (fun pair => pair.1 == injectedName) = true)
    "fetch request already contains injected query parameter"

def validateFetchInject (url : Url) (request : FetchRequest) : Result Unit :=
  match request.inject with
  | .bearer => rejectHeaderConflict request.headers "Authorization"
  | .header name => do
    validateHeaderName name
    rejectHeaderConflict request.headers name
  | .query name => do
    validateQueryName name
    rejectQueryConflict url name

def validateFetchInput (U : UrlCrate) (fetch : FetchInput) : Result (Url × Bool) := do
  let url ← context "fetch url is invalid" (U.parse fetch.request.url)
  let isLoopback := isLoopbackUrl url
  validateFetchUrl url
  validateAllowedFetchHost url fetch.request.allowedHosts
  validateFetchMethod fetch.request.method
  fetch.request.headers.forM fun header => validateHeader header.1 header.2
  validateFetchInject url fetch.request
  return (url,isLoopback)

/-! What the checks amount to. -/

section Checks

variable {U : UrlCrate} {fetch : FetchInput} {url : Url} {isLoopback : Bool}

theorem validateFetchInput_eq_ok : validateFetchInput U fetch = .ok (url,isLoopback) ↔
    U.parse fetch.request.url = .ok url ∧ isLoopback = isLoopbackUrl url ∧
      validateFetchUrl url = .ok () ∧
      validateAllowedFetchHost url fetch.request.allowedHosts = .ok () ∧
      validateFetchMethod fetch.request.method = .ok () ∧
      (∀ header ∈ fetch.request.headers, validateHeader header.1 header.2 = .ok ()) ∧
      validateFetchInject url fetch.request = .ok () := by
  simp only [validateFetchInput,bind_eq_ok,context_eq_ok,forM_eq_ok]
  constructor
  · rintro ⟨_,hparse,_,hurl,_,hhost,_,hmethod,_,hheaders,_,hinject,⟨⟩⟩
    exact ⟨hparse,rfl,hurl,hhost,hmethod,hheaders,hinject⟩
  · rintro ⟨hparse,rfl,hurl,hhost,hmethod,hheaders,hinject⟩
    exact ⟨url,hparse,(),hurl,(),hhost,(),hmethod,(),hheaders,(),hinject,rfl⟩

end Checks

end Avault.Fetch
