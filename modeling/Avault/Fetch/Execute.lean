import Avault.Deliver.Inject
import Avault.Fetch.Redaction
import Avault.Fetch.Target
import Avault.Foundation.Program

/-! Sending a fetch request with its credential. -/
namespace Avault.Fetch
open Foundation Crypto Deliver
open Foundation.Program (Fallible liftResult mapResult Ensures ensures_check ensures_liftResult
  ensures_mapResult)

def fetchConnectTimeoutSecs : ℕ := 10
def fetchTotalTimeoutSecs : ℕ := 30

/-- A request as `ureq` is given it, by the agent that is built for it. Timeouts are in seconds. -/
structure HttpRequest where
  redirects : ℕ
  timeoutConnect : ℕ
  timeoutRead : ℕ
  timeoutWrite : ℕ
  timeout : ℕ
  proxyFromEnv : Bool
  method : String
  url : String
  /-- The arguments of the `set` calls, in order. -/
  headers : List (String × String)
  body : Option String
deriving DecidableEq, Repr

structure HttpResponse where
  status : ℕ
  /-- The names that `headers_names` lists, each with the text that `header` finds. -/
  headers : List (String × Option String)
  /-- What reading the body up to one byte over the limit yields. -/
  body : Result Bytes

structure FetchOutput where
  status : ℕ
  /-- A `BTreeMap`, in the order of its keys. -/
  headers : List (String × String)
  body : String
deriving DecidableEq, Repr

def fetchHeaderCredentialBytes (bytes : Bytes) (label : String) : Result Bytes := do
  let trimmed := if bytes.getLast? ∈ [some 0x0d,some 0x0a] then bytes.dropLast else bytes
  bailIf (trimmed.any (fun byte => 0x80 ≤ byte) = true) (label ++ " contains non-ASCII byte")
  bailIf (trimmed.any isHttpControlByte = true) (label ++ " contains invalid HTTP header byte")
  return trimmed

/-- Where the credential goes: a header to set, the URL to request, and what to redact. -/
structure Injection where
  secretHeader : Option (String × String)
  targetUrl : String
  redactionNeedles : List Bytes
deriving DecidableEq, Repr

def injectHeader (url name before : String) (credential : Bytes) (label : String) : Result Injection := do
  let secretText ← context (label ++ " is not valid UTF-8")
    (orError "invalid utf-8 sequence" (fromUtf8 credential))
  return ⟨some (name,before ++ secretText),url,if credential = [] then [] else [credential]⟩

/-- The `match` of `execute_fetch_request`. -/
def injectSecret (U : UrlCrate) (request : FetchRequest) (secret : Bytes) : Result Injection :=
  match request.inject with
  | .bearer => do
    let credential ← fetchHeaderCredentialBytes secret "fetch bearer credential"
    injectHeader request.url "Authorization" "Bearer " credential "fetch bearer credential"
  | .header name => do
    let credential ← fetchHeaderCredentialBytes secret "fetch header credential"
    injectHeader request.url name "" credential "fetch header credential"
  | .query name => do
    let secretText ← secretUtf8 secret "fetch query credential"
    let targetUrl ← buildSecretQueryUrl U request.url name secretText
    return ⟨none,targetUrl,
      if secret = [] then [] else [secret,utf8 (pushQueryEncoded "" secretText)]⟩

/-- `BTreeMap::insert`. -/
def insertSorted (key value : String) : List (String × String) → List (String × String)
  | [] => [(key,value)]
  | (k,v)::map =>
    if key < k then (key,value)::(k,v)::map
    else if key = k then (key,value)::map
    else (k,v)::insertSorted key value map

def redactResponseHeaders (needles : List Bytes) (headers : List (String × Option String)) :
    Result (List (String × String)) :=
  headers.foldlM (fun map header =>
    match header.2 with
    | none => .ok map
    | some value => do
      let name ← redactFetchHeaderText header.1 needles
      let value ← redactFetchHeaderText value needles
      return insertSorted name value map) []

def readCappedFetchBody (body : Result Bytes) (needles : List Bytes) : Result String := do
  let body ← mapError (fun _ => [.message "failed to read fetch response body"]) body
  bailIf (body.length > maxFetchBodyBytes) "fetch response body exceeds size limit"
  match redactFetchBody body needles with
  | (.error e,_) => .error e
  | (.ok (),body) => orError "fetch response body is not valid UTF-8" (fromUtf8 body)

def fetchOutput (needles : List Bytes) (response : HttpResponse) : Result FetchOutput := do
  let headers ← redactResponseHeaders needles response.headers
  let body ← readCappedFetchBody response.body needles
  return ⟨response.status,headers,body⟩

section Send

variable {Op : Type} {Reply : Op → Type} (U : UrlCrate)
  (send : HttpRequest → Fallible Op Reply Error HttpResponse)

/-- The request that `perform_fetch` sends. -/
def httpRequest (request : FetchRequest) (injection : Injection) (isLoopback : Bool) : HttpRequest where
  redirects := 0
  timeoutConnect := fetchConnectTimeoutSecs
  timeoutRead := fetchTotalTimeoutSecs
  timeoutWrite := fetchTotalTimeoutSecs
  timeout := fetchTotalTimeoutSecs
  proxyFromEnv := !isLoopback
  method := toAsciiUppercase request.method
  url := injection.targetUrl
  headers := request.headers ++ injection.secretHeader.toList
  body := request.body

def performFetch (request : FetchRequest) (injection : Injection) (isLoopback : Bool) :
    Fallible Op Reply Error FetchOutput := do
  let response ← send (httpRequest request injection isLoopback)
  liftResult (fetchOutput injection.redactionNeedles response)

def executeFetchRequest (request : FetchRequest) (secret : Bytes) (isLoopback : Bool) :
    Fallible Op Reply Error FetchOutput := do
  let injection ← liftResult (injectSecret U request secret)
  mapResult (context "fetch request failed") (performFetch send request injection isLoopback)

/-- The only call is that which sends the request with the credential in it. -/
theorem executeFetchRequest_ensures {σ : Type} {T : Program.Transformer Op Reply σ} {s : σ}
    {request : FetchRequest} {secret : Bytes} {isLoopback : Bool}
    (hsend : ∀ injection, injectSecret U request secret = .ok injection →
      Ensures T (send (httpRequest request injection isLoopback)) s fun _ _ => True) :
    Ensures T (executeFetchRequest U send request secret isLoopback) s fun _ _ => True := by
  refine ensures_check.mpr ⟨fun injection hinjection => ?_,fun _ _ => trivial⟩
  rw [ensures_mapResult,performFetch]
  exact (hsend injection hinjection).bind (fun _ _ _ => ensures_liftResult.mpr trivial) fun _ _ _ => trivial

end Send

/-- What the sample request becomes when its credential goes into the query. -/
def sampleInjection : Injection where
  secretHeader := none
  targetUrl := "https://API.example.com/v1?page=2&token=s3+cret#top"
  redactionNeedles := [utf8 "s3 cret",utf8 "s3+cret"]

theorem injectSecret_sample :
    injectSecret plainUrlCrate (sampleRequest (.query "token")) (utf8 "s3 cret") = .ok sampleInjection := by
  have hsecret : secretUtf8 (utf8 "s3 cret") "fetch query credential" = .ok "s3 cret" := by decide +kernel
  have hbuilt : buildSecretQueryUrl plainUrlCrate sampleUrl "token" "s3 cret" = .ok sampleInjection.targetUrl :=
    buildSecretQueryUrl_eq_ok.mpr ⟨⟨sampleTarget,sampleUrl_parsed⟩,by decide +kernel⟩
  have hneedle : utf8 (pushQueryEncoded "" "s3 cret") = utf8 "s3+cret" := by decide +kernel
  have hsome : utf8 "s3 cret" ≠ [] := by decide
  simp only [injectSecret,sampleRequest,hsecret,ok_bind,hbuilt,hneedle,if_neg hsome]
  rfl

theorem sampleInjection_parsed : plainUrlCrate.parse sampleInjection.targetUrl =
    .ok ⟨"https",some (.domain "api.example.com"),[("page","2"),("token","s3 cret")]⟩ :=
  plainUrlCrate_parse_of_eq (by decide +kernel) (by decide +kernel) (by decide +kernel) (by decide +kernel)

end Avault.Fetch
