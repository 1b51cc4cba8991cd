import Avault.Agent.HelperFrame
import Avault.Crypto.BlindBox
import Avault.Crypto.ProtectedRecord
import Avault.Foundation.Shell

/-! Secrets as a delivery request names them, and the file that `deliver inject` writes. -/
namespace Avault.Deliver
open Foundation Crypto Agent

inductive SecretTier
  | standard
  | «protected»
deriving DecidableEq, Repr

/-- A `serde_json::Value`, as its text; only whether there is one matters. -/
abbrev JsonValue := String

structure EnvSecretInput where
  name : String
  env : String
  tier : SecretTier
  envelope : Sealed
  dekBlindbox : Option BlindBox
  approval : Option JsonValue
deriving DecidableEq, Repr

structure NamedSecretInput where
  name : String
  tier : SecretTier
  env : Option String
  key : Option String
  envelope : Sealed
  dekBlindbox : Option BlindBox
  approval : Option JsonValue
deriving DecidableEq, Repr

def rejectOneShotProtectedFields (dekBlindbox : Option BlindBox) (approval : Option JsonValue) :
    Result Unit :=
  bailIf (dekBlindbox.isSome ∨ approval.isSome) "protected DEK blind boxes require the resident agent"

def ensureOneShotStandardTier (tier : SecretTier) : Result Unit :=
  bailIf (tier ≠ .standard) "one-shot delivery is standard-tier only"

/-- `secret_utf8`. -/
def secretUtf8 (bytes : Bytes) (label : String) : Result String := do
  bailIf (0 ∈ bytes) (label ++ " contains NUL byte")
  context (label ++ " is not valid UTF-8") (orError "invalid utf-8 sequence" (fromUtf8 bytes))

def pushShellQuoted (out : Bytes) (ch : Char) : Bytes :=
  if ch = '\'' then out ++ utf8 "'\\''" else out ++ String.utf8EncodeChar ch

/-- `write_shell_quoted` into a vector, where a write does not fail. -/
def writeShellQuoted (out : Bytes) (value : String) : Bytes :=
  value.toList.foldl pushShellQuoted (out ++ utf8 "'") ++ utf8 "'"

def renderDotenvEntry (out : Bytes) (secret : OpenedSecret) : Result Bytes := do
  let value ← secretUtf8 secret.plaintext "dotenv value"
  return writeShellQuoted (out ++ utf8 secret.name ++ utf8 "=") value ++ utf8 "\n"

def renderDotenv (secrets : List OpenedSecret) : Result Bytes := secrets.foldlM renderDotenvEntry []

def renderJsonEntry (json : JsonText.Serializer) (total : ℕ) (out : Bytes) (entry : OpenedSecret × ℕ) :
    Result Bytes := do
  let (secret,index) := entry
  let value ← secretUtf8 secret.plaintext "json value"
  let out := out ++ utf8 "  " ++ utf8 (json.toText secret.name) ++ utf8 ": " ++ utf8 (json.toText value)
  let out := if index+1 ≠ total then out ++ utf8 "," else out
  return out ++ utf8 "\n"

def renderJson (json : JsonText.Serializer) (secrets : List OpenedSecret) : Result Bytes := do
  let out ← secrets.zipIdx.foldlM (renderJsonEntry json secrets.length) (utf8 "\x7b\n")
  return out ++ utf8 "\x7d\n"

def validateInjectRequest (secrets : List NamedSecretInput) (format : String) : Result String := do
  bailIf (secrets.length = 0) "deliver inject requires at least one secret"
  let format := Crypto.toAsciiLowercase format
  bailIf (format ≠ "dotenv" ∧ format ≠ "json") "deliver inject format is not implemented in P1.1"
  return format

def renderInjectFile (json : JsonText.Serializer) (secrets : List OpenedSecret) (format : String) :
    Result Bytes :=
  if format = "dotenv" then renderDotenv secrets
  else if format = "json" then renderJson json secrets
  else bail "deliver inject format is not implemented in P1.1"

theorem secretUtf8_eq_ok {bytes : Bytes} {label value : String} :
    secretUtf8 bytes label = .ok value ↔ 0 ∉ bytes ∧ bytes = utf8 value := by
  simp [secretUtf8,bind_eq_ok,fromUtf8_eq_some]

/-- The value as it stands in the file. -/
def shellQuoted (value : List Char) : List Char :=
  '\''::value.flatMap (fun ch => if ch = '\'' then "'\\''".toList else [ch]) ++ ['\'']

def dotenvLine (name value : String) : List Char := name.toList ++ '='::shellQuoted value.toList ++ ['\n']

theorem pushShellQuoted_foldl (out : Bytes) (value : List Char) :
    value.foldl pushShellQuoted out = out ++ utf8 (String.ofList
      (value.flatMap fun ch => if ch = '\'' then "'\\''".toList else [ch])) := by
  induction value generalizing out with
  | nil => simp [utf8]
  | cons ch value ih =>
    rw [List.foldl_cons,ih,pushShellQuoted]
    by_cases hch : ch = '\'' <;> simp [hch,utf8]

theorem writeShellQuoted_eq (out : Bytes) (value : String) :
    writeShellQuoted out value = out ++ utf8 (String.ofList (shellQuoted value.toList)) := by
  rw [writeShellQuoted,pushShellQuoted_foldl]
  simp [shellQuoted,utf8]

/-! Reading the file back. -/

section Read

open Shell

variable {r : Reader} {name value label : String}

/-- A quote leaves the quotation, is quoted by the backslash, and enters the quotation again. -/
theorem read_escapedQuote (h : r.mode = .quoted) : r.read "'\\''".toList = some (r.push '\'') := by
  obtain ⟨mode,done,name,value⟩ := r
  cases h
  rfl

theorem read_quotedText (h : r.mode = .quoted) (text : List Char) :
    r.read (text.flatMap fun ch => if ch = '\'' then "'\\''".toList else [ch]) =
      some { r with value := r.value ++ text } := by
  induction text generalizing r with
  | nil => simp
  | cons ch text ih =>
    have hchar : r.read (if ch = '\'' then "'\\''".toList else [ch]) = some (r.push ch) := by
      by_cases hch : ch = '\''
      · rw [if_pos hch,hch]
        exact read_escapedQuote h
      · rw [if_neg hch]
        exact Reader.read_cons (Reader.step_quoted h hch)
    rw [List.flatMap_cons,Reader.read_append hchar]
    exact (ih (r := r.push ch) h).trans (by simp [Reader.push])

/-- A quoted value is read as itself, and leaves the reader unquoted. -/
theorem read_shellQuoted (h : r.mode = .word) (text : List Char) :
    r.read (shellQuoted text) = some { r with value := r.value ++ text } := by
  have hopen : r.step '\'' = some { r with mode := .quoted } := by
    rw [Reader.step,h]
    rfl
  have hclose {r : Reader} (h : r.mode = .quoted) : r.read ['\''] = some { r with mode := .word } := by
    refine Reader.read_cons ?_
    rw [Reader.step,h]
    rfl
  rw [shellQuoted,List.cons_append,Reader.read_cons hopen,Reader.read_append (read_quotedText rfl text),
    hclose rfl,← h]

/-- What a valid shell name is made of. -/
theorem validateShellName_chars (h : validateShellName name label = .ok ()) :
    ∃ c rest, name.toList = c::rest ∧ isNameStart c = true ∧ ∀ c ∈ rest, isNameChar c = true := by
  unfold validateShellName at h
  split at h
  · cases h
  · next first rest heq =>
    obtain ⟨⟨⟩,hfirst,hrest⟩ := bind_eq_ok.mp h
    rw [bailIf_eq_ok,Bool.not_eq_false] at hfirst hrest
    exact ⟨first,rest,heq,hfirst,List.all_eq_true.mp hrest⟩

/-- A line adds its assignment and brings the reader back to where it was. -/
theorem read_dotenvLine (h : validateShellName name label = .ok ()) (assignments : List (String × String)) :
    (⟨.start,assignments,[],[]⟩ : Reader).read (dotenvLine name value) =
      some ⟨.start,assignments ++ [(name,value)],[],[]⟩ := by
  obtain ⟨c,rest,hname,hc,hrest⟩ := validateShellName_chars h
  have hne : c ≠ '\n' := by
    rintro rfl
    exact absurd hc (by decide)
  have hstart : (⟨.start,assignments,[],[]⟩ : Reader).step c = some ⟨.name,assignments,[c],[]⟩ :=
    (if_neg hne).trans (if_pos hc)
  have hnamed : (⟨.name,assignments,[c],[]⟩ : Reader).read rest = some ⟨.name,assignments,c::rest,[]⟩ :=
    Reader.read_name rfl hrest
  have hequals : (⟨.name,assignments,c::rest,[]⟩ : Reader).step '=' =
      some ⟨.word,assignments,c::rest,[]⟩ := rfl
  have hvalue : (⟨.word,assignments,c::rest,[]⟩ : Reader).read (shellQuoted value.toList) =
      some ⟨.word,assignments,c::rest,value.toList⟩ := read_shellQuoted rfl value.toList
  have hend : (⟨.word,assignments,c::rest,value.toList⟩ : Reader).read ['\n'] =
      some ⟨.start,assignments ++ [(name,value)],[],[]⟩ := by
    have hassign : (⟨.word,assignments,c::rest,value.toList⟩ : Reader).assign =
        ⟨.start,assignments ++ [(name,value)],[],[]⟩ := by
      rw [Reader.assign,← hname,String.ofList_toList,String.ofList_toList]
    rw [← hassign]
    rfl
  rw [dotenvLine,hname,List.append_assoc,List.cons_append,Reader.read_cons hstart,
    Reader.read_append hnamed,List.cons_append,Reader.read_cons hequals,Reader.read_append hvalue,hend]

end Read

/-! The whole file. -/

theorem renderDotenvEntry_eq_ok {out out' : Bytes} {secret : OpenedSecret} :
    renderDotenvEntry out secret = .ok out' ↔ ∃ value, secretUtf8 secret.plaintext "dotenv value" = .ok value ∧
      out' = out ++ utf8 (String.ofList (dotenvLine secret.name value)) := by
  rw [renderDotenvEntry,bind_eq_ok]
  refine exists_congr fun value => and_congr_right fun _ => ?_
  have hline : writeShellQuoted (out ++ utf8 secret.name ++ utf8 "=") value ++ utf8 "\n" =
      out ++ utf8 (String.ofList (dotenvLine secret.name value)) := by
    rw [writeShellQuoted_eq]
    simp [dotenvLine,utf8]
  rw [pure_eq_ok,hline]
  exact ⟨fun h => (Except.ok.inj h).symm,fun h => congrArg Except.ok h.symm⟩

/-- A file that is rendered holds the assignments of the secrets, in their order. -/
theorem renderDotenv_foldlM {label : String} {secrets : List OpenedSecret} {out out' : Bytes}
    (hnames : ∀ secret ∈ secrets, validateShellName secret.name label = .ok ())
    (h : secrets.foldlM renderDotenvEntry out = .ok out') :
    ∃ text assignments, out' = out ++ utf8 (String.ofList text) ∧
      (∀ before, (⟨.start,before,[],[]⟩ : Shell.Reader).read text =
        some ⟨.start,before ++ assignments,[],[]⟩) ∧
      assignments.map (fun a => OpenedSecret.mk a.1 (utf8 a.2)) = secrets := by
  induction secrets generalizing out with
  | nil =>
    obtain rfl := Except.ok.inj h
    exact ⟨[],[],by simp [utf8],by simp,rfl⟩
  | cons secret secrets ih =>
    rw [List.foldlM_cons] at h
    obtain ⟨out₁,hentry,h⟩ := bind_eq_ok.mp h
    obtain ⟨value,hvalue,rfl⟩ := renderDotenvEntry_eq_ok.mp hentry
    obtain ⟨text,assignments,rfl,hread,rfl⟩ := ih (fun s hs => hnames s (List.mem_cons_of_mem _ hs)) h
    refine ⟨dotenvLine secret.name value ++ text,(secret.name,value)::assignments,?_,fun before => ?_,?_⟩
    · simp [utf8]
    · rw [Shell.Reader.read_append (read_dotenvLine (hnames secret List.mem_cons_self) before),hread]
      simp
    · rw [List.map_cons,← (secretUtf8_eq_ok.mp hvalue).2]

theorem secretUtf8_eq_error {bytes : Bytes} (label : String) :
    (∃ e, secretUtf8 bytes label = .error e) ↔ fromUtf8 bytes = none ∨ 0 ∈ bytes := by
  unfold secretUtf8
  by_cases hnul : 0 ∈ bytes
  · rw [bailIf,if_pos hnul]
    exact iff_of_true ⟨_,rfl⟩ (.inr hnul)
  · cases fromUtf8 bytes <;> simp [hnul,orError,bail,context]

theorem renderDotenv_eq_error {secrets : List OpenedSecret} {out : Bytes} :
    (∃ e, secrets.foldlM renderDotenvEntry out = .error e) ↔
      ∃ secret ∈ secrets, fromUtf8 secret.plaintext = none ∨ 0 ∈ secret.plaintext := by
  induction secrets generalizing out with
  | nil => exact ⟨nofun,nofun⟩
  | cons secret secrets ih =>
    rw [List.foldlM_cons,List.exists_mem_cons_iff,← secretUtf8_eq_error "dotenv value"]
    cases hentry : renderDotenvEntry out secret with
    | error e =>
      refine iff_of_true ⟨e,rfl⟩ (.inl ?_)
      cases hvalue : secretUtf8 secret.plaintext "dotenv value" with
      | error e => exact ⟨e,rfl⟩
      | ok value => cases hentry.symm.trans (renderDotenvEntry_eq_ok.mpr ⟨value,hvalue,rfl⟩)
    | ok out' =>
      obtain ⟨value,hvalue,-⟩ := renderDotenvEntry_eq_ok.mp hentry
      rw [hvalue,ok_bind,ih]
      exact ⟨.inr,fun h => h.resolve_left nofun⟩

/-- A shell reads a dotenv file as the assignments of the secrets and as nothing else. -/
theorem renderDotenv_assignments {label : String} {secrets : List OpenedSecret}
    (hnames : ∀ secret ∈ secrets, validateShellName secret.name label = .ok ()) :
    ((∃ e, renderDotenv secrets = .error e) ↔
      ∃ secret ∈ secrets, fromUtf8 secret.plaintext = none ∨ 0 ∈ secret.plaintext) ∧
    ∀ out, renderDotenv secrets = .ok out → ∃ text assignments, fromUtf8 out = some text ∧
      Shell.readAssignments text = some assignments ∧
      assignments.map (fun a => OpenedSecret.mk a.1 (utf8 a.2)) = secrets := by
  refine ⟨renderDotenv_eq_error,fun out hout => ?_⟩
  obtain ⟨text,assignments,rfl,hread,hsecrets⟩ := renderDotenv_foldlM hnames hout
  refine ⟨String.ofList text,assignments,?_,?_,hsecrets⟩
  · rw [List.nil_append,fromUtf8_utf8]
  · rw [Shell.readAssignments,String.toList_ofList,Shell.Reader.init,hread]
    rfl

theorem renderDotenv_assignments_quote : ∃ out text assignments,
    renderDotenv [⟨"KEY",utf8 "it's\nX=$(id)"⟩] = .ok out ∧ fromUtf8 out = some text ∧
    Shell.readAssignments text = some assignments ∧
    assignments.map (fun a => OpenedSecret.mk a.1 (utf8 a.2)) = [⟨"KEY",utf8 "it's\nX=$(id)"⟩] := by
  have hmain := @renderDotenv_assignments "secret target name" [⟨"KEY",utf8 "it's\nX=$(id)"⟩] (by decide)
  have hout : ¬ ∃ e, renderDotenv [⟨"KEY",utf8 "it's\nX=$(id)"⟩] = .error e := by
    rw [hmain.1]
    decide
  cases hrender : renderDotenv [⟨"KEY",utf8 "it's\nX=$(id)"⟩] with
  | error e => exact absurd ⟨e,hrender⟩ hout
  | ok out =>
    obtain ⟨text,assignments,htext,hread,hsecrets⟩ := hmain.2 out hrender
    exact ⟨out,text,assignments,rfl,htext,hread,hsecrets⟩

end Avault.Deliver
