import Avault.Agent.Grant
import Avault.Deliver.Inject
import Avault.Foundation.Json

/-! What `deliver inject` writes as JSON is one object with the secrets as its members. -/
namespace Avault.Deliver
open Foundation Agent

/-- A secret and what it is written as. -/
def Denotes (secret : OpenedSecret) (entry : String × String) : Prop :=
  entry.1 = secret.name ∧ 0 ∉ secret.plaintext ∧ secret.plaintext = utf8 entry.2

section Render

variable (json : JsonText.Serializer)

def entryText (entry : String × String) : String := "  " ++ json.toText entry.1 ++ ": " ++ json.toText entry.2

def entriesText : List (String × String) → String
  | [] => ""
  | entry::rest => entryText json entry ++ (if rest = [] then "" else ",") ++ "\n" ++ entriesText rest

variable {json}

theorem renderJsonEntry_eq_ok {total index : ℕ} {out out' : Bytes} {secret : OpenedSecret} :
    renderJsonEntry json total out (secret,index) = .ok out' ↔ ∃ entry, Denotes secret entry ∧
      out' = out ++ utf8 (entryText json entry ++ (if index+1 ≠ total then "," else "") ++ "\n") := by
  simp only [renderJsonEntry,bind_eq_ok,secretUtf8_eq_ok,Denotes]
  constructor
  · rintro ⟨value,hvalue,h⟩
    refine ⟨(secret.name,value),⟨rfl,hvalue⟩,(Except.ok.inj h).symm.trans ?_⟩
    split <;> simp [entryText]
  · rintro ⟨⟨_,value⟩,⟨rfl,hvalue⟩,rfl⟩
    refine ⟨value,hvalue,congrArg Except.ok ?_⟩
    split <;> simp [entryText]

/-- The loop of `render_json`, from any of the secrets on. -/
theorem renderJsonEntries_eq_ok {secrets : List OpenedSecret} (index : ℕ) {out out' : Bytes} :
    (secrets.zipIdx index).foldlM (renderJsonEntry json (index + secrets.length)) out = .ok out' ↔
      ∃ entries, List.Forall₂ Denotes secrets entries ∧ out' = out ++ utf8 (entriesText json entries) := by
  induction secrets generalizing index out with
  | nil =>
    constructor
    · intro h
      exact ⟨[],.nil,(Except.ok.inj h).symm.trans (List.append_nil _).symm⟩
    · rintro ⟨entries,hentries,rfl⟩
      cases hentries
      exact congrArg Except.ok (List.append_nil _).symm
  | cons secret secrets ih =>
    have htotal : index + (secret::secrets).length = index + 1 + secrets.length := by
      rw [List.length_cons]
      omega
    have hlast {entries : List (String × String)} (h : List.Forall₂ Denotes secrets entries) :
        (if index+1 ≠ index + 1 + secrets.length then "," else "") = if entries = [] then "" else "," := by
      cases h <;> simp
    rw [List.zipIdx_cons,List.foldlM_cons,bind_eq_ok,htotal]
    simp only [renderJsonEntry_eq_ok,ih]
    constructor
    · rintro ⟨_,⟨entry,hentry,rfl⟩,entries,hentries,rfl⟩
      refine ⟨entry::entries,.cons hentry hentries,?_⟩
      rw [hlast hentries,entriesText,utf8_append _ (entriesText json entries),List.append_assoc]
    · rintro ⟨_,hall,rfl⟩
      obtain ⟨entry,entries,hentry,hentries,rfl⟩ := List.forall₂_cons_left_iff.mp hall
      refine ⟨_,⟨entry,hentry,rfl⟩,entries,hentries,?_⟩
      rw [hlast hentries,entriesText,utf8_append _ (entriesText json entries),List.append_assoc]

theorem renderJson_eq_ok {secrets : List OpenedSecret} {out : Bytes} :
    renderJson json secrets = .ok out ↔
      ∃ entries, List.Forall₂ Denotes secrets entries ∧ out = utf8 ("\x7b\n" ++ entriesText json entries ++ "\x7d\n") := by
  have hentries {out' : Bytes} : secrets.zipIdx.foldlM (renderJsonEntry json secrets.length) (utf8 "\x7b\n") = .ok out' ↔
      ∃ entries, List.Forall₂ Denotes secrets entries ∧ out' = utf8 "\x7b\n" ++ utf8 (entriesText json entries) := by
    rw [← renderJsonEntries_eq_ok 0,Nat.zero_add]
  simp only [renderJson,bind_eq_ok,hentries]
  constructor
  · rintro ⟨_,⟨entries,hall,rfl⟩,h⟩
    exact ⟨entries,hall,(Except.ok.inj h).symm.trans (by simp)⟩
  · rintro ⟨entries,hall,rfl⟩
    exact ⟨_,⟨entries,hall,rfl⟩,congrArg Except.ok (by simp)⟩

variable (json)

open Json in
theorem member_entryText (entry : String × String) (before after : List Char) (hbefore : Ws before) (hafter : Ws after) :
    Member entry.1 (json.toText entry.2).toList (before ++ ((entryText json entry).toList ++ after)) := by
  refine ⟨(json.toText entry.1).toList,before ++ ([' ',' '] ++ (json.toText entry.1).toList),
    ' '::((json.toText entry.2).toList ++ after),json.toText_literal entry.1,?_,?_,?_⟩
  · refine ⟨before ++ [' ',' '],[],fun c hc => ?_,by simp [Ws],by simp⟩
    obtain hc | hc := List.mem_append.mp hc
    · exact hbefore c hc
    · obtain rfl : c = ' ' := by simpa using hc
      rfl
  · exact ⟨[' '],after,by simp [Ws,isWs],hafter,rfl⟩
  · simp [entryText,String.toList_append]

/-- The lines between the braces are the members, from the line break before the first one. -/
theorem members_entriesText (entry : String × String) (entries : List (String × String)) :
    Json.Members ((entry::entries).map fun entry => (entry.1,(json.toText entry.2).toList))
      ('\n'::(entriesText json (entry::entries)).toList) := by
  have hbreak : Json.Ws ['\n'] := by simp [Json.Ws,Json.isWs]
  induction entries generalizing entry with
  | nil =>
    have hmember := member_entryText json entry ['\n'] ['\n'] hbreak hbreak
    simpa [entriesText,String.toList_append] using
      Json.Members.last (.string (json.toText_literal entry.2)) hmember
  | cons next entries ih =>
    have hmember := member_entryText json entry ['\n'] [] hbreak (by simp [Json.Ws])
    simpa [entriesText,String.toList_append] using
      Json.Members.cons (.string (json.toText_literal entry.2)) hmember (ih next)

theorem object_entriesText (entries : List (String × String)) :
    Json.Object (entries.map fun entry => (entry.1,(json.toText entry.2).toList))
      ("\x7b\n" ++ entriesText json entries ++ "\x7d").toList := by
  cases entries with
  | nil =>
    have hbreak : Json.Ws ['\n'] := by simp [Json.Ws,Json.isWs]
    simpa [entriesText,String.toList_append] using Json.Object.empty hbreak
  | cons entry entries =>
    simpa [String.toList_append] using Json.Object.members (members_entriesText json entry entries)

end Render

/-- Entries exist for secrets that are texts without NUL. -/
theorem exists_entries {secrets : List OpenedSecret} : (∃ entries, List.Forall₂ Denotes secrets entries) ↔
    ∀ secret ∈ secrets, (∃ value, secret.plaintext = utf8 value) ∧ 0 ∉ secret.plaintext := by
  constructor
  · rintro ⟨entries,hall⟩ secret hsecret
    obtain ⟨entry,-,-,hnul,hvalue⟩ := forall₂_exists_right hall hsecret
    exact ⟨⟨_,hvalue⟩,hnul⟩
  · intro hall
    induction secrets with
    | nil => exact ⟨[],.nil⟩
    | cons secret secrets ih =>
      obtain ⟨⟨⟨value,hvalue⟩,hnul⟩,hsecrets⟩ := List.forall_mem_cons.mp hall
      obtain ⟨entries,hentries⟩ := ih hsecrets
      exact ⟨(secret.name,value)::entries,.cons ⟨rfl,hnul,hvalue⟩ hentries⟩

/-- A secret as a member of an object. -/
def IsMember (secret : OpenedSecret) (member : String × List Char) : Prop :=
  member.1 = secret.name ∧ ∃ value, secret.plaintext = utf8 value ∧ JsonText.Literal value member.2

/-- The rendering fails where a value is no text without NUL. Otherwise it is one object, whose
members are the secrets in order. -/
theorem renderJson_object (json : JsonText.Serializer) (secrets : List OpenedSecret) :
    ((∃ e, renderJson json secrets = .error e) ↔
      ∃ secret ∈ secrets, (¬ ∃ value, secret.plaintext = utf8 value) ∨ 0 ∈ secret.plaintext) ∧
    ∀ out, renderJson json secrets = .ok out → ∃ members object, Json.Object members object ∧
      out = utf8 (String.ofList (object ++ ['\n'])) ∧ List.Forall₂ IsMember secrets members := by
  constructor
  · have hok : (∃ out, renderJson json secrets = .ok out) ↔ ∃ entries, List.Forall₂ Denotes secrets entries := by
      simp only [renderJson_eq_ok]
      constructor
      · rintro ⟨_,entries,hall,-⟩
        exact ⟨entries,hall⟩
      · rintro ⟨entries,hall⟩
        exact ⟨_,entries,hall,rfl⟩
    have herror : (∃ e, renderJson json secrets = .error e) ↔ ¬ ∃ out, renderJson json secrets = .ok out := by
      cases renderJson json secrets <;> simp
    rw [herror,hok,exists_entries]
    simp only [not_forall,not_and_or,not_not,exists_prop]
  · intro out h
    obtain ⟨entries,hentries,rfl⟩ := renderJson_eq_ok.mp h
    refine ⟨_,_,object_entriesText json entries,?_,?_⟩
    · refine congrArg utf8 (String.toList_inj.mp ?_)
      simp [String.toList_append]
    · rw [List.forall₂_map_right_iff]
      exact hentries.imp fun secret entry hentry => ⟨hentry.1,entry.2,hentry.2.2,json.toText_literal entry.2⟩

def sampleSecrets : List OpenedSecret := [⟨"A",utf8 "x\n"⟩,⟨"B",utf8 "y"⟩]

/-- With a serializer that escapes no more than it must, for two secrets and for one that is no text. -/
theorem renderJson_object_minimal :
    renderJson JsonText.minimal sampleSecrets = .ok (utf8 "\x7b\n  \"A\": \"x\\n\",\n  \"B\": \"y\"\n\x7d\n") ∧
    (∃ members object, Json.Object members object ∧
      utf8 "\x7b\n  \"A\": \"x\\n\",\n  \"B\": \"y\"\n\x7d\n" = utf8 (String.ofList (object ++ ['\n'])) ∧
      List.Forall₂ IsMember sampleSecrets members) ∧
    ∃ e, renderJson JsonText.minimal [⟨"A",[0xff]⟩] = .error e := by
  have hrendered : renderJson JsonText.minimal sampleSecrets =
    .ok (utf8 "\x7b\n  \"A\": \"x\\n\",\n  \"B\": \"y\"\n\x7d\n") := by decide
  refine ⟨hrendered,(renderJson_object JsonText.minimal sampleSecrets).2 _ hrendered,?_⟩
  refine (renderJson_object JsonText.minimal [⟨"A",[0xff]⟩]).1.mpr ⟨_,List.mem_singleton_self _,.inl ?_⟩
  rintro ⟨value,hvalue⟩
  have htext : fromUtf8 [0xff] = some value := fromUtf8_eq_some.mpr hvalue
  cases htext

end Avault.Deliver
