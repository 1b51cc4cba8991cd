import Mathlib.Data.Int.Notation

/-! Errors as chains of causes, outermost context first. -/
namespace Avault

/-- The kinds of `std::io::Error` the code tells apart. -/
inductive IoErrorKind
  | notFound
  | alreadyExists
  | permissionDenied
  | other
deriving DecidableEq, Repr

/-- The TPM 2.0 response codes the code names. -/
inductive TpmFormatOneError
  | authFail
  | badAuth
  | hierarchy
  | other
deriving DecidableEq, Repr

inductive TpmFormatZeroError
  | authType
  | authMissing
  | authUnavailable
  | nvAuthorization
  | other
deriving DecidableEq, Repr

inductive TctiBaseError
  | noConnection
  | ioError
  | notPermitted
  | notSupported
  | incompatibleTcti
  | badTctiStructure
  | other
deriving DecidableEq, Repr

/-- `tss_esapi::Error`; a TPM code may come from the TPM or its resource manager. -/
inductive TssError
  | formatOne (code : TpmFormatOneError)
  | formatZero (code : TpmFormatZeroError)
  | tcti (code : TctiBaseError)
  | other
deriving DecidableEq, Repr

/-- One link of a chain: the text of a `bail!` or `context`, or a typed error. -/
inductive Cause
  | message (text : String)
  | io (kind : IoErrorKind) (text : String)
  | tss (error : TssError) (text : String)
  | keychain (code : ℤ) (text : String)
deriving DecidableEq, Repr

def Cause.text : Cause → String
  | message text | io _ text | tss _ text | keychain _ text => text

abbrev Error := List Cause

abbrev Result (α : Type) := Except Error α

variable {α : Type}

def bail (text : String) : Result α := .error [.message text]

def context (text : String) : Result α → Result α
  | .ok a => .ok a
  | .error e => .error (.message text::e)

/-- `Result::map_err`. -/
def mapError (f : Error → Error) : Result α → Result α
  | .ok a => .ok a
  | .error e => .error (f e)

/-- `Option::context`, and `map_err` to a new error. -/
def orError (text : String) : Option α → Result α
  | some a => .ok a
  | none => bail text

/-- `if condition { bail!(..) }`. -/
def bailIf (condition : Prop) [Decidable condition] (text : String) : Result Unit :=
  if condition then bail text else .ok ()

@[simp] theorem context_eq_ok {text : String} {r : Result α} {a : α} :
    context text r = .ok a ↔ r = .ok a := by
  cases r <;> simp [context]

theorem context_eq_error {text : String} {r : Result α} {e : Error} (h : context text r = .error e) :
    ∃ e', r = .error e' := by
  cases r with
  | ok a => cases h
  | error e' => exact ⟨e',rfl⟩

@[simp] theorem mapError_eq_ok {f : Error → Error} {r : Result α} {a : α} :
    mapError f r = .ok a ↔ r = .ok a := by
  cases r <;> simp [mapError]

@[simp] theorem orError_eq_ok {text : String} {o : Option α} {a : α} :
    orError text o = .ok a ↔ o = some a := by
  cases o <;> simp [orError,bail]

theorem error_ne_ok {e : Error} {a : α} (h : (.error e : Result α) = .ok a) : False := by cases h

@[simp] theorem bail_ne_ok {text : String} {a : α} : bail text ≠ .ok a := nofun

@[simp] theorem bailIf_eq_ok {condition : Prop} [Decidable condition] {text : String} {u : Unit} :
    bailIf condition text = .ok u ↔ ¬ condition := by
  unfold bailIf
  split <;> simp_all

@[simp] theorem pure_eq_ok (a : α) : (pure a : Result α) = .ok a := rfl

@[simp] theorem ok_bind {β : Type} (a : α) (f : α → Result β) :
    ((Except.ok a : Result α) >>= f) = f a := rfl

@[simp] theorem context_ok (text : String) (a : α) : context text (.ok a : Result α) = .ok a := rfl

@[simp] theorem orError_some (text : String) (a : α) : orError text (some a) = .ok a := rfl

@[simp] theorem bailIf_neg {condition : Prop} [Decidable condition] {text : String}
    (h : ¬ condition) : bailIf condition text = .ok () := if_neg h

theorem bind_eq_ok {β : Type} {r : Result α} {f : α → Result β} {b : β} :
    (r >>= f) = .ok b ↔ ∃ a, r = .ok a ∧ f a = .ok b := by
  cases r with
  | error e => exact ⟨nofun,fun ⟨_,h,_⟩ => nomatch h⟩
  | ok a => exact ⟨fun h => ⟨a,rfl,h⟩,fun ⟨_,h,hf⟩ => Except.ok.inj h ▸ hf⟩

theorem forM_eq_ok {β : Type} {f : β → Result Unit} {l : List β} {u : Unit} :
    l.forM f = .ok u ↔ ∀ b ∈ l, f b = .ok () := by
  induction l with
  | nil => exact iff_of_true rfl (fun _ h => (List.not_mem_nil h).elim)
  | cons b l ih =>
    change (f b >>= fun _ => l.forM f) = .ok u ↔ _
    rw [bind_eq_ok,List.forall_mem_cons]
    exact ⟨fun ⟨_,hb,hl⟩ => ⟨hb,ih.mp hl⟩,fun ⟨hb,hl⟩ => ⟨(),hb,ih.mpr hl⟩⟩

end Avault
