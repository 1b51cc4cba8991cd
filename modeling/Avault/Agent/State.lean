import Avault.Crypto.Key
import Avault.Error
import Mathlib.Logic.Function.Basic
import Mathlib.Order.Basic

/-! The grants of the resident agent, and the critical sections on them. Each takes the clock
readings it makes while the lock is held. No critical section panics, so the lock is never
poisoned. -/
namespace Avault.Agent
open Foundation Crypto

/-- A reading of the monotonic clock, in nanoseconds. -/
abbrev Instant := ℕ

abbrev Duration := ℕ

def fromSecs (secs : ℕ) : Duration := secs*1000000000

structure GrantKey where
  grantId : String
deriving DecidableEq, Repr

inductive AgentDekPurpose
  | deliver
  | sign
deriving DecidableEq, Repr

def AgentDekPurpose.parse (value : Option String) : Result AgentDekPurpose :=
  let value := value.getD "deliver"
  if value = "deliver" then .ok .deliver
  else if value = "sign" then .ok .sign
  else bail "unsupported grant DEK purpose"

structure AgentDekKey where
  purpose : AgentDekPurpose
  name : String
  scheme : Option String
  digestHex : Option String
deriving DecidableEq, Repr

/-- A `HashMap` that is only filled, looked up and counted. -/
abbrev Deks := List (AgentDekKey × Key)

def Deks.get (deks : Deks) (key : AgentDekKey) : Option Key := List.lookup key deks

structure GrantEntry where
  expiresAt : Instant
  deks : Deks
deriving DecidableEq

structure AgentState where
  grants : GrantKey → Option GrantEntry
  usedGrantNonces : Bytes → Option Instant
  lastActivity : Instant
  idleTimeout : Duration

/-- `HashMap::retain`. -/
def retain {α β : Type} (p : β → Bool) (map : α → Option β) : α → Option β := fun a => (map a).filter p

/-- `HashMap::extend`. -/
def extend {α β : Type} [DecidableEq α] (map : α → Option β) (entries : List (α × β)) : α → Option β :=
  entries.foldl (fun map entry => Function.update map entry.1 (some entry.2)) map

/-- A key that is not among the entries keeps its value. -/
theorem extend_of_not_mem {α β : Type} [DecidableEq α] {map : α → Option β} {entries : List (α × β)} {a : α}
    (h : a ∉ entries.map Prod.fst) : extend map entries a = map a := by
  induction entries generalizing map with
  | nil => rfl
  | cons entry entries ih =>
    obtain ⟨hne,hrest⟩ := not_or.mp (fun hmem => h (List.mem_cons.mpr hmem))
    exact (ih hrest).trans (Function.update_of_ne hne _ _)

theorem extend_of_mem {α β : Type} [DecidableEq α] {map : α → Option β} {entries : List (α × β)} {a : α} {b : β}
    (hnodup : (entries.map Prod.fst).Nodup) (h : (a,b) ∈ entries) : extend map entries a = some b := by
  induction entries generalizing map with
  | nil => exact absurd h List.not_mem_nil
  | cons entry entries ih =>
    obtain ⟨hfresh,hrest⟩ := List.nodup_cons.mp hnodup
    obtain rfl | h := List.mem_cons.mp h
    · exact (extend_of_not_mem hfresh).trans (Function.update_self a _ _)
    · exact ih hrest h

namespace AgentState

def new (idleTimeout : Duration) (now : Instant) : AgentState where
  grants _ := none
  usedGrantNonces _ := none
  lastActivity := now
  idleTimeout := idleTimeout

/-- `now.duration_since(self.last_activity) >= self.idle_timeout`. -/
def idle (s : AgentState) (now : Instant) : Bool := s.idleTimeout ≤ now-s.lastActivity

def purge (s : AgentState) (now : Instant) : AgentState :=
  { s with
    grants := retain (fun grant => grant.expiresAt > now) (if s.idle now then fun _ => none else s.grants)
    usedGrantNonces := retain (fun expiresAt => expiresAt > now) s.usedGrantNonces }

/-- The purge has a reading of its own. -/
def recordActivity (s : AgentState) (purgedAt now : Instant) : AgentState :=
  { s.purge purgedAt with lastActivity := now }

def getLiveGrant (s : AgentState) (scope : GrantKey) (now : Instant) : Result GrantEntry := do
  bailIf (s.idle now = true) "grant is missing or expired"
  let grant ← orError "grant is missing or expired" (s.grants scope)
  bailIf (grant.expiresAt ≤ now) "grant is missing or expired"
  return grant

/-- The outcome, with the state it leaves behind. -/
def publishGrant (s : AgentState) (scope : GrantKey) (grant : GrantEntry) (nonces : List (Bytes × Instant))
    (purgedAt now : Instant) : Result Unit × AgentState :=
  let s := s.purge purgedAt
  if grant.expiresAt ≤ now then (bail "grant expired before it was published",s)
  else if nonces.any fun nonce => (s.usedGrantNonces nonce.1).isSome then
    (bail "grant approval was already used",s)
  else
    (.ok (),{ s with
      usedGrantNonces := extend s.usedGrantNonces nonces
      lastActivity := now
      grants := Function.update s.grants scope (some grant) })

/-- The critical section of the handler's `Release` branch. -/
def release (s : AgentState) (scope : GrantKey) (purgedAt activityPurgedAt now : Instant) :
    Bool × AgentState :=
  let s := s.purge purgedAt
  let released := (s.grants scope).isSome
  let s := { s with grants := Function.update s.grants scope none }
  (released,if released then s.recordActivity activityPurgedAt now else s)

section Lemmas

variable {s : AgentState} {g scope : GrantKey} {grant : GrantEntry} {nonces : List (Bytes × Instant)}
  {nonce : Bytes} {deadline m n n₁ n₂ n₃ : Instant}

theorem idle_mono (h : s.idle m = true) (hmn : m ≤ n) : s.idle n = true := by
  simp only [idle,decide_eq_true_eq] at h ⊢
  exact h.trans (Nat.sub_le_sub_right hmn _)

/-- No grant is live at this time, and none will be unless it is published. -/
def Dead (s : AgentState) (g : GrantKey) (n : Instant) : Prop :=
  s.idle n = true ∨ ∀ grant, s.grants g = some grant → grant.expiresAt ≤ n

theorem Dead.mono (h : s.Dead g m) (hmn : m ≤ n) : s.Dead g n :=
  h.imp (fun hidle => idle_mono hidle hmn) fun hexpired grant hgrant => (hexpired grant hgrant).trans hmn

theorem getLiveGrant_eq_ok : s.getLiveGrant scope n = .ok grant ↔
    s.idle n = false ∧ s.grants scope = some grant ∧ n < grant.expiresAt := by
  simp only [getLiveGrant,bind_eq_ok,bailIf_eq_ok,orError_eq_ok,pure_eq_ok,Except.ok.injEq,Bool.not_eq_true,
    not_le]
  constructor
  · rintro ⟨_,hidle,_,hgrant,_,hlive,rfl⟩
    exact ⟨hidle,hgrant,hlive⟩
  · rintro ⟨hidle,hgrant,hlive⟩
    exact ⟨(),hidle,grant,hgrant,(),hlive,rfl⟩

theorem getLiveGrant_eq_error : (∃ e, s.getLiveGrant scope n = .error e) ↔ s.Dead scope n := by
  cases hlook : s.getLiveGrant scope n with
  | ok grant =>
    obtain ⟨hidle,hgrant,hlive⟩ := getLiveGrant_eq_ok.mp hlook
    refine iff_of_false nofun ?_
    rintro (h | h)
    · exact Bool.false_ne_true (hidle.symm.trans h)
    · exact Nat.not_le.mpr hlive (h grant hgrant)
  | error e =>
    refine iff_of_true ⟨e,rfl⟩ ?_
    by_contra hdead
    obtain ⟨hidle,hlive⟩ := not_or.mp hdead
    push Not at hlive
    obtain ⟨grant,hgrant,hlive⟩ := hlive
    exact absurd (getLiveGrant_eq_ok.mpr ⟨Bool.not_eq_true _ ▸ hidle,hgrant,hlive⟩) (hlook ▸ nofun)

theorem purge_grants_eq_some : (s.purge n).grants g = some grant ↔
    s.grants g = some grant ∧ s.idle n = false ∧ n < grant.expiresAt := by
  cases hidle : s.idle n <;> simp [purge,retain,hidle,Option.filter_eq_some_iff]

theorem purge_grants_eq_none : (s.purge n).grants g = none ↔ s.Dead g n := by
  rw [← not_iff_not,← ne_eq,Option.ne_none_iff_exists']
  simp only [purge_grants_eq_some,Dead,not_or,not_forall,not_le,exists_prop,Bool.not_eq_true]
  exact ⟨fun ⟨grant,hgrant,hidle,hlive⟩ => ⟨hidle,grant,hgrant,hlive⟩,
    fun ⟨hidle,grant,hgrant,hlive⟩ => ⟨grant,hgrant,hidle,hlive⟩⟩

theorem purge_used_eq_some : (s.purge n).usedGrantNonces nonce = some deadline ↔
    s.usedGrantNonces nonce = some deadline ∧ n < deadline := by
  simp [purge,retain,Option.filter_eq_some_iff]

/-- Publication fails after a purge, or consumes nonces that were not in use. -/
theorem publishGrant_cases (s : AgentState) (scope : GrantKey) (grant : GrantEntry)
    (nonces : List (Bytes × Instant)) (n₁ n₂ : Instant) :
    (∃ e, s.publishGrant scope grant nonces n₁ n₂ = (.error e,s.purge n₁)) ∨
    n₂ < grant.expiresAt ∧ (∀ nonce ∈ nonces, (s.purge n₁).usedGrantNonces nonce.1 = none) ∧
      s.publishGrant scope grant nonces n₁ n₂ = (.ok (),{ s.purge n₁ with
        usedGrantNonces := extend (s.purge n₁).usedGrantNonces nonces
        lastActivity := n₂
        grants := Function.update (s.purge n₁).grants scope (some grant) }) := by
  by_cases hlive : grant.expiresAt ≤ n₂
  · exact .inl ⟨_,if_pos hlive⟩
  by_cases hused : (nonces.any fun nonce => ((s.purge n₁).usedGrantNonces nonce.1).isSome) = true
  · exact .inl ⟨_,(if_neg hlive).trans (if_pos hused)⟩
  refine .inr ⟨not_le.mp hlive,fun nonce hnonce => ?_,(if_neg hlive).trans (if_neg hused)⟩
  by_contra hsome
  exact hused (List.any_eq_true.mpr ⟨nonce,hnonce,Option.isSome_iff_ne_none.mpr hsome⟩)

/-- A release removes a live grant, or only purges. -/
theorem release_cases (s : AgentState) (scope : GrantKey) (n₁ n₂ n₃ : Instant) :
    (s.purge n₁).grants scope = none ∧ s.release scope n₁ n₂ n₃ = (false,s.purge n₁) ∨
    (∃ grant, (s.purge n₁).grants scope = some grant) ∧ s.release scope n₁ n₂ n₃ =
      (true,{ s.purge n₁ with grants := Function.update (s.purge n₁).grants scope none }.recordActivity n₂ n₃) := by
  cases hgrant : (s.purge n₁).grants scope with
  | none =>
    have hsame : Function.update (s.purge n₁).grants scope none = (s.purge n₁).grants :=
      hgrant ▸ Function.update_eq_self scope _
    refine .inl ⟨rfl,?_⟩
    simp only [release,hgrant,hsame,Option.isSome_none,Bool.false_eq_true,if_false]
  | some grant =>
    refine .inr ⟨⟨grant,rfl⟩,?_⟩
    simp only [release,hgrant,Option.isSome_some,if_true]

end Lemmas
end AgentState

end Avault.Agent
