import Avault.Agent.Phases
import Mathlib.Data.List.Forall2

/-! What a grant request has read and opened when it comes to be published. -/
namespace Avault.Agent
open Foundation Crypto
open Foundation.Program (Ensures ensures_check ensures_liftResult ensures_foldlM)

/-- The calls of one frame, the latest first. -/
abbrev AgentCalls := History AgentOp AgentOp.Reply

/-- The time to live of a grant, normalized. -/
def AgentGrantRequest.ttl (request : AgentGrantRequest) : UInt64 :=
  request.ttlSecs.getD defaultAgentGrantTtlSecs

/-- The DEK kept under a key came out of the blind box of the request, under the context for it. -/
def OpenedDek (E : AgentEnv) (purpose : AgentDekPurpose) (request : AgentGrantRequest) (dek : AgentDekInput)
    (kept : AgentDekKey × Key) : Prop :=
  ∃ approval ctx, parseApprovalContext E.crypto dek.approval = .ok approval ∧
    agentDekContext E purpose request.grantId request.ttl dek approval = .ok (ctx,kept.1) ∧
    E.keypair.openBox E.crypto dek.dekBlindbox ctx = .ok kept.2.toList

/-- The two readings by which the end of an approval was dated on the monotonic clock. -/
structure Stamp (h : AgentCalls) (expiresAtUnix : UInt64) (deadline t : Instant) (wall : SystemTime) : Prop where
  read : ∃ earlier, ⟨.systemTimeNow,wall⟩::⟨.instantNow,t⟩::earlier <:+ h
  remaining : wall ≤ fromSecs expiresAtUnix.toNat
  deadline : (deadline : ℤ) = t+(fromSecs expiresAtUnix.toNat-wall)

/-- The nonce, with the deadline, of the approval of a DEK. -/
def Stamped (E : AgentEnv) (h : AgentCalls) (dek : AgentDekInput) (nonce : Bytes × Instant) : Prop :=
  ∃ approval t wall, parseApprovalContext E.crypto dek.approval = .ok approval ∧ nonce.1 = approval.nonce ∧
    Stamp h approval.expiresAtUnix nonce.2 t wall

/-- The grant and the nonces that a request publishes. -/
structure GrantPrepared (E : AgentEnv) (request : AgentGrantRequest) (scope : GrantKey) (grant : GrantEntry)
    (nonces : List (Bytes × Instant)) (h : AgentCalls) : Prop where
  scope : scope = ⟨request.grantId⟩
  ttl : request.ttl ≠ 0 ∧ request.ttl ≤ maxAgentGrantTtlSecs
  opened : ∃ purpose, AgentDekPurpose.parse request.purpose = .ok purpose ∧
    List.Forall₂ (OpenedDek E purpose request) request.deks grant.deks
  stamped : List.Forall₂ (Stamped E h) request.deks nonces
  nodup : (nonces.map Prod.fst).Nodup
  /-- The first reading is the one from which the time to live counts. -/
  expiry : ∃ t, [⟨.instantNow,t⟩] <:+ h ∧ grant.expiresAt ≤ t+fromSecs request.ttl.toNat
  approvals : ∀ nonce ∈ nonces, grant.expiresAt ≤ nonce.2

/-- How the variables of the loop follow from the DEKs dealt with. -/
structure GrantDraft.Follows (E : AgentEnv) (request : AgentGrantRequest) (purpose : AgentDekPurpose)
    (start : Instant) (seen : List AgentDekInput) (draft : GrantDraft) (h : AgentCalls) : Prop where
  first : [⟨.instantNow,start⟩] <:+ h
  opened : List.Forall₂ (OpenedDek E purpose request) seen draft.deks
  stamped : List.Forall₂ (Stamped E h) seen draft.usedNonces
  nodup : (draft.usedNonces.map Prod.fst).Nodup
  expiry : draft.expiresAt ≤ start+fromSecs request.ttl.toNat
  approvals : ∀ nonce ∈ draft.usedNonces, draft.expiresAt ≤ nonce.2

section Forall₂

variable {α β : Type} {R : α → β → Prop} {as : List α} {bs : List β}

theorem forall₂_exists_right (h : List.Forall₂ R as bs) {a : α} (ha : a ∈ as) : ∃ b ∈ bs, R a b := by
  induction h with
  | nil => exact absurd ha List.not_mem_nil
  | cons hab _ ih =>
    obtain rfl | ha := List.mem_cons.mp ha
    · exact ⟨_,List.mem_cons_self ..,hab⟩
    · exact (ih ha).imp fun _ hb => ⟨List.mem_cons_of_mem _ hb.1,hb.2⟩

theorem forall₂_exists_left (h : List.Forall₂ R as bs) {b : β} (hb : b ∈ bs) : ∃ a ∈ as, R a b :=
  forall₂_exists_right h.flip hb

theorem forall₂_getElem? (h : List.Forall₂ R as bs) {i : ℕ} {a : α} (ha : as[i]? = some a) :
    ∃ b, bs[i]? = some b ∧ R a b := by
  induction h generalizing i with
  | nil => simp at ha
  | cons hab _ ih =>
    cases i with
    | zero =>
      obtain rfl := Option.some.inj ha
      exact ⟨_,rfl,hab⟩
    | succ i => exact ih ha

end Forall₂

section Grant

variable {E : AgentEnv} {guard : AgentCalls → AgentOp → Prop} {request : AgentGrantRequest} {h h' : AgentCalls}
  {purpose : AgentDekPurpose} {seen : List AgentDekInput} {draft : GrantDraft} {start : Instant}

theorem Stamped.later {dek : AgentDekInput} {nonce : Bytes × Instant} (hstamped : Stamped E h dek nonce)
    (hh' : h <:+ h') : Stamped E h' dek nonce := by
  obtain ⟨approval,t,wall,hparsed,hnonce,⟨earlier,hread⟩,hremaining,hdeadline⟩ := hstamped
  exact ⟨approval,t,wall,hparsed,hnonce,⟨earlier,hread.trans hh'⟩,hremaining,hdeadline⟩

variable (hclock : ∀ h, guard h .instantNow ∧ guard h .systemTimeNow)
include hclock

theorem validateApprovalNotExpired_guarded {expiresAtUnix : UInt64} :
    Ensures (.guarded guard) (validateApprovalNotExpired expiresAtUnix) h fun _ h' => h <:+ h' := by
  rw [validateApprovalNotExpired,currentUnixSecs,bind_assoc]
  apply ensures_guarded_ask (hclock h).2
  intro now
  have hlater : h <:+ ⟨.systemTimeNow,now⟩::h := List.suffix_cons _ h
  rw [bind_assoc]
  exact ensures_check.mpr ⟨fun _ _ => hlater,fun _ _ => hlater⟩

theorem approvalExpiryInstant_guarded {expiresAtUnix : UInt64} :
    Ensures (.guarded guard) (approvalExpiryInstant expiresAtUnix) h fun r h' => h <:+ h' ∧
      ∀ deadline, r = .ok deadline → ∃ t wall, Stamp h' expiresAtUnix deadline t wall := by
  rw [approvalExpiryInstant]
  refine ensures_guarded_ask (hclock h).1 fun (t : Instant) => ?_
  refine ensures_guarded_ask (hclock _).2 fun (wall : SystemTime) => ?_
  have hlater : h <:+ ⟨.systemTimeNow,wall⟩::⟨.instantNow,t⟩::h :=
    (List.suffix_cons _ h).trans (List.suffix_cons _ _)
  refine ensures_check.mpr ⟨fun expiresAt hexpiresAt => ?_,fun _ _ => ⟨hlater,nofun⟩⟩
  refine ensures_check.mpr ⟨fun remaining hremaining => ?_,fun _ _ => ⟨hlater,nofun⟩⟩
  refine ensures_liftResult.mpr ⟨hlater,fun deadline hdeadline => ⟨t,wall,⟨h,List.suffix_refl _⟩,?_,?_⟩⟩
  · exact unixTime_eq_some (orError_eq_ok.mp hexpiresAt) ▸
      (durationSince_eq_some (orError_eq_ok.mp hremaining)).1
  · rw [checkedAddInstant_eq_some (orError_eq_ok.mp hdeadline),Nat.cast_add,
      (durationSince_eq_some (orError_eq_ok.mp hremaining)).2,
      unixTime_eq_some (orError_eq_ok.mp hexpiresAt)]

theorem grantDek_guarded {dek : AgentDekInput} (hdraft : draft.Follows E request purpose start seen h) :
    Ensures (.guarded guard) (grantDek E purpose request.grantId request.ttl draft dek) h fun r h' =>
      ∀ draft', r = .ok draft' → draft'.Follows E request purpose start (seen ++ [dek]) h' := by
  rw [grantDek]
  refine ensures_check.mpr ⟨fun approval happroval => ?_,fun _ _ => nofun⟩
  refine (validateApprovalNotExpired_guarded hclock).bind (fun _ h₁ hh₁ => ?_) fun _ _ _ => nofun
  refine (approvalExpiryInstant_guarded hclock).bind (fun deadline h₂ hstamp => ?_) fun _ _ _ => nofun
  obtain ⟨hh₂,hstamp⟩ := hstamp
  obtain ⟨t,wall,hstamp⟩ := hstamp deadline rfl
  refine ensures_check.mpr ⟨fun _ hfresh => ?_,fun _ _ => nofun⟩
  refine ensures_check.mpr ⟨fun kept hkept => ?_,fun _ _ => nofun⟩
  refine ensures_check.mpr ⟨fun _ _ => ?_,fun _ _ => nofun⟩
  refine ensures_check.mpr ⟨fun opened hopened => ?_,fun _ _ => nofun⟩
  refine ensures_check.mpr ⟨fun releasedDek hreleased => ?_,fun _ _ => nofun⟩
  rintro draft' hdraft'
  obtain rfl := Except.ok.inj hdraft'
  obtain rfl := toArray?_eq_some.mp (orError_eq_ok.mp hreleased)
  have hlater := hh₁.trans hh₂
  exact {
    first := hdraft.first.trans hlater
    opened := List.rel_append hdraft.opened (.cons ⟨approval,kept.1,happroval,hkept,context_eq_ok.mp hopened⟩ .nil)
    stamped := List.rel_append (hdraft.stamped.imp fun _ _ hstamped => hstamped.later hlater)
      (.cons ⟨approval,t,wall,happroval,rfl,hstamp⟩ .nil)
    nodup := by
      have hnew : approval.nonce ∉ draft.usedNonces.map Prod.fst := by
        simpa [List.any_eq_true] using bailIf_eq_ok.mp hfresh
      simpa [List.nodup_append] using ⟨hdraft.nodup,fun nonce deadline hmem heq =>
        hnew (List.mem_map.mpr ⟨(nonce,deadline),hmem,heq⟩)⟩
    expiry := (Nat.min_le_left _ _).trans hdraft.expiry
    approvals := by
      intro nonce hnonce
      obtain hnonce | hnonce := List.mem_append.mp hnonce
      · exact (Nat.min_le_left _ _).trans (hdraft.approvals nonce hnonce)
      · obtain rfl := List.mem_singleton.mp hnonce
        exact Nat.min_le_right _ _ }

/-- A grant request that gets as far as its publication. -/
theorem prepareGrant_guarded : Ensures (.guarded guard) (prepareGrant E request) [] fun r h =>
    ∀ prepared, r = .ok prepared → ∃ scope grant nonces,
      prepared = .grant scope grant nonces request.ttl ∧ GrantPrepared E request scope grant nonces h := by
  rw [prepareGrant]
  refine ensures_check.mpr ⟨fun _ _ => ?_,fun _ _ _ he => (error_ne_ok he).elim⟩
  refine ensures_check.mpr ⟨fun key hkey => ?_,fun _ _ _ he => (error_ne_ok he).elim⟩
  refine ensures_check.mpr ⟨fun _ hpositive => ?_,fun _ _ _ he => (error_ne_ok he).elim⟩
  refine ensures_check.mpr ⟨fun _ hmaximum => ?_,fun _ _ _ he => (error_ne_ok he).elim⟩
  apply ensures_guarded_ask (hclock []).1
  intro start
  refine ensures_check.mpr ⟨fun expiresAt hexpiresAt => ?_,fun _ _ _ he => (error_ne_ok he).elim⟩
  refine ensures_check.mpr ⟨fun purpose hpurpose => ?_,fun _ _ _ he => (error_ne_ok he).elim⟩
  obtain ⟨rfl,-⟩ := grantKeyFromId_eq_ok.mp hkey
  have hstart : GrantDraft.Follows E request purpose start [] ⟨expiresAt,[],[]⟩ [⟨.instantNow,start⟩] :=
    ⟨List.suffix_refl _,.nil,.nil,List.nodup_nil,
      (checkedAddInstant_eq_some (orError_eq_ok.mp hexpiresAt)).le,fun _ h => (List.not_mem_nil h).elim⟩
  refine (ensures_foldlM (I := fun seen draft h => GrantDraft.Follows E request purpose start seen draft h)
    (Q := fun r h => ∀ draft, r = .ok draft → GrantDraft.Follows E request purpose start request.deks draft h)
    hstart (fun seen dek rest _ draft h hdraft => ?_) fun draft h hdraft draft' hdraft' => ?_).bind
      (fun draft h hdraft => ?_) fun _ _ _ _ he => (error_ne_ok he).elim
  · exact (grantDek_guarded hclock hdraft).mono fun r h' hr => ⟨hr,fun _ _ _ he => (error_ne_ok he).elim⟩
  · exact Except.ok.inj hdraft' ▸ hdraft
  · have hdraft := hdraft draft rfl
    rintro prepared hprepared
    refine ⟨_,_,_,(Except.ok.inj hprepared).symm,?_⟩
    exact {
      scope := rfl
      ttl := ⟨bailIf_eq_ok.mp hpositive,UInt64.not_lt.mp (bailIf_eq_ok.mp hmaximum)⟩
      opened := ⟨purpose,hpurpose,hdraft.opened⟩
      stamped := hdraft.stamped
      nodup := hdraft.nodup
      expiry := ⟨start,hdraft.first,hdraft.expiry⟩
      approvals := hdraft.approvals }

end Grant
end Avault.Agent
