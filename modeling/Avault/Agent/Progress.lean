import Avault.Agent.Service
import Avault.Foundation.OneLock

/-! The agent never comes to a stop: of its locks only the one for loading the master is held over
other calls, and every task gives it back. -/
namespace Avault.Agent
open Foundation Crypto Deliver Fetch

def AgentOp.lockEffect : AgentOp → Option Bool
  | .cache .lockLoading => some true
  | .cache .unlockLoading => some false
  | _ => none

section Lock

variable {E : AgentEnv}

theorem AgentStep.lock {w w' : AgentWorld} {op : AgentOp} {r : op.Reply} (h : AgentStep E w op r w') :
    w'.cell.loading = op.lockEffect.getD w.cell.loading ∧ (op.lockEffect = some true → w.cell.loading = false) := by
  cases h with
  | cache hstep =>
    cases hstep with
    | lockLoading hfree => exact ⟨rfl,fun _ => hfree⟩
    | _ => exact ⟨rfl,nofun⟩
  | _ => exact ⟨rfl,nofun⟩

/-- Every call but that of the lock can be made at once. -/
theorem exists_agentStep (w : AgentWorld) (op : AgentOp) (hfree : op.lockEffect = some true → w.cell.loading = false) :
    ∃ r w', AgentStep E w op r w' := by
  have hnow := Nat.le_refl w.now
  cases op with
  | instantNow => exact ⟨_,_,.instantNow hnow⟩
  | systemTimeNow => exact ⟨_,_,.systemTimeNow hnow⟩
  | publishGrant scope grant nonces => exact ⟨_,_,.publishGrant hnow hnow⟩
  | release scope => exact ⟨_,_,.release hnow hnow hnow⟩
  | getLiveGrant scope => exact ⟨_,_,.getLiveGrant hnow⟩
  | recordActivity => exact ⟨_,_,.recordActivity hnow hnow⟩
  | purge => exact ⟨_,_,.purge hnow⟩
  | cache op =>
    cases op with
    | useCached => exact ⟨_,_,.cache (.useCached hnow)⟩
    | lockLoading => exact ⟨_,_,.cache (.lockLoading (hfree rfl))⟩
    | load => exact ⟨_,_,.cache (.load (r := .error []) hnow)⟩
    | fill key => exact ⟨_,_,.cache (.fill hnow)⟩
    | unlockLoading => exact ⟨_,_,.cache .unlockLoading⟩
    | purge => exact ⟨_,_,.cache (.purge hnow)⟩
  | openSealed masterKey name envelope => exact ⟨_,_,.openSealed⟩
  | openWithDek dek name envelope => exact ⟨_,_,.openWithDek⟩
  | runChild command opened => exact ⟨.error [],_,.runChild hnow⟩
  | send request => exact ⟨.error [],_,.send hnow⟩
  | writeSecretFile path bytes => exact ⟨.error [],_,.writeSecretFile hnow⟩
  | signDigest scheme key digest => exact ⟨.error [],_,.signDigest hnow⟩

variable (E) in
/-- The `loading` lock of the master cache. -/
def agentLock : OneLock AgentOp AgentOp.Reply AgentWorld where
  step := AgentStep E
  effect := AgentOp.lockEffect
  held w := w.cell.loading
  held_of_step h := h.lock.1
  free_of_take h := h.lock.2
  exists_step := exists_agentStep

end Lock

section Tasks

open OneLock

variable {E : AgentEnv}

/-- The guard of the lock is dropped on every way out of `get`. -/
theorem balanced_get (source : AgentMasterSource) : (agentLock E).Balanced (liftCache (AgentMasterCache.get source)) := by
  cases source with
  | unlocked master => rfl
  | store =>
    refine ⟨nofun,fun found => ?_⟩
    cases found with
    | some key => rfl
    | none =>
      refine ⟨fun c hc => (Option.some.inj hc).symm,fun _ => ⟨nofun,fun found => ?_⟩⟩
      cases found with
      | some key => exact ⟨fun c hc => (Option.some.inj hc).symm,fun _ => rfl⟩
      | none =>
        refine ⟨nofun,fun loaded => ?_⟩
        cases loaded with
        | ok key => exact ⟨nofun,fun _ => ⟨fun c hc => (Option.some.inj hc).symm,fun _ => rfl⟩⟩
        | error e => exact ⟨fun c hc => (Option.some.inj hc).symm,fun _ => rfl⟩

theorem balanced_getLiveGrant (scope : GrantKey) : (agentLock E).Balanced (getLiveGrant scope) := balanced_call rfl

theorem balanced_openWithGrant {α : Type} {scope : GrantKey} {needsStandardMaster : Bool}
    {openGranted : GrantEntry → Option Key → AgentM α} (hopen : ∀ grant master, (agentLock E).Balanced (openGranted grant master)) :
    (agentLock E).Balanced (openWithGrant E scope needsStandardMaster openGranted) := by
  have hrest (master : Option Key) : (agentLock E).Balanced (do
      let grant ← getLiveGrant scope
      let opened ← openGranted grant master
      recordActivity
      return opened) := by
    refine (balanced_getLiveGrant scope).bind fun grant => (hopen grant master).bind fun opened => ?_
    exact (balanced_ask rfl).bind fun _ => balanced_pure
  unfold openWithGrant
  refine (balanced_getLiveGrant scope).bind fun _ => ?_
  dsimp only
  split
  · exact ((balanced_get E.source).bind fun _ => balanced_pure).bind hrest
  · exact hrest none

theorem balanced_openAgentSecret (name : String) (tier : SecretTier) (envelope : Sealed) (grant : GrantEntry)
    (master : Option Key) : (agentLock E).Balanced (openAgentSecret name tier envelope grant master) := by
  cases tier with
  | standard =>
    refine (balanced_liftResult _).bind fun masterKey => Balanced.mapResult ?_
    exact balanced_call rfl
  | «protected» =>
    refine (balanced_liftResult _).bind fun dek => Balanced.mapResult ?_
    exact balanced_call rfl

theorem balanced_openTarget (target label duplicate name : String) (tier : SecretTier) (envelope : Sealed)
    (dekBlindbox : Option BlindBox) (approval : Option JsonValue) (grant : GrantEntry) (master : Option Key)
    (opened : List OpenedSecret) : (agentLock E).Balanced
      (openTarget target label duplicate name tier envelope dekBlindbox approval grant master opened) := by
  refine (balanced_liftResult _).bind fun _ => (balanced_liftResult _).bind fun _ => ?_
  refine (balanced_liftResult _).bind fun _ => Balanced.bind (Balanced.mapResult ?_) fun _ => balanced_pure
  exact balanced_openAgentSecret name tier envelope grant master

theorem balanced_grantDek (purpose : AgentDekPurpose) (grantId : String) (ttlSecs : UInt64) (draft : GrantDraft)
    (dek : AgentDekInput) : (agentLock E).Balanced (grantDek E purpose grantId ttlSecs draft dek) := by
  have hvalid (expiresAt : UInt64) : (agentLock E).Balanced (validateApprovalNotExpired expiresAt) := by
    refine Balanced.bind ?_ fun _ => balanced_liftResult _
    exact (balanced_ask rfl).bind fun _ => (balanced_liftResult _).bind fun _ => balanced_pure
  have hexpiry (expiresAt : UInt64) : (agentLock E).Balanced (approvalExpiryInstant expiresAt) := by
    refine (balanced_ask rfl).bind fun _ => (balanced_ask rfl).bind fun _ => ?_
    exact (balanced_liftResult _).bind fun _ => (balanced_liftResult _).bind fun _ => balanced_liftResult _
  refine (balanced_liftResult _).bind fun approval => (hvalid _).bind fun _ => (hexpiry _).bind fun _ => ?_
  refine (balanced_liftResult _).bind fun _ => (balanced_liftResult _).bind fun _ => ?_
  refine (balanced_liftResult _).bind fun _ => (balanced_liftResult _).bind fun _ => ?_
  exact (balanced_liftResult _).bind fun _ => balanced_pure

theorem balanced_handleGrant (request : AgentGrantRequest) : (agentLock E).Balanced (handleGrant E request) := by
  have hpublish {scope : GrantKey} {grant : GrantEntry} {nonces : List (Bytes × Instant)} :
      (agentLock E).Balanced (publishGrant scope grant nonces) := balanced_call rfl
  unfold handleGrant
  refine (balanced_liftResult _).bind fun _ => (balanced_liftResult _).bind fun _ => ?_
  refine (balanced_liftResult _).bind fun _ => (balanced_liftResult _).bind fun _ => (balanced_ask rfl).bind fun _ => ?_
  refine (balanced_liftResult _).bind fun _ => (balanced_liftResult _).bind fun purpose => ?_
  refine (balanced_foldlM (fun draft dek => balanced_grantDek purpose _ _ draft dek) _ _).bind fun draft => ?_
  exact hpublish.bind fun _ => balanced_pure

theorem balanced_handleRelease (request : AgentGrantScopeRequest) : (agentLock E).Balanced (handleRelease request) :=
  (balanced_liftResult _).bind fun _ => (balanced_ask rfl).bind fun _ => balanced_pure

theorem balanced_handleDeliverRun (request : AgentRunDeliverRequest) : (agentLock E).Balanced (handleDeliverRun E request) := by
  have hrun {command : List String} {opened : List OpenedSecret} : (agentLock E).Balanced (runChild command opened) :=
    balanced_call rfl
  unfold handleDeliverRun
  refine (balanced_liftResult _).bind fun _ => (balanced_liftResult _).bind fun _ => ?_
  refine (balanced_liftResult _).bind fun _ => (balanced_liftResult _).bind fun _ => ?_
  refine (balanced_openWithGrant fun grant master => ?_).bind fun opened => hrun.bind fun _ => balanced_pure
  exact balanced_foldlM (fun _ _ => balanced_openTarget ..) _ _

theorem balanced_handleDeliverFetch (request : AgentFetchDeliverRequest) :
    (agentLock E).Balanced (handleDeliverFetch E request) := by
  have hsend {request : HttpRequest} : (agentLock E).Balanced (sendRequest request) := balanced_call rfl
  unfold handleDeliverFetch
  refine (balanced_liftResult _).bind fun _ => (balanced_liftResult _).bind fun _ => ?_
  refine (balanced_openWithGrant fun grant master => (balanced_openAgentSecret ..).mapResult).bind fun secret => ?_
  refine Balanced.bind (Balanced.mapResult ?_) fun _ => balanced_pure
  unfold executeFetchRequest performFetch
  exact (balanced_liftResult _).bind fun injection => (hsend.bind fun _ => balanced_liftResult _).mapResult

theorem balanced_handleDeliverInject (request : AgentInjectDeliverRequest) :
    (agentLock E).Balanced (handleDeliverInject E request) := by
  have hwrite {path : String} {bytes : Bytes} : (agentLock E).Balanced (writeSecretFile path bytes) := balanced_call rfl
  unfold handleDeliverInject
  refine (balanced_liftResult _).bind fun _ => (balanced_liftResult _).bind fun _ => (balanced_liftResult _).bind fun _ => ?_
  refine (balanced_openWithGrant fun grant master => ?_).bind fun rendered => hwrite.mapResult.bind fun _ => balanced_pure
  exact (balanced_foldlM (fun _ _ => balanced_openTarget ..) _ _).bind fun _ => balanced_liftResult _

theorem balanced_handleSign (request : AgentSignRequest) : (agentLock E).Balanced (handleSign E request) := by
  have hopen {dek : Key} {name : String} {envelope : Sealed} : (agentLock E).Balanced (openWithDek dek name envelope) :=
    balanced_call rfl
  have hsign {scheme : SignatureScheme} {key digest : Key} : (agentLock E).Balanced (signDigest scheme key digest) :=
    balanced_call rfl
  unfold handleSign
  refine (balanced_liftResult _).bind fun _ => (balanced_liftResult _).bind fun _ => (balanced_liftResult _).bind fun _ => ?_
  refine (balanced_openWithGrant fun grant master => ?_).bind fun keyPlaintext => ?_
  · exact (balanced_liftResult _).bind fun dek => hopen.mapResult
  · exact (balanced_liftResult _).bind fun key => hsign.mapResult.bind fun _ => balanced_pure

theorem balanced_handleRequest (request : AgentRequest) : (agentLock E).Balanced (handleRequest E request) := by
  cases request with
  | pubkey => exact balanced_pure
  | grant request => exact balanced_handleGrant request
  | release request => exact balanced_handleRelease request
  | revoke request => exact balanced_handleRelease request
  | deliverRun request => exact balanced_handleDeliverRun request
  | deliverFetch request => exact balanced_handleDeliverFetch request
  | deliverInject request => exact balanced_handleDeliverInject request
  | sign request => exact balanced_handleSign request

theorem ends_task (task : AgentTask) : (agentLock E).Ends (task.program E) false := by
  cases task with
  | frame bytes =>
    have hframe : (agentLock E).Balanced (handleAgentFrameInner E bytes) :=
      (balanced_liftResult _).bind fun request => balanced_handleRequest request
    exact Balanced.bind hframe fun _ => balanced_pure
  | purge => exact ⟨nofun,fun _ => ⟨nofun,fun _ => rfl⟩⟩

end Tasks

section Resident

variable {P : Type}

/-- Nothing that a socket or the listener does depends on another thread. -/
theorem exists_ownStep (i : AgentThread P) (s : AgentOwned i) (o : AgentOwn i) : ∃ r t, agentOwnStep i s o r t := by
  cases i with
  | none =>
    cases o with
    | setNonblocking => exact ⟨.ok (),(),trivial⟩
    | accept => exact ⟨.ok 0,(),trivial⟩
    | purge | dispatchAgentConnection _ | sleep => exact ⟨(),(),trivial⟩
  | some p =>
    cases o with
    | setNonblocking => exact ⟨_,_,Connection.PeerStep.setNonblocking (.ok ())⟩
    | authorizePeer => exact ⟨_,_,Connection.PeerStep.authorizePeer (.ok ())⟩
    | now => exact ⟨_,_,Connection.PeerStep.now 0⟩
    | sleep => exact ⟨_,_,Connection.PeerStep.sleep⟩
    | read length =>
      obtain ⟨chunk,rest,htakes⟩ := Takes.exists_chunk length (show Connection.Peer from s).unread
      exact ⟨_,_,Connection.PeerStep.read htakes⟩
    | write bytes => exact ⟨_,_,Connection.PeerStep.writeFailed .timedOut⟩
    | handleAgentFrame frame => exact ⟨_,_,Connection.PeerStep.handleAgentFrame (agentErrorResponse [])⟩

variable [DecidableEq P]

/-- The `loading` lock among all calls of the agent's threads. -/
def residentLock (E : AgentEnv) : OneLock (ServerOp (AgentOwn (P := P)) AgentOp) (ServerReply AgentOwnReply AgentOp.Reply)
    ((∀ i : AgentThread P, AgentOwned i) × AgentWorld) :=
  (agentLock E).serving agentOwnStep exists_ownStep

variable {E : AgentEnv} {toVec : AgentResponse → Result Bytes} {turns : ℕ} {streams : P → Bytes} {idleTimeout : Duration}
  {now : Instant} {events : List (ServerEvent (AgentThread P) AgentOwnReply AgentOp.Reply AgentOwned AgentWorld)}
  {d : ServerConfig (AgentThread P) AgentOwnReply AgentOp.Reply AgentOwned (Result Unit) AgentWorld}

/-- Wherever the agent is, each of its threads goes on, or waits for the master that another one is
loading; and a connection that is at a request can be brought to its answer, without anything more that
its peer does. -/
theorem residentAgent_progresses (hrun : ResidentRun E toVec turns streams idleTimeout now events d) :
    (∀ i, (residentLock E).Progresses d i) ∧ ∀ p, ∃ more e,
      ResidentRun E toVec turns streams idleTimeout now (events ++ more) e ∧
      (∀ ev ∈ more, ev.process = some p → ev.op.isRight = true) ∧
      ∀ op next, (e.process (some p)).program ≠ .request (.inr op) next := by
  have hstart : (residentLock E).Inv (Config.start (fun i => (agentService P E).serve i (agentThread toVec turns i))
      (agentOwned streams,⟨now,AgentState.new idleTimeout now,⟨none,false⟩⟩)) :=
    OneLock.inv_start (fun i => OneLock.ends_serve ends_task _) rfl
  have hinv := hstart.run hrun
  refine ⟨hinv.progresses,fun p => ?_⟩
  obtain ⟨more,e,he,hshared,hanswered⟩ := hinv.exists_through (fun op => op.isRight = true) hrun (some p)
  exact ⟨more,e,he,hshared,fun op next h => hanswered _ _ h rfl⟩

end Resident

section Sample

/-- A connection that sends a grant, and two that fetch with a secret of the standard tier. -/
inductive Caller
  | grants
  | loads
  | waits
deriving DecidableEq

def Caller.stream : Caller → Bytes
  | grants => [0,0,0,1,0]
  | loads | waits => [0,0,0,1,1]

def standardFetch : AgentFetchDeliverRequest where
  grantId := "g1"
  auth := ⟨"KEY",.standard,⟨"","",""⟩⟩
  request := sampleRequest (.query "token")

noncomputable def standardEnv : AgentEnv := concreteEnv [.grant sampleGrant,.deliverFetch standardFetch]

/-- The calls of the fetch up to that of the lock. -/
theorem standardTask_calls : ∃ look, (AgentTask.frame [1]).program standardEnv = .request (.getLiveGrant ⟨"g1"⟩) look ∧
    ∀ grant, ∃ use, look (.ok grant) = .request (.cache .useCached) use ∧
      ∃ lock, use none = .request (.cache .lockLoading) lock := by
  have hparsed : standardEnv.parseRequest [1] = .ok (.deliverFetch standardFetch) := rfl
  have hvalid : validateFetchInput standardEnv.urls standardFetch.fetchInput = .ok (sampleTarget,false) :=
    sampleInput_valid (.inr rfl)
  rw [AgentTask.program,handleAgentFrameInner_fetch hparsed hvalid (by decide)]
  exact ⟨_,rfl,fun _ => ⟨_,rfl,_,rfl⟩⟩

abbrev standardStart : AgentWorld := ⟨0,AgentState.new (fromSecs 300) 0,⟨none,false⟩⟩

/-- The agent once it has the grant. -/
def grantedWorld : AgentWorld :=
  { standardStart with state := (standardStart.state.publishGrant ⟨"g1"⟩ (sampleEntry 0 0) (sampleNonces 0 0) 0 0).2 }

theorem granted_live : grantedWorld.state.getLiveGrant ⟨"g1"⟩ grantedWorld.now = .ok (sampleEntry 0 0) :=
  AgentState.getLiveGrant_eq_ok.mpr ⟨rfl,rfl,by decide⟩

abbrev StandardComes (p : Caller) := Comes (ServingStep agentOwnStep (AgentStep standardEnv))
  ((agentService Caller standardEnv).serve (some p) (agentThread (fun _ => .ok []) 1 (some p)))

variable {own : ∀ i : AgentThread Caller, AgentOwned i}

theorem comes_grant (hown : own (some .grants) = (⟨[0,0,0,1,0],[]⟩ : Connection.Peer)) : ∃ q,
    StandardComes .grants (own,standardStart) q
      (Function.update own (some .grants) (⟨[],[]⟩ : Connection.Peer),grantedWorld) := by
  obtain ⟨rest,hcomes⟩ := comes_frame standardEnv (fun _ => .ok []) 0 own standardStart hown
  rw [standardEnv,sampleTask_eq] at hcomes
  have hpath := sampleReaches (Nat.le_refl 0) (show 0 < fromSecs 100 by decide)
  have hcomes := Service.comes_onShared hcomes hpath (sampleReadings_steps (Nat.le_refl 0) (Nat.le_refl 0))
  exact ⟨_,hcomes.turn rfl (.shared (.publishGrant (Nat.le_refl 0) (Nat.le_refl 0)))⟩

/-- A fetch that finds nothing cached comes to the lock. -/
theorem comes_lockLoading {p : Caller} {loading : Bool} (hown : own (some p) = (⟨[0,0,0,1,1],[]⟩ : Connection.Peer)) :
    ∃ next, StandardComes p (own,{ grantedWorld with cell := ⟨none,loading⟩ }) (.request (.inr (.cache .lockLoading)) next)
      (Function.update own (some p) (⟨[],[]⟩ : Connection.Peer),{ grantedWorld with cell := ⟨none,loading⟩ }) := by
  obtain ⟨rest,hcomes⟩ := comes_frame standardEnv (fun _ => .ok []) 0 own { grantedWorld with cell := ⟨none,loading⟩ } hown
  obtain ⟨look,hlook,hcalls⟩ := standardTask_calls
  obtain ⟨use,huse,lock,hlock⟩ := hcalls (sampleEntry 0 0)
  have hfirst : Reaches ((AgentTask.frame [1]).program standardEnv) [] (.request (.getLiveGrant ⟨"g1"⟩) look) := hlook ▸ .nil
  have hlooked : Steps (AgentStep standardEnv) { grantedWorld with cell := ⟨none,loading⟩ }
      [⟨.getLiveGrant ⟨"g1"⟩,.ok (sampleEntry 0 0)⟩] { grantedWorld with cell := ⟨none,loading⟩ } :=
    Steps.nil.cons (looked granted_live)
  have hused : AgentStep standardEnv { grantedWorld with cell := ⟨none,loading⟩ } (.cache .useCached) (none : Option Key)
      { grantedWorld with cell := ⟨none,loading⟩ } := .cache (.useCached (Nat.le_refl 0))
  exact ⟨_,Service.comes_onShared hcomes ((hfirst.call huse).call hlock) (hlooked.cons hused)⟩

abbrev StandardRun := ResidentRun standardEnv (fun _ => .ok []) 1 Caller.stream (fromSecs 300) 0

/-- A fetch comes to the lock, whether or not this is free. -/
theorem lockLoading_run {events d} {p : Caller} {loading : Bool} (hrun : StandardRun events d)
    (hi : d.process (some p) = ⟨(agentService Caller standardEnv).serve (some p) (agentThread (fun _ => .ok []) 1 (some p)),[]⟩)
    (hs : d.state = (own,{ grantedWorld with cell := ⟨none,loading⟩ }))
    (hown : own (some p) = (⟨[0,0,0,1,1],[]⟩ : Connection.Peer)) : ∃ calls e next h,
      StandardRun (events ++ calls) e ∧ e.process (some p) = ⟨.request (.inr (.cache .lockLoading)) next,h⟩ ∧
      e.state = (Function.update own (some p) (⟨[],[]⟩ : Connection.Peer),{ grantedWorld with cell := ⟨none,loading⟩ }) ∧
      ∀ j, j ≠ some p → e.process j = d.process j := by
  obtain ⟨next,h,hpath,hsteps⟩ := comes_lockLoading hown
  obtain ⟨calls,e,he,hstate,hei,hothers⟩ := hrun.along hi hs hpath hsteps
  exact ⟨calls,e,next,h,he,hei,hstate,hothers⟩

/-- The one holds the lock, for which the other waits until it is given back. -/
theorem residentAgent_progresses_waits : ∃ events d, StandardRun events d ∧
    (∃ next, (d.process (some .waits)).program = .request (.inr (.cache .lockLoading)) next) ∧
    (¬ ∃ r t, (residentLock standardEnv).step d.state (.inr (.cache .lockLoading)) r t) ∧
    (∃ j, j ≠ some .waits ∧ (residentLock standardEnv).holds (d.process j).history = true) ∧
    ∃ more e, StandardRun (events ++ more) e ∧
      ∀ op next, (e.process (some .waits)).program ≠ .request (.inr op) next := by
  have hrun : StandardRun [] _ := .nil
  obtain ⟨_,_,hpath,hsteps⟩ := comes_grant (show agentOwned Caller.stream (some .grants) = _ from rfl)
  obtain ⟨_,_,hrun,hs,-,hgranted⟩ := hrun.along (i := some .grants) rfl rfl hpath hsteps
  obtain ⟨_,_,_,_,hrun,hi,hs,hloads⟩ := lockLoading_run (p := .loads) hrun (hgranted _ (by decide)) hs rfl
  obtain ⟨_,hrun,hs,-,hlocked⟩ := hrun.turn hi rfl hs (.shared (.cache (.lockLoading rfl)))
  have hwaits := ((hlocked _ (by decide)).trans (hloads _ (by decide))).trans (hgranted (some .waits) (by decide))
  obtain ⟨_,d,next,_,hrun,hi,hs,-⟩ := lockLoading_run (p := .waits) hrun hwaits hs rfl
  obtain ⟨hprogresses,hanswered⟩ := residentAgent_progresses hrun
  have hprogram : (d.process (some .waits)).program = .request (.inr (.cache .lockLoading)) next := congrArg Process.program hi
  have hstuck : ¬ ∃ r t, (residentLock standardEnv).step d.state (.inr (.cache .lockLoading)) r t := by
    rintro ⟨r,t,hstep⟩
    have hfree := (residentLock standardEnv).free_of_take hstep rfl
    rw [hs] at hfree
    cases hfree
  obtain ⟨-,j,_,_,hj,hholds,-⟩ := (hprogresses (some .waits) _ _ hprogram).resolve_left hstuck
  obtain ⟨more,e,he,-,hdone⟩ := hanswered .waits
  exact ⟨_,d,hrun,⟨next,hprogram⟩,hstuck,⟨j,hj,hholds⟩,more,e,he,hdone⟩

end Sample
end Avault.Agent
