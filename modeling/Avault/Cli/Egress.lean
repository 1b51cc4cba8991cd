import Avault.Agent.Concrete
import Avault.Cli.OneShot
import Avault.Fetch.Egress

/-! Credentials leave by checked requests only, from the one-shot command and from the agent. -/
namespace Avault.Cli
open Foundation Crypto Deliver Fetch
open Foundation.Program (Ensures ensures_bind ensures_check ensures_mapResult ensures_pure)

abbrev CliCalls := History CliOp CliOp.Reply

/-- The fetch request that was read from stdin. -/
def ReadsFetch (parseInput : Bytes → Result FetchInput) (h : CliCalls) (fetch : FetchInput) : Prop :=
  ∃ input, ⟨.readJson,.ok input⟩ ∈ h ∧ parseInput input = .ok fetch

/-- What the one-shot command may call. -/
def FetchGuard (U : UrlCrate) (parseInput : Bytes → Result FetchInput) (h : CliCalls) : CliOp → Prop
  | .openSealed _ name envelope => ∃ fetch, ReadsFetch parseInput h fetch ∧ name = fetch.name ∧
    envelope = fetch.envelope ∧ fetch.tier = .standard ∧ Confined U fetch.request
  | .send sent => ∃ fetch masterKey secret, ReadsFetch parseInput h fetch ∧
    ⟨.openSealed masterKey fetch.name fetch.envelope,.ok secret⟩ ∈ h ∧ SafeRequest U fetch.request secret sent
  | _ => True

/-- What a frame of the agent opens and sends. -/
structure AgentConfined {P : Type} (E : Agent.AgentEnv) (tasks : P → Agent.AgentTask)
    (events : List (Agent.AgentEvent P)) : Prop where
  opened : ∀ ev ∈ events, ∀ frame request, tasks ev.process = .frame frame →
    E.parseRequest frame = .ok (.deliverFetch request) → ∀ key name envelope,
    ev.op = .openSealed key name envelope ∨ ev.op = .openWithDek key name envelope → Confined E.urls request.request
  sent : ∀ ev ∈ events, ∀ sent, ev.op = .send sent → ∃ frame request secret, tasks ev.process = .frame frame ∧
    E.parseRequest frame = .ok (.deliverFetch request) ∧
    Agent.OpenedSecretInput ev.history request.auth secret ∧ SafeRequest E.urls request.request secret sent

section OneShot

variable {U : UrlCrate} {parseInput : Bytes → Result FetchInput} {h : CliCalls} {fetch : FetchInput}

theorem loadExistingMasterFromUnlock_guarded {unlock : StoreUnlock} :
    Ensures (.guarded (FetchGuard U parseInput)) (loadExistingMasterFromUnlock unlock) h fun _ h' => h <:+ h' := by
  cases unlock with
  | standard backend => exact ⟨trivial,fun _ => List.suffix_cons _ h⟩
  | filePassphrase passphrase =>
    exact ensures_mapResult.mpr ⟨trivial,fun _ => List.suffix_cons _ h⟩

theorem readStoreUnlock_guarded {config : StoreSelection} :
    Ensures (.guarded (FetchGuard U parseInput)) (readStoreUnlock config) h fun _ h' => h <:+ h' := by
  cases config with
  | filePassphrase =>
    refine Ensures.bind (P := fun _ h' => h <:+ h') ?_ (fun _ _ hh' => ensures_pure.mpr hh') fun _ _ hh' => hh'
    exact ensures_mapResult.mpr ⟨trivial,fun _ => List.suffix_cons _ h⟩
  | _ => exact List.suffix_refl h

theorem ReadsFetch.later {h' : CliCalls} (hread : ReadsFetch parseInput h fetch) (hh' : h <:+ h') :
    ReadsFetch parseInput h' fetch := by
  obtain ⟨input,hinput,hparsed⟩ := hread
  exact ⟨input,hh'.subset hinput,hparsed⟩

theorem openOneShotSecret_guarded {unlock : StoreUnlock} (hread : ReadsFetch parseInput h fetch)
    (htier : fetch.tier = .standard) (hconfined : Confined U fetch.request) :
    Ensures (.guarded (FetchGuard U parseInput))
      (openOneShotSecret fetch.name fetch.envelope fetch.dekBlindbox fetch.approval unlock none) h fun r h' =>
        h <:+ h' ∧ ∀ secret, r = .ok secret →
          ∃ masterKey, ⟨.openSealed masterKey fetch.name fetch.envelope,.ok secret⟩ ∈ h' := by
  rw [openOneShotSecret]
  have hfails {h' : CliCalls} (hh' : h <:+ h') (e : Error) : h <:+ h' ∧ ∀ secret,
      (.error e : Result Bytes) = .ok secret →
        ∃ masterKey, ⟨.openSealed masterKey fetch.name fetch.envelope,.ok secret⟩ ∈ h' :=
    ⟨hh',fun _ he => (error_ne_ok he).elim⟩
  refine ensures_check.mpr ⟨fun _ _ => ?_,fun e _ => hfails (List.suffix_refl h) e⟩
  refine loadExistingMasterFromUnlock_guarded.bind (fun master h' hh' => ?_) fun e h' hh' => hfails hh' e
  refine ensures_mapResult.mpr ⟨⟨fetch,hread.later hh',rfl,rfl,htier,hconfined⟩,fun r => ?_⟩
  have hlater : h <:+ ⟨.openSealed master fetch.name fetch.envelope,r⟩::h' := hh'.trans (List.suffix_cons _ h')
  cases r with
  | error e => exact hfails hlater _
  | ok secret =>
    refine ⟨hlater,fun secret' hsecret => ⟨master,?_⟩⟩
    obtain rfl := Except.ok.inj hsecret
    exact List.mem_cons_self ..

theorem deliverFetchCmd_guarded {args : List String} {config : StoreSelection} :
    Ensures (.guarded (FetchGuard U parseInput)) (deliverFetchCmd U parseInput args config) []
      fun _ _ => True := by
  rw [deliverFetchCmd]
  refine ensures_check.mpr ⟨fun _ _ => ?_,fun _ _ => trivial⟩
  refine readStoreUnlock_guarded.bind (fun unlock h₁ _ => ?_) fun _ _ _ => trivial
  rw [ensures_bind,withContext,ensures_mapResult]
  refine ⟨trivial,fun r => ?_⟩
  cases r with
  | error e => exact trivial
  | ok input =>
    refine ensures_check.mpr ⟨fun fetch hfetch => ?_,fun _ _ => trivial⟩
    refine ensures_check.mpr ⟨fun _ htier => ?_,fun _ _ => trivial⟩
    refine ensures_check.mpr ⟨fun target htarget => ?_,fun _ _ => trivial⟩
    have hread : ReadsFetch parseInput (⟨.readJson,.ok input⟩::h₁) fetch :=
      ⟨input,List.mem_cons_self ..,context_eq_ok.mp hfetch⟩
    have hstandard : fetch.tier = .standard := not_not.mp (bailIf_eq_ok.mp htier)
    rw [ensures_bind,withContext,ensures_mapResult]
    apply (openOneShotSecret_guarded hread hstandard (validateFetchInput_confined htarget)).mono
    intro r h' hr
    cases r with
    | error e => exact trivial
    | ok secret =>
      obtain ⟨hh',hsecret⟩ := hr
      obtain ⟨masterKey,hopened⟩ := hsecret secret rfl
      have hsend (injection : Injection) (hinjection : injectSecret U fetch.request secret = .ok injection) :
          Ensures (.guarded (FetchGuard U parseInput)) (sendRequest (httpRequest fetch.request injection target.2)) h'
            fun _ _ => True :=
        ⟨⟨fetch,masterKey,secret,hread.later hh',hopened,safeRequest htarget hinjection⟩,fun _ => trivial⟩
      refine Ensures.bind (P := fun _ _ => True) (ensures_mapResult.mpr (executeFetchRequest_ensures U sendRequest hsend))
        (fun output h'' _ => ?_) fun _ _ _ => trivial
      rw [ensures_bind,withContext,ensures_mapResult]
      refine ⟨trivial,fun written => ?_⟩
      cases written <;> exact trivial

end OneShot

section Agent

open Agent

variable {P : Type} [DecidableEq P] {E : AgentEnv} {tasks : P → AgentTask} {idleTimeout : Duration}
  {now : Instant} {events : List (AgentEvent P)} {d : AgentConfig P}

theorem agentRun_confined (hrun : AgentRun E tasks idleTimeout now events d) : AgentConfined E tasks events where
  opened ev hev frame request htask hparsed key name envelope hop := by
    have hguard := hrun.guard ev hev
    rw [htask] at hguard
    cases hguard with
    | prepare hparsed' hprepare =>
      obtain rfl := Except.ok.inj (hparsed.symm.trans hparsed')
      obtain hop | hop := hop <;> rw [hop] at hprepare <;> exact validateFetchInput_confined hprepare.1.choose_spec
    | @commit _ prepared _ _ _ hcommit =>
      obtain hop | hop := hop <;> rw [hop] at hcommit <;> cases prepared <;> cases hcommit
    | @finish _ prepared _ _ _ _ hfinish =>
      obtain hop | hop := hop <;> rw [hop] at hfinish <;> cases prepared <;> simp [FinishCall] at hfinish
  sent ev hev sent hop := by
    have hguard := hrun.guard ev hev
    rw [hop] at hguard
    cases htask : tasks ev.process with
    | purge =>
      rw [htask] at hguard
      obtain h | h := hguard <;> cases h
    | frame frame =>
      rw [htask] at hguard
      cases hguard with
      | prepare _ hprepare => exact hprepare.elim
      | @commit _ prepared _ _ _ hcommit => cases prepared <;> cases hcommit
      | @finish _ prepared _ hparsed hprepared hh' hfinish =>
        cases hprepared with
        | @fetch request target secret hvalid hsecret =>
          obtain ⟨injection,hinjection,heq⟩ := hfinish
          cases heq
          obtain ⟨auth,hauth,hopened⟩ := hsecret
          obtain rfl := List.mem_singleton.mp hauth
          exact ⟨frame,request,secret,rfl,hparsed,hopened.later hh',safeRequest hvalid hinjection⟩
        | _ => simp [FinishCall] at hfinish

/-- Whoever asks, and whatever the secret is, it leaves by a checked request. -/
theorem egress_confined (hrun : AgentRun E tasks idleTimeout now events d) : AgentConfined E tasks events ∧
    ∀ U parseInput args config h op next, Reaches (deliverFetchCmd U parseInput args config).run h
      (.request op next) → FetchGuard U parseInput h op :=
  ⟨agentRun_confined hrun,fun _ _ _ _ _ _ _ hreaches => hreaches.allowed deliverFetchCmd_guarded⟩

end Agent

section Sample

variable {U : UrlCrate} {fetch : FetchInput} {target : Url × Bool} {injection : Injection} {secret : Bytes}

/-- The calls of a fetch of a standard secret that passes the checks. -/
theorem deliverFetchCmd_fetch (htier : fetch.tier = .standard) (hdek : fetch.dekBlindbox = none)
    (happroval : fetch.approval = none) (hvalid : validateFetchInput U fetch = .ok target) :
    deliverFetchCmd U (fun _ => .ok fetch) [] .auto = (do
      let _ ← withContext "failed to read deliver fetch JSON from stdin" readJson
      let secret ← withContext "open failed" (do
        let master ← loadMasterKey .auto
        withContext "envelope open failed" (openSealed master fetch.name fetch.envelope))
      let output ← withContext "fetch request failed"
        (executeFetchRequest U sendRequest fetch.request secret target.2)
      withContext "failed to write fetch response JSON" (writeResponse output)
      return fetchOutputExitCode output) := by
  have hargs : bailIf (([] : List String) ≠ []) "deliver fetch reads its JSON request from stdin and takes no options" =
      .ok () := bailIf_neg fun h => h rfl
  have hstandard : ensureOneShotStandardTier fetch.tier = .ok () := by
    rw [htier]
    rfl
  have hplain : rejectOneShotProtectedFields fetch.dekBlindbox fetch.approval = .ok () := by
    rw [hdek,happroval]
    rfl
  simp only [deliverFetchCmd,hargs,readStoreUnlock,openOneShotSecret,loadExistingMasterFromUnlock,context_ok,hstandard,hplain,hvalid,
    Program.liftResult_ok_bind,pure_bind]

theorem executeFetchRequest_sends {request : FetchRequest} (hinject : injectSecret U request secret = .ok injection)
    (isLoopback : Bool) : ∃ next, (do
      let output ← withContext "fetch request failed" (executeFetchRequest U sendRequest request secret isLoopback)
      withContext "failed to write fetch response JSON" (writeResponse output)
      return fetchOutputExitCode output : CliM UInt8).run =
        .request (.send (httpRequest request injection isLoopback)) next := by
  rw [executeFetchRequest,hinject]
  exact ⟨_,rfl⟩

/-- A standard secret for the sample request. -/
def sampleFetchInput : FetchInput where
  name := "KEY"
  tier := .standard
  envelope := ⟨"","",""⟩
  dekBlindbox := none
  approval := none
  request := sampleRequest (.query "token")

theorem sampleFetchInput_sends (masterKey : Key) (input : Bytes) : ∃ next,
    Reaches (deliverFetchCmd plainUrlCrate (fun _ => .ok sampleFetchInput) [] .auto).run
      [⟨.openSealed masterKey "KEY" ⟨"","",""⟩,.ok (utf8 "s3 cret")⟩,⟨.loadMasterKey .auto,.ok masterKey⟩,⟨.readJson,.ok input⟩]
      (.request (.send (httpRequest (sampleRequest (.query "token")) sampleInjection false)) next) := by
  obtain ⟨next,hnext⟩ := executeFetchRequest_sends injectSecret_sample false
  have hcalls : ∃ read load opens, (deliverFetchCmd plainUrlCrate (fun _ => .ok sampleFetchInput) [] .auto).run =
      .request .readJson read ∧ read (.ok input) = .request (.loadMasterKey .auto) load ∧
      load (.ok masterKey) = .request (.openSealed masterKey "KEY" ⟨"","",""⟩) opens ∧
      opens (.ok (utf8 "s3 cret")) =
        .request (.send (httpRequest (sampleRequest (.query "token")) sampleInjection false)) next := by
    rw [deliverFetchCmd_fetch rfl rfl rfl (sampleInput_valid (.inr rfl))]
    exact ⟨_,_,_,rfl,rfl,rfl,hnext⟩
  obtain ⟨read,load,opens,hread,hload,hopen,hsend⟩ := hcalls
  have hfirst : Reaches (deliverFetchCmd plainUrlCrate (fun _ => .ok sampleFetchInput) [] .auto).run []
      (.request .readJson read) := hread ▸ .nil
  exact ⟨next,((hfirst.call hload).call hopen).call hsend⟩

open Agent (AgentRun LifeTask fromSecs lifeEnv lifeRun) in
/-- Both send the sample request with the credential in its query, to the host that it allows. -/
theorem egress_confined_sample : (∃ events d, AgentRun lifeEnv LifeTask.task (fromSecs 300) 0 events d ∧
      (∃ ev ∈ events, ev.op = .send (httpRequest (sampleRequest (.query "token")) sampleInjection false)) ∧
      AgentConfined lifeEnv LifeTask.task events) ∧
    ∃ h next, Reaches (deliverFetchCmd plainUrlCrate (fun _ => .ok sampleFetchInput) [] .auto).run h
      (.request (.send (httpRequest (sampleRequest (.query "token")) sampleInjection false)) next) ∧
      FetchGuard plainUrlCrate (fun _ => .ok sampleFetchInput) h
        (.send (httpRequest (sampleRequest (.query "token")) sampleInjection false)) ∧
      ∃ url, plainUrlCrate.parse sampleInjection.targetUrl = .ok url ∧
        AllowedTarget (sampleRequest (.query "token")) url := by
  obtain ⟨events,d,hrun,hlived⟩ := lifeRun
  obtain ⟨hagent,hcli⟩ := egress_confined hrun
  obtain ⟨next,hreaches⟩ := sampleFetchInput_sends (Vector.replicate keyBytes 0) []
  have hguard := hcli _ _ _ _ _ _ _ hreaches
  have ⟨fetch,_,_,⟨_,_,hfetch⟩,_,hsafe⟩ := hguard
  obtain rfl := Except.ok.inj hfetch
  obtain ⟨_,_,_,htarget⟩ := hsafe.target
  obtain ⟨-,-,hallowed⟩ := htarget plainUrlCrate_readsHost _ sampleInjection_parsed
  exact ⟨⟨events,d,hrun,hlived.sent,hagent⟩,_,next,hreaches,hguard,_,sampleInjection_parsed,hallowed⟩

end Sample
end Avault.Cli
