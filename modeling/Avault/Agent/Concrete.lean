import Avault.Agent.Runs
import Avault.Crypto.Concrete

/-! One choice of what the agent is given, and the run of a grant request with one DEK. -/
namespace Avault.Agent
open Foundation Crypto Fetch
open Foundation.Program (liftResult)

/-- Opens a box whose ciphertext is its associated data, followed by a key in the clear. -/
def transparentKeypair : BlindBoxKeypair where
  singleShotOpen _ _ ct aad := if ct.take (ct.length-keyBytes) = aad then some (ct.drop (ct.length-keyBytes)) else none

/-- A frame is the number of a request. -/
noncomputable def concreteEnv (requests : List AgentRequest) : AgentEnv where
  crypto := Primitives.concrete
  sha256 _ := Vector.replicate keyBytes 0
  keypair := transparentKeypair
  publicKeyB64 := ""
  fingerprintHex := ""
  urls := plainUrlCrate
  parseRequest frame := orError "expected value" (frame.head?.bind fun n => requests[n.toNat]?)
  source := .store
  wallOffset := 0

/-- The box of a DEK under associated data. -/
noncomputable def transparentBox (aad : Bytes) (dek : Key) : BlindBox where
  scheme := blindBoxScheme
  enc := Primitives.concrete.b64 (Vector.replicate keyBytes 0 : Key).toList
  ct := Primitives.concrete.b64 (aad ++ dek.toList)

theorem openBox_transparentBox {ctx : BlindBoxContext} {aad : Bytes} (haad : ctx.aadBytes = some aad) (dek : Key) :
    transparentKeypair.openBox Primitives.concrete (transparentBox aad dek) ctx = .ok dek.toList := by
  refine BlindBoxKeypair.openBox_eq_ok.mpr ⟨rfl,_,_,aad,Primitives.unb64_b64,Primitives.unb64_b64,haad,?_⟩
  have hlength : (aad ++ dek.toList).length-keyBytes = aad.length := by simp
  simp only [transparentKeypair,hlength,List.take_left',List.drop_left',if_true]

section OneDek

variable {E : AgentEnv} {frame : Bytes} {request : AgentGrantRequest} {dek : AgentDekInput}
  {purpose : AgentDekPurpose} {approval : ApprovalContext} {ctx : BlindBoxContext} {key : AgentDekKey} {released : Key}

/-- The calls of a grant request with one DEK that opens. -/
theorem handleAgentFrameInner_oneDek (hparsed : E.parseRequest frame = .ok (.grant request))
    (hdeks : request.deks = [dek]) (hid : request.grantId ≠ "")
    (hpositive : request.ttl ≠ 0) (hmaximum : request.ttl ≤ maxAgentGrantTtlSecs)
    (hpurpose : AgentDekPurpose.parse request.purpose = .ok purpose)
    (happroval : parseApprovalContext E.crypto dek.approval = .ok approval)
    (hctx : agentDekContext E purpose request.grantId request.ttl dek approval = .ok (ctx,key))
    (hopen : E.keypair.openBox E.crypto dek.dekBlindbox ctx = .ok released.toList) :
    handleAgentFrameInner E frame = (do
      let now ← instantNow
      let requestedExpiresAt ← liftResult (orError "grant expiration is invalid"
        (checkedAddInstant now (fromSecs request.ttl.toNat)))
      validateApprovalNotExpired approval.expiresAtUnix
      let deadline ← approvalExpiryInstant approval.expiresAtUnix
      publishGrant ⟨request.grantId⟩ ⟨min requestedExpiresAt deadline,[(key,released)]⟩ [(approval.nonce,deadline)]
      return .grant 1 request.ttl) := by
  have hkey : grantKeyFromId request.grantId = .ok ⟨request.grantId⟩ := grantKeyFromId_eq_ok.mpr ⟨rfl,hid⟩
  have hcount : bailIf (1 = 0) "grant requires at least one DEK" = .ok () := bailIf_neg nofun
  have hzero : bailIf (request.ttl = 0) "grant ttl_secs must be positive" = .ok () := bailIf_neg hpositive
  have hlarge : bailIf (request.ttl > maxAgentGrantTtlSecs) "grant ttl_secs exceeds maximum" = .ok () :=
    bailIf_neg (UInt64.not_lt.mpr hmaximum)
  have hreleased : toKey32 released.toList "released DEK" = .ok released :=
    orError_eq_ok.mpr (toArray?_eq_some.mpr rfl)
  have hnew : bailIf ((([] : List (Bytes × Instant)).any fun used => used.1 == approval.nonce) = true)
    "duplicate grant approval nonce" = .ok () := bailIf_neg nofun
  have hname : bailIf ((Deks.get [] key).isSome = true) "duplicate grant DEK name" = .ok () := bailIf_neg nofun
  have httl : request.ttlSecs.getD defaultAgentGrantTtlSecs = request.ttl := rfl
  simp only [handleAgentFrameInner,handleRequest,handleGrant,grantDek,hparsed,context_ok,
    Program.liftResult_ok_bind,hdeks,hcount,hkey,httl,hzero,hlarge,hpurpose,List.foldlM_cons,List.foldlM_nil,happroval,hctx,
    hnew,hname,hopen,hreleased,bind_assoc,pure_bind,List.nil_append,List.length_singleton]

end OneDek

/-! A grant of one DEK, on an approval that expires 100 seconds after the start. -/

def sampleContext : BlindBoxContext where
  purpose := .agentDeliver
  name := "KEY"
  grantId := some "g1"
  signScheme := none
  digest := none
  approvalNonce := some (List.replicate 16 1)
  approvalExpiresAtUnix := some 100
  operationHash := some (Vector.replicate keyBytes 0)

def sampleDek : Key := Vector.replicate keyBytes 7

noncomputable def sampleDekInput : AgentDekInput where
  name := "KEY"
  dekBlindbox := transparentBox (sampleContext.aadBytes.getD []) sampleDek
  approval := ⟨Primitives.concrete.b64 (List.replicate 16 1),100⟩
  scheme := none
  digest := none

noncomputable def sampleGrant : AgentGrantRequest where
  grantId := "g1"
  purpose := none
  ttlSecs := none
  deks := [sampleDekInput]

/-- The handling of the frame, with its time to live in it. -/
def sampleProgram : AgentM AgentReply := do
  let now ← instantNow
  let requestedExpiresAt ← liftResult (orError "grant expiration is invalid" (checkedAddInstant now (fromSecs 300)))
  validateApprovalNotExpired 100
  let deadline ← approvalExpiryInstant 100
  publishGrant ⟨"g1"⟩ ⟨min requestedExpiresAt deadline,[(⟨.deliver,"KEY",none,none⟩,sampleDek)]⟩
    [(List.replicate 16 1,deadline)]
  return .grant 1 300

theorem sampleApproval_parsed : parseApprovalContext Primitives.concrete sampleDekInput.approval =
    .ok ⟨List.replicate 16 1,100⟩ := by
  have hdecode : Primitives.concrete.base64.decode (Primitives.concrete.b64 (List.replicate 16 1)) =
    .ok (List.replicate 16 1) := Primitives.concrete.base64.decode_encode _
  simp only [parseApprovalContext,sampleDekInput,hdecode,context_ok,ok_bind]
  rfl

theorem sampleContext_bound (requests : List AgentRequest) :
    agentDekContext (concreteEnv requests) .deliver "g1" 300 sampleDekInput ⟨List.replicate 16 1,100⟩ =
      .ok (sampleContext,⟨.deliver,"KEY",none,none⟩) := by
  have hhash : agentDeliverOperationHash (fun _ => Vector.replicate keyBytes 0) "KEY" 300 =
    some (Vector.replicate keyBytes 0) := by decide +kernel
  simp only [agentDekContext,concreteEnv,sampleDekInput,hhash,orError_some,ok_bind]
  rfl

theorem sampleGrant_program (requests : List AgentRequest) :
    handleAgentFrameInner (concreteEnv (.grant sampleGrant::requests)) [0] = sampleProgram := by
  have haad : sampleContext.aadBytes = some (sampleContext.aadBytes.getD []) := by decide +kernel
  have hparsed : (concreteEnv (.grant sampleGrant::requests)).parseRequest [0] = .ok (.grant sampleGrant) := rfl
  rw [handleAgentFrameInner_oneDek hparsed rfl (by decide) (by decide) (by decide) rfl sampleApproval_parsed
    (sampleContext_bound _) (openBox_transparentBox haad sampleDek)]
  rfl

noncomputable def sampleEnv : AgentEnv := concreteEnv [.grant sampleGrant]

def sampleTask : Program AgentOp AgentOp.Reply (Result (Option AgentReply)) :=
  (do return some (← sampleProgram) : AgentM (Option AgentReply)).run

/-- Two frames that hold the same grant, in a fresh agent. -/
def sampleStart : AgentConfig Bool :=
  Config.start (fun _ => sampleTask) ⟨0,AgentState.new (fromSecs 300) 0,⟨none,false⟩⟩

theorem sampleStart_eq : agentStart sampleEnv (fun _ : Bool => .frame [0]) (fromSecs 300) 0 = sampleStart := by
  simp only [agentStart,AgentTask.program,sampleEnv,sampleGrant_program,sampleTask,sampleStart]

/-- The readings of a frame. Time passes between the last two. -/
def sampleReadings (a b : Instant) : AgentCalls :=
  [⟨.systemTimeNow,Int.ofNat b⟩,⟨.instantNow,a⟩,⟨.systemTimeNow,Int.ofNat a⟩,⟨.instantNow,a⟩]

theorem sampleReadings_steps {requests : List AgentRequest} {w : AgentWorld} {a b : Instant} (ha : w.now ≤ a)
    (hab : a ≤ b) : Steps (AgentStep (concreteEnv requests)) w (sampleReadings a b) { w with now := b } := by
  have hwall {w : AgentWorld} {n : Instant} (hn : w.now ≤ n) :
      AgentStep (concreteEnv requests) w .systemTimeNow (Int.ofNat n) { w with now := n } := by
    have hreading : Int.ofNat n = (n : ℤ)+(concreteEnv requests).wallOffset := (add_zero _).symm
    rw [hreading]
    exact .systemTimeNow hn
  have hfirst : Steps (AgentStep (concreteEnv requests)) w [⟨.instantNow,a⟩] { w with now := a } := Steps.nil.cons (.instantNow ha)
  have hsecond := hfirst.cons (hwall (Nat.le_refl a))
  exact (hsecond.cons (.instantNow (Nat.le_refl a))).cons (hwall hab)

/-- One frame from its first call to its publication. -/
theorem sampleFrame_run {P : Type} [DecidableEq P] {requests : List AgentRequest} {c d : AgentConfig P}
    {events : List (AgentEvent P)} {i : P} {w : AgentWorld} {a b n : Instant} {g : GrantKey} {grant : GrantEntry} {nonces : List (Bytes × Instant)}
    {next : Result Unit → Program AgentOp AgentOp.Reply (Result (Option AgentReply))}
    (hrun : Run (AgentStep (concreteEnv requests)) c events d) (hi : d.process i = ⟨sampleTask,[]⟩) (hs : d.state = w)
    (ha : w.now ≤ a) (hab : a ≤ b) (hn : b ≤ n)
    (hpath : Reaches sampleTask (sampleReadings a b) (.request (.publishGrant g grant nonces) next)) :
    ∃ calls e, Run (AgentStep (concreteEnv requests)) c (events ++ calls ++ [⟨i,sampleReadings a b,.publishGrant g grant nonces,
        (w.state.publishGrant g grant nonces n n).1,{ w with now := b },
        { w with now := n, state := (w.state.publishGrant g grant nonces n n).2 }⟩]) e ∧
      e.state = { w with now := n, state := (w.state.publishGrant g grant nonces n n).2 } ∧
      (e.process i).program = next (w.state.publishGrant g grant nonces n n).1 ∧
      ∀ j, j ≠ i → e.process j = d.process j := by
  obtain ⟨calls,u,hu,hstate,hui,hothers⟩ := hrun.along hi hs hpath (sampleReadings_steps ha hab)
  obtain ⟨e,he,hstate,hei,hothers'⟩ := hu.turn hui rfl hstate (.publishGrant hn (Nat.le_refl n))
  exact ⟨calls,e,he,hstate,congrArg Process.program hei,fun j hj => (hothers' j hj).trans (hothers j hj)⟩

def sampleEntry (a b : Instant) : GrantEntry :=
  ⟨min (a+fromSecs 300) (a+(fromSecs 100-b)),[(⟨.deliver,"KEY",none,none⟩,sampleDek)]⟩

def sampleNonces (a b : Instant) : List (Bytes × Instant) := [(List.replicate 16 1,a+(fromSecs 100-b))]

section Reaches

variable {α : Type} {p : Program AgentOp AgentOp.Reply (Result α)} {h : AgentCalls}

theorem reaches_instantNow {f : Instant → AgentM α} (hreaches : Reaches p h (instantNow >>= f).run) (n : Instant) :
    Reaches p (⟨.instantNow,n⟩::h) (f n).run := .cons n hreaches

theorem reaches_systemTimeNow {f : SystemTime → AgentM α} (hreaches : Reaches p h (systemTimeNow >>= f).run)
    (wall : SystemTime) : Reaches p (⟨.systemTimeNow,wall⟩::h) (f wall).run := .cons wall hreaches

end Reaches

theorem sampleReaches {a b : ℕ} (hab : a ≤ b) (hb : b < fromSecs 100) :
    Reaches sampleTask (sampleReadings a b) (.request (.publishGrant ⟨"g1"⟩ (sampleEntry a b) (sampleNonces a b))
      fun published => .done (published.map fun _ => some (.grant 1 300))) := by
  have hbound : b < 100*1000000000 := hb
  have hexpires : checkedAddInstant a (fromSecs 300) = some (a+fromSecs 300) :=
    if_pos (show a+300*1000000000 < 2^63*1000000000 by omega)
  have helapsed : durationSince (Int.ofNat a) 0 = some a := by simp [durationSince]
  have hvalid : bailIf ((100 : UInt64).toNat ≤ a/fromSecs 1) "approval is expired" = .ok () :=
    bailIf_neg (show ¬ 100 ≤ a/(1*1000000000) by omega)
  have hunix : unixTime 100 = some (Int.ofNat (fromSecs 100)) := if_pos (by decide)
  have hremaining : durationSince (Int.ofNat (fromSecs 100)) (Int.ofNat b) = some (fromSecs 100-b) := by
    have hle : Int.ofNat b ≤ Int.ofNat (fromSecs 100) := Int.ofNat_le.mpr hb.le
    rw [durationSince,if_pos hle]
    exact congrArg some (Int.toNat_sub _ _)
  have hdeadline : checkedAddInstant a (fromSecs 100-b) = some (a+(fromSecs 100-b)) :=
    if_pos (show a+(100*1000000000-b) < 2^63*1000000000 by omega)
  have hpath : Reaches sampleTask [] sampleTask := .nil
  nth_rewrite 2 [sampleTask] at hpath
  simp only [sampleProgram,validateApprovalNotExpired,currentUnixSecs,approvalExpiryInstant,bind_assoc,pure_bind] at hpath
  replace hpath := reaches_instantNow hpath a
  simp only [hexpires,orError_some,Program.liftResult_ok_bind] at hpath
  replace hpath := reaches_systemTimeNow hpath (Int.ofNat a)
  simp only [helapsed,hvalid,orError_some,Program.liftResult_ok_bind] at hpath
  replace hpath := reaches_systemTimeNow (reaches_instantNow hpath a) (Int.ofNat b)
  simp only [hunix,hremaining,hdeadline,orError_some,Program.liftResult_ok_bind] at hpath
  refine (congrArg (Reaches sampleTask (sampleReadings a b)) (congrArg (Program.request _) (funext fun published => ?_))).mp hpath
  cases published <;> rfl

theorem sampleReplay_run : ∃ events d, AgentRun sampleEnv (fun _ : Bool => .frame [0]) (fromSecs 300) 0 events d ∧
    d.state.now = 0 ∧ (∃ grant, d.state.state.grants ⟨"g1"⟩ = some grant) ∧
    ∃ e, (d.process true).program = .done (.error e) := by
  rw [AgentRun,sampleStart_eq]
  have hpath := sampleReaches (Nat.le_refl 0) (show 0 < fromSecs 100 by decide)
  have hzero := Nat.le_refl 0
  have hrun : Run (AgentStep sampleEnv) sampleStart [] sampleStart := .nil
  obtain ⟨_,d,hrun,hstate,-,hothers⟩ := sampleFrame_run hrun (i := false) rfl rfl hzero hzero hzero hpath
  obtain ⟨_,d,hrun,hstate,htrue,-⟩ := sampleFrame_run hrun (hothers true (by decide)) hstate hzero hzero hzero hpath
  refine ⟨_,d,hrun,?_,?_,?_⟩
  · rw [hstate]
  · rw [hstate]
    exact ⟨sampleEntry 0 0,rfl⟩
  · rw [htrue]
    exact ⟨_,rfl⟩

/-! The grant, and a fetch of the secret that it covers. -/

/-- The protected record of a value, under the associated data of its name. -/
noncomputable def transparentEnvelope (dek : Key) (name : String) (value : Bytes) : Sealed where
  ciphertext := Primitives.concrete.b64 (dek.toList ++ (Vector.replicate nonceBytes 0 : Nonce).toList ++
    field 8 (aad name) ++ value)
  nonce := Primitives.concrete.b64 (Vector.replicate nonceBytes 0 : Nonce).toList
  wrapMeta := Primitives.concrete.wrapMeta.encode ⟨wrapMetaVersion,wrapScheme,"","",none⟩

theorem openWithDek_transparent {dek : Key} {name : String} {value : Bytes} (hname : (aad name).length < 256^8) :
    Primitives.concrete.openWithDek dek name (transparentEnvelope dek name value) = .ok value := by
  have hencrypt : Primitives.concrete.aead.encrypt dek (Vector.replicate nonceBytes 0) (aad name) value = some _ :=
    Aead.transparent_encrypt hname
  refine (Primitives.openWithDek_encrypt Primitives.concrete_ideal hencrypt).mpr
    ⟨rfl,⟨wrapMetaVersion,wrapScheme,"","",none⟩,?_,⟨rfl,rfl⟩,.inr rfl⟩
  exact Primitives.concrete.wrapMeta.decode_encode _

/-- The calls of a fetch that passes the checks. -/
theorem handleAgentFrameInner_fetch {E : AgentEnv} {frame : Bytes} {request : AgentFetchDeliverRequest}
    {target : Url × Bool} (hparsed : E.parseRequest frame = .ok (.deliverFetch request))
    (hvalid : validateFetchInput E.urls request.fetchInput = .ok target) (hid : request.grantId ≠ "") :
    handleAgentFrameInner E frame = (do
      let secret ← openWithGrant E ⟨request.grantId⟩ (request.auth.tier == .standard) fun grant master =>
        withContext "open failed" (openAgentSecret request.auth.name request.auth.tier request.auth.envelope grant master)
      let output ← withContext "fetch request failed"
        (executeFetchRequest E.urls sendRequest request.request secret target.2)
      return .fetch output) := by
  have hkey : grantKeyFromId request.grantId = .ok ⟨request.grantId⟩ := grantKeyFromId_eq_ok.mpr ⟨rfl,hid⟩
  rw [AgentFetchDeliverRequest.fetchInput] at hvalid
  simp only [handleAgentFrameInner,handleRequest,handleDeliverFetch,hparsed,context_ok,Program.liftResult_ok_bind,
    hvalid,hkey]

noncomputable def sampleFetch : AgentFetchDeliverRequest where
  grantId := "g1"
  auth := ⟨"KEY",.«protected»,transparentEnvelope sampleDek "KEY" (utf8 "s3 cret")⟩
  request := sampleRequest (.query "token")

noncomputable def lifeEnv : AgentEnv := concreteEnv [.grant sampleGrant,.deliverFetch sampleFetch,.release ⟨"g1"⟩]

/-- A grant, a fetch under it, the same grant again, its release, and the same fetch again. -/
inductive LifeTask
  | grants
  | fetches
  | replays
  | releases
  | late
deriving DecidableEq

def LifeTask.task : LifeTask → AgentTask
  | grants | replays => .frame [0]
  | fetches | late => .frame [1]
  | releases => .frame [2]

noncomputable def fetchTask : Program AgentOp AgentOp.Reply (Result (Option AgentReply)) :=
  (do
    let _ ← getLiveGrant ⟨"g1"⟩
    let grant ← getLiveGrant ⟨"g1"⟩
    let secret ← withContext "open failed" (openSecretWithGrant "KEY" sampleFetch.auth.envelope grant)
    recordActivity
    let output ← withContext "fetch request failed"
      (executeFetchRequest plainUrlCrate sendRequest (sampleRequest (.query "token")) secret false)
    return some (.fetch output) : AgentM (Option AgentReply)).run

theorem fetchTask_eq : (AgentTask.frame [1]).program lifeEnv = fetchTask := by
  have hparsed : lifeEnv.parseRequest [1] = .ok (.deliverFetch sampleFetch) := rfl
  have hvalid : validateFetchInput lifeEnv.urls sampleFetch.fetchInput = .ok (sampleTarget,false) :=
    sampleInput_valid (.inr rfl)
  have hneeds : (sampleFetch.auth.tier == .standard) = false := rfl
  rw [AgentTask.program,handleAgentFrameInner_fetch hparsed hvalid (by decide)]
  simp only [openWithGrant,hneeds,Bool.false_eq_true,if_false,bind_assoc,pure_bind]
  rfl

theorem sampleTask_eq (requests : List AgentRequest) :
    (AgentTask.frame [0]).program (concreteEnv (.grant sampleGrant::requests)) = sampleTask := by
  rw [AgentTask.program,sampleGrant_program]
  rfl

def releaseTask : Program AgentOp AgentOp.Reply (Result (Option AgentReply)) :=
  (do
    let released ← releaseGrant ⟨"g1"⟩
    return some (.release released) : AgentM (Option AgentReply)).run

theorem releaseTask_eq : (AgentTask.frame [2]).program lifeEnv = releaseTask := rfl

noncomputable def lifeStart : AgentConfig LifeTask :=
  Config.start (fun
    | .grants | .replays => sampleTask
    | .fetches | .late => fetchTask
    | .releases => releaseTask) ⟨0,AgentState.new (fromSecs 300) 0,⟨none,false⟩⟩

theorem lifeStart_eq : agentStart lifeEnv LifeTask.task (fromSecs 300) 0 = lifeStart := by
  refine congrArg (fun programs => Config.start programs _) (funext fun i => ?_)
  cases i
  · exact sampleTask_eq _
  · exact fetchTask_eq
  · exact sampleTask_eq _
  · exact releaseTask_eq
  · exact fetchTask_eq

theorem looked {E : AgentEnv} {w : AgentWorld} {found : Result GrantEntry}
    (h : w.state.getLiveGrant ⟨"g1"⟩ w.now = found) : AgentStep E w (.getLiveGrant ⟨"g1"⟩) found w := by
  subst h
  exact .getLiveGrant (Nat.le_refl _)

theorem opensSample {w : AgentWorld} : AgentStep lifeEnv w (.openWithDek sampleDek "KEY" sampleFetch.auth.envelope)
    (.ok (utf8 "s3 cret") : Result Bytes) w := by
  have hopen : Primitives.concrete.openWithDek sampleDek "KEY" sampleFetch.auth.envelope = .ok (utf8 "s3 cret") :=
    openWithDek_transparent (by decide +kernel)
  rw [← hopen]
  exact .openWithDek

/-- The call of the fetch that sends, with the credential in the query. -/
theorem fetchTask_sends : ∃ next, (do
    let output ← withContext "fetch request failed"
      (executeFetchRequest plainUrlCrate sendRequest (sampleRequest (.query "token")) (utf8 "s3 cret") false)
    return some (.fetch output) : AgentM (Option AgentReply)).run =
      .request (.send (httpRequest (sampleRequest (.query "token")) sampleInjection false)) next := by
  rw [executeFetchRequest,injectSecret_sample]
  exact ⟨_,rfl⟩

/-- What the run comes to: the fetch finds the grant and sends, the grant is refused a second time, and it is
not found any more once it is released. -/
structure Lived (events : List (AgentEvent LifeTask)) : Prop where
  sent : ∃ ev ∈ events, ev.op = .send (httpRequest (sampleRequest (.query "token")) sampleInjection false)
  looks : ∃ before look mid release late found, events = before ++ look::(mid ++ [release,late]) ∧
    (⟨look.op,look.reply⟩ : (op : AgentOp) × op.Reply) = ⟨.getLiveGrant ⟨"g1"⟩,.ok (sampleEntry 0 0)⟩ ∧
    (∃ again ∈ mid, again.process = .replays ∧ ∃ grant nonces, again.op = .publishGrant ⟨"g1"⟩ grant nonces) ∧
    release.op = .release ⟨"g1"⟩ ∧
    (⟨late.op,late.reply⟩ : (op : AgentOp) × op.Reply) = ⟨.getLiveGrant ⟨"g1"⟩,found⟩

theorem lifeRun : ∃ events d, AgentRun lifeEnv LifeTask.task (fromSecs 300) 0 events d ∧ Lived events := by
  rw [AgentRun,lifeStart_eq]
  have hpath := sampleReaches (Nat.le_refl 0) (show 0 < fromSecs 100 by decide)
  have hzero := Nat.le_refl 0
  have hrun : Run (AgentStep lifeEnv) lifeStart [] lifeStart := .nil
  obtain ⟨_,d,hrun,hs,-,hothers⟩ := sampleFrame_run hrun (i := .grants) rfl rfl hzero hzero hzero hpath
  have hfound : d.state.state.getLiveGrant ⟨"g1"⟩ d.state.now = .ok (sampleEntry 0 0) := by
    rw [hs]
    exact AgentState.getLiveGrant_eq_ok.mpr ⟨rfl,rfl,by decide⟩
  obtain ⟨next,hsends⟩ := fetchTask_sends
  obtain ⟨d₁,hrun,hs₁,hi,h₁⟩ := hrun.turn (hothers .fetches (by decide)) rfl rfl (looked hfound)
  obtain ⟨d₂,hrun,hs₂,hi,h₂⟩ := hrun.turn hi rfl hs₁ (looked hfound)
  obtain ⟨d₃,hrun,hs₃,hi,h₃⟩ := hrun.turn hi rfl hs₂ opensSample
  obtain ⟨d₄,hrun,hs₄,hi,h₄⟩ := hrun.turn hi rfl hs₃ (.recordActivity (Nat.le_refl _) (Nat.le_refl _))
  obtain ⟨d₅,hrun,hs₅,-,h₅⟩ := hrun.turn hi hsends hs₄ (.send (r := .error []) (Nat.le_refl _))
  have hkept {i : LifeTask} (hi : i ≠ .fetches) (hi' : i ≠ .grants) : d₅.process i = lifeStart.process i := by
    rw [h₅ i hi,h₄ i hi,h₃ i hi,h₂ i hi,h₁ i hi,hothers i hi']
  rw [hs] at hs₅
  obtain ⟨_,d₆,hrun,hs₆,-,h₆⟩ := sampleFrame_run hrun (i := .replays) (hkept (by decide) (by decide)) hs₅ hzero hzero
    hzero hpath
  obtain ⟨d₇,hrun,hs₇,-,h₇⟩ := hrun.turn ((h₆ .releases (by decide)).trans (hkept (by decide) (by decide))) rfl hs₆
    (.release (Nat.le_refl _) (Nat.le_refl _) (Nat.le_refl _))
  have hlate : d₇.process .late = ⟨fetchTask,[]⟩ :=
    ((h₇ .late (by decide)).trans (h₆ .late (by decide))).trans (hkept (by decide) (by decide))
  obtain ⟨d₈,hrun,-,-,-⟩ := hrun.turn hlate rfl hs₇ (looked rfl)
  have hevents {calls calls' : List (AgentEvent LifeTask)} (pub look x₁ x₂ x₃ send again release late) :
      [] ++ calls ++ [pub] ++ [look] ++ [x₁] ++ [x₂] ++ [x₃] ++ [send] ++ calls' ++ [again] ++ [release] ++ [late] =
        (calls ++ [pub]) ++ look::((x₁::x₂::x₃::send::calls' ++ [again]) ++ [release,late]) := by
    simp only [List.nil_append,List.append_assoc,List.cons_append]
  rw [hevents] at hrun
  refine ⟨_,d₈,hrun,?_,_,_,_,_,_,_,rfl,rfl,⟨_,List.mem_append_right _ (List.mem_singleton_self _),rfl,_,_,rfl⟩,rfl,rfl⟩
  have hsent {calls : List (AgentEvent LifeTask)} {x₁ x₂ x₃ send} : send ∈ x₁::x₂::x₃::send::calls :=
    List.mem_cons_of_mem _ (List.mem_cons_of_mem _ (List.mem_cons_of_mem _ List.mem_cons_self))
  have hmid {before calls after : List (AgentEvent LifeTask)} {look x₁ x₂ x₃ send again} :
      send ∈ before ++ look::((x₁::x₂::x₃::send::calls ++ [again]) ++ after) :=
    List.mem_append_right _ (List.mem_cons_of_mem _ (List.mem_append_left _ (List.mem_append_left _ hsent)))
  exact ⟨_,hmid,rfl⟩

end Avault.Agent
