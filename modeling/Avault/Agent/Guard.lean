import Avault.Agent.Grant

/-! Which calls a request makes before it changes anything, by what it was told before. -/
namespace Avault.Agent
open Foundation Crypto Deliver Fetch
open Foundation.Program (Ensures ensures_bind ensures_check ensures_liftResult ensures_mapResult ensures_foldlM
  liftResult)

namespace AgentRequest

/-- The grant under which secrets are opened. -/
def scope : AgentRequest → Option GrantKey
  | deliverRun request => some ⟨request.grantId⟩
  | deliverFetch request => some ⟨request.grantId⟩
  | deliverInject request => some ⟨request.grantId⟩
  | sign request => some ⟨request.grantId⟩
  | pubkey | grant _ | release _ | revoke _ => none

/-- The secrets that are delivered. -/
def secrets : AgentRequest → List AgentAuthSecretInput
  | deliverRun request => request.secrets.map fun s => ⟨s.name,s.tier,s.envelope⟩
  | deliverFetch request => [request.auth]
  | deliverInject request => request.secrets.map fun s => ⟨s.name,s.tier,s.envelope⟩
  | pubkey | grant _ | release _ | revoke _ | sign _ => []

def needsStandardMaster (request : AgentRequest) : Bool := request.secrets.any fun s => s.tier == .standard

/-- The envelope that a request opens with the DEK under a key. -/
def OpensWith (request : AgentRequest) (key : AgentDekKey) (name : String) (envelope : Sealed) : Prop :=
  match request with
  | sign request => name = request.name ∧ envelope = request.keyEnvelope ∧ ∃ digest,
    decodeHex32 request.digest "digest" = .ok digest ∧
      key = ⟨.sign,request.name,some request.scheme,some (Hex.encode digest.toList)⟩
  | request => ⟨name,.«protected»,envelope⟩ ∈ request.secrets ∧ key = ⟨.deliver,name,none,none⟩

/-- A fetch that may be made. -/
def Checked (U : UrlCrate) : AgentRequest → Prop
  | deliverFetch request => ∃ target, validateFetchInput U request.fetchInput = .ok target
  | _ => True

end AgentRequest

/-- What a request may call before its critical section. -/
def PrepareGuard (E : AgentEnv) (request : AgentRequest) (h : AgentCalls) : AgentOp → Prop
  | .instantNow | .systemTimeNow => True
  | .getLiveGrant scope => request.scope = some scope
  | .cache _ => request.needsStandardMaster = true ∧ ∃ scope grant,
    request.scope = some scope ∧ [⟨.getLiveGrant scope,.ok grant⟩] <:+ h
  | .openSealed _ name envelope => request.Checked E.urls ∧ ⟨name,.standard,envelope⟩ ∈ request.secrets
  | .openWithDek dek name envelope => request.Checked E.urls ∧ ∃ scope grant key,
    request.scope = some scope ∧ ⟨.getLiveGrant scope,.ok grant⟩ ∈ h ∧ grant.deks.get key = some dek ∧
      request.OpensWith key name envelope
  | _ => False

/-- The secret was opened to this plaintext, by its tier. -/
def OpenedSecretInput (h : AgentCalls) (secret : AgentAuthSecretInput) (plaintext : Bytes) : Prop :=
  match secret.tier with
  | .standard => ∃ masterKey, ⟨.openSealed masterKey secret.name secret.envelope,.ok plaintext⟩ ∈ h
  | .«protected» => ∃ dek, ⟨.openWithDek dek secret.name secret.envelope,.ok plaintext⟩ ∈ h

/-- The plaintext is that of a secret of the request. -/
def OpenedFor (request : AgentRequest) (h : AgentCalls) (plaintext : Bytes) : Prop :=
  ∃ secret ∈ request.secrets, OpenedSecretInput h secret plaintext

/-- What a request has become, by the checks it has passed. -/
inductive PreparedAs (E : AgentEnv) (h : AgentCalls) : AgentRequest → Prepared → Prop
  | pubkey : PreparedAs E h .pubkey .pubkey
  | grant {request scope grant nonces} : GrantPrepared E request scope grant nonces h →
    PreparedAs E h (.grant request) (.grant scope grant nonces request.ttl)
  | release {request} : PreparedAs E h (.release request) (.release ⟨request.grantId⟩)
  | revoke {request} : PreparedAs E h (.revoke request) (.release ⟨request.grantId⟩)
  | run {request opened} : (∀ o ∈ opened, OpenedFor (.deliverRun request) h o.plaintext) →
    PreparedAs E h (.deliverRun request) (.run request.command opened)
  | fetch {request target secret} : validateFetchInput E.urls request.fetchInput = .ok target →
    OpenedFor (.deliverFetch request) h secret →
    PreparedAs E h (.deliverFetch request) (.fetch request.request secret target.2)
  | inject {request format opened rendered} :
    (∀ o ∈ opened, OpenedFor (.deliverInject request) h o.plaintext) →
    renderInjectFile E.crypto.json opened format = .ok rendered →
    PreparedAs E h (.deliverInject request) (.inject request.path rendered)
  | sign {request scheme digest dek keyPlaintext} : decodeHex32 request.digest "digest" = .ok digest →
    SignatureScheme.fromStr request.scheme = .ok scheme →
    ⟨.openWithDek dek request.name request.keyEnvelope,.ok keyPlaintext⟩ ∈ h →
    PreparedAs E h (.sign request) (.sign scheme digest keyPlaintext)

/-- The call of the critical section. -/
def CommitCall : Prepared → AgentOp → Prop
  | .pubkey,_ => False
  | .grant scope grant nonces _,op => op = .publishGrant scope grant nonces
  | .release scope,op => op = .release scope
  | .run _ _,op | .fetch _ _ _,op | .inject _ _,op | .sign _ _ _,op => op = .recordActivity

/-- The call that is made with the secrets. -/
def FinishCall (U : UrlCrate) : Prepared → AgentOp → Prop
  | .run command opened,op => op = .runChild command opened
  | .fetch request secret isLoopback,op => ∃ injection, injectSecret U request secret = .ok injection ∧
    op = .send (httpRequest request injection isLoopback)
  | .inject path rendered,op => op = .writeSecretFile path rendered
  | .sign scheme digest keyPlaintext,op => ∃ key, toKey32 keyPlaintext "signing key" = .ok key ∧
    op = .signDigest scheme key digest
  | .pubkey,_ | .grant _ _ _ _,_ | .release _,_ => False

/-- What the handling of a frame may call. -/
inductive FrameGuard (E : AgentEnv) (frame : Bytes) (h : AgentCalls) (op : AgentOp) : Prop
  | prepare {request} : E.parseRequest frame = .ok request → PrepareGuard E request h op →
    FrameGuard E frame h op
  | commit {request prepared} : E.parseRequest frame = .ok request → PreparedAs E h request prepared →
    Reaches (prepare E frame).run h (.done (.ok prepared)) → CommitCall prepared op → FrameGuard E frame h op
  | finish {request prepared h'} : E.parseRequest frame = .ok request → PreparedAs E h' request prepared →
    h' <:+ h → FinishCall E.urls prepared op → FrameGuard E frame h op

section Guard

variable {E : AgentEnv} {request : AgentRequest} {h : AgentCalls} {scope : GrantKey} {grant : GrantEntry}

/-- A program on the cache makes only calls on the cache. -/
theorem ensures_liftCache {α : Type} {guard : AgentCalls → AgentOp → Prop} {x : CacheM α}
    {Q : Result α → AgentCalls → Prop} (hguard : ∀ h' op, h <:+ h' → guard h' (.cache op))
    (hQ : ∀ r h', h <:+ h' → Q r h') : Ensures (.guarded guard) (liftCache x) h Q := by
  suffices hall : ∀ (p : Program CacheOp CacheOp.Reply (Result α)) h', h <:+ h' →
      Program.wp (.guarded guard) (onCache p) Q h' from hall x.run h (List.suffix_refl h)
  intro p
  induction p with
  | done r => exact fun h' hh' => hQ r h' hh'
  | request op next ih =>
    exact fun h' hh' => ⟨hguard h' op hh',fun r => ih r _ (hh'.trans (List.suffix_cons _ h'))⟩

/-- An open under the grant, if it covers the key. -/
theorem openWithDek_guarded {name : String} (text : String) {envelope : Sealed} {key : AgentDekKey}
    (hguard : ∀ dek, grant.deks.get key = some dek → PrepareGuard E request h (.openWithDek dek name envelope)) :
    Ensures (.guarded (PrepareGuard E request)) (do
        let dek ← liftResult (orError text (grant.deks.get key))
        withContext "envelope open failed" (openWithDek dek name envelope)) h fun r h' =>
      h <:+ h' ∧ ∀ plaintext, r = .ok plaintext →
        ∃ dek, ⟨.openWithDek dek name envelope,.ok plaintext⟩ ∈ h' := by
  refine ensures_check.mpr ⟨fun dek hdek => ?_,fun _ _ => ⟨List.suffix_refl h,nofun⟩⟩
  rw [withContext,ensures_mapResult]
  refine ⟨hguard dek (orError_eq_ok.mp hdek),fun r => ⟨List.suffix_cons _ h,fun plaintext hplaintext => ⟨dek,?_⟩⟩⟩
  obtain rfl := context_eq_ok.mp hplaintext
  exact List.mem_cons_self ..

/-- The request delivers secrets under the grant, which it has looked up. -/
structure Delivers (E : AgentEnv) (request : AgentRequest) (grant : GrantEntry) (h : AgentCalls) : Prop where
  checked : request.Checked E.urls
  opensWith : ∀ name envelope, ⟨name,.«protected»,envelope⟩ ∈ request.secrets →
    request.OpensWith ⟨.deliver,name,none,none⟩ name envelope
  found : ∃ scope, request.scope = some scope ∧ ⟨.getLiveGrant scope,.ok grant⟩ ∈ h

theorem Delivers.later {h' : AgentCalls} (hdelivers : Delivers E request grant h) (hh' : h <:+ h') :
    Delivers E request grant h' where
  checked := hdelivers.checked
  opensWith := hdelivers.opensWith
  found := hdelivers.found.imp fun _ hfound => ⟨hfound.1,hh'.subset hfound.2⟩

section Deliver

variable {name : String} {tier : SecretTier} {envelope : Sealed} {master : Option Key}

theorem OpenedSecretInput.later {secret : AgentAuthSecretInput} {plaintext : Bytes} {h' : AgentCalls}
    (hopened : OpenedSecretInput h secret plaintext) (hh' : h <:+ h') : OpenedSecretInput h' secret plaintext := by
  obtain ⟨name,tier,envelope⟩ := secret
  cases tier <;> exact hopened.imp fun _ hcall => hh'.subset hcall

theorem openAgentSecret_guarded (hdelivers : Delivers E request grant h)
    (hsecret : ⟨name,tier,envelope⟩ ∈ request.secrets) :
    Ensures (.guarded (PrepareGuard E request)) (openAgentSecret name tier envelope grant master) h
      fun r h' => h <:+ h' ∧ ∀ plaintext, r = .ok plaintext → OpenedFor request h' plaintext := by
  cases tier with
  | standard =>
    refine ensures_check.mpr ⟨fun master _ => ?_,fun _ _ => ⟨List.suffix_refl h,nofun⟩⟩
    rw [withContext,ensures_mapResult]
    refine ⟨⟨hdelivers.checked,hsecret⟩,fun r => ⟨List.suffix_cons _ h,fun plaintext hplaintext => ?_⟩⟩
    obtain rfl := context_eq_ok.mp hplaintext
    exact ⟨_,hsecret,master,List.mem_cons_self ..⟩
  | «protected» =>
    obtain ⟨scope,hscope,hfound⟩ := hdelivers.found
    have hopen := openWithDek_guarded (h := h) "grant does not cover secret" fun dek hdek =>
      (⟨hdelivers.checked,scope,grant,_,hscope,hfound,hdek,hdelivers.opensWith name envelope hsecret⟩ :
        PrepareGuard E request h (.openWithDek dek name envelope))
    exact Ensures.mono hopen fun r h' hr => ⟨hr.1,fun plaintext hplaintext => ⟨_,hsecret,hr.2 plaintext hplaintext⟩⟩

/-- The loop has opened secrets of the request only. -/
def LoopOpened (request : AgentRequest) (h : AgentCalls) (opened : List OpenedSecret) (h' : AgentCalls) : Prop :=
  h <:+ h' ∧ ∀ o ∈ opened, OpenedFor request h' o.plaintext

theorem openTarget_guarded {target label duplicate : String} {dekBlindbox : Option BlindBox}
    {approval : Option JsonValue} {opened : List OpenedSecret} {h' : AgentCalls}
    (hdelivers : Delivers E request grant h) (hopened : LoopOpened request h opened h')
    (hsecret : ⟨name,tier,envelope⟩ ∈ request.secrets) :
    Ensures (.guarded (PrepareGuard E request))
      (openTarget target label duplicate name tier envelope dekBlindbox approval grant master opened) h'
      fun r h'' => ∀ opened', r = .ok opened' → LoopOpened request h opened' h'' := by
  refine ensures_check.mpr ⟨fun _ _ => ?_,fun _ _ => nofun⟩
  refine ensures_check.mpr ⟨fun _ _ => ?_,fun _ _ => nofun⟩
  refine ensures_check.mpr ⟨fun _ _ => ?_,fun _ _ => nofun⟩
  rw [ensures_bind,withContext,ensures_mapResult]
  apply (openAgentSecret_guarded (hdelivers.later hopened.1) hsecret).mono
  intro r h'' hr
  cases r with
  | error e => exact nofun
  | ok plaintext =>
    rintro opened' hopened'
    obtain rfl := Except.ok.inj hopened'
    refine ⟨hopened.1.trans hr.1,fun o ho => ?_⟩
    obtain ho | ho := List.mem_append.mp ho
    · obtain ⟨secret,hmem,hcall⟩ := hopened.2 o ho
      exact ⟨secret,hmem,hcall.later hr.1⟩
    · obtain rfl := List.mem_singleton.mp ho
      exact hr.2 plaintext rfl

/-- The loops that open the secrets of a delivery. -/
theorem openSecrets_guarded {α : Type} {secrets : List α}
    {openOne : List OpenedSecret → α → AgentM (List OpenedSecret)}
    (hopen : ∀ secret ∈ secrets, ∀ opened h', LoopOpened request h opened h' →
      Ensures (.guarded (PrepareGuard E request)) (openOne opened secret) h'
        fun r h'' => ∀ opened', r = .ok opened' → LoopOpened request h opened' h'') :
    Ensures (.guarded (PrepareGuard E request)) (secrets.foldlM openOne []) h
      fun r h' => ∀ opened, r = .ok opened → LoopOpened request h opened h' := by
  refine ensures_foldlM (I := fun _ opened h' => LoopOpened request h opened h') ⟨List.suffix_refl h,nofun⟩ ?_
    fun opened h' hloop opened' hopened' => Except.ok.inj hopened' ▸ hloop
  intro seen secret rest hsecrets opened h' hloop
  have hmem : secret ∈ secrets := hsecrets ▸ List.mem_append_right seen (List.mem_cons_self ..)
  exact (hopen secret hmem opened h' hloop).mono fun r h'' hr => ⟨hr,fun _ _ => nofun⟩

end Deliver

/-- The look-ups of a request and what it opens under the grant found. -/
theorem openUnderGrant_guarded {α : Type} {needsStandardMaster : Bool}
    {openGranted : GrantEntry → Option Key → AgentM α} {Q : Result α → AgentCalls → Prop}
    (hscope : request.scope = some scope)
    (hneeds : needsStandardMaster = true → request.needsStandardMaster = true)
    (hopen : ∀ grant master h, ⟨.getLiveGrant scope,.ok grant⟩ ∈ h →
      Ensures (.guarded (PrepareGuard E request)) (openGranted grant master) h Q)
    (herror : ∀ e h, Q (.error e) h) :
    Ensures (.guarded (PrepareGuard E request)) (openUnderGrant E scope needsStandardMaster openGranted) [] Q := by
  have hrest (master : Option Key) (h : AgentCalls) : Ensures (.guarded (PrepareGuard E request))
      (do let grant ← getLiveGrant scope; openGranted grant master) h Q := by
    rw [ensures_bind]
    refine ⟨hscope,fun r => ?_⟩
    cases r with
    | error e => exact herror e _
    | ok grant => exact hopen grant master _ (List.mem_cons_self ..)
  rw [openUnderGrant,ensures_bind]
  refine ⟨hscope,fun r => ?_⟩
  cases r with
  | error e => exact herror e _
  | ok first =>
    cases needsStandardMaster with
    | false => exact hrest none _
    | true =>
      change Ensures _ (some <$> liftCache (AgentMasterCache.get E.source) >>= _) _ Q
      rw [map_eq_pure_bind,bind_assoc,ensures_bind]
      refine ensures_liftCache (fun h' op hh' => ⟨hneeds rfl,scope,first,hscope,hh'⟩) fun r h' _ => ?_
      cases r with
      | error e => exact herror e h'
      | ok master => exact hrest (some master) h'

/-! Each kind of request. -/

theorem prepareDeliverRun_guarded {request : AgentRunDeliverRequest} :
    Ensures (.guarded (PrepareGuard E (.deliverRun request))) (prepareDeliverRun E request) [] fun r h =>
      ∀ prepared, r = .ok prepared → PreparedAs E h (.deliverRun request) prepared := by
  refine ensures_check.mpr ⟨fun _ _ => ?_,fun _ _ => nofun⟩
  refine ensures_check.mpr ⟨fun _ _ => ?_,fun _ _ => nofun⟩
  refine ensures_check.mpr ⟨fun _ _ => ?_,fun _ _ => nofun⟩
  refine ensures_check.mpr ⟨fun scope hscope => ?_,fun _ _ => nofun⟩
  obtain ⟨rfl,-⟩ := grantKeyFromId_eq_ok.mp hscope
  rw [ensures_bind]
  refine openUnderGrant_guarded rfl (fun hneeds => ?_) (fun grant master h hfound => ?_) fun _ _ => nofun
  · simpa [AgentRequest.needsStandardMaster,AgentRequest.secrets] using hneeds
  · have hdelivers : Delivers E (.deliverRun request) grant h :=
      ⟨trivial,fun name envelope hsecret => ⟨hsecret,rfl⟩,_,rfl,hfound⟩
    refine (openSecrets_guarded fun secret hsecret opened h' hloop =>
      openTarget_guarded hdelivers hloop (List.mem_map_of_mem hsecret)).mono fun r h' hr => ?_
    cases r with
    | error e => exact nofun
    | ok opened =>
      rintro prepared hprepared
      exact Except.ok.inj hprepared ▸ .run (hr opened rfl).2

theorem prepareDeliverFetch_guarded {request : AgentFetchDeliverRequest} :
    Ensures (.guarded (PrepareGuard E (.deliverFetch request))) (prepareDeliverFetch E request) [] fun r h =>
      ∀ prepared, r = .ok prepared → PreparedAs E h (.deliverFetch request) prepared := by
  refine ensures_check.mpr ⟨fun target htarget => ?_,fun _ _ => nofun⟩
  refine ensures_check.mpr ⟨fun scope hscope => ?_,fun _ _ => nofun⟩
  obtain ⟨rfl,-⟩ := grantKeyFromId_eq_ok.mp hscope
  rw [ensures_bind]
  refine openUnderGrant_guarded rfl (fun hneeds => ?_) (fun grant master h hfound => ?_) fun _ _ => nofun
  · simpa [AgentRequest.needsStandardMaster,AgentRequest.secrets] using hneeds
  · have hdelivers : Delivers E (.deliverFetch request) grant h :=
      ⟨⟨target,htarget⟩,fun name envelope hsecret => ⟨hsecret,rfl⟩,_,rfl,hfound⟩
    rw [withContext,ensures_mapResult]
    apply (openAgentSecret_guarded hdelivers (List.mem_singleton_self _)).mono
    intro r h' hr
    cases r with
    | error e => exact nofun
    | ok secret =>
      rintro prepared hprepared
      exact Except.ok.inj hprepared ▸ .fetch htarget (hr.2 secret rfl)

theorem prepareDeliverInject_guarded {request : AgentInjectDeliverRequest} :
    Ensures (.guarded (PrepareGuard E (.deliverInject request))) (prepareDeliverInject E request) [] fun r h =>
      ∀ prepared, r = .ok prepared → PreparedAs E h (.deliverInject request) prepared := by
  refine ensures_check.mpr ⟨fun scope hscope => ?_,fun _ _ => nofun⟩
  refine ensures_check.mpr ⟨fun _ _ => ?_,fun _ _ => nofun⟩
  refine ensures_check.mpr ⟨fun format _ => ?_,fun _ _ => nofun⟩
  obtain ⟨rfl,-⟩ := grantKeyFromId_eq_ok.mp hscope
  rw [ensures_bind]
  refine openUnderGrant_guarded rfl (fun hneeds => ?_) (fun grant master h hfound => ?_) fun _ _ => nofun
  · simpa [AgentRequest.needsStandardMaster,AgentRequest.secrets] using hneeds
  · have hdelivers : Delivers E (.deliverInject request) grant h :=
      ⟨trivial,fun name envelope hsecret => ⟨hsecret,rfl⟩,_,rfl,hfound⟩
    refine (openSecrets_guarded fun secret hsecret opened h' hloop =>
      openTarget_guarded hdelivers hloop (List.mem_map_of_mem hsecret)).bind (fun opened h' hr => ?_)
        fun _ _ _ => nofun
    rw [ensures_liftResult]
    cases hrendered : renderInjectFile E.crypto.json opened format with
    | error e => exact nofun
    | ok rendered =>
      rintro prepared hprepared
      exact Except.ok.inj hprepared ▸ .inject (hr opened rfl).2 hrendered

theorem prepareSign_guarded {request : AgentSignRequest} :
    Ensures (.guarded (PrepareGuard E (.sign request))) (prepareSign E request) [] fun r h =>
      ∀ prepared, r = .ok prepared → PreparedAs E h (.sign request) prepared := by
  refine ensures_check.mpr ⟨fun scope hscope => ?_,fun _ _ => nofun⟩
  refine ensures_check.mpr ⟨fun digest hdigest => ?_,fun _ _ => nofun⟩
  refine ensures_check.mpr ⟨fun scheme hscheme => ?_,fun _ _ => nofun⟩
  obtain ⟨rfl,-⟩ := grantKeyFromId_eq_ok.mp hscope
  rw [ensures_bind]
  refine openUnderGrant_guarded rfl nofun (fun grant master h hfound => ?_) fun _ _ => nofun
  have hguard (dek : Key) (hdek : grant.deks.get
      ⟨.sign,request.name,some request.scheme,some (Hex.encode digest.toList)⟩ = some dek) :
      PrepareGuard E (.sign request) h (.openWithDek dek request.name request.keyEnvelope) :=
    ⟨trivial,_,grant,_,rfl,hfound,hdek,rfl,rfl,digest,hdigest,rfl⟩
  have hopen := openWithDek_guarded "grant does not cover signing operation" hguard
  apply Ensures.mono hopen
  intro r h' hr
  cases r with
  | error e => exact nofun
  | ok keyPlaintext =>
    rintro prepared hprepared
    obtain ⟨dek,hcall⟩ := hr.2 keyPlaintext rfl
    exact Except.ok.inj hprepared ▸ .sign hdigest hscheme hcall

theorem prepareRequest_guarded : Ensures (.guarded (PrepareGuard E request)) (prepareRequest E request) []
    fun r h => ∀ prepared, r = .ok prepared → PreparedAs E h request prepared := by
  cases request with
  | pubkey => exact fun prepared hprepared => Except.ok.inj hprepared ▸ .pubkey
  | grant request =>
    refine (prepareGrant_guarded fun _ => ⟨trivial,trivial⟩).mono fun r h hr prepared hprepared => ?_
    obtain ⟨scope,grant,nonces,rfl,hgrant⟩ := hr prepared hprepared
    exact .grant hgrant
  | release request =>
    refine ensures_check.mpr ⟨fun key hkey prepared hprepared => ?_,fun _ _ => nofun⟩
    obtain ⟨rfl,-⟩ := grantKeyFromId_eq_ok.mp hkey
    exact Except.ok.inj hprepared ▸ .release
  | revoke request =>
    refine ensures_check.mpr ⟨fun key hkey prepared hprepared => ?_,fun _ _ => nofun⟩
    obtain ⟨rfl,-⟩ := grantKeyFromId_eq_ok.mp hkey
    exact Except.ok.inj hprepared ▸ .revoke
  | deliverRun request => exact prepareDeliverRun_guarded
  | deliverFetch request => exact prepareDeliverFetch_guarded
  | deliverInject request => exact prepareDeliverInject_guarded
  | sign request => exact prepareSign_guarded

/-! A whole frame. -/

variable {frame : Bytes}

theorem prepare_guarded : Ensures (.guarded fun h op => ∃ request, E.parseRequest frame = .ok request ∧
    PrepareGuard E request h op) (prepare E frame) [] fun r h =>
      Reaches (prepare E frame).run h (.done r) ∧ ∀ prepared, r = .ok prepared →
        ∃ request, E.parseRequest frame = .ok request ∧ PreparedAs E h request prepared := by
  have hphase : Ensures (.guarded fun h op => ∃ request, E.parseRequest frame = .ok request ∧
      PrepareGuard E request h op) (prepare E frame) [] fun r h => ∀ prepared, r = .ok prepared →
        ∃ request, E.parseRequest frame = .ok request ∧ PreparedAs E h request prepared := by
    refine ensures_check.mpr ⟨fun request hrequest => ?_,fun _ _ => nofun⟩
    have hparsed := context_eq_ok.mp hrequest
    have hrequest : Ensures (.guarded fun h op => ∃ request, E.parseRequest frame = .ok request ∧
        PrepareGuard E request h op) (prepareRequest E request) [] fun r h =>
          ∀ prepared, r = .ok prepared → PreparedAs E h request prepared :=
      wp_guarded_mono (fun h op hguard => ⟨request,hparsed,hguard⟩) prepareRequest_guarded
    exact hrequest.mono fun r h hr prepared hprepared => ⟨request,hparsed,hr prepared hprepared⟩
  exact wp_guarded_mono (fun h op hguard => hguard.2)
    (wp_guarded_and (wp_reaches (prepare E frame).run) hphase)

theorem commit_guarded {guard : AgentCalls → AgentOp → Prop} {prepared : Prepared}
    (hguard : ∀ op, CommitCall prepared op → guard h op) :
    Ensures (.guarded guard) (commit prepared) h fun _ h' => h <:+ h' := by
  cases prepared with
  | pubkey => exact List.suffix_refl h
  | grant scope grant nonces ttlSecs =>
    rw [commit,ensures_bind]
    refine ⟨hguard _ rfl,fun r => ?_⟩
    cases r <;> exact List.suffix_cons _ h
  | release scope => exact ⟨hguard _ rfl,fun _ => List.suffix_cons _ h⟩
  | run _ _ | fetch _ _ _ | inject _ _ | sign _ _ _ =>
    exact ensures_guarded_ask (hguard _ rfl) fun _ => List.suffix_cons _ h

theorem finish_guarded {guard : AgentCalls → AgentOp → Prop} {prepared : Prepared} {released : Bool}
    (hguard : ∀ op, FinishCall E.urls prepared op → guard h op) :
    Ensures (.guarded guard) (finish E prepared released) h fun _ _ => True := by
  cases prepared with
  | pubkey | grant _ _ _ _ | release _ => exact trivial
  | run command opened =>
    rw [finish,ensures_bind]
    refine ⟨hguard _ rfl,fun r => ?_⟩
    cases r <;> exact trivial
  | fetch request secret isLoopback =>
    rw [finish,ensures_bind,withContext,ensures_mapResult]
    have hsend (injection : Injection) (hinjection : injectSecret E.urls request secret = .ok injection) :
        Ensures (.guarded guard) (sendRequest (httpRequest request injection isLoopback)) h
          fun _ _ => True := ⟨hguard _ ⟨injection,hinjection,rfl⟩,fun _ => trivial⟩
    apply (executeFetchRequest_ensures E.urls sendRequest hsend).mono
    intro r _ _
    cases r <;> exact trivial
  | inject path rendered =>
    rw [finish,ensures_bind,withContext,ensures_mapResult]
    refine ⟨hguard _ rfl,fun r => ?_⟩
    cases r <;> exact trivial
  | sign scheme digest keyPlaintext =>
    refine ensures_check.mpr ⟨fun key hkey => ?_,fun _ _ => trivial⟩
    rw [ensures_bind,withContext,ensures_mapResult]
    refine ⟨hguard _ ⟨key,hkey,rfl⟩,fun r => ?_⟩
    cases r <;> exact trivial

/-- The calls of a frame, in its three phases. -/
theorem handleAgentFrameInner_guarded :
    Ensures (.guarded (FrameGuard E frame)) (handleAgentFrameInner E frame) [] fun _ _ => True := by
  have hprepare : Ensures (.guarded (FrameGuard E frame)) (prepare E frame) [] _ :=
    wp_guarded_mono (fun h op ⟨request,hparsed,hguard⟩ => .prepare hparsed hguard) prepare_guarded
  rw [handleAgentFrameInner_eq]
  refine Ensures.bind hprepare (fun prepared h hprepared => ?_) fun _ _ _ => trivial
  obtain ⟨hreaches,hprepared⟩ := hprepared
  obtain ⟨request,hparsed,hprepared⟩ := hprepared prepared rfl
  refine (commit_guarded fun op hop => .commit hparsed hprepared hreaches hop).bind
    (fun released h' hh' => ?_) fun _ _ _ => trivial
  exact finish_guarded fun op hop => .finish hparsed hprepared hh' hop

end Guard
end Avault.Agent
