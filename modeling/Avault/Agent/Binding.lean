import Avault.Agent.Lifetime
import Mathlib.Data.Set.Function

/-! What a cached DEK was sealed for, and what it is used for. -/
namespace Avault.Agent
open Foundation Crypto

section Contexts

variable (E : AgentEnv) (g : GrantKey) (approval : ApprovalContext) (ttlSecs : UInt64)

/-- The context under which the DEK of a key is opened, and the fields of its operation hash. -/
inductive BoundContext : AgentDekKey → List Bytes → BlindBoxContext → Prop
  | deliver {name hash} : agentDeliverOperationHash E.sha256 name ttlSecs = some hash →
    BoundContext ⟨.deliver,name,none,none⟩ (agentDeliverOperationFields name ttlSecs) {
      purpose := .agentDeliver
      name := name
      grantId := some g.grantId
      signScheme := none
      digest := none
      approvalNonce := some approval.nonce
      approvalExpiresAtUnix := some approval.expiresAtUnix
      operationHash := some hash }
  | sign {name scheme digest hash} : agentSignOperationHash E.sha256 scheme digest ttlSecs = some hash →
    BoundContext ⟨.sign,name,some scheme,some (Hex.encode digest.toList)⟩
      (agentSignOperationFields scheme digest ttlSecs) {
        purpose := .agentSign
        name := name
        grantId := some g.grantId
        signScheme := some scheme
        digest := some digest
        approvalNonce := some approval.nonce
        approvalExpiresAtUnix := some approval.expiresAtUnix
        operationHash := some hash }

variable {E g approval ttlSecs}

theorem agentDekContext_bound {purpose : AgentDekPurpose} {dek : AgentDekInput} {ctx : BlindBoxContext}
    {key : AgentDekKey} (h : agentDekContext E purpose g.grantId ttlSecs dek approval = .ok (ctx,key)) :
    key.name = dek.name ∧ ∃ fields, BoundContext E g approval ttlSecs key fields ctx := by
  cases purpose with
  | deliver =>
    simp only [agentDekContext,bind_eq_ok,orError_eq_ok] at h
    obtain ⟨_,_,hash,hhash,heq⟩ := h
    obtain ⟨rfl,rfl⟩ := Prod.mk.inj (Except.ok.inj heq)
    exact ⟨rfl,_,.deliver hhash⟩
  | sign =>
    simp only [agentDekContext,bind_eq_ok,orError_eq_ok] at h
    obtain ⟨scheme,_,digestHex,_,digest,_,hash,hhash,heq⟩ := h
    obtain ⟨rfl,rfl⟩ := Prod.mk.inj (Except.ok.inj heq)
    exact ⟨rfl,_,.sign hhash⟩

/-- The sender meant this use of the DEK, under this grant and approval. -/
structure SealedFor (E : AgentEnv) (hashed : Set Bytes) (g : GrantKey) (approval : ApprovalContext)
    (key : AgentDekKey) (fields : List Bytes) (sender : BlindBoxContext) : Prop where
  purpose : sender.purpose = match key.purpose with
    | .deliver => .agentDeliver
    | .sign => .agentSign
  grantId : sender.grantId.getD "" = g.grantId
  name : sender.name = key.name
  scheme : sender.signScheme.getD "" = key.scheme.getD ""
  digest : sender.digest.map (fun digest => Hex.encode digest.toList) = key.digestHex
  nonce : sender.approvalNonce.getD [] = approval.nonce
  expiry : sender.approvalExpiresAtUnix = some approval.expiresAtUnix
  /-- Where the sender hashed an operation, it is this one. -/
  operation : ∀ fields' input input', operationHashInput fields' = some input' →
    operationHashInput fields = some input → sender.operationHash = some (E.sha256 input') →
    input ∈ hashed → input' ∈ hashed → fields' = fields

theorem SameFields.digest_eq {c d : Option Key}
    (h : (c.map Vector.toList).getD [] = (d.map Vector.toList).getD []) : c = d := by
  match c,d with
  | none,none => rfl
  | some c,some d => exact congrArg some (Vector.toList_inj.mp h)
  | none,some d => exact absurd ((congrArg List.length h).trans d.length_toList) (by decide)
  | some c,none => exact absurd (c.length_toList.symm.trans (congrArg List.length h)) (by decide)

theorem SameFields.expiry_eq {c d : Option UInt64}
    (h : (c.map toBeBytes).getD [] = (d.map toBeBytes).getD []) : c = d := by
  match c,d with
  | none,none => rfl
  | some c,some d => exact congrArg some (toBeBytes_inj.mp h)
  | none,some d => exact absurd (congrArg List.length h) (by simp)
  | some c,none => exact absurd (congrArg List.length h) (by simp)

/-- Whoever sealed a box under associated data that a bound context opens meant that context. -/
theorem BoundContext.sealedFor {key : AgentDekKey} {fields : List Bytes} {ctx sender : BlindBoxContext}
    (hbound : BoundContext E g approval ttlSecs key fields ctx) (hsame : sender.SameFields ctx)
    {hashed : Set Bytes} (hsha : Set.InjOn E.sha256 hashed) :
    SealedFor E hashed g approval key fields sender := by
  have hoperation (fields' : List Bytes) (input input' : Bytes) (hfields' : operationHashInput fields' = some input')
      (hfields : operationHashInput fields = some input)
      (hsender : sender.operationHash = some (E.sha256 input')) (hinput : input ∈ hashed)
      (hinput' : input' ∈ hashed) : fields' = fields := by
    have hhash : ctx.operationHash = some (E.sha256 input) := by
      cases hbound with
      | deliver hhash | sign hhash =>
        simp only [agentDeliverOperationHash,agentSignOperationHash,operationHash,hfields,Option.map_some,
          Option.some.injEq] at hhash
        exact congrArg some hhash.symm
    have heq := SameFields.digest_eq hsame.operationHash
    rw [hsender,hhash] at heq
    obtain rfl := hsha hinput' hinput (Option.some.inj heq)
    exact operationHashInput_inj hfields' hfields
  have hdigest := SameFields.digest_eq hsame.digest
  have hexpiry := SameFields.expiry_eq hsame.approvalExpiresAtUnix
  cases hbound <;> exact ⟨hsame.purpose,hsame.grantId,hsame.name,hsame.signScheme,by rw [hdigest]; rfl,
    hsame.approvalNonce,hexpiry,hoperation⟩

end Contexts

section Runs

variable {P : Type}

/-- The DEK came out of a blind box of a grant request, under the context for the key it is kept under. -/
structure DekOrigin (E : AgentEnv) (tasks : P → AgentTask) (g : GrantKey) (key : AgentDekKey) (dek : Key)
    (box : BlindBox) (approval : ApprovalContext) (ttlSecs : UInt64) (fields : List Bytes)
    (ctx : BlindBoxContext) : Prop where
  requested : ∃ i frame request input, tasks i = .frame frame ∧ E.parseRequest frame = .ok (.grant request) ∧
    g = ⟨request.grantId⟩ ∧ ttlSecs = request.ttl ∧ input ∈ request.deks ∧ input.name = key.name ∧
    input.dekBlindbox = box ∧ parseApprovalContext E.crypto input.approval = .ok approval
  bound : BoundContext E g approval ttlSecs key fields ctx
  opened : E.keypair.openBox E.crypto box ctx = .ok dek.toList

/-- HPKE opens a box only under the associated data it was sealed with. -/
def OpensAsSealed (keypair : BlindBoxKeypair) (sealedAad : Key → Bytes → Bytes) : Prop :=
  ∀ enc info ct aad plaintext, keypair.singleShotOpen enc info ct aad = some plaintext → aad = sealedAad enc ct

/-- The context that the box was sealed under. -/
def SealedUnder (C : Primitives) (sealedAad : Key → Bytes → Bytes) (box : BlindBox) (sender : BlindBoxContext) :
    Prop :=
  ∃ enc ct, C.unb64 box.enc "enc" = .ok (Vector.toList enc) ∧ C.unb64 box.ct "ct" = .ok ct ∧
    sender.aadBytes = some (sealedAad enc ct)

/-- A DEK is used under the grant of the request, for what it was sealed for. -/
structure DekUse (E : AgentEnv) (tasks : P → AgentTask) (sealedAad : Key → Bytes → Bytes) (hashed : Set Bytes)
    (request : AgentRequest) (dek : Key) (name : String) (envelope : Sealed) (g : GrantKey)
    (key : AgentDekKey) (box : BlindBox) (approval : ApprovalContext) (ttlSecs : UInt64) (fields : List Bytes)
    (ctx : BlindBoxContext) : Prop where
  scope : request.scope = some g
  opens : request.OpensWith key name envelope
  origin : DekOrigin E tasks g key dek box approval ttlSecs fields ctx
  sealedFor : ∀ sender, SealedUnder E.crypto sealedAad box sender →
    SealedFor E hashed g approval key fields sender

structure DekBinding (E : AgentEnv) (tasks : P → AgentTask) (sealedAad : Key → Bytes → Bytes) (hashed : Set Bytes)
    (events : List (AgentEvent P)) (d : AgentConfig P) : Prop where
  cached : ∀ g grant key dek, d.state.state.grants g = some grant → grant.deks.get key = some dek →
    ∃ box approval ttlSecs fields ctx, DekOrigin E tasks g key dek box approval ttlSecs fields ctx
  /-- Each envelope that is opened with a DEK, by a delivery or for a signature. -/
  used : ∀ ev ∈ events, ∀ dek name envelope, ev.op = .openWithDek dek name envelope →
    ∃ frame request g key box approval ttlSecs fields ctx, tasks ev.process = .frame frame ∧
      E.parseRequest frame = .ok request ∧ DekUse E tasks sealedAad hashed request dek name envelope g key box
        approval ttlSecs fields ctx
  /-- Each signature is made with a key that was opened so. -/
  signed : ∀ ev ∈ events, ∀ scheme privateKey digest, ev.op = .signDigest scheme privateKey digest →
    ∃ use ∈ events, use.process = ev.process ∧ ∃ frame request dek, tasks ev.process = .frame frame ∧
      E.parseRequest frame = .ok (.sign request) ∧ SignatureScheme.fromStr request.scheme = .ok scheme ∧
      decodeHex32 request.digest "digest" = .ok digest ∧ (⟨use.op,use.reply⟩ : (op : AgentOp) × op.Reply) =
        ⟨.openWithDek dek request.name request.keyEnvelope,.ok privateKey.toList⟩
  /-- How the digits of a digest are spelled makes no difference. -/
  digestCase : (∀ request digest, eqIgnoreAsciiCase request.digest digest = true →
      handleSign E { request with digest := digest } = handleSign E request) ∧
    ∀ purpose grantId ttlSecs draft dek spelled digest, dek.digest = some spelled →
      eqIgnoreAsciiCase spelled digest = true →
      grantDek E purpose grantId ttlSecs draft { dek with digest := some digest } =
        grantDek E purpose grantId ttlSecs draft dek

variable [DecidableEq P] {E : AgentEnv} {tasks : P → AgentTask} {idleTimeout : Duration} {now : Instant}
  {events : List (AgentEvent P)} {d : AgentConfig P} {sealedAad : Key → Bytes → Bytes} {hashed : Set Bytes}

theorem Deks.mem_of_get {deks : Deks} {key : AgentDekKey} {dek : Key} (h : deks.get key = some dek) :
    (key,dek) ∈ deks := by
  obtain ⟨before,after,rfl,-⟩ := List.lookup_eq_some_iff.mp h
  exact List.mem_append_right before (List.mem_cons_self ..)

theorem AgentRun.dekOrigin (hrun : AgentRun E tasks idleTimeout now events d) {g : GrantKey} {grant : GrantEntry}
    (hgrant : d.state.state.grants g = some grant) {key : AgentDekKey} {dek : Key}
    (hdek : grant.deks.get key = some dek) :
    ∃ box approval ttlSecs fields ctx, DekOrigin E tasks g key dek box approval ttlSecs fields ctx := by
  obtain ⟨before,pub,after,nonces,hevents,hpublication,-⟩ := hrun.origin hgrant
  have hpub : pub ∈ events := hevents ▸ List.mem_append_right before (List.mem_cons_self ..)
  obtain ⟨frame,request,htask,hparsed,hprepared⟩ := hrun.prepared hpub hpublication
  obtain ⟨purpose,_,hopened⟩ := hprepared.opened
  obtain ⟨input,hinput,approval,ctx,happroval,hcontext,hbox⟩ := forall₂_exists_left hopened (Deks.mem_of_get hdek)
  obtain rfl := hprepared.scope
  obtain ⟨hname,fields,hbound⟩ := agentDekContext_bound (g := ⟨request.grantId⟩) hcontext
  exact ⟨input.dekBlindbox,approval,request.ttl,fields,ctx,⟨pub.process,frame,request,input,htask,hparsed,rfl,rfl,
    hinput,hname.symm,rfl,happroval⟩,hbound,hbox⟩

omit [DecidableEq P] in
theorem DekOrigin.sealedFor {g : GrantKey} {key : AgentDekKey} {dek : Key} {box : BlindBox}
    {approval : ApprovalContext} {ttlSecs : UInt64} {fields : List Bytes} {ctx sender : BlindBoxContext}
    (horigin : DekOrigin E tasks g key dek box approval ttlSecs fields ctx)
    (hhpke : OpensAsSealed E.keypair sealedAad) (hsha : Set.InjOn E.sha256 hashed)
    (hsender : SealedUnder E.crypto sealedAad box sender) : SealedFor E hashed g approval key fields sender := by
  obtain ⟨-,enc,ct,aad,henc,hct,haad,hopen⟩ := BlindBoxKeypair.openBox_eq_ok.mp horigin.opened
  obtain ⟨enc',ct',henc',hct',haad'⟩ := hsender
  obtain rfl := Vector.toList_inj.mp (Except.ok.inj (henc.symm.trans henc'))
  obtain rfl := Except.ok.inj (hct.symm.trans hct')
  obtain rfl := hhpke _ _ _ _ _ hopen
  exact horigin.bound.sealedFor (BlindBoxContext.aadBytes_inj haad' haad) hsha

/-- A snapshot that a request has in its history was there in some state of the run. -/
theorem AgentRun.snapshotOrigin (hrun : AgentRun E tasks idleTimeout now events d) {ev : AgentEvent P}
    (hev : ev ∈ events) {g : GrantKey} {grant : GrantEntry} (hlook : ⟨.getLiveGrant g,.ok grant⟩ ∈ ev.history)
    {key : AgentDekKey} {dek : Key} (hdek : grant.deks.get key = some dek) :
    ∃ box approval ttlSecs fields ctx, DekOrigin E tasks g key dek box approval ttlSecs fields ctx := by
  obtain ⟨look,hmem,-,hcall⟩ := Run.event_of_mem hrun (fun _ => rfl) hev hlook
  obtain ⟨before,after,hevents⟩ := List.append_of_mem hmem
  obtain ⟨u,hu,hstate,-⟩ := Run.split hrun hevents
  have hfound := ((Run.step hrun look hmem).effect.2.found hcall.symm).2
  rw [← hstate] at hfound
  exact AgentRun.dekOrigin hu (AgentState.getLiveGrant_eq_ok.mp hfound).2.1 hdek

end Runs

end Avault.Agent
