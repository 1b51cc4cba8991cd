import Avault.Agent.Grant
import Avault.Agent.Handler
import Avault.Cli.OneShot
import Avault.Foundation.Outcome
import Mathlib.Data.List.Forall2

/-! The one-shot commands and the agent open the same secrets. -/
namespace Avault.Cli
open Foundation Crypto Deliver Agent
open Foundation.Program (Yields yields_call yields_foldlM yields_liftResult)

/-- A secret under the name it is delivered as. -/
structure SecretTarget where
  target : String
  name : String
  tier : SecretTier
  envelope : Sealed
  dekBlindbox : Option BlindBox
  approval : Option JsonValue

def envTarget (secret : EnvSecretInput) : SecretTarget :=
  ⟨secret.env,secret.name,secret.tier,secret.envelope,secret.dekBlindbox,secret.approval⟩

def namedTarget (secret : NamedSecretInput) : SecretTarget :=
  ⟨(secret.key.or secret.env).getD secret.name,secret.name,secret.tier,secret.envelope,secret.dekBlindbox,
    secret.approval⟩

/-- The plaintext that a secret opens to, in the one-shot commands. -/
def OpensOneShot (C : Primitives) (master : Key) (secret : SecretTarget) (plaintext : Bytes) : Prop :=
  secret.tier = .standard ∧ C.openSealed master secret.name secret.envelope = .ok plaintext

/-- The plaintext that a secret opens to, in the agent. -/
def OpensInAgent (C : Primitives) (master : Option Key) (grant : GrantEntry) (secret : SecretTarget)
    (plaintext : Bytes) : Prop :=
  match secret.tier with
  | .standard => ∃ key, master = some key ∧ C.openSealed key secret.name secret.envelope = .ok plaintext
  | .«protected» => ∃ dek, grant.deks.get ⟨.deliver,secret.name,none,none⟩ = some dek ∧
    C.openWithDek dek secret.name secret.envelope = .ok plaintext

/-- A list of secrets that can be delivered, and what it is opened to. -/
structure Delivered (opens : SecretTarget → Bytes → Prop) (secrets : List SecretTarget)
    (opened : List OpenedSecret) : Prop where
  valid : ∀ secret ∈ secrets, IsShellName secret.target ∧ secret.dekBlindbox = none ∧ secret.approval = none
  distinct : (secrets.map SecretTarget.target).Nodup
  opened : List.Forall₂ (fun secret o => o.name = secret.target ∧ opens secret o.plaintext) secrets opened

/-- The calls that the openers make of the one-shot commands. -/
inductive CliStep (C : Primitives) (master : Key) : Unit → (op : CliOp) → op.Reply → Unit → Prop
  | loadMasterKey {backend} : CliStep C master () (.loadMasterKey backend) (.ok master) ()
  | loadPassphraseMasterKey {passphrase} :
    CliStep C master () (.loadPassphraseMasterKey passphrase) (.ok master) ()
  | openSealed {key name envelope} :
    CliStep C master () (.openSealed key name envelope) (C.openSealed key name envelope) ()

structure SameOpening (E : AgentEnv) (master : Key) (secrets : List SecretTarget)
    (oneShot : CliM (List OpenedSecret)) (agent : GrantEntry → Option Key → AgentM (List OpenedSecret)) :
    Prop where
  /-- Of a list without protected secrets both open the same. -/
  standard : (∀ secret ∈ secrets, secret.tier = .standard) → ∀ grant w, ∃ r s,
    Yields (CliStep E.crypto master) oneShot.run () r ∧
    Yields (AgentStep E) (agent grant (some master)).run w s ∧ ∀ opened, (r = .ok opened ↔ s = .ok opened) ∧
      (r = .ok opened ↔ Delivered (OpensOneShot E.crypto master) secrets opened)
  /-- A protected secret is not delivered by the one-shot commands. -/
  refused : (∃ secret ∈ secrets, secret.tier = .«protected») →
    ∃ e, Yields (CliStep E.crypto master) oneShot.run () (.error e)
  /-- In the agent each secret is opened by its tier. -/
  inAgent : ∀ grant master w, ∃ s, Yields (AgentStep E) (agent grant master).run w s ∧
    ∀ opened, s = .ok opened ↔ Delivered (OpensInAgent E.crypto master grant) secrets opened
  /-- A protected secret depends on the DEK that the grant has for its name, and on nothing else. -/
  byDek : ∀ grant grant' master master' w w' (opened opened' : List OpenedSecret) (i : ℕ)
    (secret : SecretTarget),
    Yields (AgentStep E) (agent grant master).run w (.ok opened) →
    Yields (AgentStep E) (agent grant' master').run w' (.ok opened') → secrets[i]? = some secret →
    secret.tier = .«protected» →
    grant.deks.get ⟨.deliver,secret.name,none,none⟩ = grant'.deks.get ⟨.deliver,secret.name,none,none⟩ →
    opened[i]? = opened'[i]?

section Loops

variable {opens opens' : SecretTarget → Bytes → Prop} {secrets : List SecretTarget} {opened opened' : List OpenedSecret}
  {secret : SecretTarget}

/-- The body of a loop adds the next secret, or fails. -/
def Adds (opens : SecretTarget → Bytes → Prop) (opened : List OpenedSecret) (secret : SecretTarget)
    (opened' : List OpenedSecret) : Prop :=
  (IsShellName secret.target ∧ secret.dekBlindbox = none ∧ secret.approval = none) ∧
    secret.target ∉ opened.map OpenedSecret.name ∧
    ∃ plaintext, opens secret plaintext ∧ opened' = opened ++ [⟨secret.target,plaintext⟩]

/-- A loop that adds secret by secret delivers the list. -/
theorem foldlM_eq_ok {g : List OpenedSecret → SecretTarget → Result (List OpenedSecret)}
    (hg : ∀ opened secret opened', g opened secret = .ok opened' ↔ Adds opens opened secret opened') :
    secrets.foldlM g [] = .ok opened ↔ Delivered opens secrets opened := by
  suffices hall : ∀ before, secrets.foldlM g before = .ok opened ↔ ∃ more, opened = before ++ more ∧
      (∀ secret ∈ secrets, secret.target ∉ before.map OpenedSecret.name) ∧ Delivered opens secrets more by
    rw [hall []]
    simp
  induction secrets with
  | nil =>
    intro before
    constructor
    · intro h
      obtain rfl := Except.ok.inj h
      exact ⟨[],by simp,by simp,by simp,List.nodup_nil,.nil⟩
    · rintro ⟨more,rfl,-,-,-,hmore⟩
      cases hmore
      simp [pure_eq_ok]
  | cons secret secrets ih =>
    intro before
    rw [List.foldlM_cons,bind_eq_ok]
    simp only [hg,ih]
    constructor
    · rintro ⟨_,⟨hvalid,hnew,plaintext,hopens,rfl⟩,more,rfl,hfresh,hrest⟩
      refine ⟨⟨secret.target,plaintext⟩::more,by simp,?_,?_,?_,?_⟩
      · exact List.forall_mem_cons.mpr ⟨hnew,fun s hs hmem => hfresh s hs (by simp [hmem])⟩
      · exact List.forall_mem_cons.mpr ⟨hvalid,hrest.valid⟩
      · refine List.nodup_cons.mpr ⟨fun hmem => ?_,hrest.distinct⟩
        obtain ⟨s,hs,hsame⟩ := List.mem_map.mp hmem
        exact hfresh s hs (by simp [hsame])
      · exact .cons ⟨rfl,hopens⟩ hrest.opened
    · rintro ⟨_,rfl,hfresh,hvalid,hdistinct,hopened⟩
      cases hopened with
      | @cons _ o _ more hfirst hrest =>
        obtain ⟨hname,hopens⟩ := hfirst
        obtain ⟨hnotin,hdistinct⟩ := List.nodup_cons.mp hdistinct
        obtain ⟨hnew,hfresh⟩ := List.forall_mem_cons.mp hfresh
        obtain ⟨hvalid,hvalids⟩ := List.forall_mem_cons.mp hvalid
        refine ⟨_,⟨hvalid,hnew,o.plaintext,hopens,rfl⟩,more,?_,fun s hs hmem => ?_,hvalids,hdistinct,hrest⟩
        · simp [← hname]
        · rw [List.map_append,List.mem_append] at hmem
          obtain hmem | hmem := hmem
          · exact hfresh s hs hmem
          · exact hnotin (List.mem_map.mpr ⟨s,hs,by simpa using hmem⟩)

end Loops

section Bodies

variable {C : Primitives} {E : AgentEnv} {w : AgentWorld} (master : Key) (unlock : StoreUnlock) (grant : GrantEntry)
  (label duplicate : String) (opened : List OpenedSecret) (secret : SecretTarget)

theorem fields_none {dekBlindbox : Option BlindBox} {approval : Option JsonValue} :
    ¬ (dekBlindbox.isSome = true ∨ approval.isSome = true) ↔ dekBlindbox = none ∧ approval = none := by
  simp

theorem any_name_eq {target : String} {opened : List OpenedSecret} :
    ¬ (opened.any fun secret => secret.name == target) = true ↔ target ∉ opened.map OpenedSecret.name := by
  rw [not_iff_not,List.any_eq_true,List.mem_map]
  simp only [beq_iff_eq]

theorem openTarget_yields : ∃ r, Yields (CliStep C master)
    (openTarget secret.target label duplicate secret.name secret.tier secret.envelope secret.dekBlindbox
      secret.approval unlock master opened).run () r ∧
      ∀ opened', r = .ok opened' ↔ Adds (OpensOneShot C master) opened secret opened' := by
  have hopen (name : String) (envelope : Sealed) : Yields (CliStep C master) (openSealed master name envelope).run ()
      (C.openSealed master name envelope) := by
    refine yields_call fun r t => ⟨fun h => ?_,?_⟩
    · cases h
      exact ⟨rfl,rfl⟩
    · rintro ⟨rfl,rfl⟩
      exact .openSealed
  have hsecret : Yields (CliStep C master)
      (openOneShotSecret secret.name secret.envelope secret.dekBlindbox secret.approval unlock (some master)).run () _ :=
    (yields_liftResult _).andThen fun _ _ => (hopen secret.name secret.envelope).mapResult
  refine ⟨_,(yields_liftResult _).andThen fun _ _ => (yields_liftResult _).andThen fun _ _ =>
    (yields_liftResult _).andThen fun _ _ => hsecret.mapResult.andThen fun _ _ => yields_liftResult (.ok _),?_⟩
  intro opened'
  simp only [Adds,OpensOneShot,bind_eq_ok,bailIf_eq_ok,context_eq_ok,ensureOneShotStandardTier,
    rejectOneShotProtectedFields,validateShellName_eq_ok,fields_none,any_name_eq,not_not,Except.ok.injEq]
  constructor
  · rintro ⟨_,htier,_,hname,_,hnew,plaintext,⟨_,hfields,hopened⟩,rfl⟩
    exact ⟨⟨hname,hfields⟩,hnew,plaintext,⟨htier,hopened⟩,rfl⟩
  · rintro ⟨⟨hname,hfields⟩,hnew,plaintext,⟨htier,hopened⟩,rfl⟩
    exact ⟨(),htier,(),hname,(),hnew,plaintext,⟨(),hfields,hopened⟩,rfl⟩

theorem openAgentSecret_yields (master : Option Key) : ∃ r, Yields (AgentStep E)
    (openAgentSecret secret.name secret.tier secret.envelope grant master).run w r ∧
      ∀ plaintext, r = .ok plaintext ↔ OpensInAgent E.crypto master grant secret plaintext := by
  obtain ⟨target,name,tier,envelope,dekBlindbox,approval⟩ := secret
  cases tier with
  | standard =>
    have hopen (key : Key) : Yields (AgentStep E) (Agent.openSealed key name envelope).run w
        (E.crypto.openSealed key name envelope) := by
      refine yields_call fun r t => ⟨fun h => ?_,?_⟩
      · cases h
        exact ⟨rfl,rfl⟩
      · rintro ⟨rfl,rfl⟩
        exact .openSealed
    refine ⟨_,(yields_liftResult _).andThen fun key _ => (hopen key).mapResult,fun plaintext => ?_⟩
    simp only [OpensInAgent,bind_eq_ok,orError_eq_ok,context_eq_ok]
  | «protected» =>
    have hopen (dek : Key) : Yields (AgentStep E) (Agent.openWithDek dek name envelope).run w
        (E.crypto.openWithDek dek name envelope) := by
      refine yields_call fun r t => ⟨fun h => ?_,?_⟩
      · cases h
        exact ⟨rfl,rfl⟩
      · rintro ⟨rfl,rfl⟩
        exact .openWithDek
    refine ⟨_,(yields_liftResult _).andThen fun dek _ => (hopen dek).mapResult,fun plaintext => ?_⟩
    simp only [OpensInAgent,bind_eq_ok,orError_eq_ok,context_eq_ok]

theorem agentOpenTarget_yields (master : Option Key) : ∃ r, Yields (AgentStep E)
    (Agent.openTarget secret.target label duplicate secret.name secret.tier secret.envelope secret.dekBlindbox
      secret.approval grant master opened).run w r ∧
      ∀ opened', r = .ok opened' ↔ Adds (OpensInAgent E.crypto master grant) opened secret opened' := by
  obtain ⟨s,hs,hopened⟩ := openAgentSecret_yields (E := E) (w := w) grant secret master
  refine ⟨_,(yields_liftResult _).andThen fun _ _ => (yields_liftResult _).andThen fun _ _ =>
    (yields_liftResult _).andThen fun _ _ => hs.mapResult.andThen fun _ _ => yields_liftResult (.ok _),?_⟩
  intro opened'
  simp only [Adds,bind_eq_ok,bailIf_eq_ok,context_eq_ok,rejectAgentOneShotSecretFields,validateShellName_eq_ok,
    fields_none,any_name_eq,hopened,Except.ok.injEq]
  constructor
  · rintro ⟨_,hfields,_,hname,_,hnew,plaintext,hplaintext,rfl⟩
    exact ⟨⟨hname,hfields⟩,hnew,plaintext,hplaintext,rfl⟩
  · rintro ⟨⟨hname,hfields⟩,hnew,plaintext,hplaintext,rfl⟩
    exact ⟨(),hfields,(),hname,(),hnew,plaintext,hplaintext,rfl⟩

end Bodies

section Agreement

variable (unlock : StoreUnlock) (label duplicate : String) (secrets : List SecretTarget)

/-- Both loops of the one-shot commands. -/
def deliverOneShot : CliM (List OpenedSecret) := do
  let master ← loadExistingMasterFromUnlock unlock
  secrets.foldlM (fun opened secret => openTarget secret.target label duplicate secret.name secret.tier
    secret.envelope secret.dekBlindbox secret.approval unlock master opened) []

/-- Both loops of the agent. -/
def deliverInAgent (grant : GrantEntry) (master : Option Key) : AgentM (List OpenedSecret) :=
  secrets.foldlM (fun opened secret => Agent.openTarget secret.target label duplicate secret.name secret.tier
    secret.envelope secret.dekBlindbox secret.approval grant master opened) []

theorem deliverOneShot_yields (C : Primitives) (master : Key) : ∃ r,
    Yields (CliStep C master) (deliverOneShot unlock label duplicate secrets).run () r ∧
      ∀ opened, r = .ok opened ↔ Delivered (OpensOneShot C master) secrets opened := by
  have hload : Yields (CliStep C master) (loadExistingMasterFromUnlock unlock).run () (.ok master) := by
    cases unlock with
    | standard backend =>
      refine yields_call fun r t => ⟨fun h => ?_,?_⟩
      · cases h
        exact ⟨rfl,rfl⟩
      · rintro ⟨rfl,rfl⟩
        exact .loadMasterKey
    | filePassphrase passphrase =>
      have hcall : Yields (CliStep C master) (loadPassphraseMasterKey passphrase).run () (.ok master) := by
        refine yields_call fun r t => ⟨fun h => ?_,?_⟩
        · cases h
          exact ⟨rfl,rfl⟩
        · rintro ⟨rfl,rfl⟩
          exact .loadPassphraseMasterKey
      exact hcall.mapResult
  have hbody (opened : List OpenedSecret) (secret : SecretTarget) := openTarget_yields (C := C) master unlock label
    duplicate opened secret
  choose g hg hadds using hbody
  refine ⟨secrets.foldlM g [],?_,fun opened => foldlM_eq_ok hadds⟩
  refine hload.andThen (g := fun _ => secrets.foldlM g []) fun key hkey => ?_
  obtain rfl := Except.ok.inj hkey
  exact yields_foldlM hg secrets []

theorem deliverInAgent_yields (E : AgentEnv) (w : AgentWorld) (grant : GrantEntry) (master : Option Key) : ∃ r,
    Yields (AgentStep E) (deliverInAgent label duplicate secrets grant master).run w r ∧
      ∀ opened, r = .ok opened ↔ Delivered (OpensInAgent E.crypto master grant) secrets opened := by
  choose g hg hadds using fun opened secret =>
    agentOpenTarget_yields (E := E) (w := w) grant label duplicate opened secret master
  exact ⟨_,yields_foldlM hg secrets [],fun opened => foldlM_eq_ok hadds⟩

variable {secrets}

/-- Standard secrets open in both to the same. -/
theorem delivered_standard {C : Primitives} {master : Key} {grant : GrantEntry} {opened : List OpenedSecret}
    (hstandard : ∀ secret ∈ secrets, secret.tier = .standard) :
    Delivered (OpensInAgent C (some master) grant) secrets opened ↔ Delivered (OpensOneShot C master) secrets opened := by
  have hsame (secret : SecretTarget) (plaintext : Bytes) (htier : secret.tier = .standard) :
      OpensInAgent C (some master) grant secret plaintext ↔ OpensOneShot C master secret plaintext := by
    simp [OpensInAgent,OpensOneShot,htier]
  constructor
  · rintro ⟨hvalid,hdistinct,hopened⟩
    refine ⟨hvalid,hdistinct,((List.forall₂_and_left secrets opened).mpr ⟨hstandard,hopened⟩).imp fun secret o h => ?_⟩
    exact ⟨h.2.1,(hsame secret _ h.1).mp h.2.2⟩
  · rintro ⟨hvalid,hdistinct,hopened⟩
    refine ⟨hvalid,hdistinct,((List.forall₂_and_left secrets opened).mpr ⟨hstandard,hopened⟩).imp fun secret o h => ?_⟩
    exact ⟨h.2.1,(hsame secret _ h.1).mpr h.2.2⟩

theorem sameOpening (secrets : List SecretTarget) (E : AgentEnv) (master : Key) : SameOpening E master secrets
    (deliverOneShot unlock label duplicate secrets) (deliverInAgent label duplicate secrets) where
  standard hstandard grant w := by
    obtain ⟨r,hr,hopened⟩ := deliverOneShot_yields unlock label duplicate secrets E.crypto master
    obtain ⟨s,hs,hopened'⟩ := deliverInAgent_yields label duplicate secrets E w grant (some master)
    refine ⟨r,s,hr,hs,fun opened => ⟨?_,hopened opened⟩⟩
    rw [hopened,hopened',delivered_standard hstandard]
  refused := by
    rintro ⟨secret,hsecret,htier⟩
    obtain ⟨r,hr,hopened⟩ := deliverOneShot_yields unlock label duplicate secrets E.crypto master
    cases r with
    | error e => exact ⟨e,hr⟩
    | ok opened =>
      obtain ⟨o,_,_,hstandard,_⟩ := forall₂_exists_right ((hopened opened).mp rfl).opened hsecret
      cases htier.symm.trans hstandard
  inAgent grant master w := deliverInAgent_yields label duplicate secrets E w grant master
  byDek grant grant' master master' w w' opened opened' i secret hyields hyields' hsecret htier hdek := by
    have hdelivered {grant : GrantEntry} {master : Option Key} {w : AgentWorld} {opened : List OpenedSecret}
        (hyields : Yields (AgentStep E) (deliverInAgent label duplicate secrets grant master).run w (.ok opened)) :
        Delivered (OpensInAgent E.crypto master grant) secrets opened := by
      obtain ⟨r,hr,hdelivered⟩ := deliverInAgent_yields label duplicate secrets E w grant master
      exact (hdelivered opened).mp (hyields.eq ((hr r w).mpr ⟨rfl,rfl⟩))
    obtain ⟨o,ho,hname,hopens⟩ := forall₂_getElem? (hdelivered hyields).opened hsecret
    obtain ⟨o',ho',hname',hopens'⟩ := forall₂_getElem? (hdelivered hyields').opened hsecret
    simp only [OpensInAgent,htier] at hopens hopens'
    obtain ⟨dek,hgrant,hplaintext⟩ := hopens
    obtain ⟨dek',hgrant',hplaintext'⟩ := hopens'
    obtain rfl := Option.some.inj ((hgrant.symm.trans hdek).trans hgrant')
    have hsame : o.plaintext = o'.plaintext := Except.ok.inj (hplaintext.symm.trans hplaintext')
    rw [ho,ho']
    obtain ⟨target,plaintext⟩ := o
    obtain ⟨target',plaintext'⟩ := o'
    simp_all

end Agreement

/-- The one-shot commands and the agent open the same secrets to the same plaintexts. -/
theorem oneShot_agent_same (E : AgentEnv) (master : Key) (unlock : StoreUnlock) :
    (∀ secrets : List EnvSecretInput, SameOpening E master (secrets.map envTarget) (openEnvSecrets secrets unlock)
      (openEnvSecretsForAgent secrets)) ∧
    ∀ secrets : List NamedSecretInput, SameOpening E master (secrets.map namedTarget)
      (openNamedSecrets secrets unlock) (openNamedSecretsForAgent secrets) := by
  have hagent (label duplicate : String) {α : Type} (f : α → SecretTarget) (secrets : List α) :
      deliverInAgent label duplicate (secrets.map f) = fun grant (master : Option Key) =>
        secrets.foldlM (fun opened secret => Agent.openTarget (f secret).target label duplicate (f secret).name
          (f secret).tier (f secret).envelope (f secret).dekBlindbox (f secret).approval grant master opened) [] :=
    funext fun _ => funext fun _ => List.foldlM_map ..
  constructor
  · intro secrets
    have hsame := sameOpening unlock "env var name" "duplicate env var name" (secrets.map envTarget) E master
    simp only [deliverOneShot,hagent,List.foldlM_map] at hsame
    exact hsame
  · intro secrets
    have hsame := sameOpening unlock "secret target name" "duplicate secret target name" (secrets.map namedTarget)
      E master
    simp only [deliverOneShot,hagent,List.foldlM_map] at hsame
    exact hsame

end Avault.Cli
