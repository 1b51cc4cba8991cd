import Avault.Cli.Host
import Avault.Cli.KeyRestore

/-! Custody from end to end: what is sealed on a host is what its deliveries open, until its key is replaced. -/
namespace Avault.Cli.Main
open Foundation Crypto Deliver
open Agent (agentRunHelperEnv)
open Fetch (httpRequest injectSecret)
open Store (World Machine counterKey exec_run)

variable {P : Type} [DecidableEq P] {H : Host} {E : CliEnv} {args : P → List OsString} {start : World}
  {events before between after : List (HostEvent P)} {d : HostConfig P} {ev ev' : HostEvent P} {unlock : StoreUnlock}
  {key key' : Key}

section Runs

variable (hrun : HostRun H E args start events d) (hstart : ∃ cell, H.Holds start cell)

include hrun in
theorem HostRun.origin : ∀ ev ∈ events, Origin E (args ev.process) ev.history ev.op :=
  Run.origin hrun (fun _ => rfl) fun _ => main_origin

include hrun hstart in
theorem HostRun.holds : ∃ cell, H.Holds d.state cell := by
  induction hrun with
  | nil => exact hstart
  | snoc _ _ hstep ih =>
    obtain ⟨cell,hcell⟩ := ih
    obtain ⟨cell',hcell',-⟩ := hstep.keeps hcell
    exact ⟨cell',hcell'⟩

include hrun hstart in
/-- The state before an event of the run. -/
theorem HostRun.holds_before (hevents : events = before ++ ev::after) : ∃ cell, H.Holds ev.before cell := by
  obtain ⟨u,hu,hstate,-⟩ := Run.split hrun hevents
  exact hstate ▸ HostRun.holds hu hstart

include hrun hstart in
theorem HostRun.holds_event (hev : ev ∈ events) : ∃ cell, H.Holds ev.before cell := by
  obtain ⟨before,after,hevents⟩ := List.append_of_mem hev
  exact HostRun.holds_before hrun hstart hevents

include hrun in
/-- A key that is in the store behind an event is the one that is loaded next, until it is replaced. -/
theorem HostRun.loads_kept (hevents : events = before ++ ev::(between ++ ev'::after)) (hheld : H.Holds ev.after (some key))
    (hload : Loads ev'.op ev'.reply unlock key') (hkept : ∀ e ∈ between, ¬ Replaces e) : key' = key := by
  rw [← List.cons_append,← List.append_assoc] at hevents
  obtain ⟨u,hu,hstate,-⟩ := Run.split hrun hevents
  have hmem : ev' ∈ events := hevents ▸ List.mem_append_right _ List.mem_cons_self
  have hbefore : H.Holds u.state (some key) := by
    apply Run.after_event (I := fun s => H.Holds s (some key)) hu rfl hheld
    intro e he hstep hholds
    obtain ⟨cell,hcell,hkeeps⟩ := hstep.keeps hholds
    obtain rfl := (hkeeps key rfl).resolve_right (hkept e he)
    exact hcell
  rw [hstate] at hbefore
  exact (((Run.step hrun ev' hmem).loads hload hbefore).2.1 key rfl).symm

include hrun hstart in
/-- Two loads agree where the key was not replaced between them. -/
theorem HostRun.loads_agree (hkept : KeptBetween events ev ev') (hload : Loads ev.op ev.reply unlock key)
    (hload' : Loads ev'.op ev'.reply unlock key') : key' = key := by
  obtain ⟨before,between,after,hevents | hevents,hkept⟩ := hkept
  · have hmem : ev ∈ events := hevents ▸ List.mem_append_right _ List.mem_cons_self
    obtain ⟨cell,hcell⟩ := HostRun.holds_event hrun hstart hmem
    exact HostRun.loads_kept hrun hevents ((Run.step hrun ev hmem).loads hload hcell).2.2 hload' hkept
  · have hmem : ev' ∈ events := hevents ▸ List.mem_append_right _ List.mem_cons_self
    obtain ⟨cell,hcell⟩ := HostRun.holds_event hrun hstart hmem
    exact (HostRun.loads_kept hrun hevents ((Run.step hrun ev' hmem).loads hload' hcell).2.2 hload hkept).symm

include hrun in
/-- What a process remembers is an event of the run. -/
theorem HostRun.event (hev : ev ∈ events) {op : AvaultOp} {r : op.Reply} (hmem : ⟨op,r⟩ ∈ ev.history) :
    ∃ e ∈ events, e.process = ev.process ∧ Is e op r := Run.event_of_mem hrun (fun _ => rfl) hev hmem

include hrun hstart in
/-- A key that a process has comes from an event of the run. -/
theorem HostRun.keyLoad (hev : ev ∈ events) (hloaded : Loaded ev.history unlock key) :
    ∃ load, KeyLoad events ev.process load key := by
  obtain ⟨op,r,hmem,hloads⟩ := hloaded
  obtain ⟨load,hload,hprocess,heq⟩ := HostRun.event hrun hev hmem
  obtain ⟨cell,hcell⟩ := HostRun.holds_event hrun hstart hload
  have hstep := Run.step hrun load hload
  obtain ⟨lprocess,lhistory,lop,lreply,lbefore,lafter⟩ := load
  obtain ⟨rfl,heq⟩ := Sigma.mk.inj_iff.mp heq
  obtain rfl := eq_of_heq heq
  obtain ⟨rfl,-⟩ := hstep.loads hloads hcell
  exact ⟨_,hload,hprocess,hloads⟩

end Runs

/-- What `seal` prints opens only under the key and the name it was sealed with, and to the value. -/
theorem openSealed_sealWith {C : Primitives} (hC : C.aead.Ideal) {draws : SealDraws} {name name' : String}
    {value value' : Bytes} {envelope : Sealed} (h : C.sealWith draws key name value = .ok envelope) :
    C.openSealed key' name' envelope = .ok value' ↔ key' = key ∧ name' = name ∧ value' = value := by
  let F : RecordFamily C Unit := ⟨fun _ => ⟨draws,key,name,value⟩,fun _ => envelope,fun _ => h,fun _ _ _ => rfl⟩
  refine (F.openSealed_mix (i := ()) (j := ()) (k := ()) hC).trans ?_
  exact (and_iff_right rfl).trans (and_iff_right rfl)

section Custody

variable (E args events)

/-- An event in which a process prints an envelope, and how it came about. -/
structure SealedBy (w load : HostEvent P) (key : Key) (name : String) (value : Bytes) (envelope : Sealed) : Prop where
  mem : w ∈ events
  writes : w.op = .writeEnvelope envelope
  asked : SealsUnder (args w.process) name
  given : Given E w.history key name value
  load : KeyLoad events w.process load key
  sealed : ∃ draws, E.crypto.sealWith draws key name value = .ok envelope

/-- A process opened an envelope to the plaintext, with a key it had loaded. -/
def OpenedBy (i : P) (plaintext : Bytes) : Prop := ∃ o ∈ events, o.process = i ∧ ∃ key name envelope load,
  Is o (.cli (.openSealed key name envelope)) (.ok plaintext : Result Bytes) ∧ KeyLoad events i load key

/-- What leaves a process holds nothing but plaintexts that the process has opened. What the helper of the agent
hands to its child is what the agent has sent it. -/
def Discloses (ev : HostEvent P) : Prop :=
  match ev.op with
  | .spawnChild child => ∀ entry ∈ child.env, OpenedBy events ev.process (utf8 entry.2)
  | .execChild child => ∃ x ∈ events, x.process = ev.process ∧ ∃ input, Is x .helperStdin input ∧
      agentRunHelperEnv input = .ok child.env
  | .signDigest _ key _ => OpenedBy events ev.process key.toList
  | .atomicWriteSecretFile _ bytes => ∃ opened format, renderInjectFile E.crypto.json opened format = .ok bytes ∧
      ∀ secret ∈ opened, OpenedBy events ev.process secret.plaintext
  | .cli (.send request) => ∃ fetch plaintext injection isLoopback, OpenedBy events ev.process plaintext ∧
      injectSecret E.urls fetch plaintext = .ok injection ∧ request = httpRequest fetch injection isLoopback
  | _ => True

/-- The custody of secrets in any run of a host. -/
structure Custody : Prop where
  /-- Each envelope that is printed was sealed as its process was asked to, with a key from the store. -/
  sealed : ∀ w ∈ events, ∀ envelope, w.op = .writeEnvelope envelope → ∃ load key name value,
    SealedBy E args events w load key name value envelope
  /-- It opens to nothing but what was sealed, under that name; and it does so in every process, unless the key was
  replaced between the two loads. -/
  opens : ∀ {w load key name value envelope}, SealedBy E args events w load key name value envelope →
    ∀ o ∈ events, ∀ k n r, Is o (.cli (.openSealed k n envelope)) r → (∀ v, r = .ok v → n = name ∧ v = value) ∧
      ∃ load', KeyLoad events o.process load' k ∧ (n = name → KeptBetween events load load' → r = .ok value)
  /-- What children, files, servers and signers get was opened. -/
  discloses : ∀ ev ∈ events, Discloses E events ev
  /-- A box that was made for a printed public key and a name opens for that name only, and to what was put in;
  and it does open with each key that is loaded, unless the key was replaced in between. -/
  boxed : ∀ p ∈ events, ∀ output, p.op = .writePubkey output → ∃ load key, KeyLoad events p.process load key ∧
    output = pubkeyOutput E key ∧ ∀ seed name value blindBox,
      E.hpke.sealBlindBox E.crypto output.publicKey value seed (.seal name) = .ok blindBox →
      (∀ k n v, (E.hpke.deriveBlindBoxKeypairFromMaster k).openBox E.crypto blindBox (.seal n) = .ok v → n = name ∧ v = value) ∧
      ∀ i load' k, KeyLoad events i load' k → KeptBetween events load load' →
        (E.hpke.deriveBlindBoxKeypairFromMaster k).openBox E.crypto blindBox (.seal name) = .ok value

variable {E args events}

section Runs

variable (hrun : HostRun H E args start events d) (hstart : ∃ cell, H.Holds start cell)
include hrun hstart

theorem HostRun.openedBy (hev : ev ∈ events) {plaintext : Bytes} (hopened : Opened ev.history plaintext) :
    OpenedBy events ev.process plaintext := by
  obtain ⟨unlock,key,name,envelope,hloaded,hmem⟩ := hopened
  obtain ⟨load,hload⟩ := HostRun.keyLoad hrun hstart hev hloaded
  obtain ⟨o,ho,hprocess,heq⟩ := HostRun.event hrun hev hmem
  exact ⟨o,ho,hprocess,key,name,envelope,load,heq,hload⟩

theorem HostRun.discloses (hev : ev ∈ events) : Discloses E events ev := by
  have horigin := HostRun.origin hrun ev hev
  unfold Discloses
  split
  · next child hop =>
    rw [hop] at horigin
    exact fun entry hentry => HostRun.openedBy hrun hstart hev (horigin entry hentry)
  · next child hop =>
    rw [hop] at horigin
    obtain ⟨input,hmem,henv⟩ := horigin
    obtain ⟨x,hx,hprocess,his⟩ := HostRun.event hrun hev hmem
    exact ⟨x,hx,hprocess,input,his,henv⟩
  · next scheme key digest hop =>
    rw [hop] at horigin
    exact HostRun.openedBy hrun hstart hev horigin
  · next path bytes hop =>
    rw [hop] at horigin
    obtain ⟨opened,format,hrender,hopened⟩ := horigin
    exact ⟨opened,format,hrender,fun secret hsecret => HostRun.openedBy hrun hstart hev (hopened secret hsecret)⟩
  · next request hop =>
    rw [hop] at horigin
    obtain ⟨fetch,plaintext,injection,isLoopback,hopened,hinjection,hrequest⟩ := horigin
    exact ⟨fetch,plaintext,injection,isLoopback,HostRun.openedBy hrun hstart hev hopened,hinjection,hrequest⟩
  · trivial

/-- The reply to an opening is what opening gives, and the key comes from the store. -/
theorem HostRun.opening {o : HostEvent P} (ho : o ∈ events) {name : String} {envelope : Sealed} {r : Result Bytes}
    (his : Is o (.cli (.openSealed key name envelope)) r) :
    r = E.crypto.openSealed key name envelope ∧ ∃ load, KeyLoad events o.process load key := by
  have horigin := HostRun.origin hrun o ho
  have hstep := Run.step hrun o ho
  have hkeyLoad (unlock : StoreUnlock) (hloaded : Loaded o.history unlock key) := HostRun.keyLoad hrun hstart ho hloaded
  obtain ⟨i,history,op,reply,before,after⟩ := o
  obtain ⟨rfl,heq⟩ := Sigma.mk.inj_iff.mp his
  obtain rfl := eq_of_heq heq
  obtain ⟨unlock,hloaded⟩ := horigin
  obtain ⟨load,hload⟩ := hkeyLoad unlock hloaded
  refine ⟨?_,load,hload⟩
  cases hstep with
  | access haccess => cases haccess
  | openSealed => rfl
  | outside _ h => exact h.elim

end Runs

/-- Custody holds of every run: any commands, any input, any order of their calls. -/
theorem host_custody (hcrypto : E.crypto.aead.Ideal) (hhpke : E.hpke.Ideal) (hrun : HostRun H E args start events d)
    (hstart : ∃ cell, H.Holds start cell) : Custody E args events where
  sealed w hw envelope hop := by
    have horigin := HostRun.origin hrun w hw
    rw [hop] at horigin
    obtain ⟨unlock,key,name,value,hsealing⟩ := horigin
    obtain ⟨load,hload⟩ := HostRun.keyLoad hrun hstart hw hsealing.loaded
    obtain ⟨draws,-,hsealed⟩ := hsealing.sealed
    exact ⟨load,key,name,value,hw,hop,hsealing.asked,hsealing.given,hload,draws,hsealed⟩
  opens := by
    intro w load key name value envelope hsealed o ho k n r his
    obtain ⟨draws,hsealed'⟩ := hsealed.sealed
    obtain ⟨rfl,load',hload'⟩ := HostRun.opening hrun hstart ho his
    refine ⟨fun v hv => ((openSealed_sealWith hcrypto hsealed').mp hv).2,load',hload',?_⟩
    intro hname hkept
    have hkey := HostRun.loads_agree hrun hstart hkept hsealed.load.loads hload'.loads
    exact (openSealed_sealWith hcrypto hsealed').mpr ⟨hkey,hname,rfl⟩
  discloses ev hev := HostRun.discloses hrun hstart hev
  boxed := by
    intro p hp output hop
    have horigin := HostRun.origin hrun p hp
    rw [hop] at horigin
    obtain ⟨unlock,key,hloaded,rfl⟩ := horigin
    obtain ⟨load,hload⟩ := HostRun.keyLoad hrun hstart hp hloaded
    refine ⟨load,key,hload,rfl,fun seed name value blindBox hbox => ⟨fun k n v hopen => ?_,?_⟩⟩
    · exact ((hhpke.openBox_seal hbox).mp hopen).2
    · intro i load' k hload' hkept
      obtain rfl := HostRun.loads_agree hrun hstart hkept hload.loads hload'.loads
      exact (hhpke.openBox_seal hbox).mpr ⟨rfl,rfl,rfl⟩

end Custody

section Sample

variable {s t : World}

def sampleDraws : SealDraws := ⟨.replicate 32 1,.replicate 12 2,.replicate 12 3⟩

/-- The envelope of a value under a key. -/
noncomputable def sampleEnvelope (key : Key) : Sealed :=
  ((Primitives.concrete.sealWith sampleDraws key "TOKEN" (utf8 "s3 cret")).toOption).getD ⟨"","",""⟩

theorem sampleEnvelope_sealed : Primitives.concrete.sealWith sampleDraws key "TOKEN" (utf8 "s3 cret") = .ok (sampleEnvelope key) := rfl

noncomputable def sampleEnv (key : Key) : CliEnv where
  crypto := Primitives.concrete
  scrypt := KeyCommands.sampleScrypt
  hpke := Hpke.transparent
  urls := ⟨fun _ => bail "relative URL without a base",fun _ => ""⟩
  serde := {
    blindBox := fun _ => bail ""
    signInput := fun _ => bail ""
    envSecrets := fun _ => .ok [⟨"TOKEN","TOKEN",.standard,sampleEnvelope key,none,none⟩]
    envelope := fun _ => bail ""
    fetchInput := fun _ => bail ""
    injectInput := fun _ => bail ""
    exportBlob := KeyCommands.sampleFromSlice }

noncomputable def linuxHost : Host := ⟨Machine.clear,.linux⟩

theorem answered {H : Host} {E : CliEnv} {s : World} (op : AvaultOp) (r : op.Reply) (h : op.Outside) : HostStep H E s op r s :=
  .outside r h

/-- An operation where no call fails. -/
theorem step_run (H : Host) (operation : Store.Operation) (s : World) : H.Step operation s
    (Program.run (Store.perform H.machine) (H.platform.program H.machine operation).run s).1
    (Program.run (Store.perform H.machine) (H.platform.program H.machine operation).run s).2 := exec_run _ s

/-- One process seals a value, and another one delivers it to a child. The key may be exported, and imported. -/
inductive Party
  | seals
  | runs
  | exports
  | imports
deriving DecidableEq

def Party.command : Party → List OsString
  | seals => [utf8 "seal",utf8 "--name",utf8 "TOKEN"]
  | runs => [utf8 "deliver",utf8 "run",utf8 "--",utf8 "true"]
  | exports => [utf8 "key",utf8 "export"]
  | imports => [utf8 "key",utf8 "import"]

abbrev PartyRun (H : Host) (key : Key) (start : World) := HostRun H (sampleEnv key) Party.command start

theorem PartyRun.nil : PartyRun H key s [] (.start (fun i => main (sampleEnv key) i.command) s) := Run.nil

/-- A process that seals, up to its output. -/
theorem seals_comes (hload : HostStep H (sampleEnv key) s (.loadOrCreateMasterKey .auto) (.ok key : Result Key) t) :
    ∃ next, Comes (HostStep H (sampleEnv key)) (main (sampleEnv key) Party.seals.command) s
      (.request (.writeEnvelope (sampleEnvelope key)) next) t := by
  have hstart : Comes (HostStep H (sampleEnv key)) (main (sampleEnv key) Party.seals.command) s
    (main (sampleEnv key) Party.seals.command) s := .refl
  have hseals := hstart.turn rfl (answered .hardenProcessMemory () rfl)
  have hseals := hseals.turn rfl (answered .storeVar EnvVar.notPresent rfl)
  have hseals := hseals.turn rfl (answered (.key .readStdin) (.ok (utf8 "s3 cret")) rfl)
  have hseals := hseals.turn rfl hload
  exact ⟨_,hseals.turn rfl (answered .drawSeal sampleDraws rfl)⟩

/-- What a delivery has left to do once it has read its input. -/
noncomputable def loadsAndRuns (key : Key) : Program AvaultOp AvaultOp.Reply UInt8 := do
  match ← (do
    let opened ← inCli (openEnvSecrets [⟨"TOKEN","TOKEN",.standard,sampleEnvelope key,none,none⟩] (.standard .auto))
    runChildWithOpenedEnv (utf8 "true") [] opened true : AvaultM UInt8).run with
  | .ok code => return code
  | .error err => do
    let _ ← Program.call (AvaultOp.eprintLine ("avault: " ++ errorText err))
    return errorExitStatus err

theorem runs_comes : Comes (HostStep H (sampleEnv key)) (main (sampleEnv key) Party.runs.command) s (loadsAndRuns key) s := by
  have hstart : Comes (HostStep H (sampleEnv key)) (main (sampleEnv key) Party.runs.command) s
    (main (sampleEnv key) Party.runs.command) s := .refl
  have hruns := hstart.turn rfl (answered .hardenProcessMemory () rfl)
  have hruns := hruns.turn rfl (answered .storeVar EnvVar.notPresent rfl)
  exact hruns.turn rfl (answered (.cli .readJson) (.ok []) rfl)

theorem opensSealed : HostStep H (sampleEnv key) s (.cli (.openSealed key "TOKEN" (sampleEnvelope key)))
    (.ok (utf8 "s3 cret") : Result Bytes) s := by
  have hopen : Primitives.concrete.openSealed key "TOKEN" (sampleEnvelope key) = .ok (utf8 "s3 cret") :=
    (openSealed_sealWith Primitives.concrete_ideal sampleEnvelope_sealed).mpr ⟨rfl,rfl,rfl⟩
  rw [← hopen]
  exact .openSealed

def sampleChild : ChildCommand := ⟨utf8 "true",[],false,[("TOKEN","s3 cret")],true⟩

/-- The calls of a delivery, with their replies. -/
theorem loadsAndRuns_calls : ∃ next next' : _ → _, ∃ next'',
    loadsAndRuns key = .request (.cli (.loadMasterKey .auto)) next ∧
    next (.ok key : Result Key) = .request (.cli (.openSealed key "TOKEN" (sampleEnvelope key))) next' ∧
    next' (.ok (utf8 "s3 cret") : Result Bytes) = .request (.spawnChild sampleChild) next'' := by
  have hopen : openEnvSecrets [⟨"TOKEN","TOKEN",.standard,sampleEnvelope key,none,none⟩] (.standard .auto) = (do
    let master ← loadExistingMasterFromUnlock (.standard .auto)
    openTarget "TOKEN" "env var name" "duplicate env var name" "TOKEN" .standard (sampleEnvelope key) none none
      (.standard .auto) master [] >>= pure) := rfl
  rw [loadsAndRuns,hopen]
  exact ⟨_,_,_,rfl,rfl,rfl⟩

/-- The delivery loads the key, opens what was sealed with it and starts the child. -/
theorem PartyRun.delivers {events : List (HostEvent Party)} {d : HostConfig Party} {h : Calls}
    (hrun : PartyRun H key start events d) (hi : d.process .runs = ⟨loadsAndRuns key,h⟩)
    (hload : HostStep H (sampleEnv key) d.state (.cli (.loadMasterKey .auto)) (.ok key : Result Key) t) :
    ∃ l o c e, PartyRun H key start (events ++ [l,o,c]) e ∧
      (o.process = .runs ∧ Is o (.cli (.openSealed key "TOKEN" (sampleEnvelope key))) (.ok (utf8 "s3 cret") : Result Bytes)) ∧
      c.process = .runs ∧ c.op = .spawnChild sampleChild := by
  obtain ⟨_,_,_,hloads,hopens,hspawns⟩ := @loadsAndRuns_calls key
  obtain ⟨_,hrun,hs,hi,-⟩ := Run.turn hrun hi hloads rfl hload
  obtain ⟨_,hrun,hs,hi,-⟩ := Run.turn hrun hi hopens hs opensSealed
  obtain ⟨e,hrun,-⟩ := Run.turn hrun hi hspawns hs (answered (.spawnChild sampleChild) (.ok ()) rfl)
  simp only [List.append_assoc,List.singleton_append] at hrun
  exact ⟨_,_,_,e,hrun,⟨rfl,rfl⟩,rfl,rfl⟩

noncomputable def createdWorld : World :=
  (Program.run (Store.perform Machine.clear) (Store.Platform.linux.program Machine.clear .loadOrCreate).run World.empty).2

theorem creates {E : CliEnv} : HostStep linuxHost E World.empty (.loadOrCreateMasterKey .auto) (.ok (counterKey 0) : Result Key)
    createdWorld :=
  .access rfl (step_run linuxHost .loadOrCreate World.empty)

/-- A key that is in the TPM is loaded. -/
theorem loadsInstalled {E : CliEnv} (h : Store.TpmInstalled Machine.clear key s t) (hfile : t.file.isSome = false) :
    ∃ w, HostStep linuxHost E t (.cli (.loadMasterKey .auto)) (.ok key : Result Key) w := by
  have hnone : ¬ Store.Platform.linux.hasFile t = true := Bool.eq_false_iff.mp hfile
  obtain ⟨w,hw⟩ := @Host.exists_load linuxHost t key ((Store.Platform.loads_of_no_file hnone).mpr h.tpmKey)
  exact ⟨w,.access rfl hw⟩

/-- A value is sealed by one process and opened by another one, which hands it to its child. -/
theorem host_custody_delivered : ∃ events d, PartyRun linuxHost (counterKey 0) World.empty events d ∧
    (∃ w ∈ events, w.process = .seals ∧ w.op = .writeEnvelope (sampleEnvelope (counterKey 0))) ∧
    (∃ o ∈ events, o.process = .runs ∧
      Is o (.cli (.openSealed (counterKey 0) "TOKEN" (sampleEnvelope (counterKey 0)))) (.ok (utf8 "s3 cret") : Result Bytes)) ∧
    (∃ c ∈ events, c.process = .runs ∧ c.op = .spawnChild sampleChild ∧ Discloses (sampleEnv (counterKey 0)) events c) ∧
    Custody (sampleEnv (counterKey 0)) Party.command events := by
  -- the one has read its input when the other one seals
  obtain ⟨_,hpath,hsteps⟩ := @runs_comes linuxHost (counterKey 0) World.empty
  obtain ⟨_,_,hseals,hsteps'⟩ := seals_comes creates
  have hnone : PartyRun linuxHost (counterKey 0) World.empty [] _ := .nil
  obtain ⟨_,_,hrun,hs,hi,hothers⟩ := Run.along hnone (i := .runs) rfl rfl hpath hsteps
  obtain ⟨_,_,hrun,hs,hi',hothers'⟩ := Run.along hrun (hothers .seals (by decide)) hs hseals hsteps'
  obtain ⟨_,hrun,hs,-,hothers''⟩ := Run.turn hrun hi' rfl hs (answered (.writeEnvelope _) (.ok ()) rfl)
  have hi := ((hothers'' .runs (by decide)).trans (hothers' .runs (by decide))).trans hi
  have hinstalled : Store.TpmInstalled Machine.clear (counterKey 0) World.empty.minted createdWorld := ⟨⟨0,rfl⟩,rfl,rfl,rfl⟩
  obtain ⟨_,hload⟩ := loadsInstalled hinstalled rfl
  obtain ⟨l,o,c,d,hrun,ho,hc⟩ := PartyRun.delivers hrun hi (hs ▸ hload)
  have hcustody := host_custody Primitives.concrete_ideal Hpke.transparent_ideal hrun ⟨none,rfl,rfl⟩
  have hsealed {l : List (HostEvent Party)} {w : HostEvent Party} {tail} : w ∈ l ++ [w] ++ tail :=
    List.mem_append_left _ (List.mem_append_right _ (List.mem_singleton_self _))
  have hlast {l : List (HostEvent Party)} {e : HostEvent Party} {tail} (he : e ∈ tail) : e ∈ l ++ tail :=
    List.mem_append_right _ he
  have hchild := hcustody.discloses c (hlast (by simp))
  exact ⟨_,d,hrun,⟨_,hsealed,rfl,rfl⟩,⟨o,hlast (by simp),ho⟩,⟨c,hlast (by simp),hc.1,hc.2,hchild⟩,hcustody⟩

end Sample
end Avault.Cli.Main
