import Avault.Agent.HelperCanonical
import Avault.Cli.Main
import Avault.Crypto.Concrete
import Avault.Foundation.Provenance

/-! How the secrets of a `deliver run` get from the agent into the command: a helper is spawned, told them
over a pipe, and becomes the command. -/
namespace Avault.Agent.HelperRun
open Foundation
open Crypto (Hpke Primitives)
open Cli (OsString)
open Cli.Main (AvaultOp ChildCommand CliEnv ExitStatus statusToExitCode)
open Foundation.Program (Ensures Fallible Gives ask attempt call ensures_attempt ensures_bind ensures_check ensures_foldlM ensures_ite
  ensures_mapResult gives_bind gives_error gives_ok liftResult mapResult wp)

/-- The calls of the agent on its side. -/
inductive RunOp
  | currentExe
  /-- The helper, with a pipe as its stdin; tells if there is one. -/
  | spawnHelper (exe : OsString) (args : List OsString)
  | writeAll (bytes : Bytes)
  /-- The agent's end of the pipe is dropped. -/
  | closeStdin
  | kill
  | wait

def RunOp.Reply : RunOp → Type
  | currentExe => Result OsString
  | spawnHelper _ _ => Result Bool
  | writeAll _ | kill => Result Unit
  | closeStdin => Unit
  | wait => Result ExitStatus

abbrev RunM (α : Type) := Fallible RunOp RunOp.Reply Error α

def withContext {α : Type} (text : String) (x : RunM α) : RunM α := mapResult (context text) x

def currentExe : RunM OsString := ExceptT.mk (call RunOp.currentExe)
def spawnHelper (exe : OsString) (args : List OsString) : RunM Bool := ExceptT.mk (call (RunOp.spawnHelper exe args))
def writeAll (bytes : Bytes) : RunM Unit := ExceptT.mk (call (RunOp.writeAll bytes))
def wait : RunM ExitStatus := ExceptT.mk (call RunOp.wait)

def writeAgentRunHelperBytes (bytes : Bytes) : RunM Unit := do
  let len ← liftResult (context "agent run helper field is too large" (tryIntoU32 bytes.length))
  withContext "failed to write agent run helper frame" (writeAll (bigEndian 4 len))
  withContext "failed to write agent run helper frame" (writeAll bytes)

/-- One round of the loop of `write_agent_run_helper_frame`. -/
def writeAgentRunHelperSecret (secret : OpenedSecret) : RunM Unit := do
  liftResult (validateShellName secret.name "env var name")
  liftResult (validateEnvValue secret.plaintext)
  writeAgentRunHelperBytes (utf8 secret.name)
  writeAgentRunHelperBytes secret.plaintext

def writeAgentRunHelperFrame (opened : List OpenedSecret) : RunM Unit := do
  liftResult (bailIf (opened = []) "agent run helper requires at least one secret")
  let count ← liftResult (context "too many secrets for agent run helper" (tryIntoU32 opened.length))
  withContext "failed to write agent run helper frame" (writeAll agentRunHelperMagic)
  withContext "failed to write agent run helper frame" (writeAll (bigEndian 4 count))
  opened.foldlM (fun _ secret => writeAgentRunHelperSecret secret) ()

def helperArgs (command : List OsString) : List OsString :=
  utf8 "__agent-run-helper"::utf8 "--stdin-null"::utf8 "--"::command

/-- The `match` on the stdin of the helper. -/
def sendSecrets (stdin : Bool) (opened : List OpenedSecret) : RunM Unit :=
  if stdin then writeAgentRunHelperFrame opened else liftResult (bail "failed to open agent run helper stdin")

/-- What is done about the outcome of writing. -/
def finishSpawn : Result Unit → RunM Unit
  | .ok _ => pure ()
  | .error err => do
    let _ ← ask RunOp.kill
    let _ ← ask RunOp.wait
    liftResult (context "failed to send secrets to agent run helper" (.error err))

def spawnAgentRunHelper (command : List OsString) (opened : List OpenedSecret) (envelopeStdin : Bool) : RunM Unit := do
  liftResult (bailIf (¬ envelopeStdin) "agent deliver run requires closed child stdin")
  let exe ← withContext "failed to locate avault helper" currentExe
  let stdin ← withContext "failed to spawn agent run helper" (spawnHelper exe (helperArgs command))
  let writeResult ← attempt (sendSecrets stdin opened)
  ask RunOp.closeStdin
  finishSpawn writeResult

def runAgentChildWithOpenedEnv (command : List OsString) (opened : List OpenedSecret) (envelopeStdin : Bool) : RunM UInt8 := do
  spawnAgentRunHelper command opened envelopeStdin
  let status ← withContext "failed to wait for child command" wait
  return statusToExitCode status

abbrev Writes := History RunOp RunOp.Reply

/-- What a call adds to the pipe. -/
def RunOp.adds : (op : RunOp) → op.Reply → Bytes
  | .writeAll bytes,r => match (show Result Unit from r) with
    | .ok _ => bytes
    | .error _ => []
  | _,_ => []

/-- The bytes that were written as a whole. -/
def written : Writes → Bytes
  | [] => []
  | ⟨op,r⟩::h => written h ++ op.adds r

/-- A write has failed. -/
def Broken (h : Writes) : Prop := ∃ bytes e, ⟨.writeAll bytes,(.error e : Result Unit)⟩ ∈ h

/-- The fields of a frame, in the order they are written. -/
def fieldsOf (opened : List OpenedSecret) : List Bytes := opened.flatMap fun secret => [utf8 secret.name,secret.plaintext]

def frameHead (opened : List OpenedSecret) : Bytes := agentRunHelperMagic ++ bigEndian 4 opened.length

/-- A frame up to some field. -/
def framePart (opened : List OpenedSecret) (words : List Bytes) : Bytes := frameHead opened ++ words.flatMap (field 4)

section Frame

variable {opened opened' : List OpenedSecret} {words : List Bytes} {input rest : Bytes}

theorem fieldsOf_length : (fieldsOf opened).length = 2*opened.length := by
  induction opened with
  | nil => rfl
  | cons secret opened ih =>
    rw [fieldsOf,List.flatMap_cons,List.length_append,← fieldsOf,ih,List.length_cons]
    simp only [List.length_cons,List.length_nil]
    omega

theorem fieldsOf_injective (h : fieldsOf opened = fieldsOf opened') : opened = opened' := by
  induction opened generalizing opened' with
  | nil =>
    cases opened' with
    | nil => rfl
    | cons => cases h
  | cons secret opened ih =>
    cases opened' with
    | nil => cases h
    | cons secret' opened' =>
      simp only [fieldsOf,List.flatMap_cons,List.cons_append,List.nil_append,List.cons.injEq,utf8_inj] at h
      obtain ⟨hname,hplaintext,hrest⟩ := h
      obtain ⟨name,plaintext⟩ := secret
      obtain rfl : name = _ := hname
      obtain rfl : plaintext = _ := hplaintext
      rw [ih hrest]

theorem fieldsOf_flatMap : (fieldsOf opened).flatMap (field 4) = opened.flatMap secretBytes := by
  rw [fieldsOf,List.flatMap_assoc]
  apply List.flatMap_congr
  intro secret _
  simp [secretBytes]

theorem framePart_fieldsOf : framePart opened (fieldsOf opened) = helperFrame opened := by
  rw [framePart,fieldsOf_flatMap,frameHead,helperFrame,List.append_assoc]

theorem fields_sequence (h : ∀ w ∈ words, w.length < 2^32) : Sequence (IsField 4) words (words.flatMap (field 4)) := by
  induction words with
  | nil => exact .nil
  | cons w words ih =>
    obtain ⟨hw,hwords⟩ := List.forall_mem_cons.mp h
    exact .cons ⟨hw,rfl⟩ (ih hwords)

theorem fieldsOf_sizes (h : HelperFields opened) : ∀ w ∈ fieldsOf opened, w.length < 2^32 := by
  intro w hw
  obtain ⟨secret,hsecret,hw⟩ := List.mem_flatMap.mp hw
  obtain ⟨hname,hvalue⟩ := h.fields secret hsecret
  simp only [List.mem_cons,List.not_mem_nil,or_false] at hw
  obtain rfl | rfl := hw
  · exact hname
  · exact hvalue

/-- The reader takes nothing of what goes out for a frame but the whole of it, wherever the writer has stopped. -/
theorem read_framePart (hcount : opened.length < 2^32) (hwords : words <+: fieldsOf opened) (hsizes : ∀ w ∈ words, w.length < 2^32)
    (hinput : input <+: framePart opened words) (hread : readAgentRunHelperFrame input = .ok (opened',rest)) :
    opened' = opened ∧ words = fieldsOf opened ∧ input = helperFrame opened := by
  obtain ⟨_,hframe,rfl⟩ := readAgentRunHelperFrame_ok.mp hread
  obtain ⟨more,hmore⟩ := hinput
  obtain rfl : _ = helperFrame opened' := hframe.bytes
  have hfields := hframe.fields
  rw [← framePart_fieldsOf,framePart,framePart,frameHead,frameHead] at hmore
  simp only [List.append_assoc] at hmore
  obtain ⟨hcounts,hmore⟩ := List.append_inj (List.append_cancel_left hmore) (by simp)
  have hlen : opened'.length = opened.length := bigEndian_injOn hfields.count hcount hcounts
  have hshort : words.length ≤ (fieldsOf opened').length := by
    rw [fieldsOf_length,hlen,← fieldsOf_length]
    exact hwords.length_le
  obtain ⟨rfl,hrest⟩ := (isField_prefixFree 4).sequence_cut (isField_ne_nil (by decide)) (fields_sequence (fieldsOf_sizes hfields))
    (fields_sequence hsizes) hshort hmore
  have hsame : fieldsOf opened' = fieldsOf opened :=
    hwords.eq_of_length (by rw [fieldsOf_length,fieldsOf_length,hlen])
  obtain rfl := fieldsOf_injective hsame
  obtain ⟨rfl,-⟩ := List.append_eq_nil_iff.mp hrest
  exact ⟨rfl,rfl,List.append_nil _⟩

end Frame

/-! The agent's side. -/

/-- What may have gone out for a frame. -/
def Outgoing (opened : List OpenedSecret) (bytes : Bytes) : Prop := opened.length < 2^32 ∧
  ∃ words, words <+: fieldsOf opened ∧ (∀ w ∈ words, w.length < 2^32) ∧ bytes <+: framePart opened words

/-- The fields that went out so far, each of them whole. -/
structure Sending (opened : List OpenedSecret) (words : List Bytes) (h : Writes) : Prop where
  count : opened.length < 2^32
  whole : ¬ Broken h
  inOrder : words <+: fieldsOf opened
  sizes : ∀ w ∈ words, w.length < 2^32
  wrote : written h = framePart opened words

/-- The whole frame went out. -/
structure Sent (opened : List OpenedSecret) (h : Writes) : Prop where
  whole : ¬ Broken h
  wrote : written h = helperFrame opened

/-- The calls that the agent makes: one helper, and nothing on its pipe but the frame, up to the first write that fails. -/
def Guard (command : List OsString) (opened : List OpenedSecret) (h : Writes) : RunOp → Prop
  | .spawnHelper _ args => args = helperArgs command ∧ ∃ r : Result OsString, h = [⟨.currentExe,r⟩]
  | .writeAll bytes => ¬ Broken h ∧ Outgoing opened (written h ++ bytes)
  | _ => True

section Agent

variable {command : List OsString} {opened : List OpenedSecret} {words : List Bytes} {s : Writes} {bytes : Bytes} {text : String}

theorem Outgoing.before {bytes' : Bytes} (h : Outgoing opened bytes) (hbefore : bytes' <+: bytes) : Outgoing opened bytes' := by
  obtain ⟨hcount,words,hwords,hsizes,hbytes⟩ := h
  exact ⟨hcount,words,hwords,hsizes,hbefore.trans hbytes⟩

/-- The reader takes the whole frame or nothing, whatever of it has gone out. -/
theorem Outgoing.read {input rest : Bytes} {opened' : List OpenedSecret} (h : Outgoing opened bytes) (hinput : input <+: bytes)
    (hread : readAgentRunHelperFrame input = .ok (opened',rest)) :
    opened' = opened ∧ bytes = helperFrame opened := by
  obtain ⟨hcount,words,hwords,hsizes,hbytes⟩ := h
  obtain ⟨rfl,rfl,hwhole⟩ := read_framePart hcount hwords hsizes (hinput.trans hbytes) hread
  rw [framePart_fieldsOf] at hbytes
  exact ⟨rfl,hbytes.eq_of_length_le (hwhole ▸ hinput.length_le)⟩

theorem Sending.outgoing (h : Sending opened words s) (hnext : words ++ [bytes] <+: fieldsOf opened) (hsize : bytes.length < 2^32)
    {part : Bytes} (hpart : part <+: field 4 bytes) : Outgoing opened (written s ++ part) := by
  refine ⟨h.count,words ++ [bytes],hnext,?_,?_⟩
  · intro w hw
    obtain hw | hw := List.mem_append.mp hw
    · exact h.sizes w hw
    · exact List.mem_singleton.mp hw ▸ hsize
  · rw [h.wrote,framePart,framePart,List.flatMap_append,List.append_assoc]
    apply (List.prefix_append_right_inj _).mpr
    apply (List.prefix_append_right_inj _).mpr
    simpa using hpart

theorem not_broken_cons {x : (op : RunOp) × op.Reply} (h : ¬ Broken s) (hx : ∀ bytes e, x ≠ ⟨.writeAll bytes,(.error e : Result Unit)⟩) :
    ¬ Broken (x::s) := by
  rintro ⟨bytes,e,hmem⟩
  obtain heq | hmem := List.mem_cons.mp hmem
  · exact hx bytes e heq.symm
  · exact h ⟨bytes,e,hmem⟩

/-- A call that is not a write. -/
theorem Sent.later {op : RunOp} {r : op.Reply} (h : Sent opened s) (hop : ∀ bytes, op ≠ .writeAll bytes) : Sent opened (⟨op,r⟩::s) := by
  refine ⟨not_broken_cons h.whole fun bytes e heq => hop bytes (Sigma.mk.inj heq).1,?_⟩
  rw [written,h.wrote]
  cases op with
  | writeAll bytes => exact absurd rfl (hop bytes)
  | _ => exact List.append_nil _

theorem writeAll_adds (hwhole : ¬ Broken s) (hout : Outgoing opened (written s ++ bytes)) :
    Ensures (.guarded (Guard command opened)) (withContext text (writeAll bytes)) s
      (Gives (fun _ => True) fun _ t => ¬ Broken t ∧ written t = written s ++ bytes) := by
  apply ensures_mapResult.mpr
  refine ⟨⟨hwhole,hout⟩,fun r => ⟨trivial,fun u hu => ?_⟩⟩
  obtain rfl : r = .ok u := context_eq_ok.mp hu
  exact ⟨not_broken_cons hwhole (fun _ _ heq => by cases heq),rfl⟩

theorem writeAgentRunHelperBytes_sends (h : Sending opened words s) (hnext : words ++ [bytes] <+: fieldsOf opened) :
    Ensures (.guarded (Guard command opened)) (writeAgentRunHelperBytes bytes) s
      (Gives (fun _ => True) fun _ t => Sending opened (words ++ [bytes]) t) := by
  apply ensures_check.mpr
  refine ⟨fun len hlen => ?_,fun _ _ => gives_error trivial⟩
  obtain ⟨hsize,rfl⟩ := tryIntoU32_eq_ok.mp (context_eq_ok.mp hlen)
  apply gives_bind (writeAll_adds h.whole (h.outgoing hnext hsize (List.prefix_append _ _)))
  rintro _ t - ⟨hwhole,hwritten⟩
  have hout : Outgoing opened (written t ++ bytes) := by
    rw [hwritten,List.append_assoc]
    exact h.outgoing hnext hsize List.prefix_rfl
  refine (writeAll_adds hwhole hout).mono fun r u hu => ⟨trivial,fun a ha => ?_⟩
  obtain ⟨hwhole',hwritten'⟩ := hu.value a ha
  refine ⟨h.count,hwhole',hnext,?_,?_⟩
  · intro w hw
    obtain hw | hw := List.mem_append.mp hw
    · exact h.sizes w hw
    · exact List.mem_singleton.mp hw ▸ hsize
  · rw [hwritten',hwritten,h.wrote,framePart,framePart,List.flatMap_append]
    simp only [List.flatMap_cons,List.flatMap_nil,List.append_nil,List.append_assoc,field]

theorem writeAgentRunHelperSecret_sends {done rest : List OpenedSecret} {secret : OpenedSecret} (hopened : opened = done ++ secret::rest)
    (h : Sending opened (fieldsOf done) s) : Ensures (.guarded (Guard command opened)) (writeAgentRunHelperSecret secret) s
      (Gives (fun _ => True) fun _ t => Sending opened (fieldsOf (done ++ [secret])) t) := by
  have hfields : fieldsOf opened = fieldsOf done ++ [utf8 secret.name] ++ [secret.plaintext] ++ fieldsOf rest := by
    simp [hopened,fieldsOf]
  have hdone : fieldsOf (done ++ [secret]) = fieldsOf done ++ [utf8 secret.name] ++ [secret.plaintext] := by
    simp [fieldsOf]
  apply ensures_check.mpr
  refine ⟨fun _ _ => ?_,fun _ _ => gives_error trivial⟩
  apply ensures_check.mpr
  refine ⟨fun _ _ => ?_,fun _ _ => gives_error trivial⟩
  apply gives_bind (writeAgentRunHelperBytes_sends h (hfields ▸ (List.prefix_append _ _).trans (List.prefix_append _ _)))
  rintro _ t - hname
  rw [hdone]
  exact writeAgentRunHelperBytes_sends hname (hfields ▸ List.prefix_append _ _)

theorem writeAgentRunHelperFrame_sends (hwhole : ¬ Broken s) (hwritten : written s = []) :
    Ensures (.guarded (Guard command opened)) (writeAgentRunHelperFrame opened) s
      (Gives (fun _ => True) fun _ => Sent opened) := by
  apply ensures_check.mpr
  refine ⟨fun _ _ => ?_,fun _ _ => gives_error trivial⟩
  apply ensures_check.mpr
  refine ⟨fun count hcount => ?_,fun _ _ => gives_error trivial⟩
  obtain ⟨hlength,rfl⟩ := tryIntoU32_eq_ok.mp (context_eq_ok.mp hcount)
  have hhead {bytes : Bytes} (hbytes : bytes <+: frameHead opened) : Outgoing opened bytes :=
    ⟨hlength,[],List.nil_prefix,nofun,hbytes.trans (List.prefix_append _ _)⟩
  apply gives_bind (writeAll_adds hwhole (hhead (hwritten ▸ List.prefix_append _ _)))
  rintro _ t - ⟨hwhole,hmagic⟩
  rw [hwritten,List.nil_append] at hmagic
  apply gives_bind (writeAll_adds hwhole (hhead (hmagic ▸ List.prefix_rfl)))
  rintro _ u - ⟨hwhole,hcount⟩
  rw [hmagic] at hcount
  apply ensures_foldlM (I := fun done _ v => Sending opened (fieldsOf done) v)
  · refine ⟨hlength,hwhole,List.nil_prefix,nofun,?_⟩
    rw [hcount,framePart]
    exact (List.append_nil _).symm
  · intro done secret rest hopened _ v hv
    refine (writeAgentRunHelperSecret_sends hopened hv).mono fun r w hw => ⟨hw.value,?_⟩
    rintro e rfl
    exact gives_error trivial
  · intro _ v hv
    exact gives_ok trivial ⟨hv.whole,hv.wrote.trans framePart_fieldsOf⟩

theorem sendSecrets_sends {stdin : Bool} (hwhole : ¬ Broken s) (hwritten : written s = []) :
    Ensures (.guarded (Guard command opened)) (sendSecrets stdin opened) s
      (Gives (fun _ => True) fun _ => Sent opened) := by
  apply ensures_ite.mpr
  constructor
  · exact fun _ => writeAgentRunHelperFrame_sends hwhole hwritten
  · exact fun _ => gives_error trivial

theorem finishSpawn_sends {r : Result Unit} (h : r = .ok () → Sent opened s) :
    Ensures (.guarded (Guard command opened)) (finishSpawn r) s (Gives (fun _ => True) fun _ => Sent opened) := by
  cases r with
  | ok u => exact gives_ok trivial (h rfl)
  | error err => exact ⟨trivial,fun _ => ⟨trivial,fun _ => gives_error trivial⟩⟩

theorem spawnAgentRunHelper_sends {envelopeStdin : Bool} :
    Ensures (.guarded (Guard command opened)) (spawnAgentRunHelper command opened envelopeStdin) []
      (Gives (fun _ => True) fun _ => Sent opened) := by
  apply ensures_check.mpr
  refine ⟨fun _ _ => ?_,fun _ _ => gives_error trivial⟩
  apply gives_bind (B := fun _ t => ∃ r : Result OsString, t = [⟨.currentExe,r⟩])
  · exact ensures_mapResult.mpr ⟨trivial,fun r => ⟨trivial,fun _ _ => ⟨r,rfl⟩⟩⟩
  rintro exe t - ⟨r,rfl⟩
  apply gives_bind (B := fun _ t => ¬ Broken t ∧ written t = [])
  · refine ensures_mapResult.mpr ⟨⟨rfl,r,rfl⟩,fun r' => ⟨trivial,fun _ _ => ⟨?_,rfl⟩⟩⟩
    refine not_broken_cons (not_broken_cons ?_ fun _ _ heq => by cases heq) fun _ _ heq => by cases heq
    rintro ⟨bytes,e,hmem⟩
    cases hmem
  rintro stdin t - ⟨hwhole,hwritten⟩
  rw [ensures_bind,ensures_attempt]
  refine (sendSecrets_sends hwhole hwritten).mono fun result u hu => ?_
  refine ⟨trivial,fun _ => finishSpawn_sends ?_⟩
  rintro rfl
  exact (hu.value () rfl).later nofun

/-- The agent is done with the helper only where the whole frame has gone out. -/
theorem runAgentChildWithOpenedEnv_sends {envelopeStdin : Bool} :
    Ensures (.guarded (Guard command opened)) (runAgentChildWithOpenedEnv command opened envelopeStdin) []
      (Gives (fun _ => True) fun _ => Sent opened) := by
  apply gives_bind spawnAgentRunHelper_sends
  rintro _ t - ht
  apply gives_bind (B := fun _ => Sent opened)
  · exact ensures_mapResult.mpr ⟨trivial,fun r => ⟨trivial,fun _ _ => ht.later nofun⟩⟩
  · exact fun _ _ _ h => gives_ok trivial h

end Agent

/-! The helper's side. -/

abbrev HelperCalls := History AvaultOp AvaultOp.Reply

/-- The calls of a helper that has been told the input. -/
def toldCalls (storeVar : Cli.EnvVar) (input : Bytes) : HelperCalls :=
  [⟨.helperStdin,input⟩,⟨.storeVar,storeVar⟩,⟨.hardenProcessMemory,()⟩]

/-- Whatever the helper has been told, there was no frame in it. -/
def Refused (h : HelperCalls) : Prop := ∀ storeVar input, h = toldCalls storeVar input → ∃ e, agentRunHelperEnv input = .error e

/-- The calls of the helper, which starts the command with what it was told on its stdin and does nothing else. -/
def HelperGuard (command : List OsString) (h : HelperCalls) : AvaultOp → Prop
  | .hardenProcessMemory => h = []
  | .storeVar => h = [⟨.hardenProcessMemory,()⟩]
  | .helperStdin => ∃ storeVar : Cli.EnvVar, h = [⟨.storeVar,storeVar⟩,⟨.hardenProcessMemory,()⟩]
  | .execChild child => ∃ program rest storeVar input env, command = program::rest ∧ h = toldCalls storeVar input ∧
    agentRunHelperEnv input = .ok env ∧ child = ⟨program,rest,true,env,true⟩
  | .eprintLine _ => Refused h
  | _ => False

section Helper

variable {E : CliEnv} {command : List OsString} {h : HelperCalls}

theorem parseGlobalOptions_helperArgs {storeVar : Cli.EnvVar} :
    Cli.parseGlobalOptions storeVar (helperArgs command) = (Cli.envStore storeVar).map fun store => (store,helperArgs command) := by
  have hword : fromUtf8 (utf8 "__agent-run-helper") ≠ some "--store" := by
    rw [fromUtf8_utf8]
    decide
  rw [Cli.parseGlobalOptions]
  cases Cli.envStore storeVar with
  | error e => rfl
  | ok store => rw [ok_bind,helperArgs,Cli.readGlobalOptions,if_neg hword]; rfl

/-- The helper does not return. -/
def Fails {α : Type} (r : Result α) (h : HelperCalls) : Prop := (∃ e, r = .error e) ∧ Refused h

theorem fails_short {α : Type} {e : Error} (hlen : h.length ≠ 3) : Fails (.error e : Result α) h := by
  refine ⟨⟨e,rfl⟩,?_⟩
  rintro storeVar input rfl
  exact absurd rfl hlen

theorem agentRunHelperCmd_guarded {storeVar : Cli.EnvVar} (hcalls : h = [⟨.storeVar,storeVar⟩,⟨.hardenProcessMemory,()⟩]) :
    Ensures (.guarded (HelperGuard command)) (Cli.Main.agentRunHelperCmd (helperArgs command).tail) h Fails := by
  subst hcalls
  have hlong {α : Type} {e : Error} {calls : HelperCalls} {child : ChildCommand} {err : Error} :
      Fails (.error e : Result α) (⟨.execChild child,err⟩::calls) :=
    ⟨⟨e,rfl⟩,fun _ _ heq => by cases (List.cons.inj heq).1⟩
  apply ensures_check.mpr
  refine ⟨fun _ _ => ?_,fun _ _ => fails_short (fun h => by cases h)⟩
  cases command with
  | nil => exact fails_short (fun h => by cases h)
  | cons program rest =>
    refine ⟨⟨storeVar,rfl⟩,fun input => ?_⟩
    apply ensures_check.mpr
    refine ⟨fun env henv => ?_,fun e he => ⟨⟨e,rfl⟩,?_⟩⟩
    · exact ⟨⟨program,rest,storeVar,input,env,rfl,rfl,henv,rfl⟩,fun _ => hlong⟩
    · rintro storeVar' input' heq
      obtain ⟨-,hinput⟩ := Sigma.mk.inj (List.cons.inj heq).1
      obtain rfl : input = input' := eq_of_heq hinput
      exact ⟨e,he⟩

theorem run_guarded : Ensures (.guarded (HelperGuard command)) (Cli.Main.run E (helperArgs command)) [] Fails := by
  refine ⟨rfl,fun _ => ⟨rfl,fun storeVar => ?_⟩⟩
  apply ensures_check.mpr
  refine ⟨fun parsed hparsed => ?_,fun _ _ => fails_short (fun h => by cases h)⟩
  have hparsed := parseGlobalOptions_helperArgs.symm.trans hparsed
  cases hstore : Cli.envStore storeVar with
  | error e =>
    rw [hstore] at hparsed
    cases hparsed
  | ok store =>
    rw [hstore] at hparsed
    obtain rfl := Except.ok.inj hparsed
    dsimp only [helperArgs]
    rw [fromUtf8_utf8]
    exact agentRunHelperCmd_guarded rfl

/-- A helper that comes to its end has said why. -/
theorem main_guarded : wp (.guarded (HelperGuard command)) (Cli.Main.main E (helperArgs command))
    (fun _ h => ∃ text calls, h = ⟨.eprintLine text,()⟩::calls) [] := by
  rw [Cli.Main.main,Program.wp_bind]
  refine run_guarded.mono fun r h hfails => ?_
  obtain ⟨⟨e,rfl⟩,hrefused⟩ := hfails
  exact ⟨hrefused,fun _ => ⟨_,_,rfl⟩⟩

end Helper

/-! Both sides. -/

/-- What the two share: the helper, what has gone into its pipe, and if it was killed. -/
structure Shared where
  helper : Option (Process AvaultOp AvaultOp.Reply UInt8)
  pipe : Bytes
  killed : Bool

/-- What the helper may be told, on its stdin whatever has gone into the pipe, from the beginning on. -/
def Told (pipe : Bytes) : (op : AvaultOp) → op.Reply → Prop
  | .helperStdin,input => (show Bytes from input) <+: pipe
  | _,_ => True

section Handover

variable (E : CliEnv)

/-- What a call of the agent does. -/
inductive RunStep : Shared → (op : RunOp) → op.Reply → Shared → Prop
  | currentExe {w} (r : Result OsString) : RunStep w .currentExe r w
  | spawnHelper {w exe args} (stdin : Bool) : RunStep w (.spawnHelper exe args) (.ok stdin : Result Bool)
    { w with helper := some ⟨Cli.Main.main E args,[]⟩ }
  | spawnFailed {w exe args} (e : Error) : RunStep w (.spawnHelper exe args) (.error e : Result Bool) w
  | writeAll {w bytes} : RunStep w (.writeAll bytes) (.ok () : Result Unit) { w with pipe := w.pipe ++ bytes }
  /-- A part of it may have gone out. -/
  | writeFailed {w bytes part} (e : Error) : part <+: bytes →
    RunStep w (.writeAll bytes) (.error e : Result Unit) { w with pipe := w.pipe ++ part }
  | closeStdin {w} : RunStep w .closeStdin () w
  | kill {w} : RunStep w .kill (.ok () : Result Unit) { w with killed := true }
  | killFailed {w} (e : Error) : RunStep w .kill (.error e : Result Unit) w
  | wait {w} (r : Result ExitStatus) : RunStep w .wait r w

abbrev RunProcess := Process RunOp RunOp.Reply (Result UInt8)

/-- What the agent and the helper can come to, in any order of their calls. -/
inductive Handover (command : List OsString) (opened : List OpenedSecret) : RunProcess → Shared → Prop
  | start : Handover command opened ⟨(runAgentChildWithOpenedEnv command opened true).run,[]⟩ ⟨none,[],false⟩
  | agent {op next h w v} {r : op.Reply} : Handover command opened ⟨.request op next,h⟩ w → RunStep E w op r v →
    Handover command opened ⟨next r,⟨op,r⟩::h⟩ v
  | helper {a w op next h} {r : op.Reply} : Handover command opened a w → w.killed = false → w.helper = some ⟨.request op next,h⟩ →
    Told w.pipe op r → Handover command opened a { w with helper := some ⟨next r,⟨op,r⟩::h⟩ }

/-- The variables are the secrets, all of them and in order. -/
def IsEnvOf (env : List (String × String)) (opened : List OpenedSecret) : Prop :=
  env.map (fun v => (⟨v.1,utf8 v.2⟩ : OpenedSecret)) = opened

/-- How secrets get into a command, or do not. -/
structure SecretsHandedOver (command : List OsString) (opened : List OpenedSecret) : Prop where
  /-- The helper does nothing but to start the command, with all of the secrets in an environment that has nothing else,
  and the agent had sent them all. -/
  helper : ∀ {a w op next h}, Handover E command opened a w → w.helper = some ⟨.request op next,h⟩ →
    op = .hardenProcessMemory ∨ op = .storeVar ∨ op = .helperStdin ∨ (∃ text, op = .eprintLine text) ∨
    ∃ program rest env, command = program::rest ∧ op = .execChild ⟨program,rest,true,env,true⟩ ∧ IsEnvOf env opened ∧
      w.pipe = helperFrame opened
  /-- It does start the command, once it has been told all of them. -/
  starts : ∀ {a w q storeVar program rest}, Handover E command opened a w → command = program::rest →
    IsHelperFrame opened (helperFrame opened) → w.helper = some ⟨q,toldCalls storeVar (helperFrame opened)⟩ →
    ∃ env next, IsEnvOf env opened ∧ q = .request (.execChild ⟨program,rest,true,env,true⟩) next
  /-- The agent reports the status of a command only where all of the secrets were sent. -/
  agent : ∀ {a w code}, Handover E command opened a w → a.program = .done (.ok code) → w.pipe = helperFrame opened

end Handover

section Invariant

variable {E : CliEnv} {command : List OsString} {opened : List OpenedSecret} {a : RunProcess} {w v : Shared}

/-- What holds of both sides at any time. -/
structure Inv (E : CliEnv) (command : List OsString) (opened : List OpenedSecret) (a : RunProcess) (w : Shared) : Prop where
  agent : Reaches (runAgentChildWithOpenedEnv command opened true).run a.history a.program
  pipe : w.pipe = [] ∨ Outgoing opened w.pipe
  whole : ¬ Broken a.history → w.pipe = written a.history
  helper : ∀ {p h}, w.helper = some ⟨p,h⟩ → Reaches (Cli.Main.main E (helperArgs command)) h p ∧
    ∀ input, ⟨.helperStdin,input⟩ ∈ h → input <+: w.pipe

theorem not_broken_tail {x : (op : RunOp) × op.Reply} {h : Writes} (hx : ¬ Broken (x::h)) : ¬ Broken h := by
  rintro ⟨bytes,e,hmem⟩
  exact hx ⟨bytes,e,List.mem_cons_of_mem x hmem⟩

/-- A call that leaves the pipe and the helper alone. -/
theorem Inv.quiet {op : RunOp} {next : op.Reply → Program RunOp RunOp.Reply (Result UInt8)} {h : Writes} {r : op.Reply}
    (hinv : Inv E command opened ⟨.request op next,h⟩ w) (hadds : op.adds r = []) (hpipe : v.pipe = w.pipe) (hhelper : v.helper = w.helper) :
    Inv E command opened ⟨next r,⟨op,r⟩::h⟩ v where
  agent := .cons r hinv.agent
  pipe := hpipe ▸ hinv.pipe
  whole hwhole := by
    rw [hpipe,hinv.whole (not_broken_tail hwhole),written,hadds,List.append_nil]
  helper hv := by
    rw [hhelper] at hv
    rw [hpipe]
    exact hinv.helper hv

/-- A write: what is on the pipe grows, and is still what may have gone out. -/
theorem Inv.grows {next : Result Unit → Program RunOp RunOp.Reply (Result UInt8)} {h : Writes} {r : Result Unit} {bytes part : Bytes}
    (hinv : Inv E command opened ⟨.request (.writeAll bytes) next,h⟩ w) (hpart : part <+: bytes)
    (hall : ¬ Broken (⟨.writeAll bytes,r⟩::h) → part = RunOp.adds (.writeAll bytes) r) :
    Inv E command opened ⟨next r,⟨.writeAll bytes,r⟩::h⟩ { w with pipe := w.pipe ++ part } where
  agent := .cons r hinv.agent
  pipe := by
    obtain ⟨hwhole,hout⟩ := hinv.agent.allowed runAgentChildWithOpenedEnv_sends
    rw [hinv.whole hwhole]
    exact .inr (hout.before ((List.prefix_append_right_inj _).mpr hpart))
  whole hwhole := by rw [hinv.whole (not_broken_tail hwhole),hall hwhole]; rfl
  helper hw := by
    obtain ⟨hreaches,htold⟩ := hinv.helper hw
    exact ⟨hreaches,fun input hinput => (htold input hinput).trans (List.prefix_append _ _)⟩

theorem inv_of_handover (h : Handover E command opened a w) : Inv E command opened a w := by
  induction h with
  | start => exact ⟨.nil,.inl rfl,fun _ => rfl,nofun⟩
  | agent _ hstep ih =>
    cases hstep with
    | currentExe | spawnFailed | closeStdin | kill | killFailed | wait => exact ih.quiet rfl rfl rfl
    | spawnHelper stdin =>
      obtain ⟨rfl,r,rfl⟩ := ih.agent.allowed runAgentChildWithOpenedEnv_sends
      refine ⟨.cons _ ih.agent,ih.pipe,fun hwhole => ?_,?_⟩
      · exact (ih.whole (not_broken_tail hwhole)).trans (List.append_nil _).symm
      · intro p h hp
        obtain ⟨rfl,rfl⟩ := Process.mk.inj (Option.some.inj hp)
        exact ⟨.nil,nofun⟩
    | writeAll => exact ih.grows List.prefix_rfl fun _ => rfl
    | writeFailed e hpart => exact ih.grows hpart fun hwhole => absurd ⟨_,e,List.mem_cons_self⟩ hwhole
  | @helper a w op next h r _ _ hhelper htold ih =>
    refine ⟨ih.agent,ih.pipe,ih.whole,?_⟩
    intro p h' hp
    obtain ⟨rfl,rfl⟩ := Process.mk.inj (Option.some.inj hp)
    obtain ⟨hreaches,hbefore⟩ := ih.helper hhelper
    refine ⟨.cons r hreaches,fun input hinput => ?_⟩
    obtain heq | hinput := List.mem_cons.mp hinput
    · cases heq
      exact htold
    · exact hbefore input hinput

/-- A helper that has read a frame has read the one that was sent, and all of it. -/
theorem Inv.frame {p : Program AvaultOp AvaultOp.Reply UInt8} {h : HelperCalls} {input : Bytes} {env : List (String × String)}
    (hinv : Inv E command opened a w) (hhelper : w.helper = some ⟨p,h⟩) (htold : ⟨.helperStdin,input⟩ ∈ h)
    (henv : agentRunHelperEnv input = .ok env) : IsEnvOf env opened ∧ w.pipe = helperFrame opened := by
  have hinput := (hinv.helper hhelper).2 input htold
  rw [agentRunHelperEnv,bind_eq_ok] at henv
  obtain ⟨⟨opened',rest⟩,hread,henv⟩ := henv
  obtain ⟨frame,hframe,rfl⟩ := readAgentRunHelperFrame_ok.mp hread
  have hout : Outgoing opened w.pipe := by
    refine hinv.pipe.resolve_left fun hpipe => ?_
    rw [hpipe,List.prefix_nil,hframe.bytes] at hinput
    exact absurd hinput (by simp [agentRunHelperMagic])
  obtain ⟨rfl,hwhole⟩ := hout.read hinput hread
  obtain ⟨env',henv',hmap⟩ := mapM_childEnvVar fun secret hsecret => (hframe.secrets secret hsecret).writable
  obtain rfl := Except.ok.inj (henv.symm.trans henv')
  exact ⟨hmap,hwhole⟩

/-- All of the secrets get into the command, or it is not started, whatever the two processes run into. -/
theorem secretsHandedOver : SecretsHandedOver E command opened where
  helper := by
    intro a w op next h hhandover hhelper
    have hinv := inv_of_handover hhandover
    have hguard := (hinv.helper hhelper).1.allowed main_guarded
    cases op with
    | hardenProcessMemory => exact .inl rfl
    | storeVar => exact .inr (.inl rfl)
    | helperStdin => exact .inr (.inr (.inl rfl))
    | eprintLine text => exact .inr (.inr (.inr (.inl ⟨text,rfl⟩)))
    | execChild child =>
      obtain ⟨program,rest,storeVar,input,env,hcommand,rfl,henv,rfl⟩ := hguard
      obtain ⟨hmap,hwhole⟩ := hinv.frame hhelper List.mem_cons_self henv
      exact .inr (.inr (.inr (.inr ⟨program,rest,env,hcommand,rfl,hmap,hwhole⟩)))
    | _ => exact hguard.elim
  starts := by
    intro a w q storeVar program rest hhandover hcommand hframe hhelper
    have hinv := inv_of_handover hhandover
    have hwp := (hinv.helper hhelper).1.wp main_guarded
    obtain ⟨env,henv,-⟩ := mapM_childEnvVar fun secret hsecret => (hframe.secrets secret hsecret).writable
    have hread : agentRunHelperEnv (helperFrame opened) = .ok env := by
      rw [agentRunHelperEnv,readAgentRunHelperFrame_ok.mpr ⟨_,hframe,(List.append_nil _).symm⟩,ok_bind]
      exact henv
    cases q with
    | done code =>
      obtain ⟨text,calls,heq⟩ := hwp
      cases (List.cons.inj heq).1
    | request op next =>
      have hguard := hwp.1
      cases op with
      | execChild child =>
        obtain ⟨program',rest',storeVar',input,env',rfl,hcalls,henv',rfl⟩ := hguard
        obtain ⟨rfl,rfl⟩ := List.cons.inj hcommand
        obtain ⟨-,hinput⟩ := Sigma.mk.inj (List.cons.inj hcalls).1
        obtain rfl : helperFrame opened = input := eq_of_heq hinput
        exact ⟨env',next,(hinv.frame hhelper List.mem_cons_self henv').1,rfl⟩
      | eprintLine text =>
        obtain ⟨e,he⟩ := hguard storeVar (helperFrame opened) rfl
        exact (error_ne_ok (he.symm.trans hread)).elim
      | hardenProcessMemory | storeVar => cases hguard
      | helperStdin =>
        obtain ⟨_,hcalls⟩ := hguard
        cases hcalls
      | _ => exact hguard.elim
  agent := by
    intro a w code hhandover hdone
    have hinv := inv_of_handover hhandover
    have hwp := hinv.agent.wp runAgentChildWithOpenedEnv_sends
    rw [hdone] at hwp
    have hsent : Sent opened a.history := hwp.value code rfl
    exact (hinv.whole hsent.whole).trans hsent.wrote

end Invariant

section Sample

def sampleSecrets : List OpenedSecret := [⟨"TOKEN",utf8 "s3 cret"⟩]

theorem sampleSecrets_frame : IsHelperFrame sampleSecrets (helperFrame sampleSecrets) where
  count := by decide
  secrets := by
    intro secret hsecret
    obtain rfl := List.mem_singleton.mp hsecret
    exact ⟨⟨'T',['O','K','E','N'],rfl,rfl,rfl⟩,by decide,⟨"s3 cret",rfl⟩,by decide,by decide⟩
  bytes := rfl

/-- The command needs nothing of other crates. -/
noncomputable def bareEnv : CliEnv where
  crypto := Primitives.concrete
  scrypt := ⟨Unit,fun _ _ _ _ => .ok (),fun _ _ _ => bail "out of memory"⟩
  hpke := Hpke.transparent
  urls := ⟨fun _ => bail "relative URL without a base",fun _ => ""⟩
  serde := ⟨fun _ => bail "",fun _ => bail "",fun _ => bail "",fun _ => bail "",fun _ => bail "",fun _ => bail "",fun _ => bail ""⟩

/-- The helper comes up while the agent is still writing, is told what there is in the end, and starts the command. -/
theorem secretsHandedOver_starts : ∃ a w q, Handover bareEnv [utf8 "true"] sampleSecrets a w ∧
    w.helper = some ⟨q,toldCalls .notPresent (helperFrame sampleSecrets)⟩ ∧
    ∃ env next, IsEnvOf env sampleSecrets ∧ q = .request (.execChild ⟨utf8 "true",[],true,env,true⟩) next := by
  have hhardened {pipe : Bytes} : Told pipe .hardenProcessMemory () := trivial
  have hstore {pipe : Bytes} : Told pipe .storeVar Cli.EnvVar.notPresent := trivial
  have htold {pipe : Bytes} : Told pipe .helperStdin pipe := List.prefix_refl pipe
  have hrun : Handover bareEnv [utf8 "true"] sampleSecrets _ _ := .start
  have hrun := hrun.agent (.currentExe (.ok (utf8 "/bin/avault")))
  have hrun := hrun.agent (.spawnHelper true)
  have hrun := (hrun.agent .writeAll).agent .writeAll
  have hrun := hrun.helper rfl rfl hhardened
  have hrun := (hrun.agent .writeAll).agent .writeAll
  have hrun := hrun.helper rfl rfl hstore
  have hrun := (hrun.agent .writeAll).agent .writeAll
  have hrun := hrun.agent .closeStdin
  have hrun := hrun.helper rfl rfl htold
  exact ⟨_,_,_,hrun,rfl,secretsHandedOver.starts hrun rfl sampleSecrets_frame rfl⟩

end Sample
end Avault.Agent.HelperRun
