import Avault.Agent.AnyPeer
import Avault.Agent.Concrete
import Avault.Agent.Request
import Avault.Agent.Runs
import Avault.Foundation.Serving

/-! The resident agent as a whole: its listener and all its connections, each with a peer of its own
that may do anything, over one shared state. -/
namespace Avault.Agent
open Foundation Crypto
open Connection (ConnectionOp ResponseCodec Peer PeerStep runAgentConnection parseFrames frameOf)
open Foundation.Program (Fallible ask call)

structure AgentResponse where
  ok : Bool
  result : Option AgentReply
  error : Option String
  code : Option String

def agentErrorResponse (err : Error) : AgentResponse :=
  ⟨false,none,some (Cli.errorText err),Cli.errorCode err⟩

/-- What `handle_agent_frame` makes of the outcome of a frame. -/
def agentResponse : Result (Option AgentReply) → AgentResponse
  | .ok reply => ⟨true,reply,none,none⟩
  | .error err => agentErrorResponse err

/-! The listener. -/

inductive ListenerOp
  | setNonblocking
  | purge
  | accept
  | dispatchAgentConnection (stream : ℕ)
  | sleep

def ListenerOp.Reply : ListenerOp → Type
  | setNonblocking => Result Unit
  | accept => Except Connection.SocketError ℕ
  | purge | dispatchAgentConnection _ | sleep => Unit

abbrev ListenerM (α : Type) := Fallible ListenerOp ListenerOp.Reply Error α

/-- The loop of `run_agent`. -/
def runAgentLoop : ℕ → ListenerM Unit
  | 0 => throw Connection.SocketError.exhausted.error
  | turns+1 => do
    ask ListenerOp.purge
    match ← ask ListenerOp.accept with
    | .ok stream => ask (ListenerOp.dispatchAgentConnection stream)
    -- whether or not the error is printed
    | .error _ => ask ListenerOp.sleep
    runAgentLoop turns

def runAgent (turns : ℕ) : ListenerM Unit := do
  Program.mapResult (context "failed to configure agent socket") (ExceptT.mk (call ListenerOp.setNonblocking))
  runAgentLoop turns

/-! The listener and the connections are servers, whose queries are the tasks of the agent. -/

section Resident

variable {P : Type}

/-- The listener, or a connection. -/
abbrev AgentThread (P : Type) : Type := Option P

abbrev AgentOwn : AgentThread P → Type
  | none => ListenerOp
  | some _ => ConnectionOp AgentResponse

abbrev AgentOwnReply : ∀ i : AgentThread P, AgentOwn i → Type
  | none => ListenerOp.Reply
  | some _ => ConnectionOp.Reply

abbrev AgentOwned : AgentThread P → Type
  | none => Unit
  | some _ => Peer

/-- The listener may be told anything. -/
def agentOwnStep : ∀ i : AgentThread P, AgentOwned i → (o : AgentOwn i) → AgentOwnReply i o → AgentOwned i → Prop
  | none => fun _ _ _ _ => True
  | some _ => PeerStep

def agentQuery : ∀ i : AgentThread P, (o : AgentOwn i) →
    Option (AgentTask × (Result (Option AgentReply) → AgentOwnReply i o))
  | none,.purge => some (.purge,fun _ => ())
  | some _,.handleAgentFrame frame => some (.frame frame,agentResponse)
  | none,_ | some _,_ => none

variable (P) (E : AgentEnv)

def agentService : Service (AgentThread P) AgentOwn AgentOwnReply AgentTask AgentOp AgentOp.Reply
    (Result (Option AgentReply)) :=
  ⟨AgentTask.program E,agentQuery⟩

variable {P} (toVec : AgentResponse → Result Bytes) (turns : ℕ) (streams : P → Bytes)

def agentCodec : ResponseCodec AgentResponse := ⟨toVec,agentErrorResponse⟩

def agentThread : ∀ i : AgentThread P, Program (AgentOwn i) (AgentOwnReply i) (Result Unit)
  | none => (runAgent turns).run
  | some _ => (runAgentConnection (agentCodec toVec) turns).run

def agentOwned : ∀ i : AgentThread P, AgentOwned i
  | none => ()
  | some p => ⟨streams p,[]⟩

variable [DecidableEq P]

/-- The runs of the whole agent, from when its socket is bound. -/
abbrev ResidentRun (idleTimeout : Duration) (now : Instant) :
    List (ServerEvent (AgentThread P) AgentOwnReply AgentOp.Reply AgentOwned AgentWorld) →
    ServerConfig (AgentThread P) AgentOwnReply AgentOp.Reply AgentOwned (Result Unit) AgentWorld → Prop :=
  Run (ServingStep agentOwnStep (AgentStep E))
    (Config.start (fun i => (agentService P E).serve i (agentThread toVec turns i))
      (agentOwned streams,⟨now,AgentState.new idleTimeout now,⟨none,false⟩⟩))

end Resident

section Views

variable {P : Type} {E : AgentEnv} {p : P} {h : Connection.ConnectionCalls AgentResponse} {queries : ℕ → AgentTask}
  {process : ℕ → Process AgentOp AgentOp.Reply (Result (Option AgentReply))}

theorem asked_connection : (agentService P E).asked (some p) h = (Connection.handled h).length := by
  induction h with
  | nil => rfl
  | cons x h ih =>
    obtain ⟨op,r⟩ := x
    cases op with
    | handleAgentFrame frame =>
      have hasked : (agentService P E).asked (some p) (⟨.handleAgentFrame frame,r⟩::h) = (agentService P E).asked (some p) h+1 :=
        Service.asked_query rfl
      simp [hasked,Connection.handled,ih]
    | _ => exact (Service.asked_own (S := agentService P E) (i := some p) rfl).trans ih

/-- The responses of a connection are what its tasks came to. -/
theorem answered_connection (hanswered : (agentService P E).Answered (some p) queries process h) {n : ℕ} {frame : Bytes}
    {response : AgentResponse} (hn : (Connection.handled h)[n]? = some (frame,response)) :
    queries n = .frame frame ∧ ∃ r, (process n).program = .done r ∧ response = agentResponse r := by
  induction h with
  | nil => cases hn
  | cons x h ih =>
    obtain ⟨hearlier,hlast⟩ := hanswered
    obtain ⟨op,r⟩ := x
    cases op with
    | handleAgentFrame frame' =>
      have hlast := hlast _ _ rfl
      rw [asked_connection] at hlast
      simp only [Connection.handled] at hn
      obtain hlt | rfl | hgt := Nat.lt_trichotomy n (Connection.handled h).length
      · rw [List.getElem?_append_left hlt] at hn
        exact ih hearlier hn
      · rw [List.getElem?_concat_length] at hn
        cases hn
        exact hlast
      · rw [List.getElem?_eq_none (by simp; omega)] at hn
        cases hn
    | _ => exact ih hearlier hn

theorem steps_connection {s t : Peer} (hsteps : Steps ((agentService P E).ViewStep agentOwnStep (some p)) s h t) :
    Steps PeerStep s h t := by
  apply hsteps.mono
  rintro s op r t (⟨-,hstep⟩ | hquery)
  · exact hstep
  · cases op with
    | handleAgentFrame frame => exact .handleAgentFrame _
    | _ => cases hquery

/-- An own call that a connection remembers is one that its thread has made. -/
theorem mem_ownCalls {o : ConnectionOp AgentResponse} {r : o.Reply} (hmem : ⟨o,r⟩ ∈ h)
    (hown : (agentService P E).query (some p) o = none) : ⟨.inl ⟨some p,o⟩,r⟩ ∈ (agentService P E).ownCalls (some p) h := by
  induction h with
  | nil => cases hmem
  | cons x h ih =>
    obtain ⟨o',r'⟩ := x
    obtain heq | hmem := List.mem_cons.mp hmem
    · cases heq
      rw [Service.ownCalls_own hown]
      exact List.mem_cons_self
    · unfold Service.ownCalls
      split
      · exact ih hmem
      · exact List.mem_cons_of_mem _ (ih hmem)

end Views

section Refinement

variable {P : Type} {E : AgentEnv} {toVec : AgentResponse → Result Bytes} {turns : ℕ} {streams : P → Bytes}

instance : Inhabited AgentTask := ⟨.purge⟩

abbrev ThreadProcess (P : Type) : Type :=
  Process (ServerOp (AgentOwn (P := P)) AgentOp) (ServerReply AgentOwnReply AgentOp.Reply) (Result Unit)

/-- What a connection has got and given: the tasks for the frames that it has answered, then the
task for the next one, if it is at that. -/
structure Exchanged (codec : ResponseCodec AgentResponse) (stream : Bytes) (p : P) (tasks : ℕ → AgentTask)
    (process : ℕ → Process AgentOp AgentOp.Reply (Result (Option AgentReply))) (thread : ThreadProcess P) (peer : Peer)
    (responses : List AgentResponse) : Prop where
  answered : ∀ n response, responses[n]? = some response → ∃ frame r, (parseFrames stream).1[n]? = some frame ∧
    tasks n = .frame frame ∧ (process n).program = .done r ∧ response = agentResponse r
  written : ∃ err : Option Error, peer.written <+:
    (responses.map (frameOf codec)).flatten ++ err.elim [] fun e => frameOf codec (codec.agentErrorResponse e)
  begun : ∀ n, (process n).history ≠ [] →
    n < responses.length ∨ n = responses.length ∧ ∃ op next, thread.program = .request (.inr op) next
  inTurn : ∀ op next, thread.program = .request (.inr op) next →
    (∃ frame, (parseFrames stream).1[responses.length]? = some frame ∧ tasks responses.length = .frame frame) ∧
    (∃ more, (process responses.length).program = .request op more) ∧
    peer.written = (responses.map (frameOf codec)).flatten ∧ ⟨.inl ⟨some p,.authorizePeer⟩,.ok ()⟩ ∈ thread.history
  completed : thread.program = .done (.ok ()) → (parseFrames stream).2 = .ended ∧
    responses.length = (parseFrames stream).1.length ∧ peer.written = (responses.map (frameOf codec)).flatten

variable {p : P} {tasks : ℕ → AgentTask} {process : ℕ → Process AgentOp AgentOp.Reply (Result (Option AgentReply))}
  {thread : ThreadProcess P} {peer : Peer} {h : History (AgentOwn (some p)) (AgentOwnReply (some p))}
  {q : Program (AgentOwn (some p)) (AgentOwnReply (some p)) (Result Unit)}

theorem Exchanged.of_served (hserved : (agentService P E).Served (some p) tasks process agentOwnStep
    (agentThread toVec turns (some p)) (agentOwned streams (some p)) h q thread peer) :
    Exchanged (agentCodec toVec) (streams p) p tasks process thread peer ((Connection.handled h).map Prod.snd) := by
  have hwp := Connection.watched_any hserved.reaches (steps_connection hserved.steps)
  have hconfined := Connection.confined_of_wp hwp
  have hanswers : Connection.answers (agentCodec toVec) h =
      (((Connection.handled h).map Prod.snd).map (frameOf (agentCodec toVec))).flatten := by
    rw [Connection.answers,List.map_map]
    rfl
  have hlength : (agentService P E).asked (some p) h = ((Connection.handled h).map Prod.snd).length := by
    rw [asked_connection,List.length_map]
  have hframes : ((Connection.handled h).map Prod.fst).length = ((Connection.handled h).map Prod.snd).length := by
    rw [List.length_map,List.length_map]
  have hstands := hserved.stands
  rw [hlength] at hstands
  generalize hc : thread.program = c at hstands
  refine ⟨?_,?_,?_,?_,?_⟩
  · intro n response hn
    rw [List.getElem?_map,Option.map_eq_some_iff] at hn
    obtain ⟨⟨frame,response⟩,hn,rfl⟩ := hn
    obtain ⟨htask,r,hr,hresponse⟩ := answered_connection hserved.answered hn
    obtain ⟨rest,hrest⟩ := hconfined.frames
    have hbound : n < ((Connection.handled h).map Prod.fst).length := by
      rw [List.length_map]
      exact (List.getElem?_eq_some_iff.mp hn).1
    refine ⟨frame,r,?_,htask,hr,hresponse⟩
    rw [← hrest,List.getElem?_append_left hbound,List.getElem?_map,hn]
    rfl
  · obtain ⟨err,herr⟩ := hconfined.bytes
    exact ⟨err,hanswers ▸ herr⟩
  · intro n hn
    have hbegun := hserved.begun hn
    rwa [hlength] at hbegun
  · intro op next hprogram
    rw [hprogram] at hc
    cases hstands with
    | finished => cases hc
    | calls ho =>
      rw [Service.serve_own ho] at hc
      cases hc
    | @busy o next' _ _ _ more ho htask hprocess =>
      cases hc
      cases o with
      | handleAgentFrame frame =>
        cases ho
        obtain ⟨⟨rest,hrest⟩,hwritten,hauthorized⟩ := hwp.1.2 frame rfl
        change (Connection.handled h).map Prod.fst ++ [frame] ++ rest = (parseFrames (streams p)).1 at hrest
        have hmem := mem_ownCalls (P := P) (E := E) (p := p) hauthorized rfl
        rw [← hserved.own] at hmem
        refine ⟨⟨frame,?_,htask⟩,⟨more,hprocess⟩,hanswers ▸ hwritten,(List.mem_filter.mp hmem).1⟩
        rw [← hrest,List.append_assoc,List.getElem?_append_right (by omega),hframes,Nat.sub_self]
        rfl
      | _ => cases ho
  · intro hprogram
    rw [hprogram] at hc
    cases hstands with
    | finished =>
      cases hc
      obtain ⟨hparse,hwritten⟩ := hwp.complete rfl
      rw [hparse]
      exact ⟨rfl,hframes.symm,hanswers ▸ hwritten⟩
    | calls ho =>
      rw [Service.serve_own ho] at hc
      cases hc
    | busy => cases hc

theorem agentThread_waits (i : AgentThread P) : (agentService P E).Waits i (agentThread toVec turns i) := by
  cases i <;> rfl

variable [DecidableEq P] {idleTimeout : Duration} {now : Instant}
  {events : List (ServerEvent (AgentThread P) AgentOwnReply AgentOp.Reply AgentOwned AgentWorld)}
  {d : ServerConfig (AgentThread P) AgentOwnReply AgentOp.Reply AgentOwned (Result Unit) AgentWorld}

/-- A run of the whole agent is a run of its tasks: one for each frame that a connection has come to
in the bytes of its peer, and one for each purge. -/
structure ResidentRefines (E : AgentEnv) (toVec : AgentResponse → Result Bytes) (streams : P → Bytes)
    (idleTimeout : Duration) (now : Instant)
    (events : List (ServerEvent (AgentThread P) AgentOwnReply AgentOp.Reply AgentOwned AgentWorld))
    (d : ServerConfig (AgentThread P) AgentOwnReply AgentOp.Reply AgentOwned (Result Unit) AgentWorld)
    (tasks : AgentThread P × ℕ → AgentTask) (calls : List (AgentEvent (AgentThread P × ℕ)))
    (e : AgentConfig (AgentThread P × ℕ)) : Prop where
  run : AgentRun E tasks idleTimeout now calls e
  state : e.state = d.state.2
  calls : events.filterMap Event.sharedCall = calls.map Event.queryCall
  purges : ∀ n, (e.process (none,n)).history ≠ [] → tasks (none,n) = .purge
  connections : ∀ p, ∃ responses, Exchanged (agentCodec toVec) (streams p) p (fun n => tasks (some p,n))
    (fun n => e.process (some p,n)) (d.process (some p)) (d.state.1 (some p)) responses

theorem residentAgent_refines (hrun : ResidentRun E toVec turns streams idleTimeout now events d) :
    ∃ tasks calls e, ResidentRefines E toVec streams idleTimeout now events d tasks calls e := by
  obtain ⟨tasks,calls,e,hfollows⟩ := Service.exists_follows agentThread_waits hrun
  refine ⟨tasks,calls,e,hfollows.run,hfollows.state,hfollows.calls,fun n hn => ?_,fun p => ?_⟩
  · obtain ⟨h,q,hserved⟩ := hfollows.served none
    obtain ⟨op,answer,hquery⟩ := hserved.query hn
    cases op with
    | purge => exact (congrArg Prod.fst (Option.some.inj hquery)).symm
    | _ => cases hquery
  · obtain ⟨h,q,hserved⟩ := hfollows.served (some p)
    exact ⟨_,Exchanged.of_served hserved⟩

end Refinement

section Sample

variable {P : Type} [DecidableEq P] {E : AgentEnv} {toVec : AgentResponse → Result Bytes} {turns : ℕ} {p : P}
  {own : ∀ i : AgentThread P, AgentOwned i} {w : AgentWorld} {k : UInt8}

theorem servingStep_peer {op : ConnectionOp AgentResponse} {r : op.Reply} {s t : Peer} (h : PeerStep s op r t) :
    ServingStep agentOwnStep (AgentStep E) (Function.update own (some p) s,w) (.inl ⟨some p,op⟩) r
      (Function.update own (some p) t,w) := by
  have hown : agentOwnStep (some p) (Function.update own (some p) s (some p)) op r t := by
    rw [Function.update_self]
    exact h
  have hstep : ServingStep agentOwnStep (AgentStep E) (Function.update own (some p) s,w) (.inl ⟨some p,op⟩) r
      (Function.update (Function.update own (some p) s) (some p) t,w) := .own hown
  rwa [Function.update_idem] at hstep

variable (E toVec turns own w)

set_option maxRecDepth 8000 in
/-- A connection takes a frame of one byte from its peer, and changes nothing else. -/
theorem comes_frame (hown : own (some p) = (⟨[0,0,0,1,k],[]⟩ : Peer)) : ∃ rest, Comes (ServingStep agentOwnStep (AgentStep E))
    ((agentService P E).serve (some p) (agentThread toVec (turns+1) (some p))) (own,w)
    (Service.onShared ((AgentTask.frame [k]).program E) >>= rest) (Function.update own (some p) (⟨[],[]⟩ : Peer),w) := by
  have hcomes : Comes (ServingStep agentOwnStep (AgentStep E))
      ((agentService P E).serve (some p) (agentThread toVec (turns+1) (some p))) (own,w)
      ((agentService P E).serve (some p) (agentThread toVec (turns+1) (some p)))
      (Function.update own (some p) (⟨[0,0,0,1,k],[]⟩ : Peer),w) := by
    rw [← hown,Function.update_eq_self]
    exact .refl
  have hcomes := hcomes.turn rfl (servingStep_peer (.setNonblocking (.ok ())))
  have hcomes := hcomes.turn rfl (servingStep_peer (.authorizePeer (.ok ())))
  have hcomes := hcomes.turn rfl (servingStep_peer (.now 0))
  have hcomes := hcomes.turn rfl (servingStep_peer (.read (⟨rfl,by decide,nofun⟩ : Takes 4 [0,0,0,1,k] [0,0,0,1] [k])))
  have hcomes := hcomes.turn rfl (servingStep_peer (.now 0))
  have hcomes := hcomes.turn rfl (servingStep_peer (.read (⟨rfl,Nat.le_refl 1,nofun⟩ : Takes 1 [k] [k] [])))
  exact ⟨_,hcomes⟩

end Sample

noncomputable abbrev releaseEnv : AgentEnv := concreteEnv [.release ⟨"g1"⟩]

/-- One peer sends a frame of one byte, the request to release a grant. -/
theorem exists_releaseRun : ∃ events d,
    ResidentRun releaseEnv (fun _ => .ok []) 1 (fun _ : Unit => [0,0,0,1,0]) (fromSecs 300) 0 events d ∧
    events.filterMap Event.sharedCall ≠ [] := by
  have hrun : ResidentRun releaseEnv (fun _ => .ok []) 1 (fun _ : Unit => [0,0,0,1,0]) (fromSecs 300) 0 [] _ := .nil
  obtain ⟨rest,h,hpath,hsteps⟩ := comes_frame releaseEnv (fun _ => .ok []) 0 (agentOwned fun _ : Unit => [0,0,0,1,0])
    ⟨0,AgentState.new (fromSecs 300) 0,⟨none,false⟩⟩ rfl
  obtain ⟨calls,d,hrun,hs,hi,-⟩ := hrun.along (i := some ()) rfl rfl hpath hsteps
  obtain ⟨d,hrun,-⟩ := hrun.turn hi rfl hs (.shared (.release (Nat.le_refl 0) (Nat.le_refl 0) (Nat.le_refl 0)))
  refine ⟨_,d,hrun,?_⟩
  rw [List.filterMap_append]
  exact List.append_ne_nil_of_right_ne_nil _ (List.cons_ne_nil _ _)

theorem residentAgent_refines_release : ∃ events d tasks calls e,
    ResidentRun releaseEnv (fun _ => .ok []) 1 (fun _ : Unit => [0,0,0,1,0]) (fromSecs 300) 0 events d ∧ calls ≠ [] ∧
    ResidentRefines releaseEnv (fun _ => .ok []) (fun _ : Unit => [0,0,0,1,0]) (fromSecs 300) 0 events d tasks calls e := by
  obtain ⟨events,d,hrun,hcalls⟩ := exists_releaseRun
  obtain ⟨tasks,calls,e,hrefines⟩ := residentAgent_refines hrun
  refine ⟨events,d,tasks,calls,e,hrun,?_,hrefines⟩
  rintro rfl
  exact hcalls hrefines.calls

end Avault.Agent
