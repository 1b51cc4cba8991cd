import Avault.Foundation.Parts
import Avault.Foundation.Interleaving
import Mathlib.Data.Nat.Notation

/-! Servers: processes with calls of their own, in between which they run programs on a state that
all of them share. The programs of the servers, taken one by one, are processes of their own, and
every run of the servers is a run of these. -/
namespace Avault.Foundation
open Program

variable {P Query Op α β σ : Type} {Reply : Op → Type} {Own : P → Type} {OwnReply : ∀ i, Own i → Type} {τ : P → Type}

/-- The calls of the servers that are queries, and the programs that answer these. -/
structure Service (P : Type) (Own : P → Type) (OwnReply : ∀ i, Own i → Type) (Query Op : Type) (Reply : Op → Type)
    (β : Type) where
  program : Query → Program Op Reply β
  query : ∀ i, (o : Own i) → Option (Query × (β → OwnReply i o))

/-- The calls of all servers, on what is their own and on what they share. -/
abbrev ServerOp (Own : P → Type) (Op : Type) : Type := (Σ i, Own i) ⊕ Op

def ServerReply (OwnReply : ∀ i, Own i → Type) (Reply : Op → Type) : ServerOp Own Op → Type
  | .inl o => OwnReply o.1 o.2
  | .inr op => Reply op

abbrev ServerEvent (P : Type) {Own : P → Type} {Op : Type} (OwnReply : ∀ i, Own i → Type) (Reply : Op → Type)
    (τ : P → Type) (σ : Type) : Type := Event P (ServerOp Own Op) (ServerReply OwnReply Reply) ((∀ i, τ i) × σ)

abbrev ServerConfig (P : Type) {Own : P → Type} {Op : Type} (OwnReply : ∀ i, Own i → Type) (Reply : Op → Type)
    (τ : P → Type) (α σ : Type) : Type := Config P (ServerOp Own Op) (ServerReply OwnReply Reply) α ((∀ i, τ i) × σ)

/-- Each server changes what is its own, and no server changes what another one owns. -/
inductive ServingStep [DecidableEq P] (ownStep : ∀ i, τ i → (o : Own i) → OwnReply i o → τ i → Prop)
    (step : σ → (op : Op) → Reply op → σ → Prop) :
    (∀ i, τ i) × σ → (op : ServerOp Own Op) → ServerReply OwnReply Reply op → (∀ i, τ i) × σ → Prop
  | own {s i o r t} : ownStep i (s.1 i) o r t → ServingStep ownStep step s (.inl ⟨i,o⟩) r (Function.update s.1 i t,s.2)
  | shared {s op r t} : step s.2 op r t → ServingStep ownStep step s (.inr op) r (s.1,t)

/-- A process that has not begun gets another program. -/
def Config.assign [DecidableEq P] (c : Config P Op Reply α σ) (i : P) (x : Process Op Reply α) :
    Config P Op Reply α σ :=
  ⟨Function.update c.process i x,c.state⟩

theorem Run.assign [DecidableEq P] {step : σ → (op : Op) → Reply op → σ → Prop} {c d : Config P Op Reply α σ}
    {events : List (Event P Op Reply σ)} (hrun : Run step c events d) {i : P} (hi : (d.process i).history = [])
    (x : Process Op Reply α) : Run step (c.assign i x) events (d.assign i x) := by
  induction hrun with
  | nil => exact .nil
  | @snoc events d j op next r t _ hprogram hstep ih =>
    by_cases hij : i = j
    · subst hij
      simp [Config.answer] at hi
    · have hstill : ((d.answer j op next r t).process i).history = (d.process i).history :=
        congrArg Process.history (Function.update_of_ne hij _ _)
      have hj : (d.assign i x).process j = d.process j := Function.update_of_ne (Ne.symm hij) _ _
      have hsnoc := (ih (hstill ▸ hi)).snoc (i := j) ((congrArg Process.program hj).trans hprogram) hstep
      have hafter : (d.assign i x).answer j op next r t = (d.answer j op next r t).assign i x := by
        rw [Config.answer,hj]
        exact congrArg (fun process => (⟨process,t⟩ : Config P Op Reply α σ)) (Function.update_comm hij _ _ _)
      rw [hafter,hj] at hsnoc
      exact hsnoc

/-- A call on what is shared, by its server. -/
structure SharedCall (P Op : Type) (Reply : Op → Type) (σ : Type) where
  server : P
  op : Op
  reply : Reply op
  before : σ
  after : σ

def Event.sharedCall : ServerEvent P OwnReply Reply τ σ → Option (SharedCall P Op Reply σ)
  | ⟨_,_,.inl _,_,_,_⟩ => none
  | ⟨i,_,.inr op,r,before,after⟩ => some ⟨i,op,r,before.2,after.2⟩

/-- A call of the process for one of the queries of a server. -/
def Event.queryCall (ev : Event (P × ℕ) Op Reply σ) : SharedCall P Op Reply σ :=
  ⟨ev.process.1,ev.op,ev.reply,ev.before,ev.after⟩

namespace Service

variable (S : Service P Own OwnReply Query Op Reply β)

abbrev onShared (p : Program Op Reply β) : Program (ServerOp Own Op) (ServerReply OwnReply Reply) β :=
  p.embed Sum.inr fun _ r => r

/-- The program of a server, with its queries run on what is shared. -/
def serve (i : P) : Program (Own i) (OwnReply i) α → Program (ServerOp Own Op) (ServerReply OwnReply Reply) α
  | done a => done a
  | request o next =>
    match S.query i o with
    | none => request (.inl ⟨i,o⟩) fun r => serve i (next r)
    | some (q,answer) => onShared (S.program q) >>= fun b => serve i (next (answer b))

/-- A query goes on as it would alone. -/
theorem comes_onShared [DecidableEq P] {ownStep : ∀ i, τ i → (o : Own i) → OwnReply i o → τ i → Prop}
    {step : σ → (op : Op) → Reply op → σ → Prop} {start : Program (ServerOp Own Op) (ServerReply OwnReply Reply) α}
    {first : (∀ i, τ i) × σ} {p q : Program Op Reply β} {rest : β → Program (ServerOp Own Op) (ServerReply OwnReply Reply) α}
    {own : ∀ i, τ i} {s t : σ} {h : History Op Reply}
    (hcomes : Comes (ServingStep ownStep step) start first (onShared p >>= rest) (own,s)) (hpath : Reaches p h q)
    (hsteps : Steps step s h t) : Comes (ServingStep ownStep step) start first (onShared q >>= rest) (own,t) := by
  induction hpath generalizing t with
  | nil =>
    cases hsteps
    exact hcomes
  | cons r _ ih =>
    obtain _ | ⟨hsteps,hstep⟩ := hsteps
    exact (ih hsteps).turn rfl (.shared hstep)

section Calls

variable {S} {i : P} {o : Own i} {next : OwnReply i o → Program (Own i) (OwnReply i) α} {q : Query}
  {answer : β → OwnReply i o}

theorem serve_own (ho : S.query i o = none) :
    S.serve i (request o next) = request (Sum.inl ⟨i,o⟩ : ServerOp Own Op) fun r => S.serve i (next r) := by
  simp only [serve,ho]

theorem serve_query (ho : S.query i o = some (q,answer)) :
    S.serve i (request o next) = onShared (S.program q) >>= fun b => S.serve i (next (answer b)) := by
  simp only [serve,ho]

end Calls

/-- The queries among the calls of a server. -/
def asked (i : P) (h : History (Own i) (OwnReply i)) : ℕ := h.countP fun x => (S.query i x.1).isSome

/-- The calls of a server that are not queries, as it makes them. -/
def ownCalls (i : P) : History (Own i) (OwnReply i) → History (ServerOp Own Op) (ServerReply OwnReply Reply)
  | [] => []
  | ⟨o,r⟩::h => if (S.query i o).isSome then ownCalls i h else ⟨.inl ⟨i,o⟩,r⟩::ownCalls i h

/-- A server sees a query as a call that leaves alone what is its own. -/
inductive ViewStep (ownStep : ∀ i, τ i → (o : Own i) → OwnReply i o → τ i → Prop) (i : P) (s : τ i) (o : Own i)
    (r : OwnReply i o) : τ i → Prop
  | own {t} : S.query i o = none → ownStep i s o r t → ViewStep ownStep i s o r t
  | query : (S.query i o).isSome → ViewStep ownStep i s o r s

section Served

variable (i : P) (queries : ℕ → Query) (process : ℕ → Process Op Reply β)

/-- The replies to the queries of a server are what their programs came to, in order. -/
def Answered : History (Own i) (OwnReply i) → Prop
  | [] => True
  | ⟨o,r⟩::h => Answered h ∧ ∀ q answer, S.query i o = some (q,answer) →
      queries (S.asked i h) = q ∧ ∃ b, (process (S.asked i h)).program = done b ∧ r = answer b

/-- From a number on, no program has begun. -/
def Fresh (n : ℕ) : Prop := ∀ m, n ≤ m → process m = ⟨S.program (queries m),[]⟩

/-- What a server is at, as it sees it and as it is. -/
inductive Stands (n : ℕ) :
    Program (Own i) (OwnReply i) α → Program (ServerOp Own Op) (ServerReply OwnReply Reply) α → Prop
  | finished {a} : S.Fresh queries process n → Stands n (done a) (done a)
  | calls {o next} : S.query i o = none → S.Fresh queries process n →
    Stands n (request o next) (S.serve i (request o next))
  | busy {o next q answer op more} : S.query i o = some (q,answer) → queries n = q →
    (process n).program = request op more → S.Fresh queries process (n+1) →
    Stands n (request o next) (onShared (request op more) >>= fun b => S.serve i (next (answer b)))

/-- What a server has done and what it is at. -/
structure Served (ownStep : ∀ i, τ i → (o : Own i) → OwnReply i o → τ i → Prop)
    (server : Program (Own i) (OwnReply i) α) (s : τ i) (h : History (Own i) (OwnReply i))
    (p : Program (Own i) (OwnReply i) α) (c : Process (ServerOp Own Op) (ServerReply OwnReply Reply) α) (t : τ i) :
    Prop where
  reaches : Reaches server h p
  steps : Steps (S.ViewStep ownStep i) s h t
  answered : S.Answered i queries process h
  own : c.history.filter (fun x => x.1.isLeft) = S.ownCalls i h
  stands : S.Stands i queries process (S.asked i h) p c.program

end Served

/-- The first call of a program, if it makes any, is not a query. -/
def Waits (i : P) : Program (Own i) (OwnReply i) α → Prop
  | done _ => True
  | request o _ => S.query i o = none

section Lemmas

variable {S} {i : P} {queries queries' : ℕ → Query} {process process' : ℕ → Process Op Reply β}
  {h : History (Own i) (OwnReply i)} {n : ℕ}

theorem asked_own {o : Own i} {r : OwnReply i o} (ho : S.query i o = none) :
    S.asked i (⟨o,r⟩::h) = S.asked i h := by
  simp [asked,ho]

theorem asked_query {o : Own i} {r : OwnReply i o} (ho : (S.query i o).isSome) :
    S.asked i (⟨o,r⟩::h) = S.asked i h+1 := by
  simp [asked,ho]

theorem ownCalls_own {o : Own i} {r : OwnReply i o} (ho : S.query i o = none) :
    S.ownCalls i (⟨o,r⟩::h) = ⟨.inl ⟨i,o⟩,r⟩::S.ownCalls i h := by
  simp [ownCalls,ho]

theorem ownCalls_query {o : Own i} {r : OwnReply i o} (ho : (S.query i o).isSome) :
    S.ownCalls i (⟨o,r⟩::h) = S.ownCalls i h := by
  simp [ownCalls,ho]

theorem asked_le (x : (o : Own i) × OwnReply i o) : S.asked i h ≤ S.asked i (x::h) := by
  unfold asked
  rw [List.countP_cons]
  omega

/-- The replies so far do not depend on later queries. -/
theorem Answered.congr (hanswered : S.Answered i queries process h)
    (hsame : ∀ m, m < S.asked i h → queries' m = queries m ∧ process' m = process m) :
    S.Answered i queries' process' h := by
  induction h with
  | nil => trivial
  | cons x h ih =>
    obtain ⟨hearlier,hlast⟩ := hanswered
    refine ⟨ih hearlier fun m hm => hsame m (Nat.lt_of_lt_of_le hm (asked_le x)),fun q answer hquery => ?_⟩
    have hnow : S.asked i h < S.asked i (x::h) := by
      rw [asked_query (Option.isSome_of_eq_some hquery)]
      omega
    rw [(hsame _ hnow).1,(hsame _ hnow).2]
    exact hlast q answer hquery

theorem Fresh.mono {m : ℕ} (hfresh : S.Fresh queries process n) (hm : n ≤ m) : S.Fresh queries process m :=
  fun k hk => hfresh k (Nat.le_trans hm hk)

theorem Fresh.congr (hfresh : S.Fresh queries process n)
    (hsame : ∀ m, n ≤ m → queries' m = queries m ∧ process' m = process m) : S.Fresh queries' process' n := by
  intro m hm
  rw [(hsame m hm).1,(hsame m hm).2]
  exact hfresh m hm

end Lemmas

section Runs

variable [DecidableEq P] {S} {ownStep : ∀ i, τ i → (o : Own i) → OwnReply i o → τ i → Prop}
  {step : σ → (op : Op) → Reply op → σ → Prop} {server : ∀ i, Program (Own i) (OwnReply i) α} {own : ∀ i, τ i} {s : σ}

variable (S) in
/-- Every query as a process of its own. -/
def start (queries : P × ℕ → Query) (s : σ) : Config (P × ℕ) Op Reply β σ :=
  Config.start (fun k => S.program (queries k)) s

variable {queries : P × ℕ → Query} {events : List (Event (P × ℕ) Op Reply σ)} {e : Config (P × ℕ) Op Reply β σ} {i : P}

/-- A process that has not begun gets another query. -/
theorem exists_assigned (hrun : Run step (S.start queries s) events e) {k : P × ℕ} (hk : (e.process k).history = [])
    (q : Query) : ∃ queries' e', Run step (S.start queries' s) events e' ∧ e'.state = e.state ∧ queries' k = q ∧
      e'.process k = ⟨S.program q,[]⟩ ∧ ∀ j, j ≠ k → queries' j = queries j ∧ e'.process j = e.process j := by
  have hstart : (S.start queries s).assign k ⟨S.program q,[]⟩ = S.start (Function.update queries k q) s := by
    apply congrArg fun process => (⟨process,s⟩ : Config (P × ℕ) Op Reply β σ)
    funext j
    by_cases hj : j = k
    · subst hj
      simp only [Function.update_self]
    · simp only [Function.update_of_ne hj]
      rfl
  have hrun' := hrun.assign hk ⟨S.program q,[]⟩
  rw [hstart] at hrun'
  exact ⟨_,_,hrun',rfl,Function.update_self _ _ _,Function.update_self _ _ _,
    fun j hj => ⟨Function.update_of_ne hj _ _,Function.update_of_ne hj _ _⟩⟩

/-- Queries that are answered without a call are so at once. By induction on what the server has left. -/
theorem settle {p : Program (Own i) (OwnReply i) α} {h : History (Own i) (OwnReply i)} {t : τ i}
    (hrun : Run step (S.start queries s) events e) (hreaches : Reaches (server i) h p)
    (hsteps : Steps (S.ViewStep ownStep i) (own i) h t)
    (hanswered : S.Answered i (fun n => queries (i,n)) (fun n => e.process (i,n)) h)
    {calls : History (ServerOp Own Op) (ServerReply OwnReply Reply)}
    (hown : calls.filter (fun x => x.1.isLeft) = S.ownCalls i h)
    (hfresh : S.Fresh (fun n => queries (i,n)) (fun n => e.process (i,n)) (S.asked i h)) :
    ∃ queries' e' h' p', Run step (S.start queries' s) events e' ∧ e'.state = e.state ∧
      (∀ j n, j ≠ i → queries' (j,n) = queries (j,n) ∧ e'.process (j,n) = e.process (j,n)) ∧
      S.Served i (fun n => queries' (i,n)) (fun n => e'.process (i,n)) ownStep (server i) (own i) h' p'
        ⟨S.serve i p,calls⟩ t := by
  induction p generalizing queries e h with
  | done a => exact ⟨queries,e,h,_,hrun,rfl,fun _ _ _ => ⟨rfl,rfl⟩,hreaches,hsteps,hanswered,hown,.finished hfresh⟩
  | request o next ih =>
    cases ho : S.query i o with
    | none => exact ⟨queries,e,h,_,hrun,rfl,fun _ _ _ => ⟨rfl,rfl⟩,hreaches,hsteps,hanswered,hown,.calls ho hfresh⟩
    | some query =>
      obtain ⟨q,answer⟩ := query
      have hbegun : (e.process (i,S.asked i h)).history = [] :=
        congrArg Process.history (hfresh _ (Nat.le_refl _))
      obtain ⟨queries₁,e₁,hrun₁,hstate₁,hquery,hprocess,hother⟩ := exists_assigned hrun hbegun q
      have hothers (j : P) (n : ℕ) (hj : j ≠ i) := hother (j,n) fun heq => hj (Prod.mk.inj heq).1
      have hanswered₁ : S.Answered i (fun n => queries₁ (i,n)) (fun n => e₁.process (i,n)) h :=
        hanswered.congr fun m hm => hother (i,m) fun heq => Nat.ne_of_lt hm (Prod.mk.inj heq).2
      have hfresh₁ : S.Fresh (fun n => queries₁ (i,n)) (fun n => e₁.process (i,n)) (S.asked i h+1) :=
        (hfresh.mono (Nat.le_succ _)).congr fun m hm => hother (i,m) fun heq => Nat.ne_of_gt hm (Prod.mk.inj heq).2
      rw [serve_query ho]
      cases hq : S.program q with
      | request op more =>
        have hprogram := (congrArg Process.program hprocess).trans hq
        exact ⟨_,_,h,_,hrun₁,hstate₁,hothers,hreaches,hsteps,hanswered₁,hown,.busy ho hquery hprogram hfresh₁⟩
      | done b =>
        have hisQuery := Option.isSome_of_eq_some ho
        have hlast : S.Answered i (fun n => queries₁ (i,n)) (fun n => e₁.process (i,n)) (⟨o,answer b⟩::h) := by
          refine ⟨hanswered₁,fun q' answer' hq' => ?_⟩
          obtain ⟨rfl,rfl⟩ := Prod.mk.inj (Option.some.inj (ho.symm.trans hq'))
          exact ⟨hquery,b,(congrArg Process.program hprocess).trans hq,rfl⟩
        rw [← asked_query hisQuery] at hfresh₁
        obtain ⟨queries₂,e₂,h₂,p₂,hrun₂,hstate₂,hsame,hserved⟩ := ih (answer b) hrun₁ (hreaches.cons (answer b))
          (hsteps.cons (.query hisQuery)) hlast (hown.trans (ownCalls_query hisQuery).symm) hfresh₁
        refine ⟨queries₂,e₂,h₂,p₂,hrun₂,hstate₂.trans hstate₁,fun j n hj => ?_,hserved⟩
        exact ⟨(hsame j n hj).1.trans (hothers j n hj).1,(hsame j n hj).2.trans (hothers j n hj).2⟩

variable (S) in
/-- A run of the servers beside a run of their queries. -/
structure Follows (ownStep : ∀ i, τ i → (o : Own i) → OwnReply i o → τ i → Prop)
    (step : σ → (op : Op) → Reply op → σ → Prop) (server : ∀ i, Program (Own i) (OwnReply i) α) (own : ∀ i, τ i) (s : σ)
    (events : List (ServerEvent P OwnReply Reply τ σ)) (d : ServerConfig P OwnReply Reply τ α σ)
    (queries : P × ℕ → Query) (calls : List (Event (P × ℕ) Op Reply σ)) (e : Config (P × ℕ) Op Reply β σ) : Prop where
  run : Run step (S.start queries s) calls e
  state : e.state = d.state.2
  calls : events.filterMap Event.sharedCall = calls.map Event.queryCall
  served : ∀ i, ∃ h p, S.Served i (fun n => queries (i,n)) (fun n => e.process (i,n)) ownStep (server i) (own i) h p
    (d.process i) (d.state.1 i)

variable {events : List (ServerEvent P OwnReply Reply τ σ)} {d : ServerConfig P OwnReply Reply τ α σ} {calls : List (Event (P × ℕ) Op Reply σ)}

/-- The call of one server leaves the others where they are. -/
theorem Follows.answer (hfollows : S.Follows ownStep step server own s events d queries calls e) (i : P)
    {op : ServerOp Own Op} {next : ServerReply OwnReply Reply op → Program (ServerOp Own Op) (ServerReply OwnReply Reply) α}
    {r : ServerReply OwnReply Reply op} {t : (∀ i, τ i) × σ} {queries' : P × ℕ → Query}
    {calls' : List (Event (P × ℕ) Op Reply σ)} {e' : Config (P × ℕ) Op Reply β σ}
    (hrun : Run step (S.start queries' s) calls' e') (hstate : e'.state = t.2)
    (hcalls : (events ++ [⟨i,(d.process i).history,op,r,d.state,t⟩] :
      List (ServerEvent P OwnReply Reply τ σ)).filterMap Event.sharedCall = calls'.map Event.queryCall)
    (hsame : ∀ j n, j ≠ i → queries' (j,n) = queries (j,n) ∧ e'.process (j,n) = e.process (j,n))
    (hown : ∀ j, j ≠ i → t.1 j = d.state.1 j) (hserved : ∃ h p, S.Served i (fun n => queries' (i,n))
      (fun n => e'.process (i,n)) ownStep (server i) (own i) h p ⟨next r,⟨op,r⟩::(d.process i).history⟩ (t.1 i)) :
    S.Follows ownStep step server own s (events ++ [⟨i,(d.process i).history,op,r,d.state,t⟩]) (d.answer i op next r t)
      queries' calls' e' := by
  refine ⟨hrun,hstate,hcalls,fun j => ?_⟩
  by_cases hji : j = i
  · subst hji
    simp only [Config.answer,Function.update_self]
    exact hserved
  · obtain ⟨h',p',hserved'⟩ := hfollows.served j
    have hqueries : (fun n => queries' (j,n)) = fun n => queries (j,n) := funext fun n => (hsame j n hji).1
    have hprocess : (fun n => e'.process (j,n)) = fun n => e.process (j,n) := funext fun n => (hsame j n hji).2
    simp only [Config.answer,Function.update_of_ne hji,hown j hji]
    rw [hqueries,hprocess]
    exact ⟨h',p',hserved'⟩

/-- A call of a server on what is its own. -/
theorem Follows.ownCall (hfollows : S.Follows ownStep step server own s events d queries calls e) {h : History (Own i) (OwnReply i)}
    {o : Own i} {next : OwnReply i o → Program (Own i) (OwnReply i) α} {r : OwnReply i o} {t : τ i}
    (hserved : S.Served i (fun n => queries (i,n)) (fun n => e.process (i,n)) ownStep (server i) (own i) h (request o next)
      (d.process i) (d.state.1 i)) (ho : S.query i o = none)
    (hfresh : S.Fresh (fun n => queries (i,n)) (fun n => e.process (i,n)) (S.asked i h))
    (hstep : ownStep i (d.state.1 i) o r t) :
    ∃ queries' e', S.Follows ownStep step server own s
      (events ++ [⟨i,(d.process i).history,.inl ⟨i,o⟩,r,d.state,(Function.update d.state.1 i t,d.state.2)⟩])
      (d.answer i (.inl ⟨i,o⟩) (fun r => S.serve i (next r)) r (Function.update d.state.1 i t,d.state.2)) queries' calls e' := by
  have hreaches : Reaches (server i) (⟨o,r⟩::h) (next r) := .cons _ hserved.reaches
  have hanswered : S.Answered i (fun n => queries (i,n)) (fun n => e.process (i,n)) (⟨o,r⟩::h) :=
    ⟨hserved.answered,fun _ _ hquery => absurd (ho.symm.trans hquery) (Option.some_ne_none _).symm⟩
  have hown : List.filter (fun x => x.1.isLeft) (⟨.inl ⟨i,o⟩,r⟩::(d.process i).history) = S.ownCalls i (⟨o,r⟩::h) := by
    rw [ownCalls_own ho,← hserved.own]
    rfl
  rw [← asked_own ho] at hfresh
  obtain ⟨queries',e',h',p',hrun',hstate,hsame,hserved'⟩ :=
    settle hfollows.run hreaches (hserved.steps.cons (.own ho hstep)) hanswered hown hfresh
  refine ⟨queries',e',hfollows.answer i hrun' (hstate.trans hfollows.state) ?_ hsame
    (fun j hj => Function.update_of_ne hj _ _) ?_⟩
  · rw [List.filterMap_append,hfollows.calls]
    exact List.append_nil _
  · simp only [Function.update_self]
    exact ⟨h',p',hserved'⟩

/-- A call of a server on what is shared. -/
theorem Follows.query (hfollows : S.Follows ownStep step server own s events d queries calls e)
    {h : History (Own i) (OwnReply i)} {o : Own i} {next : OwnReply i o → Program (Own i) (OwnReply i) α} {q : Query}
    {answer : β → OwnReply i o} {op : Op} {more : Reply op → Program Op Reply β} {r : Reply op} {t : σ}
    (hserved : S.Served i (fun n => queries (i,n)) (fun n => e.process (i,n)) ownStep (server i) (own i) h (request o next)
      (d.process i) (d.state.1 i)) (ho : S.query i o = some (q,answer)) (hquery : queries (i,S.asked i h) = q)
    (hprocess : (e.process (i,S.asked i h)).program = request op more)
    (hfresh : S.Fresh (fun n => queries (i,n)) (fun n => e.process (i,n)) (S.asked i h+1)) (hstep : step d.state.2 op r t) :
    ∃ queries' calls' e', S.Follows ownStep step server own s
      (events ++ [⟨i,(d.process i).history,.inr op,r,d.state,(d.state.1,t)⟩])
      (d.answer i (.inr op) (fun r => onShared (more r) >>= fun b => S.serve i (next (answer b))) r (d.state.1,t))
      queries' calls' e' := by
  rw [← hfollows.state] at hstep
  have hrun₁ := hfollows.run.snoc hprocess hstep
  have hlast : ((e.answer (i,S.asked i h) op more r t).process (i,S.asked i h)).program = more r := by
    simp only [Config.answer,Function.update_self]
  have hother (k : P × ℕ) (hk : k ≠ (i,S.asked i h)) : queries k = queries k ∧
      (e.answer (i,S.asked i h) op more r t).process k = e.process k := ⟨rfl,Function.update_of_ne hk _ _⟩
  have hothers (j : P) (n : ℕ) (hj : j ≠ i) := hother (j,n) fun heq => hj (Prod.mk.inj heq).1
  have hanswered := hserved.answered.congr fun m hm => hother (i,m) fun heq => Nat.ne_of_lt hm (Prod.mk.inj heq).2
  have hfresh₁ := hfresh.congr fun m hm => hother (i,m) fun heq => Nat.ne_of_gt hm (Prod.mk.inj heq).2
  have hown : List.filter (fun x => x.1.isLeft) (⟨.inr op,r⟩::(d.process i).history) = S.ownCalls i h := hserved.own
  have hcalls : (events ++ [⟨i,(d.process i).history,.inr op,r,d.state,(d.state.1,t)⟩] :
      List (ServerEvent P OwnReply Reply τ σ)).filterMap Event.sharedCall =
      (calls ++ [⟨(i,S.asked i h),(e.process (i,S.asked i h)).history,op,r,e.state,t⟩] :
        List (Event (P × ℕ) Op Reply σ)).map Event.queryCall := by
    rw [List.filterMap_append,List.map_append,hfollows.calls,hfollows.state]
    rfl
  cases hmore : more r with
  | request op' more' =>
    have hstands : S.Stands i (fun n => queries (i,n)) (fun n => (e.answer (i,S.asked i h) op more r t).process (i,n))
        (S.asked i h) (request o next) (onShared (more r) >>= fun b => S.serve i (next (answer b))) := by
      rw [hmore]
      exact .busy ho hquery (hlast.trans hmore) hfresh₁
    exact ⟨queries,_,_,hfollows.answer i hrun₁ rfl hcalls hothers (fun _ _ => rfl)
      ⟨h,_,hserved.reaches,hserved.steps,hanswered,hown,hstands⟩⟩
  | done b =>
    have hisQuery := Option.isSome_of_eq_some ho
    have hanswered₁ : S.Answered i (fun n => queries (i,n))
        (fun n => (e.answer (i,S.asked i h) op more r t).process (i,n)) (⟨o,answer b⟩::h) := by
      refine ⟨hanswered,fun q' answer' hq' => ?_⟩
      obtain ⟨rfl,rfl⟩ := Prod.mk.inj (Option.some.inj (ho.symm.trans hq'))
      exact ⟨hquery,b,hlast.trans hmore,rfl⟩
    rw [← asked_query hisQuery] at hfresh₁
    obtain ⟨queries',e',h',p',hrun',hstate,hsame,hserved'⟩ := settle hrun₁ (hserved.reaches.cons (answer b))
      (hserved.steps.cons (.query hisQuery)) hanswered₁ (hown.trans (ownCalls_query hisQuery).symm) hfresh₁
    refine ⟨queries',_,e',hfollows.answer i hrun' hstate hcalls (fun j n hj => ?_) (fun _ _ => rfl) ⟨h',p',?_⟩⟩
    · exact ⟨(hsame j n hj).1.trans (hothers j n hj).1,(hsame j n hj).2.trans (hothers j n hj).2⟩
    · rw [hmore]
      exact hserved'

/-- Every run of the servers is a run of their queries. By induction on the run, with one case for
each kind of call. -/
theorem exists_follows [Inhabited Query] (hwaits : ∀ i, S.Waits i (server i))
    (hrun : Run (ServingStep ownStep step) (Config.start (fun i => S.serve i (server i)) (own,s)) events d) :
    ∃ queries calls e, S.Follows ownStep step server own s events d queries calls e := by
  induction hrun with
  | nil =>
    refine ⟨default,[],_,.nil,rfl,rfl,fun i => ⟨[],server i,.nil,.nil,trivial,rfl,?_⟩⟩
    change S.Stands i _ _ 0 (server i) (S.serve i (server i))
    have hwaits := hwaits i
    cases hserver : server i with
    | done a => exact .finished fun _ _ => rfl
    | request o next =>
      rw [hserver] at hwaits
      exact .calls hwaits fun _ _ => rfl
  | @snoc events d i op next r t hrun hprogram hstep ih =>
    obtain ⟨queries,calls,e,hfollows⟩ := ih
    obtain ⟨h,p,hserved⟩ := hfollows.served i
    have hstands := hserved.stands
    generalize hc : (d.process i).program = c at hstands
    rw [hprogram] at hc
    cases hstands with
    | finished => cases hc
    | calls ho hfresh =>
      rw [serve_own ho] at hc
      cases hc
      cases hstep with
      | own hown =>
        obtain ⟨queries',e',hnext⟩ := hfollows.ownCall hserved ho hfresh hown
        exact ⟨queries',calls,e',hnext⟩
    | busy ho hquery hprocess hfresh =>
      cases hc
      cases hstep with
      | shared hshared => exact hfollows.query hserved ho hquery hprocess hfresh hshared

end Runs

section Begun

variable {S} {ownStep : ∀ i, τ i → (o : Own i) → OwnReply i o → τ i → Prop} {i : P} {queries : ℕ → Query}
  {process : ℕ → Process Op Reply β} {server p : Program (Own i) (OwnReply i) α} {s t : τ i} {h : History (Own i) (OwnReply i)}
  {c : Process (ServerOp Own Op) (ServerReply OwnReply Reply) α} {n : ℕ}

theorem Answered.query (hanswered : S.Answered i queries process h) (hn : n < S.asked i h) :
    ∃ o answer, S.query i o = some (queries n,answer) := by
  induction h with
  | nil => exact absurd hn (Nat.not_lt_zero n)
  | cons x h ih =>
    obtain ⟨hearlier,hlast⟩ := hanswered
    cases ho : S.query i x.1 with
    | none =>
      rw [asked_own ho] at hn
      exact ih hearlier hn
    | some query =>
      rw [asked_query (Option.isSome_of_eq_some ho)] at hn
      obtain hlt | rfl := Nat.lt_or_eq_of_le (Nat.le_of_lt_succ hn)
      · exact ih hearlier hlt
      · exact ⟨x.1,query.2,ho.trans (by rw [(hlast _ _ ho).1])⟩

/-- The queries of which something has been done are those that are answered, and then at most one. -/
theorem Served.begun (hserved : S.Served i queries process ownStep server s h p c t) (hn : (process n).history ≠ []) :
    n < S.asked i h ∨ n = S.asked i h ∧ ∃ op next, c.program = request (.inr op) next := by
  have hstands := hserved.stands
  generalize c.program = program at hstands
  have hfresh {m : ℕ} (hfresh : S.Fresh queries process m) : n < m :=
    Nat.lt_of_not_le fun hm => hn (congrArg Process.history (hfresh n hm))
  cases hstands with
  | finished hfinished => exact .inl (hfresh hfinished)
  | calls _ hcalls => exact .inl (hfresh hcalls)
  | busy _ _ _ hbusy => exact (Nat.lt_or_eq_of_le (Nat.le_of_lt_succ (hfresh hbusy))).imp_right fun heq => ⟨heq,_,_,rfl⟩

theorem Served.query (hserved : S.Served i queries process ownStep server s h p c t) (hn : (process n).history ≠ []) :
    ∃ o answer, S.query i o = some (queries n,answer) := by
  obtain hlt | ⟨rfl,op,next,hprogram⟩ := hserved.begun hn
  · exact hserved.answered.query hlt
  · have hstands := hserved.stands
    rw [hprogram] at hstands
    generalize hc : (request (.inr op) next : Program (ServerOp Own Op) (ServerReply OwnReply Reply) α) = program at hstands
    cases hstands with
    | finished => cases hc
    | calls ho =>
      rw [serve_own ho] at hc
      cases hc
    | busy ho hquery => exact ⟨_,_,hquery ▸ ho⟩

end Begun

end Service
end Avault.Foundation
