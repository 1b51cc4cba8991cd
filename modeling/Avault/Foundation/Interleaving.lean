import Avault.Foundation.Program
import Mathlib.Logic.Function.Basic

/-! Processes that run programs on one shared state, one call at a time in any order. A process
is verified on its own, under what the others may do to the state between two of its calls. -/
namespace Avault.Foundation
open Program

variable {P Op α σ : Type} {Reply : Op → Type}

/-- The calls a process has made, with their replies, the latest first. -/
abbrev History (Op : Type) (Reply : Op → Type) : Type := List ((op : Op) × Reply op)

structure Process (Op : Type) (Reply : Op → Type) (α : Type) where
  program : Program Op Reply α
  history : History Op Reply

/-- The process has made the call and awaits its reply. -/
def Process.Awaits (p : Process Op Reply α) (op : Op) : Prop := ∃ next, p.program = .request op next

structure Config (P Op : Type) (Reply : Op → Type) (α σ : Type) where
  process : P → Process Op Reply α
  state : σ

/-- One call of one process. -/
structure Event (P Op : Type) (Reply : Op → Type) (σ : Type) where
  process : P
  history : History Op Reply
  op : Op
  reply : Reply op
  before : σ
  after : σ

namespace Config

/-- Every process at the start of its program. -/
def start (program : P → Program Op Reply α) (s : σ) : Config P Op Reply α σ :=
  ⟨fun i => ⟨program i,[]⟩,s⟩

variable [DecidableEq P]

/-- A process takes the reply of its call. -/
def answer (c : Config P Op Reply α σ) (i : P) (op : Op) (next : Reply op → Program Op Reply α)
    (r : Reply op) (t : σ) : Config P Op Reply α σ :=
  ⟨Function.update c.process i ⟨next r,⟨op,r⟩::(c.process i).history⟩,t⟩

end Config

/-- The runs from a configuration, with their calls in order. -/
inductive Run [DecidableEq P] (step : σ → (op : Op) → Reply op → σ → Prop)
    (c : Config P Op Reply α σ) : List (Event P Op Reply σ) → Config P Op Reply α σ → Prop
  | nil : Run step c [] c
  | snoc {events d i op next r t} : Run step c events d →
    (d.process i).program = .request op next → step d.state op r t →
    Run step c (events ++ [⟨i,(d.process i).history,op,r,d.state,t⟩]) (d.answer i op next r t)

/-- A reply that a process remembers came from a call in the run. -/
theorem Run.event_of_history [DecidableEq P] {step : σ → (op : Op) → Reply op → σ → Prop}
    {c d : Config P Op Reply α σ} {events : List (Event P Op Reply σ)} (hrun : Run step c events d) {i : P}
    (hstart : (c.process i).history = []) {x : (op : Op) × Reply op} {h : History Op Reply}
    (hsuffix : x::h <:+ (d.process i).history) :
    ∃ ev ∈ events, ev.process = i ∧ ev.history = h ∧ x = ⟨ev.op,ev.reply⟩ := by
  induction hrun with
  | nil =>
    rw [hstart] at hsuffix
    exact absurd (List.suffix_nil.mp hsuffix) (List.cons_ne_nil x h)
  | @snoc events d j op next r t _ _ _ ih =>
    have hearlier (hsuffix : x::h <:+ (d.process i).history) : ∃ ev ∈ events ++
        [⟨j,(d.process j).history,op,r,d.state,t⟩], ev.process = i ∧ ev.history = h ∧ x = ⟨ev.op,ev.reply⟩ := by
      obtain ⟨ev,hev,hfound⟩ := ih hsuffix
      exact ⟨ev,List.mem_append_left _ hev,hfound⟩
    by_cases hij : i = j
    · subst hij
      simp only [Config.answer,Function.update_self,List.suffix_cons_iff] at hsuffix
      obtain heq | hsuffix := hsuffix
      · obtain ⟨rfl,rfl⟩ := List.cons.inj heq
        exact ⟨_,List.mem_append_right _ (List.mem_singleton_self _),rfl,rfl,rfl⟩
      · exact hearlier hsuffix
    · simp only [Config.answer,Function.update_of_ne hij] at hsuffix
      exact hearlier hsuffix

/-- Each event of a run is a step. -/
theorem Run.step [DecidableEq P] {step : σ → (op : Op) → Reply op → σ → Prop}
    {c d : Config P Op Reply α σ} {events : List (Event P Op Reply σ)} (hrun : Run step c events d) :
    ∀ ev ∈ events, step ev.before ev.op ev.reply ev.after := by
  induction hrun with
  | nil => exact nofun
  | snoc _ _ hstep ih =>
    intro ev hev
    obtain hev | hev := List.mem_append.mp hev
    · exact ih ev hev
    · obtain rfl := List.mem_singleton.mp hev
      exact hstep

/-- A run can be cut before any of its events. -/
theorem Run.split [DecidableEq P] {step : σ → (op : Op) → Reply op → σ → Prop}
    {c d : Config P Op Reply α σ} {events before after : List (Event P Op Reply σ)}
    {ev : Event P Op Reply σ} (hrun : Run step c events d) (hevents : events = before ++ ev::after) :
    ∃ u, Run step c before u ∧ u.state = ev.before ∧ (u.process ev.process).history = ev.history := by
  induction hrun generalizing after with
  | nil => simp at hevents
  | @snoc events d i op next r t hrun _ _ ih =>
    obtain rfl | ⟨after,last,rfl⟩ := List.eq_nil_or_concat after
    · obtain ⟨rfl,hlast⟩ := List.append_inj' hevents rfl
      obtain rfl := List.singleton_inj.mp hlast
      exact ⟨d,hrun,rfl,rfl⟩
    · rw [List.concat_eq_append,← List.cons_append,← List.append_assoc] at hevents
      exact ih (List.append_inj' hevents rfl).1

/-- What holds behind an event and is kept by all later ones. -/
theorem Run.after_event [DecidableEq P] {step : σ → (op : Op) → Reply op → σ → Prop}
    {c d : Config P Op Reply α σ} {events before after : List (Event P Op Reply σ)}
    {ev : Event P Op Reply σ} {I : σ → Prop} (hrun : Run step c events d) (hevents : events = before ++ ev::after)
    (hstart : I ev.after)
    (hkeep : ∀ e ∈ after, step e.before e.op e.reply e.after → I e.before → I e.after) : I d.state := by
  induction hrun generalizing after with
  | nil => simp at hevents
  | @snoc events d i op next r t _ _ hstep ih =>
    obtain rfl | ⟨after,last,rfl⟩ := List.eq_nil_or_concat after
    · obtain ⟨-,hlast⟩ := List.append_inj' hevents rfl
      obtain rfl := List.singleton_inj.mp hlast
      exact hstart
    · rw [List.concat_eq_append] at hevents hkeep
      rw [← List.cons_append,← List.append_assoc] at hevents
      obtain ⟨hearlier,hlast⟩ := List.append_inj' hevents rfl
      obtain rfl := List.singleton_inj.mp hlast
      have hbefore := ih hearlier fun e he => hkeep e (List.mem_append_left _ he)
      exact hkeep _ (List.mem_append_right _ (List.mem_singleton_self _)) hstep hbefore

/-- A process remembers its calls in the run. -/
theorem Run.history_of_event [DecidableEq P] {step : σ → (op : Op) → Reply op → σ → Prop}
    {c d : Config P Op Reply α σ} {events : List (Event P Op Reply σ)} (hrun : Run step c events d) :
    ∀ ev ∈ events, ⟨ev.op,ev.reply⟩::ev.history <:+ (d.process ev.process).history := by
  induction hrun with
  | nil => exact nofun
  | @snoc events d i op next r t _ _ _ ih =>
    have hgrows (j : P) : (d.process j).history <:+ ((d.answer i op next r t).process j).history := by
      by_cases hji : j = i
      · subst hji
        simp only [Config.answer,Function.update_self]
        exact List.suffix_cons _ _
      · simp only [Config.answer,Function.update_of_ne hji]
        exact List.suffix_refl _
    intro ev hev
    obtain hev | hev := List.mem_append.mp hev
    · exact (ih ev hev).trans (hgrows ev.process)
    · obtain rfl := List.mem_singleton.mp hev
      simp only [Config.answer,Function.update_self]
      exact List.suffix_refl _

/-- What a process remembered when it made a call is in the run. -/
theorem Run.event_of_mem [DecidableEq P] {step : σ → (op : Op) → Reply op → σ → Prop}
    {c d : Config P Op Reply α σ} {events : List (Event P Op Reply σ)} (hrun : Run step c events d)
    (hstart : ∀ i, (c.process i).history = []) {ev : Event P Op Reply σ} (hev : ev ∈ events)
    {x : (op : Op) × Reply op} (hx : x ∈ ev.history) :
    ∃ e ∈ events, e.process = ev.process ∧ x = ⟨e.op,e.reply⟩ := by
  obtain ⟨later,earlier,hhistory⟩ := List.append_of_mem hx
  have hsuffix : x::earlier <:+ (d.process ev.process).history :=
    (hhistory ▸ List.suffix_append later _ : x::earlier <:+ ev.history).trans
      ((List.suffix_cons _ _).trans (hrun.history_of_event ev hev))
  obtain ⟨e,he,hprocess,-,heq⟩ := hrun.event_of_history (hstart _) hsuffix
  exact ⟨e,he,hprocess,heq⟩

/-- What a process may count on and what it owes: `rely` is what the others may do between two
calls, `permit` when a call is made, and `guarantee` what the call then does. -/
structure Protocol (Op : Type) (Reply : Op → Type) (σ : Type) where
  step : σ → (op : Op) → Reply op → σ → Prop
  rely : σ → σ → Prop
  permit : History Op Reply → Op → σ → Prop
  guarantee : History Op Reply → (op : Op) → Reply op → σ → σ → Prop
  rely_refl : ∀ s, rely s s
  rely_trans : ∀ {s t u}, rely s t → rely t u → rely s u
  rely_of_guarantee : ∀ {h op r s t}, guarantee h op r s t → rely s t

namespace Protocol

variable (R : Protocol Op Reply σ)

/-- A call in the midst of others. -/
def calls : Transformer Op Reply (History Op Reply × σ) where
  pre op Q s := ∀ u, R.rely s.2 u → R.permit s.1 op u → ∀ r t, R.step u op r t →
    R.guarantee s.1 op r u t ∧ Q r (⟨op,r⟩::s.1,t)
  mono h hP u hrely hpermit r t hstep :=
    (hP u hrely hpermit r t hstep).imp_right (h r _)

/-- A condition that the other processes cannot falsify. -/
def Stable (Q : α → History Op Reply × σ → Prop) : Prop :=
  ∀ a h s t, Q a (h,s) → R.rely s t → Q a (h,t)

variable {R}

theorem Stable.wp {Q : α → History Op Reply × σ → Prop} (hQ : R.Stable Q)
    {p : Program Op Reply α} {h : History Op Reply} {s t : σ} (hp : wp R.calls p Q (h,s))
    (hrely : R.rely s t) : wp R.calls p Q (h,t) := by
  cases p with
  | done a => exact hQ a h s t hp hrely
  | request op next => exact fun u hu => hp u (R.rely_trans hrely hu)

/-- Processes that are each verified on their own stay so in every run of all of them. -/
theorem wp_run [DecidableEq P] {Q : P → α → History Op Reply × σ → Prop}
    (hQ : ∀ i, R.Stable (Q i)) {c d : Config P Op Reply α σ} {events : List (Event P Op Reply σ)}
    (hrun : Run R.step c events d) (hpermit : ∀ ev ∈ events, R.permit ev.history ev.op ev.before)
    (hsafe : ∀ i, wp R.calls (c.process i).program (Q i) ((c.process i).history,c.state)) :
    (∀ i, wp R.calls (d.process i).program (Q i) ((d.process i).history,d.state)) ∧
    R.rely c.state d.state ∧
    ∀ ev ∈ events, R.guarantee ev.history ev.op ev.reply ev.before ev.after := by
  induction hrun with
  | nil => exact ⟨hsafe,R.rely_refl _,nofun⟩
  | @snoc events d i op next r t _ hprogram hstep ih =>
    obtain ⟨hwp,hrely,hguarantee⟩ := ih fun ev hev => hpermit ev (List.mem_append_left _ hev)
    have hcall := hwp i
    rw [hprogram] at hcall
    have hlast := hpermit _ (List.mem_append_right events (List.mem_singleton_self _))
    obtain ⟨howed,hnext⟩ := hcall d.state (R.rely_refl _) hlast r t hstep
    have hmoved := R.rely_of_guarantee howed
    refine ⟨fun j => ?_,R.rely_trans hrely hmoved,fun ev hev => ?_⟩
    · by_cases hji : j = i
      · subst hji
        simpa only [Config.answer,Function.update_self] using hnext
      · simpa only [Config.answer,Function.update_of_ne hji] using (hQ j).wp (hwp j) hmoved
    · obtain hev | hev := List.mem_append.mp hev
      · exact hguarantee ev hev
      · obtain rfl := List.mem_singleton.mp hev
        exact howed

end Protocol

/-! What a process calls, by what it was told before. This does not depend on what the others do. -/

/-- The program comes to another one when its calls are answered so. -/
inductive Reaches (p : Program Op Reply α) : History Op Reply → Program Op Reply α → Prop
  | nil : Reaches p [] p
  | cons {h op next} (r : Reply op) : Reaches p h (.request op next) → Reaches p (⟨op,r⟩::h) (next r)

theorem Reaches.call {p q : Program Op Reply α} {h : History Op Reply} {op : Op} {next : Reply op → Program Op Reply α}
    {r : Reply op} (hreaches : Reaches p h (.request op next)) (hnext : next r = q) : Reaches p (⟨op,r⟩::h) q :=
  hnext ▸ hreaches.cons r

/-- The calls that are allowed after a history. -/
def Program.Transformer.guarded (guard : History Op Reply → Op → Prop) :
    Transformer Op Reply (History Op Reply) where
  pre op Q h := guard h op ∧ ∀ r, Q r (⟨op,r⟩::h)
  mono h hP := ⟨hP.1,fun r => h r _ (hP.2 r)⟩

section Guard

variable {guard : History Op Reply → Op → Prop} {Q : α → History Op Reply → Prop}
  {p q : Program Op Reply α} {h : History Op Reply}

theorem Reaches.wp (hreaches : Reaches p h q) (hwp : wp (.guarded guard) p Q []) :
    wp (.guarded guard) q Q h := by
  induction hreaches with
  | nil => exact hwp
  | cons r _ ih => exact ih.2 r

/-- A guarded program makes only allowed calls. -/
theorem Reaches.allowed {op : Op} {next : Reply op → Program Op Reply α}
    (hreaches : Reaches p h (.request op next)) (hwp : Program.wp (.guarded guard) p Q []) : guard h op :=
  (hreaches.wp hwp).1

theorem Reaches.post {a : α} (hreaches : Reaches p h (.done a)) (hwp : Program.wp (.guarded guard) p Q []) :
    Q a h := hreaches.wp hwp

/-- Each call behind a program was allowed. -/
theorem Reaches.guard_of_mem (hreaches : Reaches p h q) (hwp : Program.wp (.guarded guard) p Q [])
    {x : (op : Op) × Reply op} (hx : x ∈ h) : ∃ h', guard h' x.1 := by
  induction hreaches with
  | nil => exact absurd hx List.not_mem_nil
  | cons r hreaches ih =>
    obtain rfl | hx := List.mem_cons.mp hx
    · exact ⟨_,hreaches.allowed hwp⟩
    · exact ih hx

theorem wp_reaches (p : Program Op Reply α) :
    Program.wp (.guarded fun h op => ∃ next, Reaches p h (.request op next)) p
      (fun a h => Reaches p h (.done a)) [] := by
  suffices hall : ∀ q h, Reaches p h q → Program.wp (.guarded fun h op => ∃ next, Reaches p h (.request op next))
      q (fun a h => Reaches p h (.done a)) h from hall p [] .nil
  intro q
  induction q with
  | done a => exact fun h hreaches => hreaches
  | request op next ih => exact fun h hreaches => ⟨⟨next,hreaches⟩,fun r => ih r _ (.cons r hreaches)⟩

/-- Calls are only added to a history. -/
theorem wp_grows (p : Program Op Reply α) (h : History Op Reply) :
    Program.wp (.guarded fun _ _ => True) p (fun _ h' => h <:+ h') h := by
  suffices hall : ∀ h', h <:+ h' → Program.wp (.guarded fun _ _ => True) p (fun _ h'' => h <:+ h'') h' from
    hall h (List.suffix_refl h)
  induction p with
  | done a => exact fun h' hh' => hh'
  | request op next ih => exact fun h' hh' => ⟨trivial,fun r => ih r _ (hh'.trans (List.suffix_cons _ h'))⟩

theorem wp_guarded_and {guard' : History Op Reply → Op → Prop} {Q' : α → History Op Reply → Prop}
    (hwp : wp (.guarded guard) p Q h) (hwp' : wp (.guarded guard') p Q' h) :
    wp (.guarded fun h op => guard h op ∧ guard' h op) p (fun a h => Q a h ∧ Q' a h) h := by
  induction p generalizing h with
  | done a => exact ⟨hwp,hwp'⟩
  | request op next ih => exact ⟨⟨hwp.1,hwp'.1⟩,fun r => ih r (hwp.2 r) (hwp'.2 r)⟩

theorem wp_guarded_mono {guard' : History Op Reply → Op → Prop} (hguard : ∀ h op, guard h op → guard' h op)
    (hwp : wp (.guarded guard) p Q h) : wp (.guarded guard') p Q h := by
  induction p generalizing h with
  | done a => exact hwp
  | request op next ih => exact ⟨hguard h op hwp.1,fun r => ih r (hwp.2 r)⟩

theorem ensures_guarded_ask {ε β : Type} {op : Op} {f : Reply op → Fallible Op Reply ε β}
    {Q : Except ε β → History Op Reply → Prop} (hop : guard h op)
    (hnext : ∀ r, Ensures (.guarded guard) (f r) (⟨op,r⟩::h) Q) :
    Ensures (.guarded guard) (ask op >>= f) h Q :=
  ensures_bind.mpr ⟨hop,hnext⟩

variable [DecidableEq P] {step : σ → (op : Op) → Reply op → σ → Prop} {c d : Config P Op Reply α σ}
  {events : List (Event P Op Reply σ)}

/-- In a run of many processes each one comes to what it has reached on its own. -/
theorem Run.reaches (hrun : Run step c events d) (hstart : ∀ i, (c.process i).history = []) :
    (∀ i, Reaches (c.process i).program (d.process i).history (d.process i).program) ∧
      ∀ ev ∈ events, ∃ next, Reaches (c.process ev.process).program ev.history (.request ev.op next) := by
  induction hrun with
  | nil => exact ⟨fun i => hstart i ▸ .nil,nofun⟩
  | @snoc events d i op next r t _ hprogram hstep ih =>
    have hcall := ih.1 i
    rw [hprogram] at hcall
    refine ⟨fun j => ?_,fun ev hev => ?_⟩
    · by_cases hji : j = i
      · subst hji
        simpa only [Config.answer,Function.update_self] using hcall.cons r
      · simpa only [Config.answer,Function.update_of_ne hji] using ih.1 j
    · obtain hev | hev := List.mem_append.mp hev
      · exact ih.2 ev hev
      · obtain rfl := List.mem_singleton.mp hev
        exact ⟨next,hcall⟩

end Guard

/-! A process that goes on alone. -/

section Alone

/-- The states that the calls of a history lead through. -/
inductive Steps (step : σ → (op : Op) → Reply op → σ → Prop) (s : σ) : History Op Reply → σ → Prop
  | nil : Steps step s [] s
  | cons {h op r t u} : Steps step s h t → step t op r u → Steps step s (⟨op,r⟩::h) u

/-- The calls of a history lead through the same states where more steps are possible. -/
theorem Steps.mono {step step' : σ → (op : Op) → Reply op → σ → Prop} (h : ∀ s op r t, step s op r t → step' s op r t)
    {s t : σ} {calls : History Op Reply} (hsteps : Steps step s calls t) : Steps step' s calls t := by
  induction hsteps with
  | nil => exact .nil
  | cons _ hstep ih => exact .cons ih (h _ _ _ _ hstep)

/-- The calls of a whole run of a program. -/
theorem exists_history {step : σ → (op : Op) → Reply op → σ → Prop} {p : Program Op Reply α} {s t : σ} {a : α}
    (hexec : Exec step p s a t) : ∃ h, Reaches p h (.done a) ∧ Steps step s h t := by
  suffices hall : ∀ q u h, Reaches p h q → Steps step s h u → Exec step q u a t →
      ∃ h, Reaches p h (.done a) ∧ Steps step s h t from hall p s [] .nil .nil hexec
  intro q
  induction q with
  | done b =>
    rintro u h hreaches hsteps ⟨rfl,rfl⟩
    exact ⟨h,hreaches,hsteps⟩
  | request op next ih =>
    rintro u h hreaches hsteps ⟨r,v,hstep,hnext⟩
    exact ih r v _ (hreaches.cons r) (hsteps.cons hstep) hnext

/-- A program that has come to a call may make it. -/
theorem Reaches.turn {step : σ → (op : Op) → Reply op → σ → Prop} {p q : Program Op Reply α} {h : History Op Reply}
    {s t u : σ} {op : Op} {next : Reply op → Program Op Reply α} {r : Reply op} (hreaches : Reaches p h q)
    (hsteps : Steps step s h t) (hq : q = .request op next) (hstep : step t op r u) :
    Reaches p (⟨op,r⟩::h) (next r) ∧ Steps step s (⟨op,r⟩::h) u := by
  subst hq
  exact ⟨hreaches.cons r,hsteps.cons hstep⟩

/-- What a program comes to alone, with the state behind its calls. -/
def Comes (step : σ → (op : Op) → Reply op → σ → Prop) (p : Program Op Reply α) (s : σ) (q : Program Op Reply α)
    (t : σ) : Prop := ∃ h, Reaches p h q ∧ Steps step s h t

theorem Comes.refl {step : σ → (op : Op) → Reply op → σ → Prop} {p : Program Op Reply α} {s : σ} : Comes step p s p s :=
  ⟨[],.nil,.nil⟩

theorem Comes.turn {step : σ → (op : Op) → Reply op → σ → Prop} {p q : Program Op Reply α} {s t u : σ} {op : Op}
    {next : Reply op → Program Op Reply α} {r : Reply op} (hcomes : Comes step p s q t) (hq : q = .request op next)
    (hstep : step t op r u) : Comes step p s (next r) u := by
  obtain ⟨h,hreaches,hsteps⟩ := hcomes
  exact ⟨_,hreaches.turn hsteps hq hstep⟩

/-- A process may make its next call. -/
theorem Run.turn [DecidableEq P] {step : σ → (op : Op) → Reply op → σ → Prop} {c d : Config P Op Reply α σ}
    {events : List (Event P Op Reply σ)} (hrun : Run step c events d) {i : P} {h : History Op Reply} {op : Op}
    {p : Program Op Reply α} {next : Reply op → Program Op Reply α} {r : Reply op} {s t : σ}
    (hi : d.process i = ⟨p,h⟩) (hp : p = .request op next) (hs : d.state = s) (hstep : step s op r t) :
    ∃ e, Run step c (events ++ [⟨i,h,op,r,s,t⟩]) e ∧ e.state = t ∧ e.process i = ⟨next r,⟨op,r⟩::h⟩ ∧
      ∀ j, j ≠ i → e.process j = d.process j := by
  have hprogram : (d.process i).program = .request op next := hi ▸ hp
  subst hs
  have hsnoc := hrun.snoc hprogram hstep
  rw [hi] at hsnoc
  refine ⟨_,hsnoc,rfl,?_,fun j hj => Function.update_of_ne hj _ _⟩
  simp only [Config.answer,Function.update_self,hi]

/-- A process may go on alone. -/
theorem Run.along [DecidableEq P] {step : σ → (op : Op) → Reply op → σ → Prop} {c d : Config P Op Reply α σ}
    {events : List (Event P Op Reply σ)} (hrun : Run step c events d) {i : P} {p q : Program Op Reply α}
    {h : History Op Reply} {s t : σ} (hi : d.process i = ⟨p,[]⟩) (hs : d.state = s) (hpath : Reaches p h q)
    (hsteps : Steps step s h t) :
    ∃ calls e, Run step c (events ++ calls) e ∧ e.state = t ∧ e.process i = ⟨q,h⟩ ∧
      ∀ j, j ≠ i → e.process j = d.process j := by
  subst hs
  induction hpath generalizing t with
  | nil =>
    cases hsteps
    exact ⟨[],d,by rwa [List.append_nil],rfl,hi,fun _ _ => rfl⟩
  | cons r _ ih =>
    obtain _ | ⟨hsteps,hstep⟩ := hsteps
    obtain ⟨calls,e,he,rfl,hei,hej⟩ := ih hsteps
    obtain ⟨e',he',hstate,hi',hj'⟩ := he.turn hei rfl rfl hstep
    rw [List.append_assoc] at he'
    exact ⟨_,e',he',hstate,hi',fun j hj => (hj' j hj).trans (hej j hj)⟩

variable {step : σ → (op : Op) → Reply op → σ → Prop} {I : History Op Reply → Op → σ → Prop} {Q : α → History Op Reply × σ → Prop}
  {p q : Program Op Reply α} {h : History Op Reply} {s t : σ}

variable (step I) in
/-- The calls of a program that runs alone, each of which must be made where a condition holds. -/
def Program.Transformer.watched : Transformer Op Reply (History Op Reply × σ) where
  pre op Q s := I s.1 op s.2 ∧ ∀ r t, step s.2 op r t → Q r (⟨op,r⟩::s.1,t)
  mono h hP := ⟨hP.1,fun r t hstep => h r _ (hP.2 r t hstep)⟩

/-- Wherever a program comes to, what it does from there on is as required. -/
theorem Reaches.watched (hreaches : Reaches p h q) (hsteps : Steps step s h t)
    (hwp : Program.wp (.watched step I) p Q ([],s)) : Program.wp (.watched step I) q Q (h,t) := by
  induction hreaches generalizing t with
  | nil =>
    cases hsteps
    exact hwp
  | cons r _ ih =>
    obtain _ | ⟨hsteps,hstep⟩ := hsteps
    exact (ih hsteps).2 r t hstep

end Alone

/-! Runs by a schedule. -/

section Schedule

variable [DecidableEq P] {Choice : Type} (outcome : Choice → (op : Op) → σ → Reply op × σ)

namespace Config

/-- The next process makes its call, if it has one. -/
def advance (c : Config P Op Reply α σ) (turn : P × Choice) : Config P Op Reply α σ :=
  match (c.process turn.1).program with
  | .done _ => c
  | .request op next =>
    c.answer turn.1 op next (outcome turn.2 op c.state).1 (outcome turn.2 op c.state).2

def called (c : Config P Op Reply α σ) (turn : P × Choice) : List (Event P Op Reply σ) :=
  match (c.process turn.1).program with
  | .done _ => []
  | .request op _ => [⟨turn.1,(c.process turn.1).history,op,(outcome turn.2 op c.state).1,c.state,
      (outcome turn.2 op c.state).2⟩]

/-- The configuration after a schedule. -/
def follow (c : Config P Op Reply α σ) : List (P × Choice) → Config P Op Reply α σ
  | [] => c
  | turn::schedule => (c.advance outcome turn).follow schedule

/-- The calls of a schedule. -/
def trace (c : Config P Op Reply α σ) : List (P × Choice) → List (Event P Op Reply σ)
  | [] => []
  | turn::schedule => c.called outcome turn ++ (c.advance outcome turn).trace schedule

end Config

variable {outcome} {step : σ → (op : Op) → Reply op → σ → Prop} {c d : Config P Op Reply α σ}
  {events : List (Event P Op Reply σ)}

theorem Run.advance (houtcome : ∀ choice op s, step s op (outcome choice op s).1 (outcome choice op s).2)
    (hrun : Run step c events d) (turn : P × Choice) :
    Run step c (events ++ d.called outcome turn) (d.advance outcome turn) := by
  cases hprogram : (d.process turn.1).program with
  | done a =>
    simp only [Config.called,Config.advance,hprogram,List.append_nil]
    exact hrun
  | request op next =>
    simp only [Config.called,Config.advance,hprogram]
    exact hrun.snoc hprogram (houtcome _ _ _)

theorem Run.follow (houtcome : ∀ choice op s, step s op (outcome choice op s).1 (outcome choice op s).2)
    (hrun : Run step c events d) (schedule : List (P × Choice)) :
    Run step c (events ++ d.trace outcome schedule) (d.follow outcome schedule) := by
  induction schedule generalizing d events with
  | nil =>
    rw [Config.trace,List.append_nil]
    exact hrun
  | cons turn schedule ih =>
    rw [Config.trace,← List.append_assoc]
    exact ih (hrun.advance houtcome turn)

end Schedule
end Avault.Foundation
