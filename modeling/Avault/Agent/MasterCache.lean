import Avault.Agent.State
import Avault.Foundation.Interleaving

/-! The resident agent's copy of the standard master. -/
namespace Avault.Agent
open Foundation Crypto
open Foundation.Program (Fallible ask wp)

structure CachedMaster where
  key : Key
  lastUsed : Instant
deriving DecidableEq

/-- The cell behind the `cached` lock, and whether the `loading` lock is held. -/
structure MasterCell where
  cached : Option CachedMaster
  loading : Bool
deriving DecidableEq

namespace MasterCell

/-- `AgentMasterCache::expire`, and with it `purge`. -/
def expire (idleTimeout : Duration) (cell : MasterCell) (now : Instant) : MasterCell :=
  { cell with cached := cell.cached.filter fun cached => ¬ idleTimeout ≤ now-cached.lastUsed }

def useCached (idleTimeout : Duration) (cell : MasterCell) (now : Instant) : Option Key × MasterCell :=
  let cell := cell.expire idleTimeout now
  (cell.cached.map (·.key),{ cell with cached := cell.cached.map fun cached => { cached with lastUsed := now } })

def fill (cell : MasterCell) (key : Key) (now : Instant) : MasterCell :=
  { cell with cached := some ⟨key,now⟩ }

end MasterCell

/-- The critical sections of the `cached` lock, with the reading made inside each, the `loading`
lock, and the loader. -/
inductive CacheOp
  | useCached
  | lockLoading
  | load
  | fill (key : Key)
  | unlockLoading
  | purge
deriving DecidableEq

def CacheOp.Reply : CacheOp → Type
  | useCached => Option Key
  | load => Result Key
  | _ => Unit

inductive AgentMasterSource
  | unlocked (master : Key)
  /-- A loader of the machine store. -/
  | store

abbrev CacheM (α : Type) := Fallible CacheOp CacheOp.Reply Error α

namespace AgentMasterCache

def useCached : CacheM (Option Key) := ask CacheOp.useCached
def lockLoading : CacheM Unit := ask CacheOp.lockLoading
def load : CacheM (Result Key) := ask CacheOp.load
def fill (key : Key) : CacheM Unit := ask (CacheOp.fill key)
def unlockLoading : CacheM Unit := ask CacheOp.unlockLoading

/-- `get` from the `loading` lock on, whose guard is dropped on every way out. -/
def getLocked : CacheM Key := do
  match ← useCached with
  | some master => do
    unlockLoading
    return master
  | none => do
    match context "failed to load standard master key" (← load) with
    | .ok master => do
      fill master
      unlockLoading
      return master
    | .error e => do
      unlockLoading
      throw e

def get : AgentMasterSource → CacheM Key
  | .unlocked master => return master
  | .store => do
    match ← useCached with
    | some master => return master
    | none => do
      lockLoading
      getLocked

def purge : CacheM Unit := ask CacheOp.purge

end AgentMasterCache

/-- One step, at a reading that is not before the last one. The loader takes any time. -/
inductive CacheStep (idleTimeout : Duration) :
    Instant × MasterCell → (op : CacheOp) → op.Reply → Instant × MasterCell → Prop
  | useCached {now n cell} : now ≤ n →
    CacheStep idleTimeout (now,cell) .useCached (cell.useCached idleTimeout n).1
      (n,(cell.useCached idleTimeout n).2)
  | lockLoading {now cell} : cell.loading = false →
    CacheStep idleTimeout (now,cell) .lockLoading () (now,{ cell with loading := true })
  | load {now n cell} {r : Result Key} : now ≤ n →
    CacheStep idleTimeout (now,cell) .load r (n,cell)
  | fill {now n cell key} : now ≤ n →
    CacheStep idleTimeout (now,cell) (.fill key) () (n,cell.fill key n)
  | unlockLoading {now cell} :
    CacheStep idleTimeout (now,cell) .unlockLoading () (now,{ cell with loading := false })
  | purge {now n cell} : now ≤ n →
    CacheStep idleTimeout (now,cell) .purge () (n,cell.expire idleTimeout n)

/-- What runs concurrently on the cache. -/
inductive CacheTask
  | get
  | purge

def CacheTask.program : CacheTask → Program CacheOp CacheOp.Reply (Result (Option Key))
  | get => (do return some (← AgentMasterCache.get .store) : CacheM (Option Key)).run
  | purge => (do AgentMasterCache.purge; return none : CacheM (Option Key)).run

abbrev CacheCalls := History CacheOp CacheOp.Reply

/-- The calls of a `get` that found nothing and then took the `loading` lock. -/
def lockedCalls : CacheCalls := [⟨.lockLoading,()⟩,⟨.useCached,none⟩]

/-- What `get` returns, with all the calls it has made. -/
inductive GetOutcome : Result Key → CacheCalls → Prop
  | hit {key} : GetOutcome (.ok key) [⟨.useCached,some key⟩]
  | waited {key} : GetOutcome (.ok key) (⟨.unlockLoading,()⟩::⟨.useCached,some key⟩::lockedCalls)
  | loaded {key} : GetOutcome (.ok key)
    (⟨.unlockLoading,()⟩::⟨.fill key,()⟩::⟨.load,.ok key⟩::⟨.useCached,none⟩::lockedCalls)
  | failed {e} : GetOutcome (.error (.message "failed to load standard master key"::e))
    (⟨.unlockLoading,()⟩::⟨.load,.error e⟩::⟨.useCached,none⟩::lockedCalls)

def CacheTask.Outcome : CacheTask → Result (Option Key) → CacheCalls → Prop
  | get,r,h => ∃ r', GetOutcome r' h ∧ r = r'.map some
  | purge,r,_ => r = .ok none

/-- The `loading` lock was taken and not released since. -/
def holding : CacheCalls → Bool
  | [] => false
  | ⟨.lockLoading,_⟩::_ => true
  | ⟨.unlockLoading,_⟩::_ => false
  | _::h => holding h

/-- The loader is called, and its key stored, only after a second look under the lock. -/
def CacheGuard (h : CacheCalls) : CacheOp → Prop
  | .load => h = ⟨.useCached,none⟩::lockedCalls
  | .fill key => h = ⟨.load,.ok key⟩::⟨.useCached,none⟩::lockedCalls
  | .lockLoading => holding h = false
  | .unlockLoading => holding h = true
  | _ => True

theorem cacheTask_guarded (task : CacheTask) :
    wp (.guarded CacheGuard) task.program task.Outcome [] := by
  cases task with
  | purge => exact ⟨trivial,fun _ => rfl⟩
  | get =>
    refine ⟨trivial,fun found => ?_⟩
    match found with
    | some key => exact ⟨_,.hit,rfl⟩
    | none =>
      refine ⟨rfl,fun _ => ⟨trivial,fun found => ?_⟩⟩
      match found with
      | some key => exact ⟨rfl,fun _ => ⟨_,.waited,rfl⟩⟩
      | none =>
        refine ⟨rfl,fun loaded => ?_⟩
        match loaded with
        | .ok key => exact ⟨rfl,fun _ => ⟨rfl,fun _ => ⟨_,.loaded,rfl⟩⟩⟩
        | .error e => exact ⟨rfl,fun _ => ⟨_,.failed,rfl⟩⟩

section Runs

variable {P : Type} [DecidableEq P] {idleTimeout : Duration} {tasks : P → CacheTask} {now : Instant}

abbrev CacheConfig (P : Type) : Type :=
  Config P CacheOp CacheOp.Reply (Result (Option Key)) (Instant × MasterCell)

abbrev CacheEvent (P : Type) : Type := Event P CacheOp CacheOp.Reply (Instant × MasterCell)

/-- All tasks at their start, with an empty cache. -/
def cacheStart (tasks : P → CacheTask) (now : Instant) : CacheConfig P :=
  Config.start (fun i => (tasks i).program) (now,⟨none,false⟩)

abbrev CacheRun (idleTimeout : Duration) (tasks : P → CacheTask) (now : Instant) :
    List (CacheEvent P) → CacheConfig P → Prop := Run (CacheStep idleTimeout) (cacheStart tasks now)

variable {events : List (CacheEvent P)} {d : CacheConfig P}

theorem CacheRun.reaches (hrun : CacheRun idleTimeout tasks now events d) (i : P) :
    Reaches (tasks i).program (d.process i).history (d.process i).program :=
  (Run.reaches hrun fun _ => rfl).1 i

/-- A process that awaits a call was allowed to make it. -/
theorem CacheRun.guard_of_awaits (hrun : CacheRun idleTimeout tasks now events d) {i : P} {op : CacheOp}
    (h : (d.process i).Awaits op) : CacheGuard (d.process i).history op := by
  obtain ⟨next,hprogram⟩ := h
  exact (hprogram ▸ hrun.reaches i).allowed (cacheTask_guarded (tasks i))

/-- At most one process holds the `loading` lock, and no reading is from the future. -/
structure CacheInv (d : CacheConfig P) : Prop where
  locked : ∀ i, holding (d.process i).history = true → d.state.2.loading = true
  exclusive : ∀ i j, holding (d.process i).history = true → holding (d.process j).history = true → i = j
  clock : ∀ cached, d.state.2.cached = some cached → cached.lastUsed ≤ d.state.1

theorem expire_eq_some {cell : MasterCell} {n : Instant} {cached : CachedMaster} :
    (cell.expire idleTimeout n).cached = some cached ↔
      cell.cached = some cached ∧ n-cached.lastUsed < idleTimeout := by
  simp [MasterCell.expire,Option.filter_eq_some_iff]

theorem CacheStep.now_le {s t : Instant × MasterCell} {op : CacheOp} {r : op.Reply}
    (h : CacheStep idleTimeout s op r t) : s.1 ≤ t.1 := by
  cases h <;> first | assumption | exact Nat.le_refl _

theorem CacheStep.clock {s t : Instant × MasterCell} {op : CacheOp} {r : op.Reply}
    (h : CacheStep idleTimeout s op r t)
    (hclock : ∀ cached, s.2.cached = some cached → cached.lastUsed ≤ s.1) :
    ∀ cached, t.2.cached = some cached → cached.lastUsed ≤ t.1 := by
  intro cached hcached
  cases h with
  | useCached hn =>
    obtain ⟨old,_,rfl⟩ := Option.map_eq_some_iff.mp hcached
    exact Nat.le_refl _
  | lockLoading | unlockLoading => exact hclock cached hcached
  | load hn => exact (hclock cached hcached).trans hn
  | fill hn =>
    obtain rfl := Option.some.inj hcached
    exact Nat.le_refl _
  | purge hn => exact (hclock cached (expire_eq_some.mp hcached).1).trans hn

/-- What a call does to the `loading` lock. -/
def LockStep (before after : Bool) : CacheOp → Prop
  | .lockLoading => before = false ∧ after = true
  | .unlockLoading => after = false
  | _ => after = before

theorem CacheStep.loading {s t : Instant × MasterCell} {op : CacheOp} {r : op.Reply}
    (h : CacheStep idleTimeout s op r t) : LockStep s.2.loading t.2.loading op := by
  cases h with
  | lockLoading hfree => exact ⟨hfree,rfl⟩
  | _ => rfl

theorem holding_answer {i j : P} {op : CacheOp}
    {next : op.Reply → Program CacheOp CacheOp.Reply (Result (Option Key))} {r : op.Reply}
    {t : Instant × MasterCell} : holding ((d.answer i op next r t).process j).history =
      if j = i then holding (⟨op,r⟩::(d.process i).history) else holding (d.process j).history := by
  by_cases hji : j = i
  · subst hji
    simp [Config.answer]
  · simp [Config.answer,hji]

theorem CacheRun.inv (hrun : CacheRun idleTimeout tasks now events d) : CacheInv d := by
  induction hrun with
  | nil => exact ⟨nofun,nofun,nofun⟩
  | @snoc events d i op next r t hrun hprogram hstep ih =>
    have hguard : CacheGuard (d.process i).history op := CacheRun.guard_of_awaits hrun ⟨next,hprogram⟩
    have hlock := hstep.loading
    have hclock := hstep.clock ih.clock
    -- a call that leaves the lock alone
    have hkeep (hsame : holding (⟨op,r⟩::(d.process i).history) = holding (d.process i).history)
        (hloading : t.2.loading = d.state.2.loading) : CacheInv (d.answer i op next r t) := by
      have hheld (j : P) : holding ((d.answer i op next r t).process j).history =
          holding (d.process j).history := by
        rw [holding_answer]
        split
        · next hji => rw [hsame,hji]
        · rfl
      refine ⟨fun j hj => ?_,fun j k hj hk => ?_,hclock⟩
      · rw [hheld] at hj
        exact hloading.trans (ih.locked j hj)
      · rw [hheld] at hj hk
        exact ih.exclusive j k hj hk
    cases op with
    | lockLoading =>
      have hfree (j : P) : holding (d.process j).history = false := by
        by_contra hj
        have hlocked := ih.locked j (by simpa using hj)
        rw [hlock.1] at hlocked
        cases hlocked
      have honly {j : P} (hj : holding ((d.answer i .lockLoading next r t).process j).history = true) :
          j = i := by
        by_contra hji
        rw [holding_answer,if_neg hji,hfree j] at hj
        cases hj
      exact ⟨fun _ _ => hlock.2,fun j k hj hk => (honly hj).trans (honly hk).symm,hclock⟩
    | unlockLoading =>
      have hnone {j : P} (hj : holding ((d.answer i .unlockLoading next r t).process j).history = true) :
          False := by
        rw [holding_answer] at hj
        split at hj
        · cases hj
        · next hji => exact hji (ih.exclusive j i hj hguard)
      exact ⟨fun _ hj => (hnone hj).elim,fun _ _ hj _ => (hnone hj).elim,hclock⟩
    | _ => exact hkeep rfl hlock

/-- From the second look that finds nothing until the loaded key is stored. -/
def Loading (h : CacheCalls) : Prop :=
  h = ⟨.useCached,none⟩::lockedCalls ∨ ∃ key, h = ⟨.load,.ok key⟩::⟨.useCached,none⟩::lockedCalls

theorem Loading.holding {h : CacheCalls} (hloading : Loading h) : holding h = true := by
  obtain rfl | ⟨key,rfl⟩ := hloading <;> rfl

/-- What a call finds and does while a key is fresh: everyone shares that key. -/
def SharesKey (key : Key) : (op : CacheOp) → op.Reply → Prop
  | .useCached,found => found = some key
  | .load,_ | .fill _,_ => False
  | _,_ => True

/-- The key is cached, last used at `since` or later, and nobody is loading another one. -/
structure Fresh (key : Key) (since : Instant) (d : CacheConfig P) : Prop where
  cached : ∃ lastUsed, d.state.2.cached = some ⟨key,lastUsed⟩ ∧ since ≤ lastUsed
  quiet : ∀ j, ¬ Loading (d.process j).history

theorem quiet_answer {i : P} {op : CacheOp}
    {next : op.Reply → Program CacheOp CacheOp.Reply (Result (Option Key))} {r : op.Reply}
    {t : Instant × MasterCell} (hi : ¬ Loading (⟨op,r⟩::(d.process i).history))
    (hothers : ∀ j ≠ i, ¬ Loading (d.process j).history) (j : P) :
    ¬ Loading ((d.answer i op next r t).process j).history := by
  by_cases hji : j = i
  · subst hji
    simpa [Config.answer] using hi
  · simpa [Config.answer,hji] using hothers j hji

/-- Storing a loaded key makes it fresh, since nobody else holds the `loading` lock. -/
theorem fresh_of_fill (hinv : CacheInv d) {i : P} {key : Key}
    {next : Unit → Program CacheOp CacheOp.Reply (Result (Option Key))} {t : Instant × MasterCell}
    (hguard : CacheGuard (d.process i).history (.fill key))
    (hstep : CacheStep idleTimeout d.state (.fill key) () t) :
    Fresh key t.1 (d.answer i (.fill key) next () t) := by
  have hholding : holding (d.process i).history = true := Loading.holding (.inr ⟨key,hguard⟩)
  constructor
  · generalize d.state = s at hstep
    cases hstep
    exact ⟨_,rfl,Nat.le_refl _⟩
  · refine quiet_answer ?_ fun j hji hj => hji (hinv.exclusive j i hj.holding hholding)
    rintro (h | ⟨_,h⟩) <;> cases h

/-- A fresh key stays fresh within the idle timeout. -/
theorem Fresh.step (hinv : CacheInv d) {key : Key} {since : Instant} (hfresh : Fresh key since d) {i : P}
    {op : CacheOp} {next : op.Reply → Program CacheOp CacheOp.Reply (Result (Option Key))} {r : op.Reply}
    {t : Instant × MasterCell} (hguard : CacheGuard (d.process i).history op)
    (hstep : CacheStep idleTimeout d.state op r t) (hwithin : t.1-since < idleTimeout) :
    SharesKey key op r ∧ Fresh key since (d.answer i op next r t) := by
  obtain ⟨⟨lastUsed,hcached,hsince⟩,hquiet⟩ := hfresh
  have hclock := hinv.clock _ hcached
  have hothers : ∀ j ≠ i, ¬ Loading (d.process j).history := fun j _ => hquiet j
  have hnot {x : (op : CacheOp) × op.Reply} (hne : x ≠ ⟨.useCached,none⟩)
      (hload : ∀ key, x ≠ ⟨.load,.ok key⟩) : ¬ Loading (x::(d.process i).history) := by
    rintro (h | ⟨key,h⟩)
    · exact hne (List.cons.inj h).1
    · exact hload key (List.cons.inj h).1
  generalize hs : d.state = s at hstep hcached hclock
  cases hstep with
  | @useCached now n cell hn =>
    have hlive : (cell.expire idleTimeout n).cached = some ⟨key,lastUsed⟩ :=
      expire_eq_some.mpr ⟨hcached,Nat.lt_of_le_of_lt (Nat.sub_le_sub_left hsince n) hwithin⟩
    have hreply : (cell.useCached idleTimeout n).1 = some key := by
      rw [MasterCell.useCached,hlive]
      rfl
    refine ⟨hreply,⟨n,?_,(hsince.trans hclock).trans hn⟩,
      quiet_answer (hnot (by rw [hreply]; rintro ⟨⟩) (fun _ => nofun)) hothers⟩
    change (cell.useCached idleTimeout n).2.cached = _
    rw [MasterCell.useCached,hlive]
    rfl
  | lockLoading hfree =>
    exact ⟨trivial,⟨lastUsed,hcached,hsince⟩,quiet_answer (hnot nofun fun _ => nofun) hothers⟩
  | load hn => exact (hquiet i (.inl hguard)).elim
  | fill hn => exact (hquiet i (.inr ⟨_,hguard⟩)).elim
  | unlockLoading =>
    exact ⟨trivial,⟨lastUsed,hcached,hsince⟩,quiet_answer (hnot nofun fun _ => nofun) hothers⟩
  | @purge now n cell hn =>
    refine ⟨trivial,⟨lastUsed,?_,hsince⟩,quiet_answer (hnot nofun fun _ => nofun) hothers⟩
    exact expire_eq_some.mpr ⟨hcached,Nat.lt_of_le_of_lt (Nat.sub_le_sub_left hsince n) hwithin⟩

/-- After a key was stored, whoever looks within the idle timeout gets it, and nobody loads. -/
theorem CacheRun.shares (hrun : CacheRun idleTimeout tasks now events d) {before after : List (CacheEvent P)}
    {e : CacheEvent P} {key : Key} (hevents : events = before ++ e::after) (hfill : e.op = .fill key) :
    (d.state.1-e.after.1 < idleTimeout → Fresh key e.after.1 d) ∧
      ∀ u ∈ after, u.after.1-e.after.1 < idleTimeout → SharesKey key u.op u.reply := by
  induction hrun generalizing after with
  | nil => simp at hevents
  | @snoc events d i op next r t hrun hprogram hstep ih =>
    have hinv : CacheInv d := CacheRun.inv hrun
    have hguard : CacheGuard (d.process i).history op := CacheRun.guard_of_awaits hrun ⟨next,hprogram⟩
    obtain rfl | ⟨after,last,rfl⟩ := List.eq_nil_or_concat after
    · -- the key is stored by the last call
      obtain ⟨-,he⟩ := List.append_inj' hevents rfl
      obtain rfl := List.singleton_inj.mp he
      cases hfill
      exact ⟨fun _ => fresh_of_fill hinv hguard hstep,nofun⟩
    · rw [List.concat_eq_append,← List.cons_append,← List.append_assoc] at hevents
      obtain ⟨hearlier,hlast⟩ := List.append_inj' hevents rfl
      obtain rfl := List.singleton_inj.mp hlast
      obtain ⟨hfresh,hshares⟩ := ih hearlier
      have hstep' (hwithin : t.1-e.after.1 < idleTimeout) :
          SharesKey key op r ∧ Fresh key e.after.1 (d.answer i op next r t) :=
        (hfresh (Nat.lt_of_le_of_lt (Nat.sub_le_sub_right hstep.now_le _) hwithin)).step hinv hguard hstep
          hwithin
      refine ⟨fun hwithin => (hstep' hwithin).2,fun u hu hwithin => ?_⟩
      obtain hu | hu := List.mem_append.mp (List.concat_eq_append ▸ hu)
      · exact hshares u hu hwithin
      · obtain rfl := List.mem_singleton.mp hu
        exact (hstep' hwithin).1

/-- A look hands out only a key that was used within the idle timeout, and one that finds
nothing, like a purge, leaves none that was not. -/
def LooksLive (idleTimeout : Duration) (s t : Instant × MasterCell) : (op : CacheOp) → op.Reply → Prop
  | .useCached,some key => ∃ lastUsed, s.2.cached = some ⟨key,lastUsed⟩ ∧ t.1-lastUsed < idleTimeout
  | .useCached,none => (∀ cached, s.2.cached = some cached → idleTimeout ≤ t.1-cached.lastUsed) ∧
    t.2.cached = none
  | .purge,_ => ∀ cached, s.2.cached = some cached → idleTimeout ≤ t.1-cached.lastUsed → t.2.cached = none
  | _,_ => True

theorem expire_eq_none {cell : MasterCell} {n : Instant} : (cell.expire idleTimeout n).cached = none ↔
    ∀ cached, cell.cached = some cached → idleTimeout ≤ n-cached.lastUsed := by
  simp [MasterCell.expire,Option.filter_eq_none_iff]

theorem CacheStep.looksLive {s t : Instant × MasterCell} {op : CacheOp} {r : op.Reply}
    (h : CacheStep idleTimeout s op r t) : LooksLive idleTimeout s t op r := by
  cases h with
  | @useCached now n cell hn =>
    cases hlive : (cell.expire idleTimeout n).cached with
    | none =>
      rw [MasterCell.useCached,hlive]
      exact ⟨expire_eq_none.mp hlive,rfl⟩
    | some cached =>
      rw [MasterCell.useCached,hlive]
      exact ⟨cached.lastUsed,expire_eq_some.mp hlive⟩
  | @purge now n cell hn =>
    intro cached hcached hidle
    apply expire_eq_none.mpr
    intro other hother
    obtain rfl := Option.some.inj (hcached.symm.trans hother)
    exact hidle
  | _ => trivial

/-- An entry that is still there was not used before the one that was there. -/
theorem CacheStep.forward {s t : Instant × MasterCell} {op : CacheOp} {r : op.Reply}
    (h : CacheStep idleTimeout s op r t)
    (hclock : ∀ cached, s.2.cached = some cached → cached.lastUsed ≤ s.1) {cached cached' : CachedMaster}
    (hs : s.2.cached = some cached) (ht : t.2.cached = some cached') :
    cached.lastUsed ≤ cached'.lastUsed := by
  have hold := hclock cached hs
  cases h with
  | useCached hn =>
    obtain ⟨_,_,rfl⟩ := Option.map_eq_some_iff.mp ht
    exact hold.trans hn
  | lockLoading | unlockLoading | load => exact Option.some.inj (hs.symm.trans ht) ▸ Nat.le_refl _
  | fill hn => exact Option.some.inj ht ▸ hold.trans hn
  | purge =>
    obtain rfl := Option.some.inj (hs.symm.trans (expire_eq_some.mp ht).1)
    exact Nat.le_refl _

theorem CacheRun.looks (hrun : CacheRun idleTimeout tasks now events d) : ∀ ev ∈ events,
    LooksLive idleTimeout ev.before ev.after ev.op ev.reply ∧ ∀ cached cached',
      ev.before.2.cached = some cached → ev.after.2.cached = some cached' →
        cached.lastUsed ≤ cached'.lastUsed := by
  induction hrun with
  | nil => exact nofun
  | @snoc events d i op next r t hrun hprogram hstep ih =>
    intro ev hev
    obtain hev | hev := List.mem_append.mp hev
    · exact ih ev hev
    · obtain rfl := List.mem_singleton.mp hev
      exact ⟨hstep.looksLive,fun _ _ hs ht => hstep.forward (CacheRun.inv hrun).clock hs ht⟩

/-- How the callers share the standard master. -/
structure SharedMaster (idleTimeout : Duration) (tasks : P → CacheTask) (events : List (CacheEvent P))
    (d : CacheConfig P) : Prop where
  oneLoad : ∀ i j, (d.process i).Awaits .load → (d.process j).Awaits .load → i = j
  /-- The caller holds the `loading` lock, and its look under it found no live key. -/
  loadsWhenEmpty : ∀ i, (d.process i).Awaits .load → holding (d.process i).history = true ∧
    ∃ ev ∈ events, ev.process = i ∧ ev.op = .useCached ∧ ev.history = lockedCalls ∧
      (d.process i).history = ⟨ev.op,ev.reply⟩::lockedCalls ∧
      ∀ cached, ev.before.2.cached = some cached → idleTimeout ≤ ev.after.1-cached.lastUsed
  shares : ∀ before e after key, events = before ++ e::after → e.op = .fill key →
    ∀ u ∈ after, u.after.1-e.after.1 < idleTimeout → SharesKey key u.op u.reply
  outcome : ∀ i r, (d.process i).program = .done r → (tasks i).Outcome r (d.process i).history
  forward : ∀ ev ∈ events, ∀ cached cached', ev.before.2.cached = some cached →
    ev.after.2.cached = some cached' → cached.lastUsed ≤ cached'.lastUsed
  live : ∀ ev ∈ events, LooksLive idleTimeout ev.before ev.after ev.op ev.reply

theorem agentMasterCache_shared (hrun : CacheRun idleTimeout tasks now events d) :
    SharedMaster idleTimeout tasks events d where
  oneLoad i j hi hj := by
    have hloading {i : P} (hi : (d.process i).Awaits .load) : holding (d.process i).history = true :=
      Loading.holding (.inl (hrun.guard_of_awaits hi))
    exact hrun.inv.exclusive i j (hloading hi) (hloading hj)
  loadsWhenEmpty i hi := by
    have hhistory : (d.process i).history = ⟨.useCached,none⟩::lockedCalls := hrun.guard_of_awaits hi
    refine ⟨Loading.holding (.inl hhistory),?_⟩
    obtain ⟨ev,hev,hprocess,hcalls,hlook⟩ := Run.event_of_history hrun (i := i) rfl
      (x := ⟨.useCached,none⟩) (h := lockedCalls) (hhistory ▸ List.suffix_refl _)
    refine ⟨ev,hev,hprocess,?_⟩
    have hlive := (hrun.looks ev hev).1
    obtain ⟨process,history,op,r,s,t⟩ := ev
    cases hlook
    exact ⟨rfl,hcalls,hhistory,hlive.1⟩
  shares before e after key hevents hfill := (hrun.shares hevents hfill).2
  outcome i r hdone := (hdone ▸ hrun.reaches i).post (cacheTask_guarded (tasks i))
  forward ev hev := (hrun.looks ev hev).2
  live ev hev := (hrun.looks ev hev).1

end Runs

/-- One caller loads a key, and another one that looks in time gets it. -/
theorem agentMasterCache_shared_two : ∃ events d,
    CacheRun (fromSecs 300) (fun _ : Bool => .get) 0 events d ∧ events.length = 7 ∧
      SharedMaster (fromSecs 300) (fun _ : Bool => .get) events d := by
  have hrun : CacheRun (fromSecs 300) (fun _ : Bool => .get) 0 [] _ := .nil
  have hrun := hrun.snoc (i := false) rfl (.useCached (n := 1) (by decide))
  have hrun := hrun.snoc (i := false) rfl (.lockLoading rfl)
  have hrun := hrun.snoc (i := false) rfl (.useCached (n := 2) (by decide))
  have hrun := hrun.snoc (i := false) rfl (.load (n := 5) (r := .ok (Vector.replicate 32 7)) (by decide))
  have hrun := hrun.snoc (i := false) rfl (.fill (n := 6) (by decide))
  have hrun := hrun.snoc (i := false) rfl .unlockLoading
  have hrun := hrun.snoc (i := true) rfl (.useCached (n := 7) (by decide))
  exact ⟨_,_,hrun,rfl,agentMasterCache_shared hrun⟩

end Avault.Agent
