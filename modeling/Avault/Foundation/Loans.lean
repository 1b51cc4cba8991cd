import Avault.Foundation.Interleaving
import Mathlib.Data.List.Nodup

/-! Processes that are lent things by what they call, each under a name, and that give them back.
Where every process gives back what it has been lent, what is out is what is still in use. -/
namespace Avault.Foundation
open Program

variable {P Op α β ε σ Name Thing : Type} {Reply : Op → Type}

/-- What some calls lend and others take back. A name is that of one thing as long as this is out. Of a call
on things that a process has, it is known by these what the call lends and what it can reply. -/
structure Loans (Op : Type) (Reply : Op → Type) (σ Name Thing : Type) where
  step : σ → (op : Op) → Reply op → σ → Prop
  uses : Op → List Name
  lent : List (Name × Thing) → (op : Op) → Reply op → Option (Name × Thing)
  returned : (op : Op) → Reply op → Option Name
  told : List (Name × Thing) → (op : Op) → Reply op → Prop
  out : σ → Name → Option Thing
  uses_of_returned : ∀ {op r name}, returned op r = some name → name ∈ uses op
  one_way : ∀ {has op r x name}, lent has op r = some x → returned op r ≠ some name
  fresh_of_lent : ∀ {s op r t has x}, step s op r t → lent has op r = some x → out s x.1 = none
  out_of_returned : ∀ {s op r t name}, step s op r t → returned op r = some name → out t name = none
  out_of_lent : ∀ {s op r t has x}, step s op r t → (∀ x ∈ has, out s x.1 = some x.2) →
    (∀ name ∈ uses op, name ∈ has.map Prod.fst) → lent has op r = some x → out t x.1 = some x.2
  out_same : ∀ {s op r t has name}, step s op r t → (∀ x ∈ has, out s x.1 = some x.2) →
    (∀ name ∈ uses op, name ∈ has.map Prod.fst) → (∀ thing, lent has op r ≠ some (name,thing)) →
    returned op r ≠ some name → out t name = out s name
  told_of_step : ∀ {s op r t has}, step s op r t → (∀ x ∈ has, out s x.1 = some x.2) → told has op r

namespace Loans

variable (L : Loans Op Reply σ Name Thing) [DecidableEq Name]

/-- What a process has after a call, where it had something before. -/
def after (op : Op) (r : Reply op) (has : List (Name × Thing)) : List (Name × Thing) :=
  (L.lent has op r).toList ++ has.filter fun x => L.returned op r ≠ some x.1

/-- What a process has been lent and not given back. -/
def has : History Op Reply → List (Name × Thing)
  | [] => []
  | x::h => L.after x.1 x.2 (has h)

/-- A process makes calls on what it has, and never has more things than there is room for. -/
def calls (room : ℕ) : Transformer Op Reply (History Op Reply) where
  pre op Q h := (∀ name ∈ L.uses op, name ∈ (L.has h).map Prod.fst) ∧
    (∀ r x, L.lent (L.has h) op r = some x → (L.has h).length < room) ∧
    ∀ r, L.told (L.has h) op r → ((L.has (⟨op,r⟩::h)).map Prod.fst).Nodup → Q r (⟨op,r⟩::h)
  mono h hP := ⟨hP.1,hP.2.1,fun r htold hnodup => h r _ (hP.2.2 r htold hnodup)⟩

section After

variable {L} {op : Op} {r : Reply op} {has : List (Name × Thing)} {x : Name × Thing}

theorem mem_after : x ∈ L.after op r has ↔ L.lent has op r = some x ∨ x ∈ has ∧ L.returned op r ≠ some x.1 := by
  simp [after]

theorem after_none (hlent : L.lent has op r = none) (hreturned : L.returned op r = none) : L.after op r has = has := by
  simp [after,hlent,hreturned]

theorem after_lent (hlent : L.lent has op r = some x) : L.after op r has = x::has := by
  have hall : ∀ y ∈ has, decide (L.returned op r ≠ some y.1) = true := fun y _ => decide_eq_true (L.one_way hlent)
  rw [after,hlent,List.filter_eq_self.mpr hall]
  rfl

end After

/-! Runs of many processes. -/

section Runs

variable {room : ℕ} {Q : P → α → History Op Reply → Prop}

variable (room Q) in
/-- Beside what was out at the start, just the things that the processes have are out. -/
structure Inv (start : σ) (d : Config P Op Reply α σ) : Prop where
  wp : ∀ i, wp (L.calls room) (d.process i).program (Q i) (d.process i).history
  out : ∀ i, ∀ x ∈ L.has (d.process i).history, L.out d.state x.1 = some x.2
  nodup : ∀ i, ((L.has (d.process i).history).map Prod.fst).Nodup
  room : ∀ i, (L.has (d.process i).history).length ≤ room
  apart : ∀ i j x y, x ∈ L.has (d.process i).history → y ∈ L.has (d.process j).history → x.1 = y.1 → i = j
  before : ∀ name thing, L.out start name = some thing → L.out d.state name = some thing ∧
    ∀ i, ∀ x ∈ L.has (d.process i).history, x.1 ≠ name
  whose : ∀ name thing, L.out d.state name = some thing → L.out start name = some thing ∨
    ∃ i, (name,thing) ∈ L.has (d.process i).history

variable {L} {start : σ} {d : Config P Op Reply α σ} {i : P} {op : Op} {next : Reply op → Program Op Reply α}
  {r : Reply op} {t : σ}

theorem inv_start {program : P → Program Op Reply α} (hwp : ∀ i, Program.wp (L.calls room) (program i) (Q i) []) :
    L.Inv room Q start (Config.start program start) :=
  ⟨hwp,fun _ => nofun,fun _ => List.nodup_nil,fun _ => Nat.zero_le _,fun _ _ _ _ => nofun,fun _ _ h => ⟨h,fun _ => nofun⟩,
    fun _ _ h => .inl h⟩

theorem Inv.lent_ne (hinv : L.Inv room Q start d) (hstep : L.step d.state op r t) {has : List (Name × Thing)} {x : Name × Thing}
    (hlent : L.lent has op r = some x) {j : P} {y : Name × Thing} (hy : y ∈ L.has (d.process j).history) : y.1 ≠ x.1 := by
  intro hname
  have hnone := L.fresh_of_lent hstep hlent
  rw [← hname,hinv.out j y hy] at hnone
  cases hnone

/-- What is given back was had by who gives it back, and by no one else. -/
theorem Inv.returned_mine (hinv : L.Inv room Q start d) (hprogram : (d.process i).program = .request op next)
    {name : Name} (hreturned : L.returned op r = some name) : ∃ x ∈ L.has (d.process i).history, x.1 = name := by
  have hcall := hinv.wp i
  rw [hprogram] at hcall
  exact List.mem_map.mp (hcall.1 name (L.uses_of_returned hreturned))

theorem Inv.out_same (hinv : L.Inv room Q start d) (hprogram : (d.process i).program = .request op next)
    (hstep : L.step d.state op r t) {name : Name}
    (hlent : ∀ thing, L.lent (L.has (d.process i).history) op r ≠ some (name,thing))
    (hreturned : L.returned op r ≠ some name) :
    L.out t name = L.out d.state name := by
  have hcall := hinv.wp i
  rw [hprogram] at hcall
  exact L.out_same hstep (hinv.out i) hcall.1 hlent hreturned

theorem Inv.nodup_after (hinv : L.Inv room Q start d) (hstep : L.step d.state op r t) :
    ((L.after op r (L.has (d.process i).history)).map Prod.fst).Nodup := by
  cases hlent : L.lent (L.has (d.process i).history) op r with
  | none =>
    rw [after,hlent]
    exact (hinv.nodup i).sublist (List.filter_sublist.map _)
  | some x =>
    rw [after_lent hlent,List.map_cons,List.nodup_cons]
    refine ⟨fun hmem => ?_,hinv.nodup i⟩
    obtain ⟨y,hy,hname⟩ := List.mem_map.mp hmem
    exact hinv.lent_ne hstep hlent hy hname

theorem Inv.room_after (hinv : L.Inv room Q start d) (hprogram : (d.process i).program = .request op next) :
    (L.after op r (L.has (d.process i).history)).length ≤ room := by
  have hcall := hinv.wp i
  rw [hprogram] at hcall
  cases hlent : L.lent (L.has (d.process i).history) op r with
  | none =>
    rw [after,hlent]
    exact Nat.le_trans (List.length_filter_le _ _) (hinv.room i)
  | some x =>
    rw [after_lent hlent]
    exact hcall.2.1 r x hlent

variable [DecidableEq P]

theorem has_answer (j : P) : L.has ((d.answer i op next r t).process j).history =
    if j = i then L.after op r (L.has (d.process j).history) else L.has (d.process j).history := by
  by_cases hji : j = i
  · subst hji
    simp only [Config.answer,Function.update_self,if_true]
    rfl
  · simp only [Config.answer,Function.update_of_ne hji,if_neg hji]

/-- What a process has behind a call it had before and has not given back, or was lent by the call. -/
theorem mem_has_answer {j : P} {x : Name × Thing} (hx : x ∈ L.has ((d.answer i op next r t).process j).history) :
    x ∈ L.has (d.process j).history ∧ (j = i → L.returned op r ≠ some x.1) ∨
      j = i ∧ L.lent (L.has (d.process i).history) op r = some x := by
  rw [has_answer] at hx
  split at hx
  · rename_i hji
    subst hji
    obtain hlent | ⟨hmem,hkept⟩ := mem_after.mp hx
    · exact .inr ⟨rfl,hlent⟩
    · exact .inl ⟨hmem,fun _ => hkept⟩
  · exact .inl ⟨hx,fun hji => absurd hji ‹_›⟩

theorem Inv.step (hinv : L.Inv room Q start d) (hprogram : (d.process i).program = .request op next)
    (hstep : L.step d.state op r t) : L.Inv room Q start (d.answer i op next r t) := by
  have hcall := hinv.wp i
  rw [hprogram] at hcall
  obtain ⟨huses,-,hnext⟩ := hcall
  refine ⟨fun j => ?_,fun j x hx => ?_,fun j => ?_,fun j => ?_,fun j k x y hx hy hname => ?_,fun name thing hbefore => ?_,
    fun name thing hname => ?_⟩
  · by_cases hji : j = i
    · subst hji
      simpa only [Config.answer,Function.update_self] using
        hnext r (L.told_of_step hstep (hinv.out j)) (hinv.nodup_after hstep)
    · simpa only [Config.answer,Function.update_of_ne hji] using hinv.wp j
  · obtain ⟨hmem,hkept⟩ | ⟨-,hlent⟩ := mem_has_answer hx
    · have hreturned : L.returned op r ≠ some x.1 := by
        intro hreturned
        obtain ⟨y,hy,hname⟩ := hinv.returned_mine hprogram hreturned
        exact hkept (hinv.apart j i x y hmem hy hname.symm) hreturned
      exact (hinv.out_same hprogram hstep (fun thing hlent => hinv.lent_ne hstep hlent hmem rfl) hreturned).trans
        (hinv.out j x hmem)
    · exact L.out_of_lent hstep (hinv.out i) huses hlent
  · rw [has_answer]
    split
    · subst j
      exact hinv.nodup_after hstep
    · exact hinv.nodup j
  · rw [has_answer]
    split
    · subst j
      exact hinv.room_after hprogram
    · exact hinv.room j
  · obtain ⟨hxd,-⟩ | ⟨hj,hlent⟩ := mem_has_answer hx
    · obtain ⟨hyd,-⟩ | ⟨-,hlent⟩ := mem_has_answer hy
      · exact hinv.apart j k x y hxd hyd hname
      · exact absurd hname (hinv.lent_ne hstep hlent hxd)
    · obtain ⟨hyd,-⟩ | ⟨hk,-⟩ := mem_has_answer hy
      · exact absurd hname.symm (hinv.lent_ne hstep hlent hyd)
      · exact hj.trans hk.symm
  · obtain ⟨hstill,hothers⟩ := hinv.before name thing hbefore
    have hnotLent (thing' : Thing) : L.lent (L.has (d.process i).history) op r ≠ some (name,thing') := by
      intro hlent
      have hnone := L.fresh_of_lent hstep hlent
      rw [hstill] at hnone
      cases hnone
    have hreturned : L.returned op r ≠ some name := by
      intro hreturned
      obtain ⟨y,hy,hname⟩ := hinv.returned_mine hprogram hreturned
      exact hothers i y hy hname
    refine ⟨(hinv.out_same hprogram hstep hnotLent hreturned).trans hstill,fun j x hx => ?_⟩
    obtain ⟨hx,-⟩ | ⟨-,hlent⟩ := mem_has_answer hx
    · exact hothers j x hx
    · rintro rfl
      exact hnotLent x.2 hlent
  · by_cases hlent : ∃ thing', L.lent (L.has (d.process i).history) op r = some (name,thing')
    · obtain ⟨thing',hlent⟩ := hlent
      have hthing := L.out_of_lent hstep (hinv.out i) huses hlent
      obtain rfl := Option.some.inj (hname.symm.trans hthing)
      refine .inr ⟨i,?_⟩
      rw [has_answer,if_pos rfl]
      exact mem_after.mpr (.inl hlent)
    · have hreturned : L.returned op r ≠ some name := by
        intro hreturned
        have hnone := L.out_of_returned hstep hreturned
        rw [show L.out t name = some thing from hname] at hnone
        cases hnone
      have hsame := hinv.out_same hprogram hstep (fun thing' h => hlent ⟨thing',h⟩) hreturned
      obtain hbefore | ⟨j,hj⟩ := hinv.whose name thing (hsame.symm.trans hname)
      · exact .inl hbefore
      · refine .inr ⟨j,?_⟩
        rw [has_answer]
        split
        · exact mem_after.mpr (.inr ⟨hj,hreturned⟩)
        · exact hj

/-- In every run just the things that the processes have are out, beside those at the start, and each call
is made by who has what it is about. -/
theorem Inv.run {c : Config P Op Reply α σ} {events : List (Event P Op Reply σ)} (hinv : L.Inv room Q start c)
    (hrun : Run L.step c events d) :
    L.Inv room Q start d ∧ ∀ ev ∈ events, ∀ name ∈ L.uses ev.op, name ∈ (L.has ev.history).map Prod.fst := by
  induction hrun with
  | nil => exact ⟨hinv,nofun⟩
  | @snoc events d i op next r t _ hprogram hstep ih =>
    obtain ⟨hinv',hevents⟩ := ih
    refine ⟨hinv'.step hprogram hstep,fun ev hev => ?_⟩
    obtain hev | hev := List.mem_append.mp hev
    · exact hevents ev hev
    · obtain rfl := List.mem_singleton.mp hev
      have hcall := hinv'.wp i
      rw [hprogram] at hcall
      exact hcall.1

end Runs
end Loans
end Avault.Foundation
