import Avault.Foundation.Interleaving

/-! Processes of which each counts on something of its own, such as a lock that it holds. -/
namespace Avault.Foundation
open Program

variable {P Op α σ : Type} {Reply : Op → Type}

/-- What each process counts on between two of its calls, and what must hold where it makes one. -/
structure Roles (P Op : Type) (Reply : Op → Type) (σ : Type) where
  step : σ → (op : Op) → Reply op → σ → Prop
  rely : P → σ → σ → Prop
  demand : P → History Op Reply → Op → σ → Prop
  rely_refl : ∀ i s, rely i s s
  rely_trans : ∀ {i s t u}, rely i s t → rely i t u → rely i s u

namespace Roles

variable (R : Roles P Op Reply σ)

/-- A call of one process. It must leave alone what all the others count on. -/
def calls (i : P) : Transformer Op Reply (History Op Reply × σ) where
  pre op Q s := ∀ u, R.rely i s.2 u → R.demand i s.1 op u ∧ ∀ r t, R.step u op r t →
    (∀ j, j ≠ i → R.rely j u t) ∧ Q r (⟨op,r⟩::s.1,t)
  mono h hP u hrely :=
    ⟨(hP u hrely).1,fun r t hstep => ((hP u hrely).2 r t hstep).imp_right (h r _)⟩

/-- A condition that the others cannot falsify. -/
def Stable (i : P) (Q : α → History Op Reply × σ → Prop) : Prop :=
  ∀ a h s t, Q a (h,s) → R.rely i s t → Q a (h,t)

variable {R} {i : P} {p : Program Op Reply α} {h : History Op Reply} {s t : σ}

theorem Stable.wp {Q : α → History Op Reply × σ → Prop} (hQ : R.Stable i Q) (hp : wp (R.calls i) p Q (h,s))
    (hrely : R.rely i s t) : wp (R.calls i) p Q (h,t) := by
  cases p with
  | done a => exact hQ a h s t hp hrely
  | request op next => exact fun u hu => hp u (R.rely_trans hrely hu)

/-- What is demanded of a call holds from when it is next. -/
theorem wp_demand {Q : α → History Op Reply × σ → Prop} {op : Op} {next : Reply op → Program Op Reply α}
    (hp : wp (R.calls i) (.request op next) Q (h,s)) : R.demand i h op s :=
  (hp s (R.rely_refl i s)).1

/-- Processes that are each verified on their own stay so in every run of all of them. -/
theorem wp_run [DecidableEq P] {Q : P → α → History Op Reply × σ → Prop} (hQ : ∀ i, R.Stable i (Q i))
    {c d : Config P Op Reply α σ} {events : List (Event P Op Reply σ)} (hrun : Run R.step c events d)
    (hsafe : ∀ i, wp (R.calls i) (c.process i).program (Q i) ((c.process i).history,c.state)) :
    (∀ i, wp (R.calls i) (d.process i).program (Q i) ((d.process i).history,d.state)) ∧
    ∀ ev ∈ events, R.demand ev.process ev.history ev.op ev.before ∧
      ∀ j, j ≠ ev.process → R.rely j ev.before ev.after := by
  induction hrun with
  | nil => exact ⟨hsafe,fun _ hev => absurd hev List.not_mem_nil⟩
  | @snoc events d i op next r t _ hprogram hstep ih =>
    obtain ⟨hwp,hevents⟩ := ih
    have hcall := hwp i
    rw [hprogram] at hcall
    obtain ⟨hdemand,hcall⟩ := hcall d.state (R.rely_refl i _)
    obtain ⟨hothers,hnext⟩ := hcall r t hstep
    refine ⟨fun j => ?_,fun ev hev => ?_⟩
    · by_cases hji : j = i
      · subst hji
        simpa only [Config.answer,Function.update_self] using hnext
      · simpa only [Config.answer,Function.update_of_ne hji] using (hQ j).wp (hwp j) (hothers j hji)
    · obtain hev | hev := List.mem_append.mp hev
      · exact hevents ev hev
      · obtain rfl := List.mem_singleton.mp hev
        exact ⟨hdemand,hothers⟩

end Roles
end Avault.Foundation
