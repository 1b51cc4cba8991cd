import Avault.Foundation.Bytes

/-! Command lines of options, each written as a flag with a value behind it or as a flag alone. -/
namespace Avault.Foundation.Options

variable {ε σ : Type}

/-- What an option does. One with a value may be refused before its value is looked at. -/
inductive Kind (ε σ : Type)
  | toggle (set : σ → Except ε σ)
  | valued (gate : σ → Except ε Unit) (missing : ε) (set : σ → String → Except ε σ)

/-- What an option does where it is given as it should be. -/
def Kind.act (wrong : ε) (s : σ) : Kind ε σ → Option String → Except ε σ
  | toggle set,none => set s
  | valued gate _ set,some value =>
    match gate s with
    | .error e => .error e
    | .ok () => set s value
  | _,_ => .error wrong

/-- The options of a command, with the errors of its loop. -/
structure Grammar (ε σ : Type) where
  option : String → Option (Kind ε σ)
  notText : ε
  unknown : String → ε

/-- One option as it is given. -/
structure Setting where
  flag : String
  value : Option String
deriving DecidableEq, Repr

/-- The arguments that an option is written as. -/
def Setting.args (x : Setting) : List Bytes := utf8 x.flag::(x.value.map utf8).toList

def settingArgs (xs : List Setting) : List Bytes := xs.flatMap Setting.args

/-- The values that a flag is given, in their order. -/
def given (flag : String) (xs : List Setting) : List (Option String) :=
  (xs.filter fun x => x.flag = flag).map Setting.value

@[simp] theorem settingArgs_nil : settingArgs [] = [] := rfl
@[simp] theorem settingArgs_cons (x : Setting) (xs : List Setting) :
    settingArgs (x::xs) = x.args ++ settingArgs xs := List.flatMap_cons

@[simp] theorem given_nil (flag : String) : given flag [] = [] := rfl

@[simp] theorem given_cons (flag : String) (x : Setting) (xs : List Setting) :
    given flag (x::xs) = if x.flag = flag then x.value::given flag xs else given flag xs := by
  by_cases h : x.flag = flag <;> simp [given,h]

namespace Grammar

variable (G : Grammar ε σ)

/-- The loop over the arguments. -/
def read (s : σ) : List Bytes → Except ε σ
  | [] => .ok s
  | arg::rest =>
    match fromUtf8 arg with
    | none => .error G.notText
    | some flag =>
      match G.option flag with
      | none => .error (G.unknown flag)
      | some (.toggle set) =>
        match set s with
        | .error e => .error e
        | .ok t => read t rest
      | some (.valued gate missing set) =>
        match gate s with
        | .error e => .error e
        | .ok () =>
          match rest with
          | [] => .error missing
          | value::rest =>
            match fromUtf8 value with
            | none => .error missing
            | some value =>
              match set s value with
              | .error e => .error e
              | .ok t => read t rest

/-- What one option does. -/
def apply (s : σ) (x : Setting) : Except ε σ :=
  match G.option x.flag with
  | some kind => kind.act (G.unknown x.flag) s x.value
  | none => .error (G.unknown x.flag)

variable {G} {s t : σ} {args : List Bytes}

theorem foldlM_cons_eq_ok {x : Setting} {xs : List Setting} :
    (x::xs).foldlM G.apply s = .ok t ↔ ∃ u, G.apply s x = .ok u ∧ xs.foldlM G.apply u = .ok t := by
  rw [List.foldlM_cons]
  cases h : G.apply s x with
  | error e => exact ⟨nofun,fun ⟨u,hu,_⟩ => nomatch hu⟩
  | ok u => exact ⟨fun h => ⟨u,rfl,h⟩,fun ⟨u',hu,h⟩ => Except.ok.inj hu ▸ h⟩

/-- The loop takes exactly the lists of arguments that options are written as, and does with them what the
options do one by one. -/
theorem read_eq_ok : G.read s args = .ok t ↔
    ∃ xs : List Setting, args = settingArgs xs ∧ xs.foldlM G.apply s = .ok t := by
  constructor
  · intro h
    fun_induction read G s args with
    | case1 s => exact ⟨[],rfl,h⟩
    | case2 | case3 | case4 | case6 | case7 | case8 | case9 => cases h
    | case5 s arg rest flag hflag set hoption u hset ih =>
      obtain ⟨xs,rfl,hxs⟩ := ih h
      refine ⟨⟨flag,none⟩::xs,?_,foldlM_cons_eq_ok.mpr ⟨u,?_,hxs⟩⟩
      · simp [Setting.args,fromUtf8_eq_some.mp hflag]
      · simp only [apply,hoption,Kind.act,hset]
    | case10 s arg flag hflag gate missing set hoption hgate word rest value hvalue u hset ih =>
      obtain ⟨xs,rfl,hxs⟩ := ih h
      refine ⟨⟨flag,some value⟩::xs,?_,foldlM_cons_eq_ok.mpr ⟨u,?_,hxs⟩⟩
      · simp [Setting.args,fromUtf8_eq_some.mp hflag,fromUtf8_eq_some.mp hvalue]
      · simp only [apply,hoption,Kind.act,hgate,hset]
  · rintro ⟨xs,rfl,h⟩
    induction xs generalizing s with
    | nil => exact h
    | cons x xs ih =>
      obtain ⟨flag,value⟩ := x
      obtain ⟨u,hu,hxs⟩ := foldlM_cons_eq_ok.mp h
      have hrest := ih hxs
      cases value with
      | none =>
        simp only [settingArgs_cons,Setting.args,Option.map_none,Option.toList_none,List.cons_append,List.nil_append]
        rw [read.eq_def]
        simp only [fromUtf8_utf8]
        cases hoption : G.option flag with
        | none => simp [apply,hoption] at hu
        | some kind =>
          cases kind with
          | toggle set =>
            simp only [apply,hoption,Kind.act] at hu
            simp only [hu,hrest]
          | valued => simp [apply,hoption,Kind.act] at hu
      | some value =>
        simp only [settingArgs_cons,Setting.args,Option.map_some,Option.toList_some,List.cons_append,List.nil_append]
        rw [read.eq_def]
        simp only [fromUtf8_utf8]
        cases hoption : G.option flag with
        | none => simp [apply,hoption] at hu
        | some kind =>
          cases kind with
          | toggle => simp [apply,hoption,Kind.act] at hu
          | valued gate missing set =>
            simp only [apply,hoption,Kind.act] at hu
            cases hgate : gate s with
            | error e => simp [hgate] at hu
            | ok v =>
              cases v
              simp only [hgate] at hu
              simp only [hgate,hu,hrest]

end Grammar

/-! Options that do not touch each other: each flag has a part of the state of its own. -/

/-- A part of a state. -/
structure Slot (σ α : Type) where
  get : σ → α
  put : σ → α → σ
  get_put : ∀ {s a}, get (put s a) = a

/-- A state that consists of one part for each flag. -/
structure Parts (σ Flag : Type) where
  Part : Flag → Type
  slot : (i : Flag) → Slot σ (Part i)
  get_put_of_ne : ∀ {s i x j}, j ≠ i → (slot j).get ((slot i).put s x) = (slot j).get s
  ext : ∀ {s t}, (∀ i, (slot i).get s = (slot i).get t) → s = t

/-- The option works on its part of the state. -/
def Kind.On {α : Type} (kind : Kind ε σ) (slot : Slot σ α) (step : α → Option String → Except ε α) : Prop :=
  ∀ wrong s value t, kind.act wrong s value = .ok t ↔ ∃ a, step (slot.get s) value = .ok a ∧ t = slot.put s a

/-- Each flag by what its option does to its own part of the state. -/
structure Separate {Flag : Type} (G : Grammar ε σ) (S : Parts σ Flag) where
  text : Flag → String
  text_injective : Function.Injective text
  kind : Flag → Kind ε σ
  option_eq_some : ∀ {flag k}, G.option flag = some k ↔ ∃ i, flag = text i ∧ k = kind i
  step : (i : Flag) → S.Part i → Option String → Except ε (S.Part i)
  kind_on : ∀ i, (kind i).On (S.slot i) (step i)

namespace Separate

variable {Flag : Type} {G : Grammar ε σ} {S : Parts σ Flag} {s t : σ} {xs : List Setting}

theorem apply_eq_ok (h : Separate G S) {x : Setting} : G.apply s x = .ok t ↔
    ∃ i y, x.flag = h.text i ∧ h.step i ((S.slot i).get s) x.value = .ok y ∧ t = (S.slot i).put s y := by
  cases hoption : G.option x.flag with
  | none =>
    have hother (i : Flag) : x.flag ≠ h.text i := by
      intro hi
      have hsome := h.option_eq_some.mpr ⟨i,hi,rfl⟩
      rw [hoption] at hsome
      cases hsome
    simp [Grammar.apply,hoption,hother]
  | some k =>
    obtain ⟨i,hi,rfl⟩ := h.option_eq_some.mp hoption
    simp only [Grammar.apply,hoption]
    rw [h.kind_on i]
    constructor
    · rintro ⟨y,hy,ht⟩
      exact ⟨i,y,hi,hy,ht⟩
    · rintro ⟨j,y,hj,hy,ht⟩
      obtain rfl := h.text_injective (hi.symm.trans hj)
      exact ⟨y,hy,ht⟩

/-- The options of a command line run flag by flag, so their order across flags does not matter. -/
theorem foldlM_eq_ok (h : Separate G S) : xs.foldlM G.apply s = .ok t ↔
    (∀ x ∈ xs, ∃ i, x.flag = h.text i) ∧
      ∀ i, (given (h.text i) xs).foldlM (h.step i) ((S.slot i).get s) = .ok ((S.slot i).get t) := by
  induction xs generalizing s with
  | nil =>
    constructor
    · intro hst
      obtain rfl := Except.ok.inj hst
      exact ⟨by simp,fun i => rfl⟩
    · rintro ⟨-,hst⟩
      exact congrArg Except.ok (S.ext fun i => Except.ok.inj (hst i))
  | cons x xs ih =>
    rw [Grammar.foldlM_cons_eq_ok]
    constructor
    · rintro ⟨u,hu,hxs⟩
      obtain ⟨i,y,hflag,hstep,rfl⟩ := h.apply_eq_ok.mp hu
      obtain ⟨hknown,hparts⟩ := ih.mp hxs
      refine ⟨List.forall_mem_cons.mpr ⟨⟨i,hflag⟩,hknown⟩,fun j => ?_⟩
      by_cases hij : i = j
      · subst hij
        rw [given_cons,if_pos hflag,List.foldlM_cons,hstep]
        have hpart := hparts i
        rwa [(S.slot i).get_put] at hpart
      · have hother : x.flag ≠ h.text j := fun hj => hij (h.text_injective (hflag.symm.trans hj))
        rw [given_cons,if_neg hother,← hparts j,S.get_put_of_ne (Ne.symm hij)]
    · rintro ⟨hknown,hparts⟩
      obtain ⟨⟨i,hflag⟩,hknown⟩ := List.forall_mem_cons.mp hknown
      have hpart := hparts i
      rw [given_cons,if_pos hflag,List.foldlM_cons] at hpart
      cases hstep : h.step i ((S.slot i).get s) x.value with
      | error e =>
        rw [hstep] at hpart
        cases hpart
      | ok y =>
        rw [hstep] at hpart
        refine ⟨(S.slot i).put s y,h.apply_eq_ok.mpr ⟨i,y,hflag,hstep,rfl⟩,ih.mpr ⟨hknown,fun j => ?_⟩⟩
        by_cases hij : i = j
        · subst hij
          rwa [(S.slot i).get_put]
        · have hother : x.flag ≠ h.text j := fun hj => hij (h.text_injective (hflag.symm.trans hj))
          have hpart := hparts j
          rw [given_cons,if_neg hother] at hpart
          rwa [S.get_put_of_ne (Ne.symm hij)]

end Separate

/-! What the parts are usually made of. -/

/-- An option that is given at most once, with a value. -/
def once (again wrong : ε) : Option String → Option String → Except ε (Option String)
  | none,some value => .ok (some value)
  | some _,_ => .error again
  | none,none => .error wrong

/-- An option that is given at most once, without a value. -/
def flagged (again wrong : ε) : Bool → Option String → Except ε Bool
  | false,none => .ok true
  | true,_ => .error again
  | false,some _ => .error wrong

/-- An option whose last value counts, though each must be one. -/
def latest {α : Type} (parse : String → Except ε α) (wrong : ε) (_ : α) : Option String → Except ε α
  | some value => parse value
  | none => .error wrong

def Kind.once (again missing : ε) (slot : Slot σ (Option String)) : Kind ε σ :=
  .valued (fun s => if (slot.get s).isSome then .error again else .ok ()) missing
    fun s value => .ok (slot.put s (some value))

def Kind.flagged (again : ε) (slot : Slot σ Bool) : Kind ε σ :=
  .toggle fun s => if slot.get s then .error again else .ok (slot.put s true)

def Kind.latest {α : Type} (missing : ε) (parse : String → Except ε α) (slot : Slot σ α) : Kind ε σ :=
  .valued (fun _ => .ok ()) missing fun s value => (parse value).map (slot.put s)

section Usual

variable {again wrong : ε} {α : Type} {parse : String → Except ε α} {values : List (Option String)}

theorem Kind.once_on (again missing again' wrong : ε) (slot : Slot σ (Option String)) :
    (Kind.once again missing slot).On slot (Options.once again' wrong) := by
  intro _ s value t
  cases value with
  | none => cases hslot : slot.get s <;> simp [Kind.once,Kind.act,Options.once]
  | some v =>
    cases hslot : slot.get s with
    | none => simp [Kind.once,Kind.act,Options.once,hslot,eq_comm (a := t)]
    | some u => simp [Kind.once,Kind.act,Options.once,hslot]

theorem Kind.flagged_on (again again' wrong : ε) (slot : Slot σ Bool) :
    (Kind.flagged again slot).On slot (Options.flagged again' wrong) := by
  intro _ s value t
  cases value with
  | some v => cases hslot : slot.get s <;> simp [Kind.flagged,Kind.act,Options.flagged]
  | none => cases hslot : slot.get s <;> simp [Kind.flagged,Kind.act,Options.flagged,hslot,eq_comm (a := t)]

theorem Kind.latest_on (missing wrong : ε) (slot : Slot σ α) :
    (Kind.latest missing parse slot).On slot (Options.latest parse wrong) := by
  intro _ s value t
  cases value with
  | none => simp [Kind.latest,Kind.act,Options.latest]
  | some v => cases hparse : parse v <;> simp [Kind.latest,Kind.act,Options.latest,hparse,Except.map,eq_comm (a := t)]

theorem once_some_eq_ok {v : String} {o : Option String} :
    values.foldlM (once again wrong) (some v) = .ok o ↔ values = [] ∧ o = some v := by
  cases values with
  | nil => simp [eq_comm,pure,Except.pure]
  | cons => simp [once,bind,Except.bind]

theorem once_eq_ok {o : Option String} :
    values.foldlM (once again wrong) none = .ok o ↔ values = (o.map some).toList := by
  cases values with
  | nil => cases o <;> simp [pure,Except.pure]
  | cons v values =>
    cases v with
    | none => cases o <;> simp [once,bind,Except.bind]
    | some v =>
      change values.foldlM (once again wrong) (some v) = .ok o ↔ _
      rw [once_some_eq_ok]
      cases o with
      | none => simp
      | some w => simp [and_comm,eq_comm (a := v)]

theorem flagged_eq_ok {b : Bool} :
    values.foldlM (flagged again wrong) false = .ok b ↔ values = if b then [none] else [] := by
  cases values with
  | nil => cases b <;> simp [pure,Except.pure]
  | cons v values =>
    cases v with
    | some v => cases b <;> simp [flagged,bind,Except.bind]
    | none =>
      cases values with
      | nil => cases b <;> simp [flagged,bind,Except.bind,pure,Except.pure]
      | cons => cases b <;> simp [flagged,bind,Except.bind]

theorem latest_eq_ok {a b : α} : values.foldlM (latest parse wrong) a = .ok b ↔
    (∀ v ∈ values, ∃ text c, v = some text ∧ parse text = .ok c) ∧
      (values = [] ∧ b = a ∨ ∃ text, values.getLast? = some (some text) ∧ parse text = .ok b) := by
  induction values generalizing a with
  | nil => simp [pure,Except.pure,eq_comm]
  | cons v values ih =>
    rw [List.foldlM_cons,List.forall_mem_cons]
    cases v with
    | none => simp [latest,bind,Except.bind]
    | some v =>
      cases hparse : parse v with
      | error e => simp [latest,hparse,bind,Except.bind]
      | ok c =>
        have hnext : (latest parse wrong a (some v) >>= fun c => values.foldlM (latest parse wrong) c) =
            values.foldlM (latest parse wrong) c := by
          simp [latest,hparse,bind,Except.bind]
        rw [hnext,ih]
        cases values with
        | nil => simp [hparse,eq_comm]
        | cons => simp [hparse]

end Usual
end Avault.Foundation.Options
