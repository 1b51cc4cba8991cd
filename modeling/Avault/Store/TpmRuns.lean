import Avault.Foundation.Parts
import Avault.Store.Tpm

/-! The TPM backend next to others on the same TPM. Sealing and unsealing use none but their own
objects, flush what they load, and come to what the stores' model takes them for. -/
namespace Avault.Tpm
open Foundation Crypto
open Foundation.Program (Ensures Gives Transformer liftResult ensures_bind ensures_attempt ensures_mapResult gives_ok
  gives_error gives_bind gives_mapResult)
open Store (Machine TpmMasterBlob)
open KeyFile (KeyStep KeyWorld)

variable {D : Device} {Handle : Type} [DecidableEq Handle] {α β : Type}

/-! The objects as loans of the TPM. -/

section Objects

abbrev Held (Handle : Type) : Type := List (Handle × Object)

def object (has : Held Handle) (handle : Handle) : Option Object :=
  (has.find? fun x => x.1 = handle).map Prod.snd

variable (D) in
/-- What loading the two parts below an object makes. -/
def opened (priv : D.Private) (pub : D.Public) : Object → Option Object
  | .primary hierarchy template => (D.unwrap (D.primary hierarchy template) pub priv).map .sealedData
  | .sealedData _ => none

def lent (has : Held Handle) : (op : TpmOp D Handle) → op.Reply → Option (Handle × Object)
  | .createPrimary hierarchy template,(.ok handle : Result Handle) => some (handle,.primary hierarchy template)
  | .load parent priv pub,(.ok handle : Result Handle) =>
    ((object has parent).bind (opened D priv pub)).map fun x => (handle,x)
  | _,_ => none

def returned : (op : TpmOp D Handle) → op.Reply → Option Handle
  | .flushContext handle,(.ok () : Result Unit) => some handle
  | _,_ => none

def uses : TpmOp D Handle → List Handle
  | .create parent _ _ | .load parent _ _ => [parent]
  | .unsealItem item => [item]
  | .flushContext handle => [handle]
  | _ => []

/-- What is known of a reply by who has the object that was asked. -/
def told (has : Held Handle) : (op : TpmOp D Handle) → op.Reply → Prop
  | .create parent template data,(.ok created : Result (D.Public × D.Private)) => ∀ hierarchy template',
    object has parent = some (.primary hierarchy template') →
      ∃ n, created = D.wrap n (D.primary hierarchy template') template data
  | .load parent priv pub,(.ok _ : Result Handle) => ∀ x, object has parent = some x → (opened D priv pub x).isSome
  | .unsealItem item,(.ok data : Result Bytes) => ∀ x, object has item = some x → x = .sealedData data
  | _,_ => True

section Laws

variable {s t : TpmState Handle} {op : TpmOp D Handle} {r : op.Reply} {has : Held Handle} {handle : Handle}

theorem mem_of_object {x : Object} (hobject : object has handle = some x) : (handle,x) ∈ has := by
  obtain ⟨y,hy,rfl⟩ := Option.map_eq_some_iff.mp hobject
  obtain rfl : y.1 = handle := by simpa using List.find?_some hy
  exact List.mem_of_find?_eq_some hy

theorem exists_object (hhas : handle ∈ has.map Prod.fst) : ∃ x, object has handle = some x := by
  obtain ⟨y,hy,rfl⟩ := List.mem_map.mp hhas
  have hfound : (has.find? fun x => x.1 = y.1).isSome := List.find?_isSome.mpr ⟨y,hy,by simp⟩
  obtain ⟨z,hz⟩ := Option.isSome_iff_exists.mp hfound
  exact ⟨z.2,by rw [object,hz]; rfl⟩

theorem object_loaded (hloaded : ∀ x ∈ has, s.loaded x.1 = some x.2) (hhas : handle ∈ has.map Prod.fst) :
    object has handle = s.loaded handle := by
  obtain ⟨x,hx⟩ := exists_object hhas
  rw [hx,hloaded _ (mem_of_object hx)]

theorem failure_lent {e : Error} (hfailed : op.failure e = some r) : lent has op r = none := by
  cases op <;> cases hfailed <;> rfl

omit [DecidableEq Handle] in
theorem failure_returned {e : Error} (hfailed : op.failure e = some r) : returned op r = none := by
  cases op <;> cases hfailed <;> rfl

theorem failure_told {e : Error} (hfailed : op.failure e = some r) : told has op r := by
  cases op <;> cases hfailed <;> exact trivial

theorem fresh_of_lent {x : Handle × Object} (hstep : TpmStep s op r t) (hlent : lent has op r = some x) :
    s.loaded x.1 = none := by
  cases hstep with
  | createPrimary hfree =>
    obtain rfl := Option.some.inj hlent
    exact hfree
  | load _ _ hfree =>
    obtain ⟨y,-,rfl⟩ := Option.map_eq_some_iff.mp hlent
    exact hfree
  | failed e hfailed =>
    rw [failure_lent hfailed] at hlent
    cases hlent
  | _ => cases hlent

theorem free_of_returned (hstep : TpmStep s op r t) (hreturned : returned op r = some handle) : t.loaded handle = none := by
  cases hstep with
  | flushContext =>
    obtain rfl := Option.some.inj hreturned
    exact Function.update_self ..
  | failed e hfailed =>
    rw [failure_returned hfailed] at hreturned
    cases hreturned
  | _ => cases hreturned

/-- What a load makes is told by what its parent is. -/
theorem lent_load {parent handle : Handle} {hierarchy : Hierarchy} {template : Template} {priv : D.Private}
    {pub : D.Public} {data : Bytes} (hloaded : ∀ x ∈ has, s.loaded x.1 = some x.2)
    (huses : ∀ name ∈ uses (D := D) (.load parent priv pub), name ∈ has.map Prod.fst)
    (hparent : s.loaded parent = some (.primary hierarchy template))
    (hdata : D.unwrap (D.primary hierarchy template) pub priv = some data) :
    lent has (.load parent priv pub) (.ok handle : Result Handle) = some (handle,.sealedData data) := by
  have hobject := (object_loaded hloaded (huses parent (List.mem_singleton_self _))).trans hparent
  simp [lent,hobject,opened,hdata]

theorem loaded_of_lent {x : Handle × Object} (hstep : TpmStep s op r t) (hloaded : ∀ x ∈ has, s.loaded x.1 = some x.2)
    (huses : ∀ name ∈ uses op, name ∈ has.map Prod.fst) (hlent : lent has op r = some x) : t.loaded x.1 = some x.2 := by
  cases hstep with
  | createPrimary =>
    obtain rfl := Option.some.inj hlent
    exact Function.update_self ..
  | load hparent hdata =>
    rw [lent_load hloaded huses hparent hdata] at hlent
    obtain rfl := Option.some.inj hlent
    exact Function.update_self ..
  | failed e hfailed =>
    rw [failure_lent hfailed] at hlent
    cases hlent
  | _ => cases hlent

theorem loaded_same (hstep : TpmStep s op r t) (hloaded : ∀ x ∈ has, s.loaded x.1 = some x.2)
    (huses : ∀ name ∈ uses op, name ∈ has.map Prod.fst) (hlent : ∀ x, lent has op r ≠ some (handle,x))
    (hreturned : returned op r ≠ some handle) : t.loaded handle = s.loaded handle := by
  cases hstep with
  | createPrimary =>
    apply Function.update_of_ne
    rintro rfl
    exact hlent _ rfl
  | load hparent hdata =>
    apply Function.update_of_ne
    rintro rfl
    exact hlent _ (lent_load hloaded huses hparent hdata)
  | flushContext =>
    apply Function.update_of_ne
    rintro rfl
    exact hreturned rfl
  | _ => rfl

theorem told_of_step (hstep : TpmStep s op r t) (hloaded : ∀ x ∈ has, s.loaded x.1 = some x.2) : told has op r := by
  have hobject {handle x} (h : object has handle = some x) : s.loaded handle = some x := hloaded _ (mem_of_object h)
  cases hstep with
  | create hparent =>
    intro hierarchy template' h
    obtain ⟨rfl,rfl⟩ := Object.primary.inj (Option.some.inj (hparent.symm.trans (hobject h)))
    exact ⟨_,rfl⟩
  | load hparent hdata =>
    intro x h
    obtain rfl := Option.some.inj (hparent.symm.trans (hobject h))
    rw [opened,hdata]
    rfl
  | unsealItem hitem =>
    intro x h
    exact Option.some.inj ((hobject h).symm.trans hitem)
  | failed e hfailed => exact failure_told hfailed
  | _ => trivial

end Laws

variable (D Handle) in
/-- The loaded objects of a TPM. -/
def objects : Loans (TpmOp D Handle) TpmOp.Reply (TpmState Handle) Handle Object where
  step := TpmStep
  uses := uses
  lent := lent
  returned := returned
  told := told
  out := TpmState.loaded
  uses_of_returned {op r name} h := by
    cases op with
    | flushContext handle =>
      cases r with
      | ok =>
        obtain rfl := Option.some.inj h
        exact List.mem_singleton_self _
      | error => cases h
    | _ => cases h
  one_way {has op r x name} hlent h := by
    cases op with
    | flushContext => cases hlent
    | _ => cases h
  fresh_of_lent := fresh_of_lent
  out_of_returned := free_of_returned
  out_of_lent := loaded_of_lent
  out_same := loaded_same
  told_of_step := told_of_step

end Objects

/-! What a program leaves in the TPM. -/

section Programs

variable {l : Held Handle} {A : α → Prop} {B : β → Prop} {h h' : History (TpmOp D Handle) TpmOp.Reply}

/-- What a process has loaded and not flushed. -/
abbrev holding (h : History (TpmOp D Handle) TpmOp.Reply) : Held Handle := (objects D Handle).has h

/-- With the slots for two objects. -/
abbrev tpmCalls (D : Device) (Handle : Type) [DecidableEq Handle] :
    Transformer (TpmOp D Handle) TpmOp.Reply (History (TpmOp D Handle) TpmOp.Reply) := (objects D Handle).calls 2

/-- The TPM has not done the flush that it was asked for. -/
def NotFlushed (h : History (TpmOp D Handle) TpmOp.Reply) (handle : Handle) : Prop :=
  ∃ e, ⟨.flushContext handle,(.error e : Result Unit)⟩ ∈ h

omit [DecidableEq Handle] in
theorem NotFlushed.mono {handle : Handle} (hnot : NotFlushed h handle) (hgrows : h <:+ h') : NotFlushed h' handle :=
  hnot.imp fun _ hmem => hgrows.subset hmem

structure Beside (l : Held Handle) (h : History (TpmOp D Handle) TpmOp.Reply) : Prop where
  kept : ∀ x ∈ l, x ∈ holding h
  rest : ∀ x ∈ holding h, x ∈ l ∨ NotFlushed h x.1

theorem beside_of_eq (hl : holding h = l) : Beside l h := by
  subst hl
  exact ⟨fun _ => id,fun _ => .inl⟩

theorem Beside.mono (hbeside : Beside l h) (hsame : holding h' = holding h) (hgrows : h <:+ h') : Beside l h' := by
  refine ⟨fun x hx => hsame ▸ hbeside.kept x hx,fun x hx => ?_⟩
  exact (hbeside.rest x (hsame ▸ hx)).imp_right fun hnot => hnot.mono hgrows

/-- Beside what it found, a program leaves only what could not be flushed, and nothing where it has not failed. -/
abbrev Leaves (l : Held Handle) (A : α → Prop) : Result α → History (TpmOp D Handle) TpmOp.Reply → Prop :=
  Gives (Beside l) fun a h => holding h = l ∧ A a

def Tidy (l : Held Handle) (A : α → Prop) (x : TpmM D Handle α) : Prop :=
  ∀ h, holding h = l → Ensures (tpmCalls D Handle) x h (Leaves l A)

theorem leaves_ok {a : α} (hl : holding h = l) (ha : A a) : Leaves l A (.ok a) h := gives_ok (beside_of_eq hl) ⟨hl,ha⟩

theorem tidy_pure {a : α} (ha : A a) : Tidy l A (pure a : TpmM D Handle α) := fun _ hl => leaves_ok hl ha

theorem tidy_liftResult {r : Result α} (hA : ∀ a, r = .ok a → A a) : Tidy l A (liftResult r : TpmM D Handle α) :=
  fun _ hl => ⟨beside_of_eq hl,fun a ha => ⟨hl,hA a ha⟩⟩

theorem Tidy.bind {x : TpmM D Handle α} {f : α → TpmM D Handle β} (hx : Tidy l A x) (hf : ∀ a, A a → Tidy l B (f a)) :
    Tidy l B (x >>= f) :=
  fun h hl => gives_bind (hx h hl) fun a t _ ha => hf a ha.2 t ha.1

theorem Tidy.withContext {text : String} {x : TpmM D Handle α} (hx : Tidy l A x) : Tidy l A (withContext text x) := by
  intro h hl
  refine gives_mapResult (fun r a hr => ?_) (hx h hl)
  cases r with
  | ok => exact hr
  | error => cases hr

/-- A call that loads and flushes nothing. -/
theorem tidy_call (op : TpmOp D Handle) (f : op.Reply → Result α) (huses : ∀ handle ∈ uses op, handle ∈ l.map Prod.fst)
    (hlent : ∀ r, lent l op r = none) (hreturned : ∀ r, returned op r = none)
    (htold : ∀ r a, told l op r → f r = .ok a → A a) : Tidy l A (ExceptT.mk (.request op fun r => .done (f r))) := by
  rintro h rfl
  refine ⟨huses,fun r x hx => ?_,fun r hr _ => ?_⟩
  · rw [show (objects D Handle).lent (holding h) op r = none from hlent r] at hx
    cases hx
  · have hsame : holding (⟨op,r⟩::h) = holding h := Loans.after_none (hlent r) (hreturned r)
    exact ⟨beside_of_eq hsame,fun a ha => ⟨hsame,htold r a hr ha⟩⟩

theorem tidy_prepare {p : Preparation D} : Tidy l (fun _ => True) (prepare p : TpmM D Handle Unit) :=
  tidy_call (.prepare p) id nofun (fun _ => rfl) (fun _ => rfl) fun _ _ _ _ => trivial

theorem tidy_varOs {name : String} : Tidy l (fun _ => True) (varOs name : TpmM D Handle Bool) :=
  tidy_call (.varOs name) .ok nofun (fun _ => rfl) (fun _ => rfl) fun _ _ _ _ => trivial

theorem tidy_pathExists {name : String} : Tidy l (fun _ => True) (pathExists name : TpmM D Handle Bool) :=
  tidy_call (.pathExists name) .ok nofun (fun _ => rfl) (fun _ => rfl) fun _ _ _ _ => trivial

theorem tidy_newContext : Tidy l (fun _ => True) (newContext : TpmM D Handle Unit) :=
  tidy_call .newContext id nofun (fun _ => rfl) (fun _ => rfl) fun _ _ _ _ => trivial

theorem tidy_openTpmContext : Tidy l (fun _ => True) (openTpmContext : TpmM D Handle Unit) := by
  have hopened {text} {p : Preparation D} : Tidy l (fun _ => True)
      (do withContext text (prepare p); withContext "failed to initialize TPM context" newContext : TpmM D Handle Unit) :=
    tidy_prepare.withContext.bind fun _ _ => tidy_newContext.withContext
  have htcti : Tidy l (fun _ => True) (tctiFromEnvironment : TpmM D Handle Bool) :=
    tidy_varOs.bind fun _ _ => tidy_varOs.bind fun _ _ => tidy_varOs.bind fun _ _ => tidy_pure trivial
  apply htcti.bind
  rintro (_ | _) -
  · apply tidy_pathExists.bind
    rintro (_ | _) -
    · exact hopened
    · exact hopened
  · exact hopened

theorem Tidy.executeWithNullauthSession {f : TpmM D Handle α} (hf : Tidy l A f) :
    Tidy l A (executeWithNullauthSession f) := by
  have hstart : Tidy l (fun _ => True) (startAuthSession : TpmM D Handle Unit) :=
    tidy_call .startAuthSession id nofun (fun _ => rfl) (fun _ => rfl) fun _ _ _ _ => trivial
  apply hstart.bind
  intro _ _ h hl
  refine ensures_bind.mpr (ensures_attempt.mpr ((hf h hl).mono fun result h' hleaves => ?_))
  refine ⟨nofun,nofun,fun r _ _ => ?_⟩
  have hsame : holding (⟨.endAuthSession,r⟩::h') = holding h' := Loans.after_none rfl rfl
  have hbeside := hleaves.known.mono hsame (List.suffix_cons _ _)
  cases r with
  | error e => exact gives_error hbeside
  | ok => exact ⟨hbeside,fun a ha => ⟨hsame.trans (hleaves.value a ha).1,(hleaves.value a ha).2⟩⟩

/-- A flush does what it is asked, or the object stays. -/
theorem ensures_flush {handle : Handle} {Q : Result Unit → History (TpmOp D Handle) TpmOp.Reply → Prop}
    (hhas : handle ∈ (holding h).map Prod.fst)
    (hflushed : ∀ h', h <:+ h' → holding h' = (holding h).filter (fun x => x.1 ≠ handle) → Q (.ok ()) h')
    (hnot : ∀ e h', h <:+ h' → holding h' = holding h → NotFlushed h' handle → Q (.error e) h') :
    Ensures (tpmCalls D Handle) (flushTpmObject handle) h Q := by
  refine ⟨fun name hname => ?_,nofun,fun r _ _ => ?_⟩
  · obtain rfl := List.mem_singleton.mp hname
    exact hhas
  · cases r with
    | error e =>
      exact hnot e _ (List.suffix_cons _ _) (Loans.after_none rfl rfl) ⟨e,List.mem_cons_self⟩
    | ok =>
      apply hflushed _ (List.suffix_cons _ _)
      simp [holding,Loans.has,Loans.after,objects,lent,returned,eq_comm]

abbrev ownerPrimary : Object := .primary .owner primaryTemplate

theorem tidy_primaryPublicTemplate :
    Tidy l (fun template => template = primaryTemplate) (primaryPublicTemplate : TpmM D Handle Template) :=
  tidy_prepare.withContext.bind fun _ _ => tidy_prepare.withContext.bind fun _ _ => tidy_prepare.withContext.bind fun _ _ =>
    tidy_pure rfl

theorem tidy_sealedDataPublicTemplate :
    Tidy l (fun template => template = sealedDataTemplate) (sealedDataPublicTemplate : TpmM D Handle Template) :=
  tidy_prepare.withContext.bind fun _ _ => tidy_prepare.withContext.bind fun _ _ => tidy_pure rfl

/-- What is left where an object was flushed, or not. -/
theorem Beside.flushed {x : Handle × Object} (hbeside : Beside (x::l) h) (hgrows : h <:+ h')
    (hflushed : holding h' = (holding h).filter fun y => y.1 ≠ x.1) (hx : x.1 ∉ l.map Prod.fst) : Beside l h' := by
  refine ⟨fun y hy => ?_,fun y hy => ?_⟩
  · rw [hflushed,List.mem_filter]
    have hne : y.1 ≠ x.1 := fun hname => hx (hname ▸ List.mem_map_of_mem hy)
    exact ⟨hbeside.kept y (List.mem_cons_of_mem x hy),decide_eq_true hne⟩
  · rw [hflushed,List.mem_filter] at hy
    obtain hmem | hnot := hbeside.rest y hy.1
    · obtain rfl | hmem := List.mem_cons.mp hmem
      · simp at hy
      · exact .inl hmem
    · exact .inr (hnot.mono hgrows)

theorem Beside.kept_on {x : Handle × Object} (hbeside : Beside (x::l) h) (hgrows : h <:+ h')
    (hsame : holding h' = holding h) (hnot : NotFlushed h' x.1) : Beside l h' := by
  refine ⟨fun y hy => ?_,fun y hy => ?_⟩
  · rw [hsame]
    exact hbeside.kept y (List.mem_cons_of_mem x hy)
  · rw [hsame] at hy
    obtain hmem | hnot' := hbeside.rest y hy
    · obtain rfl | hmem := List.mem_cons.mp hmem
      · exact .inr hnot
      · exact .inl hmem
    · exact .inr (hnot'.mono hgrows)

theorem ensures_createTpmPrimary {Q : Result Handle → History (TpmOp D Handle) TpmOp.Reply → Prop} (hl : holding h = [])
    (hok : ∀ primary h', holding h' = [(primary,ownerPrimary)] → Q (.ok primary) h')
    (herr : ∀ e h', Beside [] h' → Q (.error e) h') : Ensures (tpmCalls D Handle) createTpmPrimary h Q := by
  refine (tidy_primaryPublicTemplate h hl).bind (fun template t hleaves => ?_) fun e t hleaves => herr e t hleaves.known
  obtain ⟨hempty,rfl⟩ := hleaves.value template rfl
  refine ensures_mapResult.mpr ⟨nofun,fun r x _ => ?_,fun r _ _ => ?_⟩
  · rw [show (objects D Handle).has t = [] from hempty]
    exact Nat.zero_lt_two
  · cases r with
    | error e => exact herr _ _ (beside_of_eq ((Loans.after_none rfl rfl).trans hempty))
    | ok primary =>
      apply hok
      exact (Loans.after_lent rfl).trans (congrArg _ hempty)

theorem tidy_withTpmPrimary {f : Handle → TpmM D Handle α} (hf : ∀ primary, Tidy [(primary,ownerPrimary)] A (f primary)) :
    Tidy [] A (withTpmPrimary f) := by
  intro h hl
  refine ensures_bind.mpr (ensures_createTpmPrimary hl (fun primary t ht => ?_) fun e t hbeside => gives_error hbeside)
  refine ensures_bind.mpr (ensures_attempt.mpr ((hf primary t ht).mono fun result u hleaves => ?_))
  refine ensures_bind.mpr (ensures_attempt.mpr (ensures_mapResult.mpr ?_))
  have hhas : primary ∈ (holding u).map Prod.fst := List.mem_map_of_mem (hleaves.known.kept _ (List.mem_singleton_self _))
  refine ensures_flush hhas (fun v hgrows hflushed => ?_) fun e v hgrows hsame hnot => ?_
  · have hbeside := hleaves.known.flushed hgrows hflushed List.not_mem_nil
    cases result with
    | error e => exact gives_error hbeside
    | ok a =>
      obtain ⟨honly,ha⟩ := hleaves.value a rfl
      refine gives_ok hbeside ⟨?_,ha⟩
      rw [hflushed,honly]
      simp
  · have hbeside := hleaves.known.kept_on hgrows hsame hnot
    cases result with
    | error e => exact gives_error hbeside
    | ok a => exact gives_error hbeside

/-- Sealing makes one of the blobs that the key can be sealed in. -/
theorem tidy_sealMasterKey {masterKey : Key} :
    Tidy [] (fun blob => ∃ n, blob = sealedBlob D n masterKey) (sealMasterKey masterKey : TpmM D Handle TpmMasterBlob) := by
  apply tidy_openTpmContext.bind
  intro _ _
  refine (tidy_withTpmPrimary fun primary => ?_).executeWithNullauthSession
  refine tidy_prepare.withContext.bind fun _ _ => tidy_sealedDataPublicTemplate.bind ?_
  rintro _ rfl
  have hcreate : Tidy [(primary,ownerPrimary)]
      (fun created => ∃ n, created = D.wrap n (D.primary .owner primaryTemplate) sealedDataTemplate masterKey.toList)
      (create primary sealedDataTemplate masterKey.toList : TpmM D Handle (D.Public × D.Private)) := by
    refine tidy_call (.create primary sealedDataTemplate masterKey.toList) id (fun handle h => h) (fun _ => rfl)
      (fun _ => rfl) fun r created htold hr => ?_
    obtain rfl : r = .ok created := hr
    exact htold _ _ (by simp [object])
  refine hcreate.withContext.bind ?_
  rintro _ ⟨n,rfl⟩
  exact tidy_prepare.withContext.bind fun _ _ => tidy_prepare.withContext.bind fun _ _ => tidy_pure ⟨n,rfl⟩

/-- Loading below the primary key gives a second object, with what the parts were sealed for. -/
theorem ensures_load {primary : Handle} {parts : D.Public × D.Private}
    {Q : Result Handle → History (TpmOp D Handle) TpmOp.Reply → Prop} (hl : holding h = [(primary,ownerPrimary)])
    (hok : ∀ item data h', unwrapOwner D parts = some data → item ≠ primary →
      holding h' = [(item,.sealedData data),(primary,ownerPrimary)] → Q (.ok item) h')
    (herr : ∀ e h', holding h' = [(primary,ownerPrimary)] → Q (.error e) h') :
    Ensures (tpmCalls D Handle) (load primary parts.2 parts.1) h Q := by
  have hobject : object (holding h) primary = some ownerPrimary := by simp [hl,object]
  refine ⟨fun name hname => ?_,fun r x _ => ?_,fun r htold hnodup => ?_⟩
  · obtain rfl := List.mem_singleton.mp hname
    rw [show (objects D Handle).has h = [(name,ownerPrimary)] from hl]
    exact List.mem_singleton_self _
  · rw [show (objects D Handle).has h = [(primary,ownerPrimary)] from hl]
    exact Nat.one_lt_two
  · cases r with
    | error e => exact herr _ _ ((Loans.after_none rfl rfl).trans hl)
    | ok item =>
      obtain ⟨x,hx⟩ := Option.isSome_iff_exists.mp (htold _ hobject)
      obtain ⟨data,hdata,rfl⟩ := Option.map_eq_some_iff.mp hx
      have hlent : lent (holding h) (.load primary parts.2 parts.1) (.ok item : Result Handle) =
          some (item,.sealedData data) := by
        rw [lent,hobject]
        exact congrArg (Option.map _) hx
      have hholding : holding (⟨.load primary parts.2 parts.1,(.ok item : Result Handle)⟩::h) =
          [(item,.sealedData data),(primary,ownerPrimary)] := (Loans.after_lent hlent).trans (congrArg _ hl)
      rw [show (objects D Handle).has _ = _ from hholding] at hnodup
      exact hok item data _ hdata (by simpa using hnodup) hholding

/-- Unsealing makes the key that a blob is for. -/
theorem tidy_unsealMasterKey {blob : TpmMasterBlob} :
    Tidy [] (fun key => unsealedKey D blob = .ok key) (unsealMasterKey blob : TpmM D Handle Key) := by
  refine (tidy_liftResult (A := fun parts => blobParts D blob = .ok parts) fun _ h => h).bind fun parts hparts => ?_
  apply tidy_openTpmContext.bind
  intro _ _
  refine (tidy_withTpmPrimary fun primary h hl => ?_).executeWithNullauthSession
  refine ensures_bind.mpr (ensures_mapResult.mpr (ensures_load hl (fun item data t hdata hne ht => ?_) fun e t ht =>
    gives_error (beside_of_eq ht)))
  have hunseal : Tidy (holding t) (fun unsealed => unsealed = data) (unsealItem item : TpmM D Handle Bytes) := by
    refine tidy_call (.unsealItem item) id (fun handle hhandle => ?_) (fun _ => rfl) (fun _ => rfl) fun r unsealed htold hr => ?_
    · obtain rfl := List.mem_singleton.mp hhandle
      rw [ht]
      exact List.mem_cons_self
    · obtain rfl : r = .ok unsealed := hr
      have hobject := htold (.sealedData data) (by simp [ht,object])
      exact (Object.sealedData.inj hobject).symm
  have hkey : Tidy (holding t) (fun key => unsealedKey D blob = .ok key) (do
      let unsealed ← withContext "failed to unseal TPM master key" (unsealItem item)
      liftResult (keyOfUnsealed unsealed) : TpmM D Handle Key) := by
    apply hunseal.withContext.bind
    rintro _ rfl
    refine tidy_liftResult fun key hkey => ?_
    rw [unsealedKey,hparts,ok_bind,hdata]
    exact hkey
  refine ensures_bind.mpr (ensures_attempt.mpr ((hkey t rfl).mono fun result u hleaves => ?_))
  have hhas : item ∈ (holding u).map Prod.fst := by
    refine List.mem_map_of_mem (f := Prod.fst) (hleaves.known.kept (item,.sealedData data) ?_)
    rw [ht]
    exact List.mem_cons_self
  have hknown := hleaves.known
  rw [ht] at hknown
  refine ensures_bind.mpr (ensures_mapResult.mpr (ensures_flush hhas (fun v hgrows hflushed => ?_)
    fun e v hgrows hsame hnot => ?_))
  · refine ⟨hknown.flushed hgrows hflushed (by simpa using hne),fun key hkey => ?_⟩
    obtain ⟨honly,hunsealed⟩ := hleaves.value key hkey
    refine ⟨?_,hunsealed⟩
    rw [hflushed,honly,ht]
    simp [hne.symm]
  · exact gives_error (hknown.kept_on hgrows hsame hnot)

end Programs

/-! Many processes on one TPM. -/

inductive Request
  | sealing (masterKey : Key)
  | unsealing (blob : TpmMasterBlob)

abbrev Answer : Type := Result TpmMasterBlob ⊕ Result Key

def Request.program : Request → Program (TpmOp D Handle) TpmOp.Reply Answer
  | .sealing masterKey => (sealMasterKey masterKey).run >>= fun r => .done (.inl r)
  | .unsealing blob => (unsealMasterKey blob).run >>= fun r => .done (.inr r)

def Answer.Succeeds : Answer → Prop
  | .inl r => r.isOk = true
  | .inr r => r.isOk = true

section Runs

variable {P Path : Type} [DecidableEq Path]

/-- The answer is one that the stores' model has for the request, as one call. -/
def Request.Refines (M : Machine) (target : Path) (me : P) (s : KeyWorld P Path) : Request → Answer → Prop
  | .sealing masterKey,.inl r => KeyStep M target s (.tpmSeal me masterKey) r s
  | .unsealing blob,.inr r => KeyStep M target s (.tpmUnseal me blob) r s
  | _,_ => False

/-- What has come of the requests and of the TPM. -/
structure Backed (M : Machine) (target : Path) (requests : P → Request) (start : TpmState Handle)
    (d : Config P (TpmOp D Handle) TpmOp.Reply Answer (TpmState Handle)) : Prop where
  loaded : ∀ handle x, d.state.loaded handle = some x ↔
    start.loaded handle = some x ∨ ∃ i, (handle,x) ∈ holding (d.process i).history
  slots : ∀ i, (holding (d.process i).history).length ≤ 2
  own : ∀ i j x y, x ∈ holding (d.process i).history → y ∈ holding (d.process j).history → x.1 = y.1 → i = j
  flushed : ∀ i r, (d.process i).program = .done r →
    ∀ x ∈ holding (d.process i).history, NotFlushed (d.process i).history x.1
  refines : ∀ i r, (d.process i).program = .done r → ∀ s : KeyWorld P Path, (requests i).Refines M target i s r
  restored : (∀ i, ∃ r, (d.process i).program = .done r ∧ r.Succeeds) → d.state.loaded = start.loaded

/-- What a process leaves and answers at its end. -/
structure Ended (D : Device) (request : Request) (r : Answer) (h : History (TpmOp D Handle) TpmOp.Reply) : Prop where
  rest : ∀ x ∈ holding h, NotFlushed h x.1
  empty : r.Succeeds → holding h = []
  refines : ∀ (M : Machine), M.sealMasterKey = sealedBlob D → M.unsealMasterKey = unsealedKey D →
    ∀ (P Path : Type) [DecidableEq Path] (target : Path) (me : P) s, request.Refines M target me s r

theorem Beside.notFlushed {h : History (TpmOp D Handle) TpmOp.Reply} (hbeside : Beside [] h) :
    ∀ x ∈ holding h, NotFlushed h x.1 := fun x hx => (hbeside.rest x hx).resolve_left List.not_mem_nil

theorem ended (request : Request) :
    Program.wp (tpmCalls D Handle) request.program (Ended D request) [] := by
  cases request with
  | sealing masterKey =>
    rw [Request.program,Program.wp_bind]
    refine (tidy_sealMasterKey [] rfl).mono fun r h hleaves => ⟨hleaves.known.notFlushed,fun hok => ?_,?_⟩
    · cases r with
      | error => cases hok
      | ok blob => exact (hleaves.value blob rfl).1
    · intro M hseal _ P Path _ target me s
      cases r with
      | error e => exact KeyStep.tpmSealFailed e
      | ok blob =>
        obtain ⟨-,n,rfl⟩ := hleaves.value blob rfl
        rw [← hseal]
        exact KeyStep.tpmSeal n
  | unsealing blob =>
    rw [Request.program,Program.wp_bind]
    refine (tidy_unsealMasterKey [] rfl).mono fun r h hleaves => ⟨hleaves.known.notFlushed,fun hok => ?_,?_⟩
    · cases r with
      | error => cases hok
      | ok key => exact (hleaves.value key rfl).1
    · intro M _ hunseal P Path _ target me s
      cases r with
      | error e => exact KeyStep.tpmUnsealFailed e
      | ok key =>
        rw [← (hleaves.value key rfl).2,← hunseal]
        exact KeyStep.tpmUnseal

section NoFault

open Program (Exec)

variable {s : TpmState Handle} {n : ℕ} {masterKey : Key}

theorem update_back {s : TpmState Handle} {handle : Handle} {x : Option Object} (hfree : s.loaded handle = none) :
    Function.update (Function.update s.loaded handle x) handle none = s.loaded := by
  rw [Function.update_idem,← hfree,Function.update_eq_self]

theorem exec_sealing (primary : Handle) (hprimary : s.loaded primary = none) :
    Exec (TpmStep (D := D)) (Request.program (.sealing masterKey)) s (.inl (.ok (sealedBlob D s.seals masterKey)))
      { s with seals := s.seals+1 } := by
  have hloaded : Function.update s.loaded primary (some ownerPrimary) primary = some ownerPrimary := Function.update_self ..
  refine ⟨_,_,.varOs false,_,_,.varOs false,_,_,.varOs false,_,_,.pathExists true,_,_,.prepare,_,_,.newContext,_,_,
    .startAuthSession,_,_,.prepare,_,_,.prepare,_,_,.prepare,_,_,.createPrimary hprimary,_,_,.prepare,_,_,.prepare,_,_,.prepare,
    _,_,.create hloaded,_,_,.prepare,_,_,.prepare,_,_,.flushContext hloaded,_,_,.endAuthSession,rfl,?_⟩
  rw [update_back hprimary]

theorem exec_unsealing (primary item : Handle) (hprimary : s.loaded primary = none) (hitem : s.loaded item = none)
    (hne : item ≠ primary) :
    Exec (TpmStep (D := D)) (Request.program (.unsealing (sealedBlob D n masterKey))) s (.inr (.ok masterKey)) s := by
  have hloaded : Function.update s.loaded primary (some ownerPrimary) primary = some ownerPrimary := Function.update_self ..
  have hfree : Function.update s.loaded primary (some ownerPrimary) item = none := (Function.update_of_ne hne _ _).trans hitem
  have hunwrap : unwrapOwner D (D.wrap n (D.primary .owner primaryTemplate) sealedDataTemplate masterKey.toList) =
      some masterKey.toList :=
    D.unwrap_wrap n .owner primaryTemplate sealedDataTemplate masterKey.toList ⟨rfl,rfl,rfl⟩ ⟨rfl,rfl,rfl,rfl⟩
  have hsealed : Function.update (Function.update s.loaded primary (some ownerPrimary)) item
      (some (.sealedData masterKey.toList)) item = some (.sealedData masterKey.toList) := Function.update_self ..
  have hback : Function.update (Function.update (Function.update s.loaded primary (some ownerPrimary)) item
      (some (.sealedData masterKey.toList))) item none = Function.update s.loaded primary (some ownerPrimary) :=
    update_back (s := ⟨_,s.seals⟩) hfree
  have hstill := (congrFun hback primary).trans hloaded
  have hkey : keyOfUnsealed masterKey.toList = .ok masterKey := by simp [keyOfUnsealed]
  rw [Request.program,unsealMasterKey,sealedBlob,blobParts_masterBlob]
  refine ⟨_,_,.varOs false,_,_,.varOs false,_,_,.varOs false,_,_,.pathExists true,_,_,.prepare,_,_,.newContext,_,_,
    .startAuthSession,_,_,.prepare,_,_,.prepare,_,_,.prepare,_,_,.createPrimary hprimary,_,_,.load hloaded hunwrap hfree,_,_,
    .unsealItem hsealed,_,_,.flushContext hsealed,?_⟩
  rw [hkey]
  refine ⟨_,_,.flushContext hstill,_,_,.endAuthSession,rfl,?_⟩
  simp only [hback,update_back hprimary]

end NoFault

/-- A TPM that behaves as assumed: it wraps in the clear. -/
def clearDevice : Device where
  Public := Unit
  Private := Bytes
  Primary := Unit
  primary _ _ := ()
  wrap _ _ _ data := ((),data)
  unwrap _ _ data := some data
  unwrap_wrap := fun _ _ _ _ _ _ _ => rfl
  publicForm := ⟨fun _ => [],fun _ => .ok (),fun _ => rfl⟩
  privateForm := ⟨id,.ok,fun _ => rfl⟩
  base64 := Store.clearBase64

def sampleRequest (i : Bool) : Request :=
  if i then .unsealing (sealedBlob clearDevice 0 (Store.counterKey 7)) else .sealing (Store.counterKey 7)

def emptyTpm : TpmState ℕ := ⟨fun _ => none,0⟩

end Runs
end Avault.Tpm
