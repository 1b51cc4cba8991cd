import Avault.Store.Authorize

/-! One prompt at a time, and none for a window after a denial, in every run of all callers. -/
namespace Avault.Authorize
open Foundation
open Foundation.Program (Ensures attempt ensures_bind ensures_attempt ensures_ite ensures_mapResult ensures_liftResult)
open Store

section Window

/-- A window that is open at this reading is still in the record. -/
def KeepsWindow (clock : ℕ) (before after : Bytes) : Prop :=
  ∀ ends, HoldsUntil before ends → ends ≤ clock + keychainAuthorizationCooldownSecs → clock < ends → HoldsUntil after ends

/-- The record gives no window that is open at this reading, and none that could be. -/
def Inactive (clock : ℕ) (content : Bytes) : Prop :=
  ∀ ends, HoldsUntil content ends → ends ≤ clock + keychainAuthorizationCooldownSecs → ends ≤ clock

variable {clock : ℕ} {before after : Bytes} {file : GateFile}

theorem inactive_nil : Inactive clock [] := fun _ h => absurd rfl h.1

theorem Inactive.keepsWindow (h : Inactive clock before) : KeepsWindow clock before after :=
  fun ends hholds hnear hlt => absurd (h ends hholds hnear) (not_le.mpr hlt)

theorem KeepsWindow.refl (clock : ℕ) (content : Bytes) : KeepsWindow clock content content := fun _ h _ _ => h

/-- What a caller that has the gate may do with the file: it never ends an open window, and only writes
a new one. -/
def fileCalls (clock : ℕ) : Program.Transformer GateFileOp GateFileOp.Reply GateFile where
  pre op Q file := (∀ bytes, op = .writeAll bytes → file.content = [] ∧ file.cursor = 0 ∧
      bytes = utf8 (toString (saturatingAdd clock keychainAuthorizationCooldownSecs))) ∧
    ∀ r file', GateFileStep file op r file' → KeepsWindow clock file.content file'.content ∧ Q r file'
  mono h hP := ⟨hP.1,fun r file' hstep => (hP.2 r file' hstep).imp_right (h r file')⟩

theorem seekStart_spec {Q : Result Unit → GateFile → Prop} (hok : Q (.ok ()) ⟨file.content,0⟩)
    (herr : ∀ e cursor, Q (.error e) ⟨file.content,cursor⟩) :
    Ensures (fileCalls clock) GateFileM.seekStart file Q := by
  refine ⟨fun _ h => by (cases h),fun r file' hstep => ?_⟩
  cases hstep with
  | performed => exact ⟨.refl _ _,hok⟩
  | seekFailed e cursor => exact ⟨.refl _ _,herr e cursor⟩

/-- The record is only cleared where it has no open window. -/
theorem setLenZero_spec {Q : Result Unit → GateFile → Prop} (hfile : Inactive clock file.content)
    (hok : Q (.ok ()) ⟨[],file.cursor⟩) (herr : ∀ e, Q (.error e) file) :
    Ensures (fileCalls clock) GateFileM.setLenZero file Q := by
  refine ⟨fun _ h => by (cases h),fun r file' hstep => ⟨hfile.keepsWindow,?_⟩⟩
  cases hstep with
  | performed => exact hok
  | setLenFailed e => exact herr e

theorem record_spec (hfile : Inactive clock file.content) : Ensures (fileCalls clock)
    (recordKeychainAuthorizationCooldown (saturatingAdd clock keychainAuthorizationCooldownSecs)) file fun _ _ => True := by
  refine ensures_mapResult.mpr (ensures_bind.mpr (setLenZero_spec hfile ?_ fun _ => trivial))
  refine ensures_bind.mpr (seekStart_spec ?_ fun _ _ => trivial)
  refine ⟨fun bytes h => ⟨rfl,rfl,(GateFileOp.writeAll.inj h).symm⟩,fun _ _ _ => ⟨inactive_nil.keepsWindow,trivial⟩⟩

/-- Without a window to report, the record is empty. -/
theorem reportCooldown_spec (now : ℕ) {record : Bytes}
    (hrecord : record = file.content.take (maxKeychainCooldownRecordBytes + 1)) :
    Ensures (fileCalls now) (reportCooldown record now) file fun r file' => r = .ok none → file'.content = [] := by
  have hempty : record = [] ↔ file.content = [] := by
    rw [hrecord]
    simp [maxKeychainCooldownRecordBytes]
  have hread (ends : ℕ) (h : HoldsUntil file.content ends) : recordedUntil record = some ends := hrecord ▸ h.2
  have hwindow (hinactive : Inactive now file.content) : Ensures (fileCalls now) (do
      recordKeychainAuthorizationCooldown (saturatingAdd now keychainAuthorizationCooldownSecs)
      return some keychainAuthorizationCooldownSecs : GateFileM (Option ℕ)) file
      fun r file' => r = .ok none → file'.content = [] :=
    (record_spec hinactive).bind (fun _ _ _ h => by cases h) fun _ _ _ h => by cases h
  unfold reportCooldown
  refine ensures_ite.mpr ⟨fun h _ => hempty.mp h,fun _ => ?_⟩
  cases hends : recordedUntil record with
  | none =>
    apply hwindow
    intro ends h
    rw [hends] at hread
    cases hread ends h
  | some ends =>
    have hunique (ends' : ℕ) (h : HoldsUntil file.content ends') : ends' = ends :=
      (Option.some.inj (hends.symm.trans (hread ends' h))).symm
    refine ensures_ite.mpr ⟨fun hended => ?_,fun hopen => ensures_ite.mpr ⟨fun _ h => by (cases h),fun hfar => ?_⟩⟩
    · refine ensures_bind.mpr (ensures_mapResult.mpr (setLenZero_spec (fun ends' h _ => hunique ends' h ▸ hended) ?_ ?_))
      · exact fun _ => rfl
      · intro e h
        cases h
    · apply hwindow
      intro ends' h hnear
      obtain rfl := hunique ends' h
      omega

theorem cooldown_spec (now : ℕ) : Ensures (fileCalls now) (keychainAuthorizationCooldown now) file
    fun r file' => r = .ok none → file'.content = [] := by
  refine ensures_bind.mpr (ensures_mapResult.mpr (ensures_bind.mpr (seekStart_spec ?_ fun _ _ h => by cases h)))
  refine ⟨fun _ h => by (cases h),fun r file' hstep => ?_⟩
  cases hstep with
  | performed => exact ⟨.refl _ _,reportCooldown_spec now rfl⟩
  | readFailed e cursor => exact ⟨.refl _ _,fun h => by cases h⟩

end Window

/-! What the callers count on. -/

section Rely

variable {P T : Type}

def GateOp.caller : GateOp P → P
  | openGate me | flock me | onWait me | instant me | sleep me | clock me | file me _ | interactive me
  | coalesced me | close me | looping me | crash me => me

/-- The calls that only the holder of the gate makes. -/
def GateOp.needsGate : GateOp P → Bool
  | clock _ | file _ _ => true
  | _ => false

/-- A window that is open stays in the record. -/
structure WindowKept (s t : GateWorld P) : Prop where
  clock : s.clock ≤ t.clock
  kept : ∀ ends, HoldsUntil s.content ends → ends ≤ s.clock + keychainAuthorizationCooldownSecs → t.clock < ends →
    HoldsUntil t.content ends

/-- What the others leave alone: the gate and what is behind it, while the caller holds it. -/
structure LeavesAlone (me : P) (s t : GateWorld P) : Prop where
  window : WindowKept s t
  dead : s.dead me = true → t.dead me = true
  held : s.holder = some me → t.dead me = false →
    t.holder = some me ∧ t.content = s.content ∧ t.cursor me = s.cursor me ∧ t.clock = s.clock

theorem WindowKept.refl (s : GateWorld P) : WindowKept s s := ⟨le_refl _,fun _ h _ _ => h⟩

theorem WindowKept.trans {s t u : GateWorld P} (h : WindowKept s t) (h' : WindowKept t u) : WindowKept s u where
  clock := h.clock.trans h'.clock
  kept ends hholds hnear hlt := by
    have ht := h.kept ends hholds hnear (lt_of_le_of_lt h'.clock hlt)
    exact h'.kept ends ht (hnear.trans (Nat.add_le_add_right h.clock _)) hlt

theorem LeavesAlone.refl (me : P) (s : GateWorld P) : LeavesAlone me s s :=
  ⟨.refl s,fun h => h,fun h _ => ⟨h,rfl,rfl,rfl⟩⟩

theorem LeavesAlone.alive {me : P} {s t : GateWorld P} (h : LeavesAlone me s t) (ht : t.dead me = false) :
    s.dead me = false := by
  cases hs : s.dead me with
  | false => rfl
  | true => exact absurd (h.dead hs) (by rw [ht]; decide)

theorem LeavesAlone.trans {me : P} {s t u : GateWorld P} (h : LeavesAlone me s t) (h' : LeavesAlone me t u) :
    LeavesAlone me s u where
  window := h.window.trans h'.window
  dead hs := h'.dead (h.dead hs)
  held hs hu := by
    obtain ⟨hholder,hcontent,hcursor,hclock⟩ := h.held hs (h'.alive hu)
    obtain ⟨hholder',hcontent',hcursor',hclock'⟩ := h'.held hholder hu
    exact ⟨hholder',hcontent'.trans hcontent,hcursor'.trans hcursor,hclock'.trans hclock⟩

def rely : Participant P → GateWorld P → GateWorld P → Prop
  | .caller me => LeavesAlone me
  | .killer _ => WindowKept

/-- Where a caller prompts it has the gate, nobody was denied lately, and it did not wait. Where it
writes a record, the record is new and for this reading. -/
def demand : Participant P → GateCalls P T → GateOp P → GateWorld P → Prop
  | .caller me,h,.interactive _,u => (⟨.flock me,FlockReply.wouldBlock⟩ : (op : GateOp P) × op.Reply T) ∉ h ∧
    (u.dead me = false → u.holder = some me ∧ u.content = [] ∧ lastReading h = some u.clock)
  | .caller me,h,.file _ (.writeAll bytes),u => u.dead me = false → u.content = [] ∧ u.cursor me = 0 ∧
    lastReading h = some u.clock ∧ bytes = utf8 (toString (saturatingAdd u.clock keychainAuthorizationCooldownSecs))
  | _,_,_,_ => True

variable [DecidableEq P]

def gate (P T : Type) [DecidableEq P] : Roles (Participant P) (GateOp P) (GateOp.Reply T) (GateWorld P) where
  step := GateStep T
  rely := rely
  demand := demand
  rely_refl i s := by
    cases i with
    | caller me => exact .refl me s
    | killer me => exact .refl s
  rely_trans {i s t u} h h' := by
    cases i with
    | caller me => exact LeavesAlone.trans h h'
    | killer me => exact WindowKept.trans h h'

variable {s t : GateWorld P} {op : GateOp P} {r : op.Reply T}

/-- A call that does not touch the file keeps its windows. -/
theorem GateStep.windowKept (h : GateStep T s op r t) (hfile : ∀ me op', op = .file me op' →
    KeepsWindow s.clock s.content t.content) : WindowKept s t := by
  cases h with
  | clock _ hclock _ => exact ⟨hclock,fun _ h _ _ => h⟩
  | file _ _ => exact ⟨le_refl _,hfile _ _ rfl⟩
  | openGate | locked | interrupted | wouldBlock | failed | onWait | instant | sleep | clockFailed | interactive
  | coalesced | close | crash => exact ⟨le_refl _,fun _ h _ _ => h⟩

/-- What one caller does is nothing to the others, if it touches the file and the clock only with the gate. -/
theorem GateStep.leavesAlone (h : GateStep T s op r t) (hwindow : WindowKept s t)
    (hgate : op.needsGate = true → s.dead op.caller = false → s.holder = some op.caller) {j : P} (hj : j ≠ op.caller) :
    LeavesAlone j s t := by
  cases h with
  | openGate _ _ => exact ⟨hwindow,fun h => h,fun h _ => ⟨h,rfl,Function.update_of_ne hj _ _,rfl⟩⟩
  | locked _ hfree =>
    refine ⟨hwindow,fun h => h,fun h _ => ?_⟩
    rw [hfree] at h
    cases h
  | clock halive _ _ =>
    refine ⟨hwindow,fun h => h,fun h _ => absurd (Option.some.inj (h.symm.trans (hgate rfl halive))) hj⟩
  | file halive _ =>
    refine ⟨hwindow,fun h => h,fun h _ => absurd (Option.some.inj (h.symm.trans (hgate rfl halive))) hj⟩
  | close _ =>
    refine ⟨hwindow,fun h => h,fun h _ => ⟨?_,rfl,rfl,rfl⟩⟩
    have hne : s.holder ≠ some _ := fun hme => hj (Option.some.inj (h.symm.trans hme))
    exact (if_neg hne).trans h
  | @crash me =>
    refine ⟨hwindow,fun h => ?_,fun h _ => ⟨?_,rfl,rfl,rfl⟩⟩
    · exact (Function.update_of_ne hj _ _).trans h
    · have hne : s.holder ≠ some me := fun hme => hj (Option.some.inj (h.symm.trans hme))
      exact (if_neg hne).trans h
  | interrupted | wouldBlock | failed | onWait | instant | sleep | clockFailed | interactive | coalesced =>
    exact ⟨hwindow,fun h => h,fun h _ => ⟨h,rfl,rfl,rfl⟩⟩

theorem GateStep.rely (h : GateStep T s op r t) (hwindow : WindowKept s t)
    (hgate : op.needsGate = true → s.dead op.caller = false → s.holder = some op.caller) :
    ∀ j, j ≠ .caller op.caller → Authorize.rely j s t := by
  rintro (j | j) hj
  · exact h.leavesAlone hwindow hgate fun heq => hj (congrArg Participant.caller heq)
  · exact hwindow

end Rely

/-! One caller. -/

section Caller

variable {P T α : Type} [DecidableEq P] {me : P} {s : GateCalls P T × GateWorld P}

/-- No attempt of the caller to take the gate has failed. -/
def NeverBlocked (me : P) (h : GateCalls P T) : Prop :=
  (⟨.flock me,FlockReply.wouldBlock⟩ : (op : GateOp P) × op.Reply T) ∉ h

def Holding (me : P) (s : GateWorld P) : Prop := s.dead me = false → s.holder = some me

/-- The caller has the gate, with this file behind it, and this is the latest reading of the clock. -/
structure HasGate (me : P) (file : GateFile) (clock : ℕ) (s : GateCalls P T × GateWorld P) : Prop where
  reading : lastReading s.1 = some clock
  owns : s.2.dead me = false →
    s.2.holder = some me ∧ s.2.content = file.content ∧ s.2.cursor me = file.cursor ∧ s.2.clock = clock

omit [DecidableEq P] in
theorem Holding.leavesAlone {s t : GateWorld P} (h : Holding me s) (hst : LeavesAlone me s t) : Holding me t :=
  fun ht => (hst.held (h (hst.alive ht)) ht).1

omit [DecidableEq P] in
theorem HasGate.leavesAlone {file : GateFile} {clock : ℕ} {h : GateCalls P T} {s t : GateWorld P}
    (hs : HasGate me file clock (h,s)) (hst : LeavesAlone me s t) : HasGate me file clock (h,t) where
  reading := hs.reading
  owns ht := by
    obtain ⟨hholder,hcontent,hcursor,hclock⟩ := hs.owns (hst.alive ht)
    obtain ⟨hholder',hcontent',hcursor',hclock'⟩ := hst.held hholder ht
    exact ⟨hholder',hcontent'.trans hcontent,hcursor'.trans hcursor,hclock'.trans hclock⟩

/-- A call that needs no gate. -/
theorem idle_pre (op : GateOp P) (hcaller : op.caller = me) (hgate : op.needsGate = false)
    {Q : op.Reply T → GateCalls P T × GateWorld P → Prop}
    (h : ∀ u, LeavesAlone me s.2 u → demand (.caller me) s.1 op u ∧ ∀ r t, GateStep T u op r t → Q r (⟨op,r⟩::s.1,t)) :
    ((gate P T).calls (.caller me)).pre op Q s := by
  subst hcaller
  intro u hu
  obtain ⟨hdemand,hnext⟩ := h u hu
  refine ⟨hdemand,fun r t hstep => ⟨?_,hnext r t hstep⟩⟩
  refine hstep.rely (hstep.windowKept ?_) fun hneeds => absurd hneeds (by rw [hgate]; decide)
  rintro _ _ rfl
  cases hgate

/-- A call that nothing is asked of. -/
theorem idle_spec (op : GateOp P) (hcaller : op.caller = me) (hgate : op.needsGate = false)
    (hdemand : ∀ h u, demand (.caller me) (h : GateCalls P T) op u) {Q : op.Reply T → GateCalls P T × GateWorld P → Prop}
    (h : ∀ r u t, LeavesAlone me s.2 u → GateStep T u op r t → Q r (⟨op,r⟩::s.1,t)) :
    ((gate P T).calls (.caller me)).pre op Q s :=
  idle_pre op hcaller hgate fun u hu => ⟨hdemand _ u,fun r t hstep => h r u t hu hstep⟩

theorem looping_spec {Q : Result α → GateCalls P T × GateWorld P → Prop} :
    Ensures ((gate P T).calls (.caller me)) (looping me) s Q :=
  idle_spec (.looping me) rfl rfl (fun _ _ => trivial) fun r => Empty.elim r

/-- A caller that gets the gate at once holds it, and has never been blocked. -/
theorem tryLock_spec (rounds : ℕ) : Ensures ((gate P T).calls (.caller me))
    (tryLockKeychainAuthorizationGate me rounds) s fun r t => r = .ok true → Holding me t.2 ∧
      (NeverBlocked me s.1 → NeverBlocked me t.1) := by
  induction rounds generalizing s with
  | zero => exact looping_spec
  | succ rounds ih =>
    refine ensures_bind.mpr (idle_spec (.flock me) rfl rfl (fun _ _ => trivial) fun r u t _ hstep => ?_)
    have hnever {reply : FlockReply} (hreply : reply ≠ .wouldBlock) (hs : NeverBlocked me s.1) :
        NeverBlocked me (⟨.flock me,reply⟩::s.1 : GateCalls P T) := by
      intro hmem
      obtain heq | hmem := List.mem_cons.mp hmem
      · cases heq
        exact hreply rfl
      · exact hs hmem
    cases hstep with
    | locked halive hfree => exact fun _ => ⟨fun _ => rfl,hnever (by rintro ⟨⟩)⟩
    | interrupted halive =>
      exact (ih (s := (_,u))).mono fun r t h hr => ⟨(h hr).1,fun hs => (h hr).2 (hnever (by rintro ⟨⟩) hs)⟩
    | wouldBlock halive =>
      intro h
      cases h
    | failed e halive =>
      intro h
      cases h

theorem waitForGate_spec (deadline rounds : ℕ) : Ensures ((gate P T).calls (.caller me))
    (waitForGate me deadline rounds) s fun r t => r = .ok () → Holding me t.2 := by
  induction rounds generalizing s with
  | zero => exact looping_spec
  | succ rounds ih =>
    refine (tryLock_spec rounds).bind ?_ fun e t _ h => by cases h
    intro locked t ht
    refine ensures_ite.mpr ⟨fun hlocked _ => (ht (congrArg Except.ok hlocked)).1,fun _ => ?_⟩
    refine ensures_bind.mpr (idle_spec (.instant me) rfl rfl (fun _ _ => trivial) fun (now : ℕ) u t _ _ => ?_)
    refine ensures_ite.mpr ⟨fun _ => ensures_liftResult.mpr fun h => (error_ne_ok h).elim,fun _ => ?_⟩
    exact ensures_bind.mpr (idle_spec (.sleep me) rfl rfl (fun _ _ => trivial) fun _ _ _ _ _ => ih)

/-- A reading of the clock by the caller that has the gate. -/
theorem clock_spec (hs : Holding me s.2) {Q : Result ℕ → GateCalls P T × GateWorld P → Prop}
    (hok : ∀ u now file, LeavesAlone me s.2 u → u.dead me = false → file = ⟨u.content,u.cursor me⟩ →
      HasGate me file now (⟨.clock me,(.ok now : Result ℕ)⟩::s.1,{ u with clock := now }) →
      Q (.ok now) (⟨.clock me,(.ok now : Result ℕ)⟩::s.1,{ u with clock := now }))
    (herr : ∀ e t, Q (.error e) t) : Ensures ((gate P T).calls (.caller me)) (clock me) s Q := by
  intro u hu
  have hholding := hs.leavesAlone hu
  refine ⟨trivial,fun r t hstep => ⟨hstep.rely (hstep.windowKept fun _ _ h => by cases h) fun _ => hholding,?_⟩⟩
  cases hstep with
  | clock halive _ _ => exact hok u _ _ hu halive rfl ⟨rfl,fun _ => ⟨hholding halive,rfl,rfl,rfl⟩⟩
  | clockFailed e _ => exact herr e _

/-- What is done with the file alone is done with it behind the gate. -/
theorem inGate_spec {p : Program GateFileOp GateFileOp.Reply α} {file : GateFile} {clock : ℕ}
    {Q : α → GateFile → Prop} (hp : Program.wp (fileCalls clock) p Q file) (hs : HasGate me file clock s) :
    Program.wp ((gate P T).calls (.caller me)) (inGateProgram me p) (fun a t =>
      (NeverBlocked me s.1 → NeverBlocked me t.1) ∧ ∃ file', Q a file' ∧ HasGate me file' clock t) s := by
  induction p generalizing file s with
  | done a => exact ⟨fun h => h,file,hp,hs⟩
  | request op next ih =>
    intro u hu
    have hown := (hs.leavesAlone hu).owns
    refine ⟨?_,fun r t hstep => ?_⟩
    · cases op with
      | writeAll bytes =>
        intro halive
        obtain ⟨-,hcontent,hcursor,hclock⟩ := hown halive
        obtain ⟨hempty,hzero,hbytes⟩ := hp.1 bytes rfl
        exact ⟨hcontent.trans hempty,hcursor.trans hzero,hs.reading.trans (congrArg some hclock.symm),hclock ▸ hbytes⟩
      | seekStart | readToEnd | setLenZero => trivial
    · cases hstep with
      | @file _ _ _ file' halive hfile =>
        obtain ⟨hholder,hcontent,hcursor,hclock⟩ := hown halive
        rw [hcontent,hcursor] at hfile
        obtain ⟨hkeeps,hnext⟩ := hp.2 r file' hfile
        have hstep := GateStep.file (T := T) halive (hcontent ▸ hcursor ▸ hfile)
        refine ⟨hstep.rely (hstep.windowKept fun _ _ _ => hcontent ▸ hclock ▸ hkeeps) fun _ _ => hholder,?_⟩
        have hgate : HasGate me file' clock (⟨.file me op,r⟩::s.1,{ u with
            content := file'.content, cursor := Function.update u.cursor me file'.cursor }) :=
          ⟨hs.reading,fun _ => ⟨hholder,rfl,Function.update_self _ _ _,hclock⟩⟩
        refine Program.wp_mono ?_ (ih r hnext hgate)
        rintro a v ⟨hnever,hafter⟩
        refine ⟨fun h => hnever fun hmem => ?_,hafter⟩
        obtain heq | hmem := List.mem_cons.mp hmem
        · cases congrArg Sigma.fst heq
        · exact h hmem


/-- With an empty record, a caller that has the gate may do what it likes with it. -/
theorem setLenZero_inGate {file : GateFile} {clock : ℕ} (hfile : file.content = []) (hs : HasGate me file clock s) :
    Ensures ((gate P T).calls (.caller me)) (inGate me GateFileM.setLenZero) s fun _ _ => True := by
  have hempty : Ensures (fileCalls clock) GateFileM.setLenZero file fun _ _ => True :=
    setLenZero_spec (hfile ▸ inactive_nil) trivial fun _ => trivial
  exact Program.wp_mono (fun _ _ _ => trivial) (inGate_spec hempty hs)

theorem recordDenial_spec {file : GateFile} {before : ℕ} (hfile : file.content = []) (hs : HasGate me file before s)
    (err : Error) : Ensures ((gate P T).calls (.caller me)) (recordDenial me err) s fun _ _ => True := by
  have hholding : Holding me s.2 := fun h => (hs.owns h).1
  refine ensures_bind.mpr (ensures_attempt.mpr (Ensures.mono (P := fun _ _ => True) ?_ fun r t _ => ?_))
  · refine ensures_bind.mpr (clock_spec hholding ?_ fun _ _ => trivial)
    rintro u now file' hu halive rfl hgate
    have hcontent : u.content = [] := ((hs.leavesAlone hu).owns halive).2.1.trans hfile
    have hrecord : Ensures (fileCalls now)
        (recordKeychainAuthorizationCooldown (saturatingAdd now keychainAuthorizationCooldownSecs))
        ⟨u.content,u.cursor me⟩ fun _ _ => True := record_spec (hcontent ▸ inactive_nil)
    exact Program.wp_mono (fun _ _ _ => trivial) (inGate_spec hrecord hgate)
  · cases r <;> trivial

/-- Having the gate, the caller prompts only where the demands are met. -/
theorem authorizeInGate_spec (waited : Bool) (hs : Holding me s.2) (hnever : waited = false → NeverBlocked me s.1) :
    Ensures ((gate P T).calls (.caller me)) (authorizeInGate me waited) s fun _ _ => True := by
  refine ensures_bind.mpr (clock_spec hs ?_ fun _ _ => trivial)
  rintro u now file hu halive rfl hgate
  refine ensures_bind.mpr (Program.wp_mono ?_ (inGate_spec (cooldown_spec now) hgate))
  rintro r t ⟨hkept,file',hempty,hgate'⟩
  have hnever' (hwaited : waited = false) : NeverBlocked me t.1 := hkept fun hmem => by
    obtain heq | hmem := List.mem_cons.mp hmem
    · cases congrArg Sigma.fst heq
    · exact hnever hwaited hmem
  cases r with
  | error e => trivial
  | ok report =>
    cases report with
    | some remaining => trivial
    | none =>
      have hcontent := hempty rfl
      refine ensures_ite.mpr ⟨fun _ => idle_spec (.coalesced me) rfl rfl (fun _ _ => trivial) fun _ _ _ _ _ => trivial,
        fun hwaited => ?_⟩
      refine ensures_bind.mpr (ensures_attempt.mpr (idle_pre (.interactive me) rfl rfl fun v hv => ?_))
      have howns := (hgate'.leavesAlone hv).owns
      refine ⟨⟨hnever' (Bool.eq_false_of_not_eq_true hwaited),fun h => ?_⟩,fun r w hstep => ?_⟩
      · obtain ⟨hholder,hv,-,hclock⟩ := howns h
        exact ⟨hholder,hv.trans hcontent,hgate'.reading.trans (congrArg some hclock.symm)⟩
      · cases hstep with
        | interactive r _ =>
          have hgate'' : HasGate me file' now (⟨.interactive me,r⟩::t.1,v) := ⟨hgate'.reading,howns⟩
          cases r with
          | ok value =>
            refine ensures_bind.mpr (ensures_attempt.mpr (Ensures.mono (setLenZero_inGate hcontent hgate'') ?_))
            exact fun _ _ _ => trivial
          | error err => exact ensures_ite.mpr ⟨fun _ => recordDenial_spec hcontent hgate'' err,fun _ => trivial⟩

theorem authorizeWithGate_spec (me : P) (wait rounds : ℕ) (s : GateWorld P) :
    Ensures ((gate P T).calls (.caller me)) (authorizeWithGate me wait rounds) ([],s) fun _ _ => True := by
  refine ensures_bind.mpr (idle_spec (.openGate me) rfl rfl (fun _ _ => trivial) fun r u t _ _ => ?_)
  cases r with
  | error e => trivial
  | ok _ =>
    have hopened : NeverBlocked (T := T) me [⟨.openGate me,(.ok () : Result Unit)⟩] := by
      intro hmem
      cases congrArg Sigma.fst (List.mem_singleton.mp hmem)
    refine ensures_bind.mpr (ensures_attempt.mpr (Ensures.mono (P := fun _ _ => True) ?_ fun r t _ => ?_))
    · refine (tryLock_spec rounds).bind ?_ fun _ _ _ => trivial
      intro locked v hv
      refine ensures_ite.mpr ⟨fun hlocked => ?_,fun _ => ?_⟩
      · obtain ⟨hholding,hnever⟩ := hv (congrArg Except.ok hlocked)
        exact authorizeInGate_spec false hholding fun _ => hnever hopened
      · refine ensures_bind.mpr (idle_spec (.onWait me) rfl rfl (fun _ _ => trivial) fun _ _ _ _ _ => ?_)
        refine ensures_bind.mpr (idle_spec (.instant me) rfl rfl (fun _ _ => trivial) fun (now : ℕ) _ _ _ _ => ?_)
        refine (waitForGate_spec (now + wait) rounds).bind (fun _ v hv => ?_) fun _ _ _ => trivial
        exact authorizeInGate_spec true (hv rfl) fun h => by cases h
    · refine ensures_bind.mpr (idle_spec (.close me) rfl rfl (fun _ _ => trivial) fun _ _ _ _ _ => ?_)
      exact trivial

end Caller

/-! All callers. -/

section Callers

variable {P T : Type} [DecidableEq P]

/-- What holds of all callers behind these events. -/
structure GateSafe (events : List (GateEvent P T)) (d : GateConfig P T) : Prop where
  exclusive : ∀ i j, Inside d i → Inside d j → i = j
  /-- A caller that was refused the gate has no prompt. -/
  leader : ∀ i, (d.process (.caller i)).Awaits (.interactive i) → NeverBlocked i (d.process (.caller i)).history
  /-- Once a denial is recorded, no prompt follows a reading of its window. -/
  cooldown : ∀ before ev after reading, events = before ++ ev::after → Records ev reading → ∀ i now, Inside d i →
    lastReading (d.process (.caller i)).history = some now →
    min (reading + keychainAuthorizationCooldownSecs) u64Max ≤ now

/-- All runs are safe, of any callers, any of which may be killed at any time. -/
def SafeGate (T : Type) (wait rounds : P → ℕ) (content : Bytes) (clock : ℕ) : Prop :=
  ∀ events (d : GateConfig P T), Run (GateStep T) (arriving wait rounds content clock) events d → GateSafe events d

theorem killer_spec (me : P) (s : GateWorld P) : Program.wp ((gate P T).calls (.killer me))
    (.request (.crash me) fun _ => .done (.error [] : Result T)) (fun _ _ => True) ([],s) := by
  intro u _
  refine ⟨trivial,fun r t hstep => ⟨?_,trivial⟩⟩
  have hwindow : WindowKept u t := hstep.windowKept fun _ _ h => by cases h
  rintro (j | j) hj
  · by_cases hme : j = me
    · subst hme
      cases hstep
      have hdead : Function.update u.dead j true j = true := Function.update_self _ _ _
      exact ⟨hwindow,fun _ => hdead,fun _ h => absurd (hdead.symm.trans h) (by decide)⟩
    · exact hstep.leavesAlone hwindow (fun h => by cases h) hme
  · exact hwindow

/-- What all calls of a run leave alone, and what holds where they are made. -/
theorem callers_run {wait rounds : P → ℕ} {content : Bytes} {clock : ℕ} {events : List (GateEvent P T)}
    {d : GateConfig P T} (hrun : Run (GateStep T) (arriving wait rounds content clock) events d) :
    (∀ i, Program.wp ((gate P T).calls i) (d.process i).program (fun _ _ => True) ((d.process i).history,d.state)) ∧
      ∀ ev ∈ events, demand ev.process ev.history ev.op ev.before ∧ WindowKept ev.before ev.after := by
  obtain ⟨hprograms,hevents⟩ := Roles.wp_run (R := gate P T) (Q := fun _ _ _ => True)
    (fun _ _ _ _ _ _ _ => trivial) hrun fun i => by
      cases i with
      | caller me => exact authorizeWithGate_spec me (wait me) (rounds me) _
      | killer me => exact killer_spec me _
  refine ⟨hprograms,fun ev hev => ⟨(hevents ev hev).1,?_⟩⟩
  have hothers := (hevents ev hev).2
  cases hprocess : ev.process with
  | caller me => exact hothers (.killer me) (by rw [hprocess]; exact nofun)
  | killer me => exact (hothers (.caller me) (by rw [hprocess]; exact nofun)).window

/-- The event leaves a window in the record. -/
theorem Records.window {ev : GateEvent P T} {reading : ℕ} (h : Records ev reading)
    (hdemand : demand ev.process ev.history ev.op ev.before) (hstep : GateStep T ev.before ev.op ev.reply ev.after) :
    HoldsUntil ev.after.content (saturatingAdd reading keychainAuthorizationCooldownSecs) ∧ ev.after.clock = reading := by
  cases h with
  | @denial me bytes e reading rest before after =>
  have hdemand' (halive : before.dead me = false) : before.content = [] ∧ before.cursor me = 0 ∧
      reading = before.clock ∧ bytes = utf8 (toString (saturatingAdd before.clock keychainAuthorizationCooldownSecs)) := by
    obtain ⟨hcontent,hcursor,hreading,hbytes⟩ := hdemand halive
    exact ⟨hcontent,hcursor,Option.some.inj hreading,hbytes⟩
  have hfile : GateStep T before (.file me (.writeAll bytes)) (.ok () : Result Unit) after := hstep
  change HoldsUntil after.content _ ∧ after.clock = reading
  clear hdemand hstep
  cases hfile with
  | file halive hfile =>
    obtain ⟨hcontent,hcursor,rfl,rfl⟩ := hdemand' halive
    rw [hcontent,hcursor] at hfile
    cases hfile with
    | performed =>
      refine ⟨?_,rfl⟩
      simp only [GateFile.perform,List.take_nil,List.length_nil,Nat.sub_zero,List.replicate_zero,List.drop_nil,
        List.nil_append,List.append_nil]
      exact holdsUntil_toString (saturatingAdd_le _ _)

/-- One prompt at a time, none for a caller that was refused the gate, and none in the window of a denial. -/
theorem authorize_safe (wait rounds : P → ℕ) (content : Bytes) (clock : ℕ) : SafeGate T wait rounds content clock := by
  intro events d hrun
  obtain ⟨hprograms,hevents⟩ := callers_run hrun
  have hprompt (i : P) (h : (d.process (.caller i)).Awaits (.interactive i)) :
      NeverBlocked i (d.process (.caller i)).history ∧ (d.state.dead i = false → d.state.holder = some i ∧
        d.state.content = [] ∧ lastReading (d.process (.caller i)).history = some d.state.clock) := by
    obtain ⟨next,hprogram⟩ := h
    have hwp := hprograms (.caller i)
    rw [hprogram] at hwp
    exact Roles.wp_demand hwp
  refine ⟨fun i j hi hj => ?_,fun i hi => (hprompt i hi).1,?_⟩
  · obtain ⟨hholder,-⟩ := (hprompt i hi.2).2 hi.1
    obtain ⟨hholder',-⟩ := (hprompt j hj.2).2 hj.1
    exact Option.some.inj (hholder.symm.trans hholder')
  · rintro before ev after reading heq hrecords i now hi hnow
    have hev : ev ∈ events := heq ▸ List.mem_append_right before List.mem_cons_self
    obtain ⟨hwindow,hclock⟩ := hrecords.window (hevents ev hev).1 (hrun.step ev hev)
    have hkept : WindowKept ev.after d.state := Run.after_event (I := fun t => WindowKept ev.after t) hrun heq (.refl _)
      fun e he _ h => h.trans (hevents e (heq ▸ List.mem_append_right before (List.mem_cons_of_mem _ he))).2
    obtain ⟨-,hcontent,hreading⟩ := (hprompt i hi.2).2 hi.1
    obtain rfl := Option.some.inj (hreading.symm.trans hnow)
    by_contra hlt
    have hholds := hkept.kept _ hwindow (hclock ▸ min_le_left _ _) (not_le.mp hlt)
    exact hholds.1 hcontent

end Callers

section Saturated

/-- The user denies. -/
def userCanceled : Error := [.keychain errSecUserCanceled "User canceled"]

abbrev nearEnd : ℕ := u64Max - 10

/-- A caller that is denied, up to its record, the latest call first. -/
def deniedCalls (me : Bool) : GateCalls Bool Unit :=
  [⟨.file me .seekStart,(.ok () : Result Unit)⟩,⟨.file me .setLenZero,(.ok () : Result Unit)⟩,
    ⟨.clock me,(.ok nearEnd : Result ℕ)⟩,⟨.interactive me,(.error userCanceled : Result Unit)⟩,
    ⟨.file me (.readToEnd (maxKeychainCooldownRecordBytes + 1)),(.ok [] : Result Bytes)⟩,
    ⟨.file me .seekStart,(.ok () : Result Unit)⟩,⟨.clock me,(.ok nearEnd : Result ℕ)⟩,⟨.flock me,FlockReply.locked⟩,
    ⟨.openGate me,(.ok () : Result Unit)⟩]

theorem reaches_denied (me : Bool) {record : Bytes}
    (hrecord : record = utf8 (toString (saturatingAdd nearEnd keychainAuthorizationCooldownSecs))) :
    ∃ next, Reaches (authorizeWithGate (T := Unit) me 1 1).run (deniedCalls me)
      (.request (.file me (.writeAll record)) next) ∧ ∃ next', next (.ok () : Result Unit) = .request (.close me) next' := by
  subst hrecord
  have hopened := (Reaches.nil (p := (authorizeWithGate (T := Unit) me 1 1).run)).cons (.ok () : Result Unit)
  have hlocked := hopened.cons FlockReply.locked
  have hclock := hlocked.cons (.ok nearEnd : Result ℕ)
  have hseek := hclock.cons (.ok () : Result Unit)
  have hread := hseek.cons (.ok [] : Result Bytes)
  have hprompt := hread.cons (.error userCanceled : Result Unit)
  have hagain := hprompt.cons (.ok nearEnd : Result ℕ)
  have hclear := hagain.cons (.ok () : Result Unit)
  have hstart := hclear.cons (.ok () : Result Unit)
  exact ⟨_,hstart,_,rfl⟩

theorem steps_denied : ∃ cursor, cursor false = 0 ∧ Steps (GateStep Unit) ⟨[],fun _ => 0,none,fun _ => false,0⟩
    (deniedCalls false) ⟨[],cursor,some false,fun _ => false,nearEnd⟩ :=
  ⟨_,rfl,(((((((((Steps.nil).cons (.openGate (.ok ()) rfl)).cons (.locked rfl rfl)).cons
    (.clock rfl (Nat.zero_le _) (Nat.sub_le _ _))).cons (.file rfl .performed)).cons (.file rfl .performed)).cons
    (.interactive _ rfl)).cons (.clock rfl (le_refl _) (Nat.sub_le _ _))).cons (.file rfl .performed)).cons
    (.file rfl .performed)⟩

/-- The other caller reads a record whose window is over, and clears it. -/
def againCalls (me : Bool) (record : Bytes) (now : ℕ) : GateCalls Bool Unit :=
  [⟨.file me .setLenZero,(.ok () : Result Unit)⟩,
    ⟨.file me (.readToEnd (maxKeychainCooldownRecordBytes + 1)),
      (.ok (record.take (maxKeychainCooldownRecordBytes + 1)) : Result Bytes)⟩,
    ⟨.file me .seekStart,(.ok () : Result Unit)⟩,⟨.clock me,(.ok now : Result ℕ)⟩,⟨.flock me,FlockReply.locked⟩,
    ⟨.openGate me,(.ok () : Result Unit)⟩]

theorem reportCooldown_ended {record : Bytes} {ends now : ℕ} (hrecord : record ≠ [])
    (hends : recordedUntil record = some ends) (hle : ends ≤ now) : reportCooldown record now = do
      Program.mapResult (context "failed to clear Keychain authorization cooldown") GateFileM.setLenZero
      return none := by
  simp only [reportCooldown,if_neg hrecord,hends,if_pos hle]

theorem reaches_again (me : Bool) {record : Bytes} {ends now : ℕ} (hrecord : HoldsUntil record ends)
    (hle : ends ≤ now) : ∃ next, Reaches (authorizeWithGate (T := Unit) me 1 1).run (againCalls me record now)
      (.request (.interactive me) next) := by
  have hnonempty : record.take (maxKeychainCooldownRecordBytes + 1) ≠ [] := by
    simpa [maxKeychainCooldownRecordBytes] using hrecord.1
  have hopened := (Reaches.nil (p := (authorizeWithGate (T := Unit) me 1 1).run)).cons (.ok () : Result Unit)
  have hlocked := hopened.cons FlockReply.locked
  have hclock := hlocked.cons (.ok now : Result ℕ)
  have hseek := hclock.cons (.ok () : Result Unit)
  have hread := hseek.cons (.ok (record.take (maxKeychainCooldownRecordBytes + 1)) : Result Bytes)
  have hreport := reportCooldown_ended hnonempty hrecord.2 hle
  change Reaches _ _ (Program.bind (Program.bind (Program.bind
    (inGateProgram me (reportCooldown (record.take (maxKeychainCooldownRecordBytes + 1)) now).run) _) _) _) at hread
  rw [hreport] at hread
  have hclear := hread.cons (.ok () : Result Unit)
  exact ⟨_,hclear⟩

theorem steps_again (cursor : Bool → ℕ) (record : Bytes) : ∃ u : GateWorld Bool, u.dead = (fun _ => false) ∧
    Steps (GateStep Unit) ⟨record,cursor,none,fun _ => false,nearEnd⟩ (againCalls true record u64Max) u :=
  ⟨_,rfl,((((((Steps.nil).cons (.openGate (.ok ()) rfl)).cons (.locked rfl rfl)).cons
    (.clock rfl (Nat.sub_le _ _) (le_refl _))).cons (.file rfl .performed)).cons (.file rfl .performed)).cons
    (.file rfl .performed)⟩

/-- Near the end of the clock's range a window is cut short: its end saturates. -/
theorem authorize_saturated : ¬ ∀ (events : List (GateEvent Bool Unit)) (d : GateConfig Bool Unit),
    Run (GateStep Unit) (arriving (fun _ => 1) (fun _ => 1) [] 0) events d →
    ∀ before ev after reading, events = before ++ ev::after → Records ev reading → ∀ i now, Inside d i →
    lastReading (d.process (.caller i)).history = some now → reading + keychainAuthorizationCooldownSecs ≤ now := by
  intro hclaim
  have hends : u64Max = saturatingAdd nearEnd keychainAuthorizationCooldownSecs := by decide
  have hrecord := holdsUntil_toString (le_refl u64Max)
  obtain ⟨next,hdenied,next',hclose⟩ := reaches_denied false (congrArg (fun ends => utf8 (toString ends)) hends)
  generalize utf8 (toString u64Max) = record at hrecord hdenied
  obtain ⟨cursor,hcursor,hsteps⟩ := steps_denied
  obtain ⟨before,c,hrun,hstate,hfalse,hothers⟩ := Run.nil.along
    (c := arriving (fun _ => 1) (fun _ => 1) [] 0) (i := .caller false) rfl rfl hdenied hsteps
  have hwrite : GateStep Unit ⟨[],cursor,some false,fun _ => false,nearEnd⟩ (.file false (.writeAll record))
      (.ok () : Result Unit) ⟨record,Function.update cursor false record.length,some false,fun _ => false,nearEnd⟩ := by
    have hfile : GateFile.perform (.writeAll record) ⟨[],cursor false⟩ = (.ok (),⟨record,record.length⟩) := by
      simp [GateFile.perform,hcursor]
    have hperformed : GateFileStep ⟨[],cursor false⟩ (.writeAll record) _ _ := .performed
    rw [hfile] at hperformed
    exact GateStep.file (s := ⟨[],cursor,some false,fun _ => false,nearEnd⟩) rfl hperformed
  obtain ⟨c',hwritten,hworldWritten,hfalseWritten,hothersWritten⟩ := hrun.turn hfalse rfl hstate hwrite
  obtain ⟨e,hclosed,hworldClosed,-,hothersClosed⟩ := hwritten.turn hfalseWritten hclose hworldWritten (.close rfl)
  have htrue : e.process (.caller true) = ⟨(authorizeWithGate true 1 1).run,[]⟩ := by
    rw [hothersClosed _ (by decide),hothersWritten _ (by decide),hothers _ (by decide)]
    rfl
  obtain ⟨_,hagain⟩ := reaches_again true hrecord (le_refl u64Max)
  obtain ⟨u,hdead,hstepsAgain⟩ := steps_again (Function.update cursor false record.length) record
  obtain ⟨after,d,hprompted,rfl,hprompt,-⟩ := hclosed.along htrue hworldClosed hagain hstepsAgain
  rw [List.append_assoc,List.append_assoc] at hprompted
  have hwindow := hclaim _ d hprompted _ _ _ nearEnd rfl (.denial rfl) true u64Max
    ⟨congrFun hdead true,_,congrArg Process.program hprompt⟩ (by rw [hprompt]; rfl)
  exact absurd hwindow (by decide)

end Saturated
end Avault.Authorize
