import Avault.Foundation.SingleFault
import Avault.Store.Platform

/-! The forced imports, call by call: what has been written when one of the calls fails. -/
namespace Avault.Store
open Foundation Crypto
open Foundation.Program (Ensures ensures_bind)

/-- The programs of the stores with one call failing with the error. -/
abbrev Machine.faulty (M : Machine) (e : Error) : Program.Transformer Call Call.Reply (Faulty World) :=
  .faulty (perform M) (Call.failure e)

abbrev StraightLine {α : Type} (M : Machine) (e : Error) (x : StoreM α) (w : World) (a : α) (m : ℕ)
    (soft : List ℕ) (P : ℕ → World → Prop) : Prop :=
  Straight (perform M) (Call.failure e) x w a m soft P

/-- A write of `m` calls, of which the first `i` come before the install. -/
abbrev Writing {α : Type} (M : Machine) (e : Error) (x : StoreM α) (w : World) (a : α) (m : ℕ)
    (soft : List ℕ) (i : ℕ) (before after : World → Prop) : Prop :=
  StraightLine M e x w a m soft fun n t => if n < i then before t else after t

section Calls

variable {M : Machine} {e : Error} {w : World} {α β : Type} {x : StoreM α} {f : α → StoreM β} {a : α}
  {b : β} {m k i : ℕ} {r s : List ℕ} {P : ℕ → World → Prop} {before after D : World → Prop}

theorem straight_withContext {text : String} (hx : StraightLine M e x w a m r P) :
    StraightLine M e (withContext text x) w a m r P :=
  hx.mapResult (fun _ => rfl) fun _ => ⟨_,rfl⟩

/-- A call that succeeds, if it is not the one that fails. -/
theorem straightOutcome_call {c : Call} {f : c.Reply → Result α} {y z : c.Reply} {t : World}
    (hfail : c.failure e = some y) (herror : f y = .error e) (hdone : perform M c w = (z,t))
    (hok : f z = .ok a) (left : Option ℕ) :
    StraightOutcome a 1 [] (fun n u => u = if n = 0 then w else t) left
      (f (performFaulty (perform M) (Call.failure e) c ⟨w,left⟩).1)
      (performFaulty (perform M) (Call.failure e) c ⟨w,left⟩).2 := by
  match left with
  | none =>
    rw [performFaulty_none,hdone,hok]
    exact .clean rfl
  | some 0 =>
    rw [performFaulty_zero hfail,herror]
    exact .struck Nat.zero_lt_one nofun rfl
  | some (n+1) =>
    rw [performFaulty_succ hfail,hdone,hok,Nat.add_comm]
    exact .ahead rfl

theorem straight_act {b : Act} {t : World} (h : performAct b w = (.ok (),t)) :
    StraightLine M e (act b) w () 1 [] fun n u => u = if n = 0 then w else t :=
  ⟨nofun,straightOutcome_call (c := .act b) (f := id) rfl rfl h rfl⟩

theorem straight_tpmSeal {key : Key} :
    StraightLine M e (tpmSeal key) w (M.sealMasterKey w.seals key) 1 []
      fun n u => u = if n = 0 then w else { w with seals := w.seals+1 } :=
  ⟨nofun,straightOutcome_call (c := .tpmSeal key) (f := id) rfl rfl rfl rfl⟩

theorem pathExists_none {path : Path} {Q : Result Bool → Faulty World → Prop} :
    Ensures (M.faulty e) (pathExists path) ⟨w,none⟩ Q ↔ Q (.ok (w.content path).isSome) ⟨w,none⟩ := Iff.rfl

theorem pathExists_zero {path : Path} {Q : Result Bool → Faulty World → Prop} :
    Ensures (M.faulty e) (pathExists path) ⟨w,some 0⟩ Q ↔ Q (.ok false) ⟨w,none⟩ := Iff.rfl

theorem pathExists_succ {path : Path} {n : ℕ} {Q : Result Bool → Faulty World → Prop} :
    Ensures (M.faulty e) (pathExists path) ⟨w,some (n+1)⟩ Q ↔
      Q (.ok (w.content path).isSome) ⟨w,some n⟩ := Iff.rfl

/-- A call that leaves the world as it is. -/
theorem straight_check {b : Act} (h : performAct b w = (.ok (),w)) :
    StraightLine M e (act b) w () 1 [] fun _ u => u = w :=
  (straight_act h).mono fun _ _ _ hu => hu.trans (ite_self w)

/-- One more call that leaves the world as it is. -/
theorem straight_cons {x : StoreM Unit} {f : Unit → StoreM β}
    (hx : StraightLine M e x w () 1 [] fun _ t => t = w)
    (hf : StraightLine M e (f ()) w b k [] fun _ t => t = w) :
    StraightLine M e (x >>= f) w b (k+1) [] fun _ t => t = w := by
  have hnext : ∀ t, t = w → StraightLine M e (f ()) t b k [] fun _ t => t = w := by
    rintro _ rfl
    exact hf
  rw [Nat.add_comm]
  apply (hx.bind hnext nofun).mono
  intro n t _ h
  split at h <;> exact h

/-- Calls before a write. -/
theorem Writing.after_calls (hx : StraightLine M e x w a m r fun n t => before t ∧ (n = m → D t))
    (hf : ∀ t, before t → D t → Writing M e (f a) t b k s i before after)
    (hsoft : ∀ n ∈ s, n < k) :
    Writing M e (x >>= f) w b (m+k) (r ++ s.map (m+·)) (m+i) before after := by
  have hnext : ∀ t, before t ∧ (m = m → D t) → Writing M e (f a) t b k s i before after :=
    fun t ht => hf t ht.1 (ht.2 rfl)
  apply (hx.bind hnext hsoft).mono
  intro n t _ h
  by_cases hn : n < m
  · rw [if_pos hn] at h
    rw [if_pos (Nat.lt_add_right i hn)]
    exact h.1
  · rw [if_neg hn] at h
    have hiff : n-m < i ↔ n < m+i := by omega
    simpa only [hiff] using h

/-- The existence check in front of a forced write does not matter. -/
theorem Writing.after_existing {path : Path} {rest : StoreM α}
    (hrest : Writing M e rest w a m r i before after) (hw : before w) :
    Writing M e (do
      let existing ← pathExists path
      liftResult (bailIf (existing = true ∧ true = false) "master key already exists")
      rest) w a (1+m) ([0] ++ r.map (1+·)) (1+i) before after := by
  have hpass (existing : Bool) :
      bailIf (existing = true ∧ true = false) "master key already exists" = .ok () :=
    bailIf_neg fun h => nomatch h.2
  have hcheck : StraightLine M e (do
      let existing ← pathExists path
      liftResult (bailIf (existing = true ∧ true = false) "master key already exists")) w () 1
      [0] fun n t => before t ∧ (n = 1 → t = w) := by
    refine ⟨by simp,fun left => ?_⟩
    match left with
    | none =>
      refine ensures_bind.mpr (pathExists_none.mpr (ensures_liftResult.mpr ?_))
      rw [hpass]
      exact .clean ⟨hw,fun _ => rfl⟩
    | some 0 =>
      refine ensures_bind.mpr (pathExists_zero.mpr (ensures_liftResult.mpr ?_))
      rw [hpass]
      exact .unnoticed (List.mem_singleton_self 0) ⟨hw,fun _ => rfl⟩
    | some (n+1) =>
      refine ensures_bind.mpr (pathExists_succ.mpr (ensures_liftResult.mpr ?_))
      rw [hpass,Nat.add_comm]
      exact .ahead ⟨hw,fun _ => rfl⟩
  have hwrite := Writing.after_calls (f := fun _ => rest) hcheck (fun t _ ht => ht ▸ hrest) hrest.soft_lt
  exact ⟨hwrite.soft_lt,fun left => Program.ensures_bind_assoc.mpr (hwrite.ends left)⟩

/-- The install and the calls behind it. -/
theorem Writing.install {path : Path} {bytes : Bytes} {text : String} (hw : before w) (hinstalled : after (w.install bytes path)) :
    Writing M e (do
      withContext text (act (.persist path bytes))
      validateFileMode path
      syncParentDir) w () 4 [] 1 before after := by
  have hpath : ((w.install bytes path).content path).isSome = true := by cases path <;> rfl
  have hdir' : (w.install bytes path).hasDirectory = true := by
    cases path <;> simp [World.install,World.hasDirectory]
  have hstat : performAct (.statFile path) (w.install bytes path) = (.ok (),w.install bytes path) := by
    simp [performAct,check,hpath]
  have hopen : performAct .openDirectory (w.install bytes path) = (.ok (),w.install bytes path) := by
    simp [performAct,check,hdir']
  have hchecks : StraightLine M e (do validateFileMode path; syncParentDir) (w.install bytes path) () 3 []
      fun _ t => t = w.install bytes path := by
    apply straight_cons (straight_withContext (straight_check hstat))
    apply straight_cons (straight_withContext (straight_check hopen))
    exact straight_withContext (straight_check rfl)
  have hpersist : StraightLine M e (withContext text (act (.persist path bytes))) w () 1 []
      fun n t => t = if n = 0 then w else w.install bytes path :=
    straight_withContext (straight_act rfl)
  have hnext : ∀ t, (t = if 1 = 0 then w else w.install bytes path) → StraightLine M e
      (do validateFileMode path; syncParentDir) t () 3 [] fun _ t => t = w.install bytes path := by
    rintro _ rfl
    exact hchecks
  refine (hpersist.bind (f := fun _ => do validateFileMode path; syncParentDir) hnext fun _ h => (List.not_mem_nil h).elim).mono
    fun n t _ h => ?_
  by_cases hn : n < 1
  · rw [if_pos hn,if_pos (by omega)] at h
    rw [if_pos hn,h]
    exact hw
  · rw [if_neg hn] at h
    rw [if_neg hn,h]
    exact hinstalled

theorem straight_writeSyncedTempSecretFile {bytes : Bytes} (hdir : w.hasDirectory = true) :
    StraightLine M e (writeSyncedTempSecretFile bytes) w bytes 4 [] fun _ t => t = w := by
  have hcreate : performAct .createTemp w = (.ok (),w) := by simp [performAct,check,hdir]
  apply straight_cons (straight_withContext (straight_check hcreate))
  apply straight_cons (straight_withContext (straight_withContext (straight_check rfl)))
  apply straight_cons (straight_withContext (straight_check rfl))
  exact straight_cons (straight_withContext (straight_check rfl)) (Straight.pure rfl)

theorem straight_ensureParent {u : World} (hkept : Kept u w) : StraightLine M e ensureParent w () 2 []
    fun n t => Kept u t ∧ (n = 2 → t.hasDirectory = true) := by
  have hdir : World.hasDirectory { w with directory := true } = true := by simp [World.hasDirectory]
  have hstat : performAct .statDirectory { w with directory := true } =
      (.ok (),{ w with directory := true }) := by simp [performAct,check,hdir]
  have hmade : Kept u { w with directory := true } :=
    ⟨hkept.file,hkept.tpmFile,hkept.keychain,hkept.draws⟩
  have hnext : ∀ t, (t = if 1 = 0 then w else { w with directory := true }) →
      StraightLine M e validateDirectoryMode t () 1 [] fun _ t => t = { w with directory := true } := by
    rintro _ rfl
    exact straight_withContext (straight_check hstat)
  have hensure : StraightLine M e (act .ensureDirectory) w () 1 []
      fun n t => t = if n = 0 then w else { w with directory := true } := straight_act rfl
  refine (hensure.bind (f := fun _ => validateDirectoryMode) hnext fun _ h => (List.not_mem_nil h).elim).mono fun n t _ h => ?_
  by_cases hn : n < 1
  · rw [if_pos hn,if_pos (by omega)] at h
    subst h
    exact ⟨hkept,fun h => by omega⟩
  · rw [if_neg hn] at h
    subst h
    exact ⟨hmade,fun _ => hdir⟩

/-- A temporary file and its install. -/
theorem Writing.replace {path : Path} {bytes : Bytes} {forceText text : String}
    (hdir : w.hasDirectory = true) (hw : before w) (hinstalled : after (w.install bytes path)) :
    Writing M e (do
      let tmp ← writeSyncedTempSecretFile bytes
      if true then withContext forceText (act (.persist path tmp))
      else withContext text (act (.persistNoclobber path tmp))
      validateFileMode path
      syncParentDir) w () 8 [] 5 before after := by
  have htmp : StraightLine M e (writeSyncedTempSecretFile bytes) w bytes 4 []
      fun n t => before t ∧ (n = 4 → t = w) := by
    apply (straight_writeSyncedTempSecretFile hdir).mono
    rintro n _ _ rfl
    exact ⟨hw,fun _ => rfl⟩
  refine Writing.after_calls (k := 4) (s := []) (i := 1) htmp (fun t _ ht => ?_) nofun
  subst ht
  exact Writing.install hw hinstalled

end Calls

section Imports

variable {M : Machine} {e : Error} {w u : World} {key : Key}

/-- The calls of a forced import into the file: the fault of call 2 goes unnoticed, and the file
is in place after 8 calls. -/
theorem fileImport_writing (hkept : Kept u w) :
    Writing M e (FileStore.importKey key true) w () 11 [2] 8 (Kept u) (FileInstalled key u) := by
  refine Writing.after_calls (k := 9) (s := [0]) (i := 6) (straight_ensureParent hkept) (fun t ht hdir => ?_) ?_
  · refine Writing.after_existing (m := 8) (r := []) (i := 5) (Writing.replace hdir ht ?_) ht
    exact ⟨rfl,ht.tpmFile,ht.keychain,ht.draws⟩
  · decide

/-- The calls of a forced import into the TPM. -/
theorem tpmImport_writing (hkept : Kept u w) :
    Writing M e (TpmStore.importWith M key true) w () 14 [2] 11 (Kept u) (TpmInstalled M key u) := by
  refine Writing.after_calls (k := 12) (s := [0]) (i := 9) (straight_ensureParent hkept) (fun t ht _ => ?_) ?_
  · refine Writing.after_existing (m := 11) (r := []) (i := 8) ?_ ht
    refine Writing.after_calls (k := 9) (s := []) (i := 6) (straight_ensureParent ht)
      (fun t ht hdir => ?_) nofun
    have hsealed : Kept u { t with seals := t.seals+1 } :=
      ⟨ht.file,ht.tpmFile,ht.keychain,ht.draws⟩
    have hseal : StraightLine M e (tpmSeal key) t (M.sealMasterKey t.seals key) 1 []
        fun n v => Kept u v ∧ (n = 1 → v = { t with seals := t.seals+1 }) := by
      apply straight_tpmSeal.mono
      intro n v _ hv
      split at hv
      · exact ⟨hv ▸ ht,fun h => by omega⟩
      · exact ⟨hv ▸ hsealed,fun _ => hv⟩
    refine Writing.after_calls (k := 8) (s := []) (i := 5) hseal (fun v _ hv => ?_) nofun
    subst hv
    exact Writing.replace hdir hsealed ⟨⟨_,rfl⟩,ht.file,ht.keychain,ht.draws⟩
  · decide

/-- The calls of a forced import into Keychain. -/
theorem keychainImport_writing : Writing M e (MacAuto.importKeychainKey key true) w () 2 [] 2 (Kept w)
    (KeychainInstalled key w) := by
  have hreplace : StraightLine M e (Program.mapResult (mapError backgroundKeychainError)
      (act (.keychainReplace key))) w () 1 []
      fun n t => t = if n = 0 then w else { w with keychain := some key.toList } :=
    (straight_act rfl).mapResult (fun _ => rfl) fun _ => ⟨_,rfl⟩
  have hwrite : Writing M e (Program.mapResult (mapError backgroundKeychainError)
      (act (.keychainReplace key))) w () 1 [] 1 (Kept w) (KeychainInstalled key w) := by
    apply hreplace.mono
    intro n t _ h
    by_cases hn : n < 1
    · rw [if_pos (by omega)] at h
      rw [if_pos hn,h]
      exact Kept.refl w
    · rw [if_neg (by omega)] at h
      rw [if_neg hn,h]
      exact ⟨rfl,rfl,rfl,rfl⟩
  have hdisable : StraightLine M e
      (withContext "failed to disable Keychain user interaction" (act .disableInteraction)) w () 1 []
      fun n t => Kept w t ∧ (n = 1 → t = w) := by
    apply (straight_withContext (straight_check rfl)).mono
    rintro n _ _ rfl
    exact ⟨Kept.refl _,fun _ => rfl⟩
  refine straight_withContext (Writing.after_calls (k := 1) (s := []) (i := 1) hdisable
    (fun t _ ht => ?_) nofun)
  subst ht
  exact hwrite

end Imports
end Avault.Store
