import Avault.Store.Concrete
import Avault.Store.CreateSpec
import Avault.Store.Platform

/-! Sessions of the Linux `auto` store, one operation at a time, as runs of a single key cell. -/
namespace Avault.Store
open Foundation Crypto
open Foundation.Program (Exec Ensures ensures_bind ensures_map ensures_pure ensures_attempt ensures_ite)

/-! One cell that holds at most one key. -/

/-- What an operation may do to the cell. An operation that fails leaves it. -/
inductive CellStep : Option Key → Operation → Result (Option Key) → Option Key → Prop
  | failed {cell op e} : CellStep cell op (.error e) cell
  | loaded {key} : CellStep (some key) .load (.ok (some key)) (some key)
  | found {key} : CellStep (some key) .loadOrCreate (.ok (some key)) (some key)
  | created {key} : CellStep none .loadOrCreate (.ok (some key)) (some key)
  | imported {cell key force} : force = true ∨ cell = none →
    CellStep cell (.importKey key force) (.ok none) (some key)

/-- The outcome of an operation on the stores is one of the cell's, and draws a key only for an
empty cell. -/
structure StepsCell (M : Machine) (cell : Option Key) (op : Operation) (w : World)
    (r : Result (Option Key)) (t : World) : Prop where
  step : ∃ cell', CellStep cell op r cell' ∧ Holds M t cell'
  draws : t.draws ≠ w.draws → cell = none

section Steps

variable {M : Machine} {w : World} {cell : Option Key} {key : Key}

theorem pathExists_spec {path : Path} {Q : Result Bool → World → Prop} :
    Ensures (M.calls TpmMayBeUnavailable) (pathExists path) w Q ↔ Q (.ok (w.content path).isSome) w := by
  rw [mayFail_pathExists]
  exact and_iff_left fun _ h => nomatch h.1

theorem stepsCell_failed {op : Operation} {e : Error} {t : World} (h : Holds M t cell)
    (hdraws : t.draws ≠ w.draws → cell = none) : StepsCell M cell op w (.error e) t :=
  ⟨⟨cell,.failed,h⟩,hdraws⟩

/-- What both loads do with an existing file. -/
theorem loadFile_stepsCell {op : Operation} (hfound : ∀ key, CellStep (some key) op (.ok (some key)) (some key))
    (hholds : Holds M w (some key)) (hfile : w.file ≠ none) :
    Ensures (M.calls TpmMayBeUnavailable) (do
      let fileKey ← FileStore.get
      LinuxAuto.migrateFileKeyToTpm M fileKey) w
      fun r t => StepsCell M (some key) op w (r.map some) t := by
  have hread : fileRead w = .ok key := fileRead_eq_ok.mpr (hholds.2.1 hfile)
  refine Ensures.bind reads_fileGet ?_ ?_
  · rintro k w ⟨rfl,h | ⟨_,hf,_⟩⟩
    · obtain rfl := Except.ok.inj (hread.symm.trans h.symm)
      apply Ensures.mono migrate_spec
      rintro r t ⟨hresult,hstores⟩
      have hkeeps : Holds M t (some key) ∧ t.draws = w.draws := by
        obtain hkept | ⟨-,hinstalled⟩ := hstores
        · exact ⟨hkept.holds hholds,hkept.draws⟩
        · exact ⟨hinstalled.holds hholds.2.1,hinstalled.draws⟩
      cases r with
      | error e => exact stepsCell_failed hkeeps.1 fun h => absurd hkeeps.2 h
      | ok k =>
        obtain rfl := hresult k rfl
        exact ⟨⟨some k,hfound k,hkeeps.1⟩,fun h => absurd hkeeps.2 h⟩
    · exact absurd hf not_filesMayFail
  · rintro e _ ⟨rfl,_⟩
    exact stepsCell_failed hholds fun h => absurd rfl h

/-- What both loads do with a blob alone. -/
theorem loadTpm_stepsCell {op : Operation} (hfound : ∀ key, CellStep (some key) op (.ok (some key)) (some key))
    (hholds : Holds M w cell) (hfile : w.file = none) :
    Ensures (M.calls TpmMayBeUnavailable) (TpmStore.getWith M) w
      fun r t => StepsCell M cell op w (r.map some) t := by
  cases cell with
  | none =>
    apply Ensures.mono (tpmGet_missing hholds.2)
    rintro _ _ ⟨rfl,e,rfl⟩
    exact stepsCell_failed hholds fun h => absurd rfl h
  | some key =>
    have hread : tpmRead M w = .ok key := tpmRead_eq_ok.mpr (hholds.2.2 (hholds.1 hfile))
    apply Ensures.mono reads_tpmGetWith
    rintro _ _ ⟨rfl,rfl | ⟨e,_,rfl⟩⟩
    · rw [hread]
      exact ⟨⟨some key,hfound key,hholds⟩,fun h => absurd rfl h⟩
    · exact stepsCell_failed hholds fun h => absurd rfl h

theorem load_stepsCell (hholds : Holds M w cell) :
    Ensures (M.calls TpmMayBeUnavailable) (LinuxAuto.load M) w
      fun r t => StepsCell M cell .load w (r.map some) t := by
  refine ensures_bind.mpr (pathExists_spec.mpr ?_)
  refine ensures_ite.mpr ⟨fun hsome => ?_,fun hnone => ?_⟩
  · have hfile : w.file ≠ none := Option.isSome_iff_ne_none.mp hsome
    cases cell with
    | none => exact absurd hholds.1 hfile
    | some key => exact loadFile_stepsCell (fun _ => .loaded) hholds hfile
  · exact loadTpm_stepsCell (fun _ => .loaded) hholds (Option.not_isSome_iff_eq_none.mp hnone)

theorem loadOrCreate_stepsCell (hholds : Holds M w cell) :
    Ensures (M.calls TpmMayBeUnavailable) (LinuxAuto.loadOrCreate M) w
      fun r t => StepsCell M cell .loadOrCreate w (r.map some) t := by
  refine ensures_bind.mpr (pathExists_spec.mpr ?_)
  refine ensures_ite.mpr ⟨fun hsome => ?_,fun hnone => ?_⟩
  · have hfile : w.file ≠ none := Option.isSome_iff_ne_none.mp hsome
    cases cell with
    | none => exact absurd hholds.1 hfile
    | some key => exact loadFile_stepsCell (fun _ => .found) hholds hfile
  have hfile : w.file = none := Option.not_isSome_iff_eq_none.mp hnone
  refine ensures_bind.mpr (pathExists_spec.mpr ?_)
  refine ensures_ite.mpr ⟨fun _ => loadTpm_stepsCell (fun _ => .found) hholds hfile,fun hnone => ?_⟩
  have htpm : w.tpmFile = none := Option.not_isSome_iff_eq_none.mp hnone
  cases cell with
  | some key => exact absurd htpm (hholds.1 hfile)
  | none =>
    refine ensures_bind.mpr (ensures_attempt.mpr (Ensures.mono (tpmGetOrCreate_spec htpm) ?_))
    intro r t h
    cases h with
    | done hinstalled =>
      refine ensures_pure.mpr ⟨⟨_,.created,hinstalled.holds fun h => absurd hfile h⟩,fun _ => rfl⟩
    | late hf _ => exact absurd hf not_filesMayFail
    | refused _ hkept =>
      have hkeeps : t.file = none ∧ t.tpmFile = none :=
        hkept.elim (fun h => ⟨h.file.trans hfile,h.tpmFile.trans htpm⟩)
          fun h => ⟨h.file.trans hfile,h.tpmFile.trans htpm⟩
      refine ensures_ite.mpr ⟨fun _ => ?_,fun _ => ensures_liftResult.mpr ?_⟩
      · apply Ensures.mono (fileGetOrCreate_spec hkeeps.1)
        intro r u h
        cases h with
        | done hinstalled =>
          exact ⟨⟨_,.created,hinstalled.holds fun h => absurd hkeeps.2 h⟩,fun _ => rfl⟩
        | late hf _ => exact absurd hf not_filesMayFail
        | refused hf _ => exact absurd hf not_filesMayFail
      · exact stepsCell_failed hkeeps fun _ => rfl

/-- An import into the file, where the TPM holds the key already or nothing. -/
theorem fileImport_stepsCell {force : Bool} {text : String} {u : World}
    (htpm : u.tpmFile ≠ none → tpmKey M u = some key) (hdraws : u.draws = w.draws)
    (hforce : force = true ∨ cell = none) (hfile : force = true ∨ u.file = none) :
    Ensures (M.calls TpmMayBeUnavailable) (withContext text (FileStore.importKey key force)) u
      fun r t => StepsCell M cell (.importKey key force) w (r.map fun _ => none) t := by
  refine ensures_withContext.mpr (Ensures.mono fileImport_spec ?_)
  intro r t h
  cases h with
  | done hinstalled =>
    refine ⟨⟨some key,.imported hforce,hinstalled.2.holds htpm⟩,fun h => ?_⟩
    exact absurd (hinstalled.2.draws.trans hdraws) h
  | refused hrefused _ =>
    obtain hf | ⟨hunforced,hsome⟩ := hrefused
    · exact absurd hf not_filesMayFail
    · obtain hforced | hnone := hfile
      · exact nomatch hforced.symm.trans hunforced
      · rw [hnone] at hsome
        cases hsome
  | late hf _ => exact absurd hf not_filesMayFail

theorem importKey_stepsCell {force : Bool} (hholds : Holds M w cell) :
    Ensures (M.calls TpmMayBeUnavailable) (LinuxAuto.importKey M key force) w
      fun r t => StepsCell M cell (.importKey key force) w (r.map fun _ => none) t := by
  refine ensures_bind.mpr (pathExists_spec.mpr ?_)
  refine ensures_ite.mpr ⟨fun hsome => ?_,fun hnone => ?_⟩
  · refine ensures_bind.mpr (ensures_liftResult.mpr ?_)
    cases force with
    | false => exact stepsCell_failed hholds fun h => absurd rfl h
    | true =>
      refine ensures_bind.mpr (ensures_attempt.mpr (Ensures.mono tpmImport_spec ?_))
      intro r t h
      cases h with
      | done hinstalled =>
        exact fileImport_stepsCell (fun _ => hinstalled.2.tpmKey) hinstalled.2.draws (.inl rfl) (.inl rfl)
      | late hf _ => exact absurd hf not_filesMayFail
      | refused _ hkept =>
        have hfailed {e : Error} : StepsCell M cell (.importKey key true) w (.error e) t :=
          stepsCell_failed (hkept.holds hholds) fun h => absurd hkept.draws h
        refine ensures_ite.mpr ⟨fun _ => ?_,fun _ => ensures_bind.mpr (ensures_liftResult.mpr hfailed)⟩
        refine ensures_bind.mpr (pathExists_spec.mpr ?_)
        refine ensures_ite.mpr ⟨fun _ => ensures_bind.mpr (ensures_liftResult.mpr hfailed),fun hnone => ?_⟩
        refine fileImport_stepsCell (fun h => ?_) hkept.draws (.inl rfl) (.inl rfl)
        exact absurd (Option.not_isSome_iff_eq_none.mp hnone) h
  · have hfile : w.file = none := Option.not_isSome_iff_eq_none.mp hnone
    have hempty (htpm : w.tpmFile = none) : cell = none := by
      cases cell with
      | none => rfl
      | some key => exact absurd htpm (hholds.1 hfile)
    refine ensures_bind.mpr (ensures_attempt.mpr (Ensures.mono tpmImport_spec ?_))
    intro r t h
    cases h with
    | done hinstalled =>
      refine ensures_pure.mpr ⟨⟨some key,.imported (hinstalled.1.imp_right hempty),?_⟩,fun h => ?_⟩
      · exact hinstalled.2.holds fun h => absurd hfile h
      · exact absurd hinstalled.2.draws h
    | late hf _ => exact absurd hf not_filesMayFail
    | refused _ hkept =>
      have hfailed {e : Error} : StepsCell M cell (.importKey key force) w (.error e) t :=
        stepsCell_failed (hkept.holds hholds) fun h => absurd hkept.draws h
      refine ensures_ite.mpr ⟨fun _ => ?_,fun _ => ensures_liftResult.mpr hfailed⟩
      refine ensures_bind.mpr (pathExists_spec.mpr ?_)
      refine ensures_ite.mpr ⟨fun _ => ensures_liftResult.mpr hfailed,fun hnone => ?_⟩
      have htpm : t.tpmFile = none := Option.not_isSome_iff_eq_none.mp hnone
      exact fileImport_stepsCell (fun h => absurd htpm h) hkept.draws
        (.inr (hempty (hkept.tpmFile.symm.trans htpm))) (.inr (hkept.file.trans hfile))

theorem operation_stepsCell {op : Operation} (hholds : Holds M w cell) :
    Ensures (M.calls TpmMayBeUnavailable) (Platform.linux.program M op) w (StepsCell M cell op w) := by
  cases op with
  | load => exact ensures_map.mpr (load_stepsCell hholds)
  | loadOrCreate => exact ensures_map.mpr (loadOrCreate_stepsCell hholds)
  | importKey key force => exact ensures_map.mpr (importKey_stepsCell hholds)

end Steps

/-! Sessions. -/

/-- An operation that was run, with its result and the world it left. -/
structure Event where
  operation : Operation
  result : Result (Option Key)
  after : World

/-- The operations run one after the other from a starting world. -/
inductive Session (M : Machine) (start : World) : List Event → World → Prop
  | nil : Session M start [] start
  | snoc {events w op r t} : Session M start events w →
    Exec (MayFail M TpmMayBeUnavailable) (Platform.linux.program M op).run w r t →
    Session M start (events ++ [⟨op,r,t⟩]) t

/-- The key of a successful import. -/
def Event.imported : Event → Option Key
  | ⟨.importKey key _,.ok _,_⟩ => some key
  | _ => none

def latestImport (events : List Event) : Option Key := events.reverse.findSome? Event.imported

/-- The first key that a store held, from the start on. -/
def firstStored (M : Machine) (start : World) (events : List Event) : Option Key :=
  (start::events.map Event.after).findSome? (stored M)

section Session

variable {M : Machine} {start w t : World} {events : List Event} {cell : Option Key}
  {op : Operation} {r : Result (Option Key)}

theorem latestImport_snoc (events : List Event) (ev : Event) :
    latestImport (events ++ [ev]) = ev.imported.or (latestImport events) := by
  have hlast : [ev].findSome? Event.imported = ev.imported := by simp
  rw [latestImport,List.reverse_append,List.reverse_singleton,List.findSome?_append,hlast]
  rfl

theorem firstStored_snoc (M : Machine) (start : World) (events : List Event) (ev : Event) :
    firstStored M start (events ++ [ev]) = (firstStored M start events).or (stored M ev.after) := by
  have hlast : [ev.after].findSome? (stored M) = stored M ev.after := by simp
  rw [firstStored,List.map_append,List.map_singleton,← List.cons_append,List.findSome?_append,hlast]
  rfl

/-- The key a session should have come to. -/
def expectedKey (M : Machine) (start : World) (events : List Event) : Option Key :=
  (latestImport events).or (firstStored M start events)

theorem expectedKey_snoc {cell' : Option Key} (hexpected : expectedKey M start events = cell)
    (hstep : CellStep cell op r cell') (hstored : stored M t = cell') :
    expectedKey M start (events ++ [⟨op,r,t⟩]) = cell' := by
  have hrest : (latestImport events).or ((firstStored M start events).or cell') = cell.or cell' := by
    rw [← Option.or_assoc,← hexpected,expectedKey]
  rw [expectedKey,latestImport_snoc,firstStored_snoc,hstored,Option.or_assoc,hrest]
  cases hstep with
  | failed => cases op <;> simp [Event.imported]
  | loaded | found | created | imported => simp [Event.imported]

/-- The stores hold the key a session should have come to. -/
theorem Session.holds (hsession : Session M start events w) (hstart : Holds M start cell) :
    Holds M w (expectedKey M start events) := by
  induction hsession with
  | nil =>
    have hcell : expectedKey M start [] = cell := by
      simp [expectedKey,latestImport,firstStored,hstart.stored]
    rw [hcell]
    exact hstart
  | snoc _ hexec ih =>
    obtain ⟨⟨cell',hstep,hholds⟩,-⟩ := (operation_stepsCell ih).of_exec hexec
    rw [expectedKey_snoc rfl hstep hholds.stored]
    exact hholds

/-- The `auto` store keeps one key: what holds of one more operation after any session. -/
theorem session_keeps_one_key (hstart : ∃ cell, Holds M start cell)
    (hsession : Session M start events w)
    (hexec : Exec (MayFail M TpmMayBeUnavailable) (Platform.linux.program M op).run w r t) :
    Agree M w ∧ Agree M t ∧
    (∀ key, op = .load ∨ op = .loadOrCreate → r = .ok key → key.isSome ∧
      key = (latestImport events).or (firstStored M start (events ++ [⟨op,r,t⟩]))) ∧
    (∀ key force u, op = .importKey key force → r = .ok u → Holds M t (some key)) ∧
    (∀ key k, op = .importKey key false → stored M w = some k →
      (∃ e, r = .error e) ∧ Holds M t (some k)) ∧
    (t.draws ≠ w.draws → w.file = none ∧ w.tpmFile = none) := by
  obtain ⟨cell₀,hstart⟩ := hstart
  obtain ⟨cell,hcell⟩ : ∃ cell, expectedKey M start events = cell := ⟨_,rfl⟩
  have hholds : Holds M w cell := hcell ▸ hsession.holds hstart
  obtain ⟨⟨cell',hstep,hafter⟩,hdraws⟩ := (operation_stepsCell hholds).of_exec hexec
  have hexpected := expectedKey_snoc hcell hstep hafter.stored
  refine ⟨hholds.agree,hafter.agree,fun key hop hr => ?_,fun key force u hop hr => ?_,
    fun key k hop hk => ?_,fun h => ?_⟩
  · subst hr
    have himported : (Event.imported ⟨op,.ok key,t⟩) = none := by
      obtain rfl | rfl := hop <;> rfl
    rw [expectedKey,latestImport_snoc,himported,Option.none_or] at hexpected
    rw [hexpected]
    cases hstep with
    | loaded | found | created => exact ⟨rfl,rfl⟩
    | imported => exact hop.elim nofun nofun
  · subst hop hr
    cases hstep
    exact hafter
  · subst hop
    rw [hholds.stored] at hk
    cases hstep with
    | failed => exact ⟨⟨_,rfl⟩,hk ▸ hafter⟩
    | imported h =>
      obtain h | h := h
      · cases h
      · cases h.symm.trans hk
  · rw [hdraws h] at hholds
    exact hholds

end Session

/-- A key was created in an empty vault and is loaded next. -/
theorem session_keeps_one_key_created : ∃ w r t,
    let events := [⟨.loadOrCreate,.ok (some (counterKey 0)),w⟩]
    Session Machine.clear World.empty events w ∧
    Exec (MayFail Machine.clear TpmMayBeUnavailable) (Platform.linux.program Machine.clear .load).run w r t ∧
    Agree Machine.clear w ∧ Agree Machine.clear t ∧
    (∀ key, r = .ok key → key.isSome ∧ key = (latestImport events).or
      (firstStored Machine.clear World.empty (events ++ [⟨.load,r,t⟩]))) := by
  let create := (Platform.linux.program Machine.clear .loadOrCreate).run
  let load := (Platform.linux.program Machine.clear .load).run
  have hcreate : Exec (MayFail Machine.clear TpmMayBeUnavailable)
    (Platform.linux.program Machine.clear .loadOrCreate).run World.empty _ _ := exec_run create World.empty
  have hload : Exec (MayFail Machine.clear TpmMayBeUnavailable) (Platform.linux.program Machine.clear .load).run
    (Program.run (perform Machine.clear) create World.empty).2 _ _ := exec_run load _
  have hsession := Session.nil.snoc hcreate
  obtain ⟨hw,ht,hkey,-⟩ := session_keeps_one_key ⟨none,rfl,rfl⟩ hsession hload
  exact ⟨_,_,_,hsession,hload,hw,ht,fun key => hkey key (.inl rfl)⟩

end Avault.Store
