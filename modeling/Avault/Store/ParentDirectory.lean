import Avault.Foundation.FileTree
import Avault.Foundation.Program
import Avault.Store.Files

/-! The directories that secrets and the agent socket are put in. Those that are missing are created
for their owner only, and one that is there is looked at, but not changed. -/
namespace Avault.ParentDirectory
open Foundation
open Foundation.Program
open Store (isAlreadyExistsError)

structure Metadata where
  isDir : Bool
  uid : ℕ
  mode : ℕ

inductive TreeOp
  | pathExists (path : Pathname)
  | createDir (path : Pathname)
  | setPermissions (path : Pathname) (mode : ℕ)
  | metadata (path : Pathname)

def TreeOp.Reply : TreeOp → Type
  | pathExists _ => Bool
  | createDir _ | setPermissions _ _ => Result Unit
  | metadata _ => Result Metadata

abbrev TreeM (α : Type) := Fallible TreeOp TreeOp.Reply Error α

def pathExists (path : Pathname) : TreeM Bool := ask (TreeOp.pathExists path)
def createDir (path : Pathname) : TreeM Unit := ExceptT.mk (Program.call (TreeOp.createDir path))
def setPermissions (path : Pathname) (mode : ℕ) : TreeM Unit :=
  ExceptT.mk (Program.call (TreeOp.setPermissions path mode))
def metadata (path : Pathname) : TreeM Metadata := ExceptT.mk (Program.call (TreeOp.metadata path))

def secretDirectoryMode : ℕ := 0o700

/-- What the two copies do in their own way. -/
structure Rules where
  secure : Pathname → TreeM Unit
  validate : Pathname → TreeM Unit
  createText : String

/-- Where the search goes on from a path that does not exist. -/
def upward (path : Pathname) : Pathname :=
  match path.parent with
  | some next => if next = .nothing then .currentDir else next
  | none => .currentDir

/-- The search for the first directory that exists. It gives nothing if it takes more rounds. -/
def findMissing : ℕ → Pathname → List Pathname → TreeM (Option (List Pathname))
  | 0,_,_ => return none
  | rounds+1,current,missing => do
    let existing ← pathExists current
    if existing then return some missing
    else findMissing rounds (upward current) (missing ++ [current])

def createDirectory (rules : Rules) (dir : Pathname) : TreeM Unit := do
  match ← attempt (createDir dir) with
  | .ok _ => rules.secure dir
  | .error err =>
    -- another process may have created it since the search
    if isAlreadyExistsError err then rules.validate dir
    else liftResult (context rules.createText (.error err))

/-- Both loops, for a parent that was missing. -/
def createMissing (rules : Rules) (rounds : ℕ) (parent : Pathname) : TreeM (Option Unit) := do
  match ← findMissing rounds parent [] with
  | none => return none
  | some missing => do
    missing.reverse.foldlM (fun _ dir => createDirectory rules dir) ()
    return some ()

def validateDirectoryMode (path : Pathname) : TreeM Unit := do
  let found ← mapResult (context "failed to stat master key directory") (metadata path)
  liftResult (bailIf (found.mode &&& 0o777 &&& 0o077 ≠ 0) "master key directory mode is too open")

def secureCreatedDirectory (path : Pathname) : TreeM Unit :=
  mapResult (context "failed to secure secret directory") (setPermissions path secretDirectoryMode)

def secretRules : Rules where
  secure dir := mapResult (context "failed to secure secret directory") (secureCreatedDirectory dir)
  validate := validateDirectoryMode
  createText := "failed to create secret directory"

def ensureSecretParentDirectory (rounds : ℕ) (parent : Pathname) : TreeM (Option Unit) := do
  let existing ← pathExists parent
  if existing then do
    validateDirectoryMode parent
    return some ()
  else do
    match ← createMissing secretRules rounds parent with
    | none => return none
    | some _ => do
      validateDirectoryMode parent
      return some ()

/-! The world of one process, and what the others do to it. -/

structure World where
  tree : Tree
  /-- The directories the process has created, and the nodes whose mode it has set. -/
  created : List ℕ
  changed : List ℕ

def World.start (tree : Tree) : World := ⟨tree,[],[]⟩

def nodeMetadata (node : Node) : Metadata := ⟨node.kind.isDirectory,node.uid,node.mode⟩

/-- What the calls of the process do. Any of them may fail, but `.` and `/` exist. -/
inductive TreeStep : World → (op : TreeOp) → op.Reply → World → Prop
  | found {w path n node} : w.tree.Resolves path n node → TreeStep w (.pathExists path) true w
  | missing {w path} : path ≠ .currentDir → path ≠ .rootDir → TreeStep w (.pathExists path) false w
  | createDir {w anchor trail x front d directory entries up n mode uid} : (∀ s ∈ trail, s = .empty) →
    w.tree.Leads (w.tree.start w.tree.cwd anchor) front.reverse d → w.tree.nodes d = some directory →
    directory.kind = .directory entries up → entries x = none → w.tree.nodes n = none →
    TreeStep w (.createDir ⟨anchor,trail ++ .name x::front⟩) (.ok ())
      ⟨w.tree.insert d directory entries up x n ⟨.directory (fun _ => none) d,mode,uid⟩,n::w.created,w.changed⟩
  | createDirFailed {w path} (e : Error) : TreeStep w (.createDir path) (.error e) w
  | setPermissions {w path n node mode} : w.tree.Resolves path n node →
    TreeStep w (.setPermissions path mode) (.ok ()) ⟨w.tree.setMode n node mode,w.created,n::w.changed⟩
  | setPermissionsFailed {w path mode} (e : Error) : TreeStep w (.setPermissions path mode) (.error e) w
  | metadata {w path n node} : w.tree.Resolves path n node →
    TreeStep w (.metadata path) (.ok (nodeMetadata node)) w
  | metadataFailed {w path} (e : Error) : TreeStep w (.metadata path) (.error e) w

/-- A call leaves every mode as it is but those that it records. -/
theorem TreeStep.mode_kept {w t : World} {op : TreeOp} {r : op.Reply} (h : TreeStep w op r t) {n : ℕ} {node : Node}
    (hnode : w.tree.nodes n = some node) (hn : n ∉ t.changed) :
    ∃ node', t.tree.nodes n = some node' ∧ node'.mode = node.mode := by
  cases h with
  | @createDir anchor trail x front d directory entries up m mode uid _ _ hd _ _ hm =>
    have hnm := Tree.ne_of_fresh hnode hm
    by_cases hnd : n = d
    · subst hnd
      obtain rfl := Option.some.inj (hnode.symm.trans hd)
      exact ⟨_,Tree.insert_directory _ hnm,rfl⟩
    · exact ⟨node,(Tree.insert_other _ hnd hnm).trans hnode,rfl⟩
  | @setPermissions path m =>
    have hnm : n ≠ m := by
      rintro rfl
      exact hn List.mem_cons_self
    exact ⟨node,(Tree.setMode_other hnm).trans hnode,rfl⟩
  | found | missing | createDirFailed | setPermissionsFailed | metadata | metadataFailed => exact ⟨node,hnode,rfl⟩

/-- The others create what is missing, of any kind, owner and mode, and secure what they have created. -/
structure Others (s t : Tree) : Prop where
  grows : s.Grows t
  kept : ∀ {n node node'}, s.nodes n = some node → t.nodes n = some node' →
    node'.uid = node.uid ∧ (node'.mode = node.mode ∨ node'.mode = secretDirectoryMode)

/-- A call of the process, with what the others did before it. -/
def Among (w : World) (op : TreeOp) (r : op.Reply) (t : World) : Prop :=
  ∃ tree, Others w.tree tree ∧ TreeStep { w with tree := tree } op r t

/-- The path leads to something that grants nothing to group or others. -/
def GrantsNothing (t : Tree) (path : Pathname) : Prop :=
  ∃ n node, t.Resolves path n node ∧ node.mode &&& 0o077 = 0

/-- The node is a directory only for its owner. -/
def SecuredAt (t : Tree) (n : ℕ) : Prop :=
  ∃ node, t.nodes n = some node ∧ node.kind.isDirectory = true ∧ node.mode = secretDirectoryMode

structure PrivateParent (program : ℕ → TreeM (Option Unit)) (parent : Pathname) : Prop where
  terminates : ∀ rounds tree r t, parent.components.length + 2 ≤ rounds →
    Exec Among (program rounds).run (.start tree) r t → r ≠ .ok none
  granted : ∀ rounds tree t later, Exec Among (program rounds).run (.start tree) (.ok (some ())) t →
    Others t.tree later → GrantsNothing later parent
  unchanged : ∀ rounds tree t, Passes Among (program rounds).run (.start tree) t → ∀ n ∈ t.changed, n ∈ t.created
  secured : ∀ rounds tree t later, Passes Among (program rounds).run (.start tree) t → Others t.tree later →
    ∀ n ∈ t.changed, SecuredAt later n

section Others

variable {s t : Tree} {path : Pathname} {n : ℕ}

theorem Others.refl (t : Tree) : Others t t := by
  refine ⟨.refl t,fun {n node node'} h h' => ?_⟩
  obtain rfl := Option.some.inj (h.symm.trans h')
  exact ⟨rfl,.inl rfl⟩

theorem Others.resolves (h : Others s t) {node : Node} (hresolves : s.Resolves path n node) :
    ∃ node', t.Resolves path n node' ∧ node'.kind.isDirectory = node.kind.isDirectory ∧ node'.uid = node.uid ∧
      (node'.mode = node.mode ∨ node'.mode = secretDirectoryMode) := by
  obtain ⟨node',hresolves',hkind⟩ := h.grows.resolves hresolves
  exact ⟨node',hresolves',hkind.isDirectory,h.kept hresolves.present hresolves'.present⟩

theorem grants_nothing_of {a b : ℕ} (hb : b &&& 0o077 = 0) (h : a = b ∨ a = secretDirectoryMode) :
    a &&& 0o077 = 0 := by
  obtain rfl | rfl := h
  · exact hb
  · rfl

theorem Others.grantsNothing (h : Others s t) (hpath : GrantsNothing s path) : GrantsNothing t path := by
  obtain ⟨n,node,hresolves,hmode⟩ := hpath
  obtain ⟨node',hresolves',-,-,hmode'⟩ := h.resolves hresolves
  exact ⟨n,node',hresolves',grants_nothing_of hmode hmode'⟩

theorem Others.securedAt (h : Others s t) (hn : SecuredAt s n) : SecuredAt t n := by
  obtain ⟨node,hnode,hkind,hmode⟩ := hn
  obtain ⟨node',hnode',hgrows⟩ := h.grows.node hnode
  refine ⟨node',hnode',hgrows.isDirectory.trans hkind,?_⟩
  obtain hmode' | hmode' := (h.kept hnode hnode').2
  · exact hmode'.trans hmode
  · exact hmode'

end Others

/-- Whatever mode the process has set is that of a directory it has created, and is `0700`. -/
def Inv (w : World) : Prop := ∀ n ∈ w.changed, n ∈ w.created ∧ SecuredAt w.tree n

/-- The path leads to a directory that the process has created. -/
def Created (w : World) (path : Pathname) : Prop :=
  ∃ n node, w.tree.Resolves path n node ∧ node.kind.isDirectory = true ∧ n ∈ w.created

def keeping : Transformer TreeOp TreeOp.Reply World := .keeping Among Inv

theorem Inv.others {w : World} {tree : Tree} (h : Inv w) (hothers : Others w.tree tree) : Inv { w with tree := tree } :=
  fun n hn => ⟨(h n hn).1,hothers.securedAt (h n hn).2⟩

section Calls

variable {w : World} {path : Pathname}

theorem pathExists_spec (hw : Inv w) : Ensures keeping (pathExists path) w fun r t =>
    Inv t ∧ ∃ existing, r = .ok existing ∧ (path = .currentDir → existing = true) := by
  rintro _ _ ⟨tree,hothers,hstep⟩
  have ht := hw.others hothers
  cases hstep with
  | found => exact ⟨ht,ht,_,rfl,fun _ => rfl⟩
  | missing hpath _ => exact ⟨ht,ht,_,rfl,fun h => absurd h hpath⟩

theorem metadata_spec (hw : Inv w) {text : String} : Ensures keeping (mapResult (context text) (metadata path)) w
    fun r t => Inv t ∧ Others w.tree t.tree ∧
      ∀ found, r = .ok found → ∃ n node, t.tree.Resolves path n node ∧ found = nodeMetadata node := by
  apply ensures_mapResult.mpr
  rintro _ _ ⟨tree,hothers,hstep⟩
  have ht := hw.others hothers
  cases hstep with
  | metadata hresolves =>
    refine ⟨ht,ht,hothers,fun found h => ?_⟩
    exact ⟨_,_,hresolves,(Except.ok.inj h).symm⟩
  | metadataFailed e => exact ⟨ht,ht,hothers,fun _ h => (error_ne_ok h).elim⟩

/-- A directory that is created is not one whose mode was set before. -/
theorem createDir_spec (hw : Inv w) : Ensures keeping (createDir path) w fun r t =>
    Inv t ∧ ∀ u, r = .ok u → Created t path := by
  rintro _ _ ⟨tree,hothers,hstep⟩
  have hu := hw.others hothers
  cases hstep with
  | createDirFailed e => exact ⟨hu,hu,fun _ h => (error_ne_ok h).elim⟩
  | @createDir anchor trail x front d directory entries up n mode uid htrail hleads hd hkind hx hn =>
    have ht : Inv ⟨Tree.insert tree d directory entries up x n ⟨.directory (fun _ => none) d,mode,uid⟩,
        n::w.created,w.changed⟩ := by
      intro m hm
      obtain ⟨hcreated,node,hnode,hdirectory,hmode⟩ := hu m hm
      refine ⟨List.mem_cons_of_mem _ hcreated,?_⟩
      have hmn := Tree.ne_of_fresh hnode hn
      by_cases hmd : m = d
      · subst hmd
        obtain rfl := Option.some.inj (hnode.symm.trans hd)
        exact ⟨_,Tree.insert_directory _ hmn,rfl,hmode⟩
      · exact ⟨node,(Tree.insert_other _ hmd hmn).trans hnode,hdirectory,hmode⟩
    have hnew := Tree.insert_resolves ⟨.directory (fun _ => none) d,mode,uid⟩ hd hkind hx hn htrail
      hleads rfl
    exact ⟨ht,ht,fun _ _ => ⟨n,_,hnew,rfl,List.mem_cons_self⟩⟩

/-- The mode is only set of a directory that the process has created, wherever its path leads now. -/
theorem setPermissions_spec (hw : Inv w) (hpath : Created w path) :
    Ensures keeping (setPermissions path secretDirectoryMode) w fun _ t => Inv t := by
  rintro _ _ ⟨tree,hothers,hstep⟩
  have hu := hw.others hothers
  cases hstep with
  | setPermissionsFailed e => exact ⟨hu,hu⟩
  | @setPermissions _ n node _ hresolves =>
    obtain ⟨n',old,hold,hkind,hcreated⟩ := hpath
    obtain ⟨node',hresolves',hkind',-⟩ := hothers.resolves hold
    obtain rfl := hresolves'.leads.unique hresolves.leads
    obtain rfl := Option.some.inj (hresolves'.present.symm.trans hresolves.present)
    have ht : Inv ⟨Tree.setMode tree n' node' secretDirectoryMode,w.created,n'::w.changed⟩ := by
      intro m hm
      by_cases hmn : m = n'
      · subst hmn
        exact ⟨hcreated,_,Tree.setMode_self,hkind'.trans hkind,rfl⟩
      · obtain ⟨hm,node,hnode,h⟩ := hu m ((List.mem_cons.mp hm).resolve_left hmn)
        exact ⟨hm,node,(Tree.setMode_other hmn).trans hnode,h⟩
    exact ⟨ht,ht⟩

end Calls

/-- What the loops count on. -/
structure Rules.Sound (rules : Rules) : Prop where
  secure : ∀ dir w, Inv w → Created w dir → Ensures keeping (rules.secure dir) w fun _ t => Inv t
  validate : ∀ dir w, Inv w → Ensures keeping (rules.validate dir) w fun _ t => Inv t

section Loops

variable {rules : Rules} {w : World} {rounds : ℕ} {parent : Pathname}

theorem createDirectory_spec (hrules : rules.Sound) (dir : Pathname) (hw : Inv w) :
    Ensures keeping (createDirectory rules dir) w fun _ t => Inv t := by
  refine ensures_bind.mpr (ensures_attempt.mpr ((createDir_spec hw).mono fun r t ht => ?_))
  cases r with
  | ok u => exact hrules.secure dir t ht.1 (ht.2 u rfl)
  | error e => exact ensures_ite.mpr ⟨fun _ => hrules.validate dir t ht.1,fun _ => ensures_liftResult.mpr ht.1⟩

theorem upward_depth (path : Pathname) : upward path = .currentDir ∨ (upward path).depth + 1 = path.depth := by
  unfold upward
  cases hparent : path.parent with
  | none => exact .inl rfl
  | some next =>
    obtain rfl | hdepth := Pathname.depth_parent hparent
    · exact .inl rfl
    · by_cases hnext : next = .nothing
      · exact .inl (if_pos hnext)
      · refine .inr ?_
        simp only [if_neg hnext]
        exact hdepth

/-- With a round for each name and two for the end, the search comes to a directory: `.` exists. -/
theorem findMissing_spec (hw : Inv w) (current : Pathname) (missing : List Pathname) :
    Ensures keeping (findMissing rounds current missing) w fun r t => Inv t ∧
      (current = .currentDir ∧ 1 ≤ rounds ∨ current.depth + 2 ≤ rounds → r ≠ .ok none) := by
  induction rounds generalizing w current missing with
  | zero => exact ⟨hw,by omega⟩
  | succ rounds ih =>
    refine (pathExists_spec hw).bind ?_ ?_
    · rintro existing t ⟨ht,_,heq,hhere⟩
      obtain rfl := Except.ok.inj heq
      refine ensures_ite.mpr ⟨fun _ => ⟨ht,fun _ => nofun⟩,fun hmissing => ?_⟩
      refine (ih ht (upward current) (missing ++ [current])).mono fun r u hu => ⟨hu.1,fun hrounds => hu.2 ?_⟩
      have hne : current ≠ .currentDir := fun h => hmissing (hhere h)
      have hmore := hrounds.resolve_left fun h => hne h.1
      obtain hup | hup := upward_depth current
      · exact .inl ⟨hup,by omega⟩
      · exact .inr (by omega)
    · rintro e t ⟨_,_,h,_⟩
      cases h

theorem createMissing_spec (hrules : rules.Sound) (hw : Inv w) :
    Ensures keeping (createMissing rules rounds parent) w fun r t => Inv t ∧
      (parent.components.length + 2 ≤ rounds → r ≠ .ok none) := by
  refine (findMissing_spec hw parent []).bind ?_ fun e t ht => ⟨ht.1,fun _ => nofun⟩
  rintro found t ⟨ht,hfound⟩
  cases found with
  | none =>
    refine ⟨ht,fun hrounds => absurd rfl (hfound (.inr ?_))⟩
    exact le_trans (Nat.add_le_add_right parent.depth_le 2) hrounds
  | some missing =>
    refine Ensures.bind (P := fun _ t => Inv t) ?_ (fun _ t ht => ⟨ht,fun _ => nofun⟩)
      fun e t ht => ⟨ht,fun _ => nofun⟩
    refine ensures_foldlM (I := fun _ _ t => Inv t) ht (fun seen dir rest _ _ t ht => ?_) fun _ _ ht => ht
    exact (createDirectory_spec hrules dir ht).mono fun _ _ ht => ⟨fun _ _ => ht,fun _ _ => ht⟩

end Loops

/-! The parent of a secret file. -/

section Secret

variable {w : World} {rounds : ℕ} {path parent : Pathname}

theorem validateDirectoryMode_spec (hw : Inv w) : Ensures keeping (validateDirectoryMode path) w fun r t =>
    Inv t ∧ ∀ u, r = .ok u → GrantsNothing t.tree path := by
  refine (metadata_spec hw).bind ?_ fun e t ht => ⟨ht.1,fun _ h => (error_ne_ok h).elim⟩
  rintro found t ⟨ht,-,hfound⟩
  obtain ⟨n,node,hresolves,rfl⟩ := hfound found rfl
  refine ensures_liftResult.mpr ⟨ht,fun u hu => ⟨n,node,hresolves,?_⟩⟩
  have hmode := not_not.mp (bailIf_eq_ok.mp hu)
  rwa [Nat.and_assoc] at hmode

theorem secretRules_sound : secretRules.Sound where
  secure _ _ hw hdir := ensures_mapResult.mpr (ensures_mapResult.mpr (setPermissions_spec hw hdir))
  validate _ _ hw := (validateDirectoryMode_spec hw).mono fun _ _ h => h.1

/-- What a whole program ensures from the start. -/
structure Outcome (parent : Pathname) (rounds : ℕ) (r : Result (Option Unit)) (t : World) : Prop where
  inv : Inv t
  ended : parent.components.length + 2 ≤ rounds → r ≠ .ok none
  granted : r = .ok (some ()) → GrantsNothing t.tree parent

theorem validated_spec {validate : TreeM Unit} {w : World}
    (h : Ensures keeping validate w fun r t => Inv t ∧ ∀ u, r = .ok u → GrantsNothing t.tree parent) :
    Ensures keeping (validate >>= fun _ => return some ()) w (Outcome parent rounds) :=
  h.bind (fun _ _ ht => ⟨ht.1,nofun,fun _ => ht.2 _ rfl⟩) fun _ _ ht => ⟨ht.1,nofun,nofun⟩

theorem ensureSecretParentDirectory_spec (hw : Inv w) :
    Ensures keeping (ensureSecretParentDirectory rounds parent) w (Outcome parent rounds) := by
  refine (pathExists_spec hw).bind ?_ fun e t ht => ⟨ht.1,nofun,nofun⟩
  rintro existing t ⟨ht,-⟩
  refine ensures_ite.mpr ⟨fun _ => validated_spec (validateDirectoryMode_spec ht),fun _ => ?_⟩
  refine (createMissing_spec secretRules_sound ht).bind ?_ fun e t ht => ⟨ht.1,nofun,nofun⟩
  rintro created t ⟨ht,hended⟩
  cases created with
  | none => exact ⟨ht,fun h => absurd rfl (hended h),nofun⟩
  | some u => exact validated_spec (validateDirectoryMode_spec ht)

end Secret

/-- A program with this outcome keeps its parents private in all its runs. -/
theorem PrivateParent.of_outcome {program : ℕ → TreeM (Option Unit)} {parent : Pathname}
    (h : ∀ rounds w, Inv w → Ensures keeping (program rounds) w (Outcome parent rounds)) :
    PrivateParent program parent := by
  have hstart (tree : Tree) : Inv (.start tree) := fun _ hn => absurd hn List.not_mem_nil
  exact {
    terminates := fun rounds tree r t hrounds hexec =>
      (wp_keeping_exec (h rounds _ (hstart tree)) hexec).ended hrounds
    granted := fun rounds tree t later hexec hlater =>
      hlater.grantsNothing ((wp_keeping_exec (h rounds _ (hstart tree)) hexec).granted rfl)
    unchanged := fun rounds tree t hpasses n hn =>
      (hpasses.keeps (h rounds _ (hstart tree)) (hstart tree) n hn).1
    secured := fun rounds tree t later hpasses hlater n hn =>
      hlater.securedAt (hpasses.keeps (h rounds _ (hstart tree)) (hstart tree) n hn).2 }

end Avault.ParentDirectory
