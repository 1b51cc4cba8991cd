import Avault.Store.ParentDirectory

/-! The parent of the agent socket is private, and so is all that the written path shows between it
and the home. -/
namespace Avault.ParentDirectory
open Foundation
open Foundation.Program

section Program

-- `avault_store::effective_uid`, and `HOME` if it is set
variable (euid : ℕ) (home : Option Pathname)

def secureAgentRuntimeDirectory (path : Pathname) : TreeM Unit :=
  mapResult (context "failed to secure agent runtime directory") (setPermissions path secretDirectoryMode)

def validateAgentRuntimeDirectory (path : Pathname) : TreeM Unit := do
  let found ← mapResult (context "failed to stat agent runtime directory") (metadata path)
  liftResult (bailIf (found.isDir = false) "agent runtime path parent is not a directory")
  liftResult (bailIf (found.uid ≠ euid) "agent runtime directory is not owned by the current user")
  liftResult (bailIf (found.mode &&& 0o077 ≠ 0) "agent runtime directory mode is too open")

/-- The loop of `validate_agent_home_ancestors` over the parents that are left. -/
def validateAncestorsBelow (home : Pathname) : List Pathname → TreeM Unit
  | [] => return ()
  | path::rest =>
    if path.components = home.components then return ()
    else if ¬ path.StartsWith home then return ()
    else do
      validateAgentRuntimeDirectory euid path
      validateAncestorsBelow home rest

def validateAgentHomeAncestors (parent : Pathname) : TreeM Unit :=
  match home with
  | none => return ()
  | some home => validateAncestorsBelow euid home parent.ancestors

def agentRules : Rules where
  secure := secureAgentRuntimeDirectory
  validate := validateAgentRuntimeDirectory euid
  createText := "failed to create agent runtime directory"

/-- The first half of `ensure_agent_socket_parent`. -/
def createAgentParent (rounds : ℕ) (parent : Pathname) : TreeM (Option Unit) := do
  let existing ← pathExists parent
  if existing then return some ()
  else createMissing (agentRules euid) rounds parent

def ensureAgentSocketParent (rounds : ℕ) (parent : Pathname) : TreeM (Option Unit) := do
  match ← createAgentParent euid rounds parent with
  | none => return none
  | some _ => do
    validateAgentRuntimeDirectory euid parent
    validateAgentHomeAncestors euid home parent
    return some ()

end Program

/-- The path leads to a directory of the user that grants nothing to group or others. -/
def OwnedDirectory (t : Tree) (euid : ℕ) (path : Pathname) : Prop :=
  ∃ n node, t.Resolves path n node ∧ node.kind.isDirectory = true ∧ node.uid = euid ∧ node.mode &&& 0o077 = 0

/-- The path is written as one strictly below the home. -/
def BelowHome (home : Option Pathname) (path : Pathname) : Prop :=
  ∃ h, home = some h ∧ path.StartsWith h ∧ path.components ≠ h.components

structure OwnedParent (euid : ℕ) (home : Option Pathname) (parent : Pathname) : Prop where
  isPrivate : PrivateParent (fun rounds => ensureAgentSocketParent euid home rounds parent) parent
  owned : ∀ rounds tree t later, Exec Among (ensureAgentSocketParent euid home rounds parent).run (.start tree)
    (.ok (some ())) t → Others t.tree later → OwnedDirectory later euid parent
  ancestors : ∀ rounds tree t later, Exec Among (ensureAgentSocketParent euid home rounds parent).run (.start tree)
    (.ok (some ())) t → Others t.tree later → ∀ path ∈ parent.ancestors, BelowHome home path →
    OwnedDirectory later euid path

section Owned

variable {euid : ℕ} {home : Option Pathname} {path parent : Pathname} {s t : Tree} {w : World} {rounds : ℕ}

theorem OwnedDirectory.grantsNothing (h : OwnedDirectory t euid path) : GrantsNothing t path := by
  obtain ⟨n,node,hresolves,-,-,hmode⟩ := h
  exact ⟨n,node,hresolves,hmode⟩

theorem Others.ownedDirectory (h : Others s t) (hpath : OwnedDirectory s euid path) : OwnedDirectory t euid path := by
  obtain ⟨n,node,hresolves,hkind,huid,hmode⟩ := hpath
  obtain ⟨node',hresolves',hkind',huid',hmode'⟩ := h.resolves hresolves
  exact ⟨n,node',hresolves',hkind'.trans hkind,huid'.trans huid,grants_nothing_of hmode hmode'⟩

/-- What is known of the tree is still known after a look at another directory. -/
theorem validateAgentRuntimeDirectory_spec (known : Tree → Prop) (hw : Inv w)
    (hknown : ∀ s t, Others s t → known s → known t) (h : known w.tree) :
    Ensures keeping (validateAgentRuntimeDirectory euid path) w fun r t =>
      (Inv t ∧ known t.tree) ∧ ∀ u, r = .ok u → OwnedDirectory t.tree euid path := by
  refine (metadata_spec hw).bind ?_ fun e t ht => ⟨⟨ht.1,hknown _ _ ht.2.1 h⟩,fun _ he => (error_ne_ok he).elim⟩
  rintro found t ⟨ht,hothers,hfound⟩
  have hkept : Inv t ∧ known t.tree := ⟨ht,hknown _ _ hothers h⟩
  obtain ⟨n,node,hresolves,rfl⟩ := hfound found rfl
  refine ensures_check.mpr ⟨fun _ hdir => ?_,fun _ _ => ⟨hkept,fun _ he => (error_ne_ok he).elim⟩⟩
  refine ensures_check.mpr ⟨fun _ huid => ?_,fun _ _ => ⟨hkept,fun _ he => (error_ne_ok he).elim⟩⟩
  refine ensures_liftResult.mpr ⟨hkept,fun u hmode => ⟨n,node,hresolves,?_,?_,?_⟩⟩
  · exact Bool.eq_true_of_not_eq_false (bailIf_eq_ok.mp hdir)
  · exact not_not.mp (bailIf_eq_ok.mp huid)
  · exact not_not.mp (bailIf_eq_ok.mp hmode)

theorem agentRules_sound : (agentRules euid).Sound where
  secure _ _ hw hdir := ensures_mapResult.mpr (setPermissions_spec hw hdir)
  validate _ _ hw := (validateAgentRuntimeDirectory_spec (fun _ => True) hw (fun _ _ _ h => h) trivial).mono
    fun _ _ h => h.1.1

/-- Where the loop ends, no path further up is below the home. -/
theorem validateAncestorsBelow_spec {h : Pathname} (known : Tree → Prop) (hknown : ∀ s t, Others s t → known s → known t)
    (paths : List Pathname) (hpaths : paths.Pairwise fun p q => q.components <+: p.components) (hw : Inv w)
    (htree : known w.tree) : Ensures keeping (validateAncestorsBelow euid h paths) w fun r t => Inv t ∧
      ∀ u, r = .ok u → known t.tree ∧
        ∀ path ∈ paths, path.StartsWith h → path.components ≠ h.components → OwnedDirectory t.tree euid path := by
  induction paths generalizing w known with
  | nil => exact ⟨hw,fun _ _ => ⟨htree,fun _ hmem => absurd hmem List.not_mem_nil⟩⟩
  | cons p paths ih =>
    obtain ⟨habove,hpaths⟩ := List.pairwise_cons.mp hpaths
    refine ensures_ite.mpr ⟨fun hhome => ⟨hw,fun _ _ => ⟨htree,?_⟩⟩,fun hhome => ?_⟩
    · intro q hq hbelow hne
      obtain rfl | hq := List.mem_cons.mp hq
      · exact absurd hhome hne
      · exact absurd ((habove q hq).eq_of_length_le (hhome ▸ hbelow.length_le) |>.trans hhome) hne
    refine ensures_ite.mpr ⟨fun hout => ⟨hw,fun _ _ => ⟨htree,?_⟩⟩,fun _ => ?_⟩
    · intro q hq hbelow _
      obtain rfl | hq := List.mem_cons.mp hq
      · exact absurd hbelow hout
      · exact absurd (hbelow.trans (habove q hq)) hout
    refine (validateAgentRuntimeDirectory_spec known hw hknown htree).bind ?_
      fun e t ht => ⟨ht.1.1,fun _ he => (error_ne_ok he).elim⟩
    rintro _ t ⟨⟨ht,htree'⟩,howned⟩
    refine (ih (fun t => known t ∧ OwnedDirectory t euid p) ?_ hpaths ht ⟨htree',howned _ rfl⟩).mono ?_
    · exact fun s t hothers hs => ⟨hknown s t hothers hs.1,hothers.ownedDirectory hs.2⟩
    rintro r u ⟨hu,hrest⟩
    refine ⟨hu,fun x hx => ?_⟩
    obtain ⟨⟨htree'',hp⟩,hall⟩ := hrest x hx
    refine ⟨htree'',fun q hq hbelow hne => ?_⟩
    obtain rfl | hq := List.mem_cons.mp hq
    · exact hp
    · exact hall q hq hbelow hne

theorem ancestors_pairwise (p : Pathname) : p.ancestors.Pairwise fun p q => q.components <+: p.components := by
  obtain ⟨anchor,l⟩ := p
  rw [Pathname.ancestors]
  induction l with
  | nil => cases anchor <;> simp [Pathname.above]
  | cons s l ih =>
    have hmore : (⟨anchor,Pathname.trim l⟩::Pathname.above anchor l : List Pathname).Pairwise
        fun p q => q.components <+: p.components := by
      refine List.pairwise_cons.mpr ⟨fun q hq => ?_,ih⟩
      rw [Pathname.components_trim]
      exact Pathname.prefix_of_mem_ancestors hq
    cases s with
    | empty | dot => exact ih
    | up | name => exact hmore

/-- What a whole program ensures, with the parent and what is above it. -/
structure OwnedOutcome (euid : ℕ) (home : Option Pathname) (parent : Pathname) (rounds : ℕ) (r : Result (Option Unit))
    (t : World) : Prop where
  outcome : Outcome parent rounds r t
  owned : r = .ok (some ()) → OwnedDirectory t.tree euid parent
  ancestors : r = .ok (some ()) → ∀ path ∈ parent.ancestors, BelowHome home path → OwnedDirectory t.tree euid path

theorem validateAgentHomeAncestors_spec (hw : Inv w) (hparent : OwnedDirectory w.tree euid parent) :
    Ensures keeping (validateAgentHomeAncestors euid home parent) w fun r t => Inv t ∧
      ∀ u, r = .ok u → OwnedDirectory t.tree euid parent ∧
        ∀ path ∈ parent.ancestors, BelowHome home path → OwnedDirectory t.tree euid path := by
  cases home with
  | none => exact ⟨hw,fun _ _ => ⟨hparent,fun _ _ hbelow => by obtain ⟨_,h,_⟩ := hbelow; cases h⟩⟩
  | some h =>
    refine (validateAncestorsBelow_spec (fun t => OwnedDirectory t euid parent)
      (fun _ _ hothers => hothers.ownedDirectory) _ (ancestors_pairwise parent) hw hparent).mono ?_
    rintro r t ⟨ht,hall⟩
    refine ⟨ht,fun u hu => ⟨(hall u hu).1,?_⟩⟩
    rintro path hpath ⟨_,heq,hbelow,hne⟩
    obtain rfl := Option.some.inj heq
    exact (hall u hu).2 path hpath hbelow hne

theorem createAgentParent_spec (hw : Inv w) : Ensures keeping (createAgentParent euid rounds parent) w fun r t =>
    Inv t ∧ (parent.components.length + 2 ≤ rounds → r ≠ .ok none) := by
  refine (pathExists_spec hw).bind ?_ fun e t ht => ⟨ht.1,fun _ => nofun⟩
  rintro existing t ⟨ht,-⟩
  exact ensures_ite.mpr ⟨fun _ => ⟨ht,fun _ => nofun⟩,fun _ => createMissing_spec agentRules_sound ht⟩

theorem ensureAgentSocketParent_spec (hw : Inv w) : Ensures keeping (ensureAgentSocketParent euid home rounds parent) w
    (OwnedOutcome euid home parent rounds) := by
  have hfailed {e : Error} {t : World} (ht : Inv t) : OwnedOutcome euid home parent rounds (.error e) t :=
    ⟨⟨ht,nofun,nofun⟩,nofun,nofun⟩
  refine (createAgentParent_spec hw).bind ?_ fun e t ht => hfailed ht.1
  rintro created t ⟨ht,hended⟩
  cases created with
  | none => exact ⟨⟨ht,fun h => absurd rfl (hended h),nofun⟩,nofun,nofun⟩
  | some u =>
    refine (validateAgentRuntimeDirectory_spec (fun _ => True) ht (fun _ _ _ h => h) trivial).bind ?_
      fun e t ht => hfailed ht.1.1
    rintro _ t ⟨⟨ht,-⟩,hparent⟩
    refine (validateAgentHomeAncestors_spec ht (hparent _ rfl)).bind ?_ fun e t ht => hfailed ht.1
    rintro _ t ⟨ht,hall⟩
    obtain ⟨howned,hancestors⟩ := hall _ rfl
    exact ⟨⟨ht,nofun,fun _ => howned.grantsNothing⟩,fun _ => howned,fun _ => hancestors⟩

end Owned

/-- Both copies keep the parent private, among others that create what is missing. -/
theorem parentDirectories (parent : Pathname) :
    PrivateParent (fun rounds => ensureSecretParentDirectory rounds parent) parent ∧
      ∀ euid home, OwnedParent euid home parent := by
  refine ⟨.of_outcome fun _ _ => ensureSecretParentDirectory_spec,fun euid home => ?_⟩
  have hstart (tree : Tree) : Inv (.start tree) := fun _ hn => absurd hn List.not_mem_nil
  have hend {rounds : ℕ} {tree : Tree} {r : Result (Option Unit)} {t : World}
      (hexec : Exec Among (ensureAgentSocketParent euid home rounds parent).run (.start tree) r t) :
      OwnedOutcome euid home parent rounds r t :=
    wp_keeping_exec (ensureAgentSocketParent_spec (hstart tree)) hexec
  exact {
    isPrivate := .of_outcome fun _ _ hw => (ensureAgentSocketParent_spec hw).mono fun _ _ h => h.outcome
    owned := fun _ _ _ _ hexec hlater => hlater.ownedDirectory ((hend hexec).owned rfl)
    ancestors := fun _ _ _ _ hexec hlater path hpath hbelow =>
      hlater.ownedDirectory ((hend hexec).ancestors rfl path hpath hbelow) }

/-- A directory has the node somewhere below it. -/
inductive Above (t : Tree) : ℕ → ℕ → Prop
  | entry {d n entries up x} : t.Lists d entries up → entries x = some n → Above t d n
  | trans {d e n} : Above t d e → Above t e n → Above t d n

/-- In the tree itself, whatever lies between the home and the parent is a directory of the user. -/
def BetweenOwned (euid : ℕ) (home parent : Pathname) : Prop :=
  ∀ rounds tree t, Exec Among (ensureAgentSocketParent euid (some home) rounds parent).run (.start tree)
    (.ok (some ())) t → ∀ h hnode n node, t.tree.Resolves home h hnode → t.tree.Resolves parent n node →
    ∀ m, Above t.tree h m → Above t.tree m n →
      ∃ between, t.tree.nodes m = some between ∧ between.kind.isDirectory = true ∧ between.uid = euid

def listing (x : String) (n : ℕ) : String → Option ℕ := fun y => if y = x then some n else none

/-- The home `/h` of a user, who works in it. Its directory `a` belongs to root, and `a/b` to the user. -/
def sharedTree : Tree where
  nodes
    | 0 => some ⟨.directory (listing "h" 1) 0,0o755,0⟩
    | 1 => some ⟨.directory (listing "a" 2) 0,0o700,1000⟩
    | 2 => some ⟨.directory (listing "b" 3) 1,0o755,0⟩
    | 3 => some ⟨.directory (fun _ => none) 2,0o700,1000⟩
    | _ => none
  root := 0
  cwd := 1

/-- A relative path does not show that it leads below the home. -/
theorem ensureAgentSocketParent_relative :
    ¬ ∀ euid home parent, BetweenOwned euid home parent := by
  intro hclaim
  have hhome : sharedTree.Resolves ⟨.root,[.name "h"]⟩ 1 ⟨.directory (listing "a" 2) 0,0o700,1000⟩ := by
    refine ⟨by decide,?_,rfl⟩
    exact .name ⟨_,rfl,rfl⟩ rfl rfl NodeKind.not_isLink_directory .done
  have hparent : sharedTree.Resolves ⟨.relative,[.name "b",.name "a"]⟩ 3 ⟨.directory (fun _ => none) 2,0o700,1000⟩ := by
    refine ⟨by decide,?_,rfl⟩
    refine .name ⟨_,rfl,rfl⟩ rfl rfl NodeKind.not_isLink_directory ?_
    exact .name ⟨_,rfl,rfl⟩ rfl rfl NodeKind.not_isLink_directory .done
  have hexec : Exec Among (ensureAgentSocketParent 1000 (some ⟨.root,[.name "h"]⟩) 0
      ⟨.relative,[.name "b",.name "a"]⟩).run (.start sharedTree) (.ok (some ())) (.start sharedTree) := by
    refine (exec_request _).mpr ⟨true,_,⟨sharedTree,.refl _,.found hparent⟩,?_⟩
    refine (exec_request _).mpr ⟨_,_,⟨sharedTree,.refl _,.metadata hparent⟩,?_⟩
    exact ⟨rfl,rfl⟩
  obtain ⟨between,hbetween,-,huid⟩ := hclaim _ _ _ _ _ _ hexec 1 _ 3 _ hhome hparent 2
    (.entry ⟨_,rfl,rfl⟩ (x := "a") rfl) (.entry ⟨_,rfl,rfl⟩ (x := "b") rfl)
  obtain rfl := Option.some.inj hbetween
  cases huid

end Avault.ParentDirectory
