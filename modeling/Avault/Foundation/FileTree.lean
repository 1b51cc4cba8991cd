import Mathlib.Data.List.Infix
import Mathlib.Logic.Function.Basic

/-! Paths as they are written, and the file tree in which they lead somewhere. -/
namespace Avault.Foundation

/-- A piece of a path between two slashes. -/
inductive Segment
  | empty
  | dot
  | up
  | name (name : String)
deriving DecidableEq

/-- The start of a path. A leading `.` is a component, unlike those that follow. -/
inductive Anchor
  | root
  | here
  | relative
deriving DecidableEq

/-- A path as it is written, with its segments from the last one back. -/
structure Pathname where
  anchor : Anchor
  segments : List Segment
deriving DecidableEq

inductive Component
  | rootDir
  | curDir
  | parentDir
  | normal (name : String)
deriving DecidableEq

def Segment.component : Segment → Option Component
  | empty | dot => none
  | up => some .parentDir
  | name x => some (.normal x)

def Anchor.components : Anchor → List Component
  | root => [.rootDir]
  | here => [.curDir]
  | relative => []

namespace Pathname

def currentDir : Pathname := ⟨.here,[]⟩
def rootDir : Pathname := ⟨.root,[]⟩
def nothing : Pathname := ⟨.relative,[]⟩

/-- `Path::components`. -/
def components (p : Pathname) : List Component :=
  p.anchor.components ++ (p.segments.filterMap Segment.component).reverse

/-- `Path::starts_with`. -/
def StartsWith (p q : Pathname) : Prop := q.components <+: p.components

instance (p q : Pathname) : Decidable (p.StartsWith q) := inferInstanceAs (Decidable (_ <+: _))

/-- The segments without what is no component at their end. -/
def trim : List Segment → List Segment
  | .empty::l => trim l
  | .dot::l => trim l
  | l => l

/-- `Path::parent`. -/
def parent (p : Pathname) : Option Pathname :=
  match trim p.segments,p.anchor with
  | _::rest,anchor => some ⟨anchor,trim rest⟩
  | [],.here => some nothing
  | [],_ => none

/-- The paths above one that is written with these segments, the nearest first. -/
def above (anchor : Anchor) : List Segment → List Pathname
  | .empty::l => above anchor l
  | .dot::l => above anchor l
  | .up::l => ⟨anchor,trim l⟩::above anchor l
  | .name _::l => ⟨anchor,trim l⟩::above anchor l
  | [] => if anchor = .here then [nothing] else []

/-- `Path::parent`, and the parents of that: `Path::ancestors` without the path itself. -/
def ancestors (p : Pathname) : List Pathname := above p.anchor p.segments

/-- The number of names and of `..` in a path. -/
def depth (p : Pathname) : ℕ := (p.segments.filterMap Segment.component).length

section Parents

variable {anchor : Anchor} {l : List Segment} {p q : Pathname}

theorem above_trim (anchor : Anchor) (l : List Segment) : above anchor (trim l) = above anchor l := by
  induction l with
  | nil => rfl
  | cons s l ih => cases s <;> first | exact ih | rfl

/-- What a loop over the parents of a path goes through. -/
theorem ancestors_eq (p : Pathname) :
    p.ancestors = match p.parent with | none => [] | some q => q::q.ancestors := by
  obtain ⟨anchor,l⟩ := p
  rw [ancestors,← above_trim,parent]
  cases hl : trim l with
  | nil => cases anchor <;> rfl
  | cons s rest =>
    have hcomponent : s.component ≠ none := by
      clear * - hl
      induction l with
      | nil => cases hl
      | cons s' l ih =>
        cases s' with
        | empty | dot => exact ih hl
        | up | name =>
          obtain ⟨rfl,-⟩ := List.cons.inj hl
          exact Option.some_ne_none _
    have hrest : above anchor rest = ancestors ⟨anchor,trim rest⟩ := (above_trim anchor rest).symm
    cases s with
    | empty | dot => exact absurd rfl hcomponent
    | up | name => exact congrArg (List.cons _) hrest

theorem components_trim (anchor : Anchor) (l : List Segment) :
    components ⟨anchor,trim l⟩ = components ⟨anchor,l⟩ := by
  induction l with
  | nil => rfl
  | cons s l ih => cases s <;> first | exact ih | rfl

theorem components_cons {s : Segment} {c : Component} (hs : s.component = some c) :
    components ⟨anchor,s::l⟩ = components ⟨anchor,l⟩ ++ [c] := by
  rw [components,components,List.filterMap_cons_some hs,List.reverse_cons,List.append_assoc]

/-- A parent has fewer components. -/
theorem prefix_of_mem_ancestors (h : q ∈ p.ancestors) : q.components <+: p.components := by
  obtain ⟨anchor,l⟩ := p
  rw [ancestors] at h
  induction l with
  | nil =>
    cases anchor with
    | here => exact List.mem_singleton.mp h ▸ List.nil_prefix
    | root | relative => exact absurd h List.not_mem_nil
  | cons s l ih =>
    have hmore (c : Component) (hs : s.component = some c)
        (hmem : q ∈ (⟨anchor,trim l⟩::above anchor l : List Pathname)) :
        q.components <+: components ⟨anchor,s::l⟩ := by
      rw [components_cons hs]
      refine List.IsPrefix.trans ?_ (List.prefix_append _ _)
      obtain rfl | hmem := List.mem_cons.mp hmem
      · exact components_trim anchor l ▸ List.prefix_refl _
      · exact ih hmem
    cases s with
    | empty | dot => exact ih h
    | up | name => exact hmore _ rfl h

theorem depth_le (p : Pathname) : p.depth ≤ p.components.length := by
  rw [components,List.length_append,List.length_reverse]
  exact Nat.le_add_left _ _

theorem depth_trim (anchor : Anchor) (l : List Segment) : depth ⟨anchor,trim l⟩ = depth ⟨anchor,l⟩ := by
  induction l with
  | nil => rfl
  | cons s l ih => cases s <;> first | exact ih | rfl

/-- The parent of a path is one name shorter. -/
theorem depth_parent (h : p.parent = some q) : q = nothing ∨ q.depth + 1 = p.depth := by
  obtain ⟨anchor,l⟩ := p
  induction l with
  | nil => cases anchor <;> cases h; exact .inl rfl
  | cons s l ih =>
    cases s with
    | empty | dot => exact ih h
    | up | name =>
      obtain rfl := Option.some.inj h
      exact .inr (congrArg (· + 1) (depth_trim anchor l))

end Parents
end Pathname

inductive NodeKind
  | directory (entries : String → Option ℕ) (up : ℕ)
  | link (target : Pathname)
  | other

structure Node where
  kind : NodeKind
  mode : ℕ
  uid : ℕ

structure Tree where
  nodes : ℕ → Option Node
  root : ℕ
  cwd : ℕ

def NodeKind.IsLink (kind : NodeKind) : Prop := ∃ target, kind = .link target

def NodeKind.isDirectory : NodeKind → Bool
  | directory _ _ => true
  | link _ | other => false

theorem NodeKind.not_isLink_directory {entries : String → Option ℕ} {up : ℕ} :
    ¬ (directory entries up).IsLink := by
  rintro ⟨target,h⟩
  cases h

theorem NodeKind.isDirectory_eq_true {kind : NodeKind} :
    kind.isDirectory = true ↔ ∃ entries up, kind = .directory entries up := by
  cases kind <;> simp [isDirectory]

namespace Tree

/-- Where a path starts that is met at a node. -/
def start (t : Tree) (base : ℕ) : Anchor → ℕ
  | .root => t.root
  | .here | .relative => base

/-- The node is a directory with these entries. -/
def Lists (t : Tree) (n : ℕ) (entries : String → Option ℕ) (up : ℕ) : Prop :=
  ∃ node, t.nodes n = some node ∧ node.kind = .directory entries up

/-- The walk from a node along segments, through symbolic links, comes to a node. -/
inductive Leads (t : Tree) : ℕ → List Segment → ℕ → Prop
  | done {n} : Leads t n [] n
  | empty {n entries up rest m} : t.Lists n entries up → Leads t n rest m → Leads t n (.empty::rest) m
  | dot {n entries up rest m} : t.Lists n entries up → Leads t n rest m → Leads t n (.dot::rest) m
  | up {n entries up rest m} : t.Lists n entries up → Leads t up rest m → Leads t n (.up::rest) m
  | name {n entries up x k node rest m} : t.Lists n entries up → entries x = some k → t.nodes k = some node →
    ¬ node.kind.IsLink → Leads t k rest m → Leads t n (.name x::rest) m
  | link {n entries up x k node target rest m} : t.Lists n entries up → entries x = some k →
    t.nodes k = some node → node.kind = .link target →
    Leads t (t.start n target.anchor) (target.segments.reverse ++ rest) m → Leads t n (.name x::rest) m

/-- The path leads to a node that is there. The empty path leads nowhere. -/
structure Resolves (t : Tree) (p : Pathname) (n : ℕ) (node : Node) : Prop where
  written : p ≠ .nothing
  leads : t.Leads (t.start t.cwd p.anchor) p.segments.reverse n
  present : t.nodes n = some node

section Walk

variable {t : Tree} {n m m' : ℕ} {l l' : List Segment}

theorem Lists.unique {entries entries' : String → Option ℕ} {up up' : ℕ} (h : t.Lists n entries up)
    (h' : t.Lists n entries' up') : entries = entries' ∧ up = up' := by
  obtain ⟨node,hnode,hkind⟩ := h
  obtain ⟨node',hnode',hkind'⟩ := h'
  obtain rfl := Option.some.inj (hnode.symm.trans hnode')
  exact NodeKind.directory.inj (hkind.symm.trans hkind')

theorem Leads.unique (h : t.Leads n l m) (h' : t.Leads n l m') : m = m' := by
  induction h with
  | done => cases h'; rfl
  | empty hlists _ ih => cases h' with | empty _ hrest => exact ih hrest
  | dot hlists _ ih => cases h' with | dot _ hrest => exact ih hrest
  | up hlists _ ih =>
    cases h' with
    | up hlists' hrest => exact ih ((hlists.unique hlists').2 ▸ hrest)
  | @name n entries up x k node rest m hlists hentry hnode hkind _ ih =>
    cases h' with
    | name hlists' hentry' _ _ hrest =>
      obtain ⟨rfl,-⟩ := hlists.unique hlists'
      obtain rfl := Option.some.inj (hentry.symm.trans hentry')
      exact ih hrest
    | link hlists' hentry' hnode' hkind' _ =>
      obtain ⟨rfl,-⟩ := hlists.unique hlists'
      obtain rfl := Option.some.inj (hentry.symm.trans hentry')
      obtain rfl := Option.some.inj (hnode.symm.trans hnode')
      exact absurd ⟨_,hkind'⟩ hkind
  | @link n entries up x k node target rest m hlists hentry hnode hkind _ ih =>
    cases h' with
    | name hlists' hentry' hnode' hkind' _ =>
      obtain ⟨rfl,-⟩ := hlists.unique hlists'
      obtain rfl := Option.some.inj (hentry.symm.trans hentry')
      obtain rfl := Option.some.inj (hnode.symm.trans hnode')
      exact absurd ⟨_,hkind⟩ hkind'
    | link hlists' hentry' hnode' hkind' hrest =>
      obtain ⟨rfl,-⟩ := hlists.unique hlists'
      obtain rfl := Option.some.inj (hentry.symm.trans hentry')
      obtain rfl := Option.some.inj (hnode.symm.trans hnode')
      obtain rfl := NodeKind.link.inj (hkind.symm.trans hkind')
      exact ih hrest

theorem Leads.append (h : t.Leads n l m) (h' : t.Leads m l' m') : t.Leads n (l ++ l') m' := by
  induction h with
  | done => exact h'
  | empty hlists _ ih => exact .empty hlists (ih h')
  | dot hlists _ ih => exact .dot hlists (ih h')
  | up hlists _ ih => exact .up hlists (ih h')
  | name hlists hentry hnode hkind _ ih => exact .name hlists hentry hnode hkind (ih h')
  | link hlists hentry hnode hkind _ ih =>
    refine .link hlists hentry hnode hkind ?_
    have hrest := ih h'
    rwa [List.append_assoc] at hrest

end Walk

/-! What stays when entries are only added. -/

/-- Directories have at least the entries they had. -/
inductive KindGrows : NodeKind → NodeKind → Prop
  | directory {entries entries' up} : (∀ x m, entries x = some m → entries' x = some m) →
    KindGrows (.directory entries up) (.directory entries' up)
  | link {target} : KindGrows (.link target) (.link target)
  | other : KindGrows .other .other

theorem KindGrows.refl (kind : NodeKind) : KindGrows kind kind := by
  cases kind with
  | directory => exact .directory fun _ _ h => h
  | link => exact .link
  | other => exact .other

theorem KindGrows.isDirectory {kind kind' : NodeKind} (h : KindGrows kind kind') :
    kind'.isDirectory = kind.isDirectory := by
  cases h <;> rfl

/-- Nothing is removed or moved. -/
structure Grows (s t : Tree) : Prop where
  root : t.root = s.root
  cwd : t.cwd = s.cwd
  node : ∀ {n node}, s.nodes n = some node → ∃ node', t.nodes n = some node' ∧ KindGrows node.kind node'.kind

section Grows

variable {s t : Tree} {n m : ℕ} {l : List Segment} {p : Pathname} {node : Node}

theorem Grows.refl (t : Tree) : t.Grows t := ⟨rfl,rfl,fun h => ⟨_,h,.refl _⟩⟩

theorem Grows.lists (h : s.Grows t) {entries : String → Option ℕ} {up : ℕ} (hlists : s.Lists n entries up) :
    ∃ entries', t.Lists n entries' up ∧ ∀ x m, entries x = some m → entries' x = some m := by
  obtain ⟨node,hnode,hkind⟩ := hlists
  obtain ⟨node',hnode',hgrows⟩ := h.node hnode
  rw [hkind] at hgrows
  generalize hk : node'.kind = kind at hgrows
  obtain ⟨hentries⟩ := hgrows
  exact ⟨_,⟨node',hnode',hk⟩,hentries⟩

theorem Grows.start (h : s.Grows t) (base : ℕ) (anchor : Anchor) : t.start base anchor = s.start base anchor := by
  cases anchor with
  | root => exact h.root
  | here | relative => rfl

/-- A walk comes to the same node. -/
theorem Grows.leads (h : s.Grows t) (hleads : s.Leads n l m) : t.Leads n l m := by
  induction hleads with
  | done => exact .done
  | empty hlists _ ih =>
    obtain ⟨_,hlists',-⟩ := h.lists hlists
    exact .empty hlists' ih
  | dot hlists _ ih =>
    obtain ⟨_,hlists',-⟩ := h.lists hlists
    exact .dot hlists' ih
  | up hlists _ ih =>
    obtain ⟨_,hlists',-⟩ := h.lists hlists
    exact .up hlists' ih
  | @name n entries up x k node rest m hlists hentry hnode hkind _ ih =>
    obtain ⟨_,hlists',hentries⟩ := h.lists hlists
    obtain ⟨node',hnode',hgrows⟩ := h.node hnode
    refine .name hlists' (hentries _ _ hentry) hnode' ?_ ih
    rintro ⟨target,htarget⟩
    rw [htarget] at hgrows
    generalize hk : node.kind = kind at hgrows
    cases hgrows
    exact hkind ⟨target,hk⟩
  | @link n entries up x k node target rest m hlists hentry hnode hkind _ ih =>
    obtain ⟨_,hlists',hentries⟩ := h.lists hlists
    obtain ⟨node',hnode',hgrows⟩ := h.node hnode
    rw [hkind] at hgrows
    generalize hk : node'.kind = kind at hgrows
    cases hgrows
    exact .link hlists' (hentries _ _ hentry) hnode' hk (h.start _ _ ▸ ih)

theorem Grows.resolves (h : s.Grows t) (hresolves : s.Resolves p n node) :
    ∃ node', t.Resolves p n node' ∧ KindGrows node.kind node'.kind := by
  obtain ⟨node',hnode',hgrows⟩ := h.node hresolves.present
  refine ⟨node',⟨hresolves.written,?_,hnode'⟩,hgrows⟩
  rw [h.start,h.cwd]
  exact h.leads hresolves.leads

end Grows

/-! A new entry. -/

/-- The tree with a new node as an entry of a directory. -/
def insert (t : Tree) (d : ℕ) (directory : Node) (entries : String → Option ℕ) (up : ℕ) (x : String) (n : ℕ)
    (node : Node) : Tree :=
  { t with nodes := Function.update (Function.update t.nodes d (some { directory with
      kind := .directory (Function.update entries x (some n)) up })) n (some node) }

section Insert

variable {t : Tree} {d n : ℕ} {directory : Node} {entries : String → Option ℕ} {up : ℕ} {x : String}
  (node : Node)

theorem insert_new : (t.insert d directory entries up x n node).nodes n = some node := Function.update_self _ _ _

theorem insert_directory (hne : d ≠ n) : (t.insert d directory entries up x n node).nodes d =
    some { directory with kind := .directory (Function.update entries x (some n)) up } :=
  (Function.update_of_ne hne _ _).trans (Function.update_self _ _ _)

theorem insert_other {m : ℕ} (hd : m ≠ d) (hn : m ≠ n) :
    (t.insert d directory entries up x n node).nodes m = t.nodes m :=
  (Function.update_of_ne hn _ _).trans (Function.update_of_ne hd _ _)

omit node in
theorem ne_of_fresh {a b : ℕ} {node : Node} (ha : t.nodes a = some node) (hb : t.nodes b = none) : a ≠ b := by
  rintro rfl
  rw [ha] at hb
  cases hb

theorem insert_grows (hd : t.nodes d = some directory) (hkind : directory.kind = .directory entries up)
    (hx : entries x = none) (hn : t.nodes n = none) : t.Grows (t.insert d directory entries up x n node) where
  root := rfl
  cwd := rfl
  node := by
    intro m old hold
    have hmn := ne_of_fresh hold hn
    by_cases hmd : m = d
    · subst hmd
      obtain rfl := Option.some.inj (hd.symm.trans hold)
      refine ⟨_,insert_directory node hmn,?_⟩
      rw [hkind]
      refine .directory fun y k hy => ?_
      rwa [Function.update_of_ne]
      rintro rfl
      rw [hx] at hy
      cases hy
    · exact ⟨old,(insert_other node hmd hmn).trans hold,.refl _⟩

/-- The new directory is where its path leads. -/
theorem insert_resolves {anchor : Anchor} {trail front : List Segment} (hd : t.nodes d = some directory)
    (hkind : directory.kind = .directory entries up) (hx : entries x = none) (hn : t.nodes n = none)
    (htrail : ∀ s ∈ trail, s = .empty) (hleads : t.Leads (t.start t.cwd anchor) front.reverse d)
    (hnode : node.kind.isDirectory = true) :
    (t.insert d directory entries up x n node).Resolves ⟨anchor,trail ++ .name x::front⟩ n node := by
  refine ⟨?_,?_,insert_new node⟩
  · intro h
    have hnil := congrArg Pathname.segments h
    exact absurd hnil (by simp [Pathname.nothing])
  obtain ⟨newEntries,newUp,hnew⟩ := NodeKind.isDirectory_eq_true.mp hnode
  have hgrows := insert_grows node hd hkind hx hn
  have hfront := hgrows.leads hleads
  have hlast : (t.insert d directory entries up x n node).Leads n trail.reverse n := by
    have hreverse : ∀ s ∈ trail.reverse, s = .empty := fun s hs => htrail s (List.mem_reverse.mp hs)
    generalize trail.reverse = l at hreverse
    induction l with
    | nil => exact .done
    | cons s l ih =>
      obtain ⟨rfl,hrest⟩ := List.forall_mem_cons.mp hreverse
      exact .empty ⟨node,insert_new node,hnew⟩ (ih hrest)
  have hentry : (t.insert d directory entries up x n node).Leads d (.name x::trail.reverse) n := by
    refine .name ⟨_,insert_directory node (ne_of_fresh hd hn),rfl⟩ (Function.update_self _ _ _) (insert_new node) ?_ hlast
    rw [hnew]
    exact NodeKind.not_isLink_directory
  rw [hgrows.start,hgrows.cwd,List.reverse_append,List.reverse_cons,List.append_assoc]
  exact hfront.append hentry

end Insert

/-! A new mode. -/

def setMode (t : Tree) (n : ℕ) (node : Node) (mode : ℕ) : Tree :=
  { t with nodes := Function.update t.nodes n (some { node with mode := mode }) }

section SetMode

variable {t : Tree} {n mode : ℕ} {node : Node}

theorem setMode_self : (t.setMode n node mode).nodes n = some { node with mode := mode } :=
  Function.update_self _ _ _

theorem setMode_other {m : ℕ} (h : m ≠ n) : (t.setMode n node mode).nodes m = t.nodes m :=
  Function.update_of_ne h _ _

end SetMode
end Tree
end Avault.Foundation
