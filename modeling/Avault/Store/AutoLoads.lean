import Avault.Foundation.Interleaving
import Avault.Store.KeychainBackend
import Avault.Store.Platform

/-! Loading the key on macOS never replaces one, whatever Keychain replies. -/
namespace Avault.Store
open Foundation Crypto
open Foundation.Program (Ensures Exec ensures_bind ensures_pure ensures_attempt ensures_ite)

/-- The calls that change the file store, or may do so. -/
def Call.writesFile : Call → Bool
  | act a =>
    match a with
    | .ensureDirectory | .createTemp | .secureTemp | .writeTemp _ | .syncTemp | .persist _ _ | .persistNoclobber _ _
    | .syncDirectory => true
    | _ => false
  | _ => false

/-- Keychain replies with anything at every call. Whether there is a key file is known, and reading it may fail. -/
inductive AutoStep (M : Machine) : World → (op : AutoCall) → op.Reply → World → Prop
  | store {w c r t} : MayFail M (fun c _ => ∀ path, c ≠ .pathExists path) w c r t → AutoStep M w (.store c) r t
  | read {w} (r : Result Key) : AutoStep M w .read r w
  | add {w key} (r : Result Unit) : AutoStep M w (.add key) r w

abbrev AutoCalls := History AutoCall AutoCall.Reply

/-- A step that is added to the calls made so far. -/
def Noted (M : Machine) (s : AutoCalls × World) (op : AutoCall) (r : op.Reply) (t : AutoCalls × World) : Prop :=
  t.1 = ⟨op,r⟩::s.1 ∧ AutoStep M s.2 op r t.2

def AutoCalls.Read (h : AutoCalls) (r : Result Key) : Prop := (⟨.read,r⟩ : (op : AutoCall) × op.Reply) ∈ h
def AutoCalls.Added (h : AutoCalls) (key : Key) (r : Result Unit) : Prop :=
  (⟨.add key,r⟩ : (op : AutoCall) × op.Reply) ∈ h

/-- Why a load returns the key of the file. -/
inductive Vouched (key : Key) (h : AutoCalls) : Prop
  | matching : h.Read (.ok key) → Vouched key h
  | added {e} : h.Read (.error e) → isKeychainNotFound e = true → h.Added key (.ok ()) → Vouched key h
  | notAdded {e e'} : h.Read (.error e) → isKeychainNotFound e = true → h.Added key (.error e') →
    isKeychainUnavailable e' = true → Vouched key h
  | unavailable {e} : h.Read (.error e) → isKeychainUnavailable e = true → Vouched key h

/-- What one load does, with its calls, the latest first. -/
structure SafeLoad (p : Platform) (w : World) (create : Bool) (h : AutoCalls) (r : Result Key) (t : World) : Prop where
  file : t.file = w.file
  unwritten : ∀ c reply, (⟨.store c,reply⟩ : (op : AutoCall) × op.Reply) ∈ h → c.writesFile = false
  fileKey : p.hasFile w = true → ∀ key, r = .ok key → p.fileKey w = some key ∧ Vouched key h
  /-- A key that is added is that of the file, or a fresh one for a missing item. -/
  minted : ∀ key reply earlier, (⟨.add key,reply⟩::earlier : AutoCalls) <:+ h → p.fileKey w = some key ∨
    create = true ∧ p.hasFile w = false ∧ ∃ e rest, isKeychainNotFound e = true ∧
      earlier = ⟨.store .drawKey,key⟩::⟨.read,(.error e : Result Key)⟩::rest
  denied : ∀ e, isKeychainDenial e = true → h.Read (.error e) ∨ (∃ key, h.Added key (.error e)) → ∀ key, r ≠ .ok key

/-- Loads one after the other, with the calls of each. -/
inductive Loads (M : Machine) (home : Bool) : World → List (Bool × AutoCalls × Result Key) → World → Prop
  | nil {w} : Loads M home w [] w
  | load {w create h r t loads u} :
    Exec (Noted M) (KeychainBackend.loadAutoMasterKeyWith home create).run ([],w) r (h,t) →
    Loads M home t loads u → Loads M home w ((create,h,r)::loads) u

/-- No load of the sequence replaces the key that was there at its start. -/
def NeverReplaces (M : Machine) (home : Bool) (w : World) : Prop :=
  ∀ loads u, Loads M home w loads u → u.file = w.file ∧ ∀ load ∈ loads, ∃ t,
    SafeLoad (.mac home) w load.1 load.2.1 load.2.2 t

section Notes

variable {p : Platform} {w : World} {create : Bool} {h : AutoCalls} {s : AutoCalls × World}

/-- A key is only added where that is safe. -/
def Minting (p : Platform) (w : World) (create : Bool) (h : AutoCalls) : Prop :=
  ∀ key reply earlier, (⟨.add key,reply⟩::earlier : AutoCalls) <:+ h → p.fileKey w = some key ∨
    create = true ∧ p.hasFile w = false ∧ ∃ e rest, isKeychainNotFound e = true ∧
      earlier = ⟨.store .drawKey,key⟩::⟨.read,(.error e : Result Key)⟩::rest

theorem Minting.cons (hminting : Minting p w create h) {x : (op : AutoCall) × op.Reply} (hx : ∀ key, x.1 ≠ .add key) :
    Minting p w create (x::h) := by
  intro key reply earlier hsuffix
  obtain heq | hsuffix := List.suffix_cons_iff.mp hsuffix
  · exact absurd (congrArg Sigma.fst (List.cons.inj heq).1).symm (hx key)
  · exact hminting key reply earlier hsuffix

theorem Minting.add (hminting : Minting p w create h) {key : Key} (reply : Result Unit)
    (hkey : p.fileKey w = some key ∨ create = true ∧ p.hasFile w = false ∧ ∃ e rest, isKeychainNotFound e = true ∧
      h = ⟨.store .drawKey,key⟩::⟨.read,(.error e : Result Key)⟩::rest) : Minting p w create (⟨.add key,reply⟩::h) := by
  intro key' reply' earlier hsuffix
  obtain heq | hsuffix := List.suffix_cons_iff.mp hsuffix
  · obtain ⟨hcall,rfl⟩ := List.cons.inj heq
    obtain rfl := AutoCall.add.inj (congrArg Sigma.fst hcall)
    exact hkey
  · exact hminting key' reply' earlier hsuffix

/-- What holds of the calls so far and of the world behind them. -/
structure Noting (p : Platform) (w : World) (create : Bool) (s : AutoCalls × World) : Prop where
  file : s.2.file = w.file
  unwritten : ∀ c reply, (⟨.store c,reply⟩ : (op : AutoCall) × op.Reply) ∈ s.1 → c.writesFile = false
  minting : Minting p w create s.1

theorem Noting.store (hs : Noting p w create s) {c : Call} (reply : c.Reply) (hc : c.writesFile = false) {t : World}
    (ht : t.file = w.file) : Noting p w create (⟨.store c,reply⟩::s.1,t) where
  file := ht
  unwritten c' reply' hmem := by
    obtain heq | hmem := List.mem_cons.mp hmem
    · obtain rfl := AutoCall.store.inj (congrArg Sigma.fst heq)
      exact hc
    · exact hs.unwritten c' reply' hmem
  minting := hs.minting.cons fun _ h => by cases h

theorem Noting.read (hs : Noting p w create s) (r : Result Key) : Noting p w create (⟨.read,r⟩::s.1,s.2) where
  file := hs.file
  unwritten c reply hmem := by
    obtain heq | hmem := List.mem_cons.mp hmem
    · cases congrArg Sigma.fst heq
    · exact hs.unwritten c reply hmem
  minting := hs.minting.cons fun _ h => by cases h

theorem Noting.add (hs : Noting p w create s) {key : Key} (r : Result Unit)
    (hkey : p.fileKey w = some key ∨ create = true ∧ p.hasFile w = false ∧ ∃ e rest, isKeychainNotFound e = true ∧
      s.1 = ⟨.store .drawKey,key⟩::⟨.read,(.error e : Result Key)⟩::rest) :
    Noting p w create (⟨.add key,r⟩::s.1,s.2) where
  file := hs.file
  unwritten c reply hmem := by
    obtain heq | hmem := List.mem_cons.mp hmem
    · cases congrArg Sigma.fst heq
    · exact hs.unwritten c reply hmem
  minting := hs.minting.add r hkey

/-- A reply of Keychain from which a load may go on to a key. -/
def Tolerated : (op : AutoCall) × op.Reply → Prop
  | ⟨.read,.error e⟩ | ⟨.add _,.error e⟩ => isKeychainDenial e = false
  | _ => True

theorem not_denial {e : Error} (h : isKeychainNotFound e = true ∨ isKeychainDuplicate e = true ∨
    isKeychainUnavailable e = true) : isKeychainDenial e = false := by
  simp only [isKeychainNotFound,isKeychainDuplicate,isKeychainUnavailable,decide_eq_true_eq] at h
  obtain h | h | h | h | h := h <;> rw [isKeychainDenial,h] <;> decide

theorem Noting.fails (hs : Noting p w create s) (e : Error) : SafeLoad p w create s.1 (.error e) s.2 where
  file := hs.file
  unwritten := hs.unwritten
  fileKey _ _ h := (error_ne_ok h).elim
  minted := hs.minting
  denied _ _ _ _ h := error_ne_ok h

theorem Noting.returns (hs : Noting p w create s) {key : Key} (htolerated : ∀ x ∈ s.1, Tolerated x)
    (hkey : p.hasFile w = true → p.fileKey w = some key ∧ Vouched key s.1) : SafeLoad p w create s.1 (.ok key) s.2 where
  file := hs.file
  unwritten := hs.unwritten
  fileKey hfile _ h := Except.ok.inj h ▸ hkey hfile
  minted := hs.minting
  denied e he hcall _ _ := by
    obtain hread | ⟨key',hadd⟩ := hcall
    · exact absurd (htolerated _ hread) (by rw [Tolerated,he]; decide)
    · exact absurd (htolerated _ hadd) (by rw [Tolerated,he]; decide)

theorem SafeLoad.noting {r : Result Key} {t : World} (hload : SafeLoad p w create h r t) : Noting p w create (h,t) :=
  ⟨hload.file,hload.unwritten,hload.minted⟩

end Notes

section Calls

variable {M : Machine} {s : AutoCalls × World} {α : Type}

theorem backendRead_spec {Q : Result Key → AutoCalls × World → Prop} (h : ∀ r, Q r (⟨.read,r⟩::s.1,s.2)) :
    Ensures (.after (Noted M)) KeychainBackend.read s Q := by
  rintro r ⟨calls,t⟩ ⟨hcalls,hstep⟩
  simp only at hcalls hstep
  subst hcalls
  cases hstep
  exact h r

theorem backendAdd_spec {key : Key} {Q : Result Unit → AutoCalls × World → Prop} (h : ∀ r, Q r (⟨.add key,r⟩::s.1,s.2)) :
    Ensures (.after (Noted M)) (KeychainBackend.add key) s Q := by
  rintro r ⟨calls,t⟩ ⟨hcalls,hstep⟩
  simp only at hcalls hstep
  subst hcalls
  cases hstep
  exact h r

theorem generateLocked_spec {Q : Result Key → AutoCalls × World → Prop}
    (h : ∀ (key : Key) (t : World), t.file = s.2.file → Q (.ok key) (⟨.store .drawKey,key⟩::s.1,t)) :
    Ensures (.after (Noted M)) (KeychainBackend.fromStore generateLocked) s Q := by
  rintro key ⟨calls,t⟩ ⟨hcalls,hstep⟩
  simp only at hcalls hstep
  subst hcalls
  cases hstep with
  | store hstep =>
    obtain hdrawn | ⟨rfl,_⟩ := hstep
    · exact h key t (congrArg World.file (Prod.mk.inj hdrawn).2).symm
    · exact h key s.2 rfl

/-- The calls of the file store in the midst of others. -/
theorem inStore_spec {p : Program Call Call.Reply α} {w : World} {h : AutoCalls} {Q : α → World → Prop}
    {h' : History Call Call.Reply}
    (hp : Program.wp (M.calls fun c _ => ∀ path, c ≠ .pathExists path) p Q w)
    (hquiet : Program.wp (.guarded fun _ c => c.writesFile = false) p (fun _ _ => True) h') :
    Program.wp (.after (Noted M)) (KeychainBackend.inStore p) (fun a t => Q a t.2 ∧ ∃ calls : AutoCalls,
      t.1 = calls ++ h ∧ ∀ x ∈ calls, ∃ (c : Call) (reply : c.Reply), x = ⟨.store c,reply⟩ ∧ c.writesFile = false)
      (h,w) := by
  induction p generalizing w h h' with
  | done a => exact ⟨hp,[],rfl,fun _ hx => absurd hx List.not_mem_nil⟩
  | request c next ih =>
    rintro r ⟨calls,t⟩ ⟨hcalls,hstep⟩
    simp only at hcalls hstep
    subst hcalls
    cases hstep with
    | store hstep =>
      refine Program.wp_mono ?_ (ih r (hp r t hstep) (hquiet.2 r))
      rintro a u ⟨ha,calls,hu,hall⟩
      refine ⟨ha,calls ++ [⟨.store c,r⟩],by rw [hu,List.append_assoc]; rfl,fun x hx => ?_⟩
      obtain hx | hx := List.mem_append.mp hx
      · exact hall x hx
      · exact ⟨c,r,List.mem_singleton.mp hx,hquiet.1⟩

theorem fileGet_quiet (h : History Call Call.Reply) :
    Ensures (.guarded fun _ c => c.writesFile = false) FileStore.get h fun _ _ => True := by
  have hact {a : Act} {text : String} {β : Type} {f : Unit → StoreM β} (ha : Call.writesFile (.act a) = false)
      (hf : ∀ h, Ensures (.guarded fun _ c => c.writesFile = false) (f ()) h fun _ _ => True)
      (h : History Call Call.Reply) :
      Ensures (.guarded fun _ c => c.writesFile = false) (withContext text (act a) >>= f) h fun _ _ => True :=
    Ensures.bind (P := fun _ _ => True) (ensures_withContext.mpr ⟨ha,fun _ => trivial⟩) (fun _ h _ => hf h)
      fun _ _ _ => trivial
  refine hact rfl (hact rfl fun h => ?_) h
  refine Ensures.bind (P := fun _ _ => True) (ensures_withContext.mpr ⟨rfl,fun _ => trivial⟩) (fun content h _ => ?_)
    fun _ _ _ => trivial
  refine hact rfl (fun h => ?_) h
  refine Program.ensures_check.mpr ⟨fun _ _ => hact rfl (fun h => ensures_liftResult.mpr trivial) h,fun _ _ => trivial⟩

/-- The file key, if there is a file, and no other call than of the file store. -/
theorem loadExisting_spec (home create : Bool) (w : World) :
    Ensures (.after (Noted M)) (KeychainBackend.loadExistingFileMasterKey home) ([],w) fun r t =>
      (Noting (.mac home) w create t ∧ ∀ x ∈ t.1, Tolerated x) ∧ ∀ found, r = .ok found →
        (found = none → (Platform.mac home).hasFile w = false) ∧
          ∀ key, found = some key → (Platform.mac home).fileKey w = some key := by
  have hget : Ensures (M.calls fun c _ => ∀ path, c ≠ .pathExists path) (MacAuto.loadExistingFileMasterKey home) w
      fun r t => t = w ∧ ∀ found, r = .ok found → (found = none → (Platform.mac home).hasFile w = false) ∧
        ∀ key, found = some key → (Platform.mac home).fileKey w = some key := by
    cases home with
    | false =>
      refine ⟨rfl,fun found hfound => ?_⟩
      obtain rfl := Except.ok.inj hfound
      exact ⟨fun _ => rfl,fun _ h => by cases h⟩
    | true =>
      refine ensures_bind.mpr (mayFail_pathExists.mpr ⟨?_,fun e he => absurd rfl (he _)⟩)
      refine ensures_ite.mpr ⟨fun hfile => ?_,fun hfile => ⟨rfl,fun found hfound => ?_⟩⟩
      · refine Ensures.bind reads_fileGet ?_ ?_
        · rintro key t ⟨rfl,hkey⟩
          refine ⟨rfl,fun found hfound => ?_⟩
          obtain rfl := Except.ok.inj hfound
          refine ⟨fun h => (by cases h),fun k hk => ?_⟩
          obtain rfl := Option.some.inj hk
          obtain hkey | ⟨e,_,he⟩ := hkey
          · exact (if_pos hfile).trans (fileRead_eq_ok.mp hkey.symm)
          · cases he
        · rintro e t ⟨rfl,-⟩
          exact ⟨rfl,fun _ h => (error_ne_ok h).elim⟩
      · obtain rfl := Except.ok.inj hfound
        exact ⟨fun _ => Bool.eq_false_of_not_eq_true hfile,fun _ h => by cases h⟩
  have hquiet : Ensures (.guarded fun _ c => c.writesFile = false) (MacAuto.loadExistingFileMasterKey home) []
      fun _ _ => True := by
    cases home with
    | false => trivial
    | true =>
      refine ⟨rfl,fun found => ?_⟩
      cases found with
      | false => trivial
      | true => exact Ensures.bind (fileGet_quiet _) (fun _ _ _ => trivial) fun _ _ _ => trivial
  refine Program.wp_mono ?_ (inStore_spec (h := []) hget hquiet)
  rintro r ⟨calls,t⟩ ⟨⟨rfl,hfound⟩,segment,hcalls,hall⟩
  obtain rfl : calls = segment := hcalls.trans (List.append_nil _)
  refine ⟨⟨⟨rfl,fun c reply hmem => ?_,fun key reply earlier hsuffix => ?_⟩,fun x hx => ?_⟩,hfound⟩
  · obtain ⟨c',reply',heq,hc⟩ := hall _ hmem
    obtain rfl := AutoCall.store.inj (congrArg Sigma.fst heq)
    exact hc
  · obtain ⟨c',reply',heq,-⟩ := hall _ (hsuffix.subset List.mem_cons_self)
    cases congrArg Sigma.fst heq
  · obtain ⟨c,reply,rfl,-⟩ := hall x hx
    trivial

end Calls

section Load

variable {M : Machine} {p : Platform} {w : World} {create : Bool} {s : AutoCalls × World}

theorem backendMigrate_spec {key : Key} (hkey : p.fileKey w = some key) (hs : Noting p w create s)
    (htolerated : ∀ x ∈ s.1, Tolerated x) : Ensures (.after (Noted M)) (KeychainBackend.migrateFileKeyToKeychain key) s
      fun r t => SafeLoad p w create t.1 r t.2 := by
  refine ensures_bind.mpr (ensures_attempt.mpr (backendRead_spec fun r => ?_))
  have hread := hs.read r
  cases r with
  | ok k =>
    refine ensures_ite.mpr ⟨fun heq => ensures_pure.mpr ?_,fun _ => hread.fails _⟩
    subst heq
    exact hread.returns (List.forall_mem_cons.mpr ⟨trivial,htolerated⟩) fun _ => ⟨hkey,.matching List.mem_cons_self⟩
  | error e =>
    refine ensures_ite.mpr ⟨fun hmissing => ?_,fun _ => ensures_ite.mpr ⟨fun hunavailable => ensures_pure.mpr ?_,
      fun _ => hread.fails _⟩⟩
    · have htolerated := List.forall_mem_cons.mpr ⟨(show Tolerated ⟨.read,.error e⟩ from not_denial (.inl hmissing)),htolerated⟩
      refine ensures_bind.mpr (ensures_attempt.mpr (backendAdd_spec fun r => ?_))
      have hadd := hread.add r (.inl hkey)
      cases r with
      | ok u =>
        refine ensures_pure.mpr (hadd.returns (List.forall_mem_cons.mpr ⟨trivial,htolerated⟩) fun _ => ⟨hkey,?_⟩)
        exact .added (List.mem_cons_of_mem _ List.mem_cons_self) hmissing List.mem_cons_self
      | error e' =>
        refine ensures_ite.mpr ⟨fun hduplicate => ?_,fun _ => ensures_ite.mpr ⟨fun hunavailable => ensures_pure.mpr ?_,
          fun _ => hadd.fails _⟩⟩
        · have htolerated := List.forall_mem_cons.mpr
            ⟨(show Tolerated ⟨.add key,.error e'⟩ from not_denial (.inr (.inl hduplicate))),htolerated⟩
          refine ensures_bind.mpr (backendRead_spec fun r => ?_)
          have hagain := hadd.read r
          cases r with
          | error e => exact hagain.fails e
          | ok k =>
            refine ensures_ite.mpr ⟨fun heq => ensures_pure.mpr ?_,fun _ => hagain.fails _⟩
            subst heq
            exact hagain.returns (List.forall_mem_cons.mpr ⟨trivial,htolerated⟩)
              fun _ => ⟨hkey,.matching List.mem_cons_self⟩
        · refine hadd.returns (List.forall_mem_cons.mpr ⟨not_denial (.inr (.inr hunavailable)),htolerated⟩)
            fun _ => ⟨hkey,?_⟩
          exact .notAdded (List.mem_cons_of_mem _ List.mem_cons_self) hmissing List.mem_cons_self hunavailable
    · exact hread.returns (List.forall_mem_cons.mpr ⟨not_denial (.inr (.inr hunavailable)),htolerated⟩)
        fun _ => ⟨hkey,.unavailable List.mem_cons_self hunavailable⟩

theorem backendGetOrCreate_spec (hcreate : create = true) (hfile : p.hasFile w = false) (hs : Noting p w create s)
    (htolerated : ∀ x ∈ s.1, Tolerated x) : Ensures (.after (Noted M)) KeychainBackend.getOrCreateKeychainKey s
      fun r t => SafeLoad p w create t.1 r t.2 := by
  have hnone {P : Prop} (h : p.hasFile w = true) : P := absurd h (by rw [hfile]; decide)
  refine ensures_bind.mpr (ensures_attempt.mpr (backendRead_spec fun r => ?_))
  have hread := hs.read r
  cases r with
  | ok k => exact ensures_pure.mpr (hread.returns (List.forall_mem_cons.mpr ⟨trivial,htolerated⟩) hnone)
  | error e =>
    refine ensures_ite.mpr ⟨fun hmissing => ?_,fun _ => hread.fails _⟩
    have htolerated := List.forall_mem_cons.mpr ⟨(show Tolerated ⟨.read,.error e⟩ from not_denial (.inl hmissing)),htolerated⟩
    refine ensures_bind.mpr (generateLocked_spec fun key t ht => ?_)
    have hdrawn := hread.store (c := .drawKey) key rfl (ht.trans hread.file)
    have htolerated := List.forall_mem_cons.mpr ⟨(show Tolerated ⟨.store .drawKey,key⟩ from trivial),htolerated⟩
    refine ensures_bind.mpr (ensures_attempt.mpr (backendAdd_spec fun r => ?_))
    have hadd := hdrawn.add r (.inr ⟨hcreate,hfile,e,_,hmissing,rfl⟩)
    cases r with
    | ok u => exact ensures_pure.mpr (hadd.returns (List.forall_mem_cons.mpr ⟨trivial,htolerated⟩) hnone)
    | error e' =>
      refine ensures_ite.mpr ⟨fun hduplicate => backendRead_spec fun r => ?_,fun _ => hadd.fails _⟩
      have hagain := hadd.read r
      cases r with
      | error e => exact hagain.fails e
      | ok k =>
        refine hagain.returns (List.forall_mem_cons.mpr ⟨trivial,List.forall_mem_cons.mpr ⟨?_,htolerated⟩⟩) hnone
        exact not_denial (.inr (.inl hduplicate))

theorem loadAutoMasterKeyWith_spec (home create : Bool) (w : World) :
    Ensures (.after (Noted M)) (KeychainBackend.loadAutoMasterKeyWith home create) ([],w)
      fun r t => SafeLoad (.mac home) w create t.1 r t.2 := by
  refine (loadExisting_spec home create w).bind ?_ fun e t ht => ht.1.1.fails e
  rintro found t ⟨⟨hs,htolerated⟩,hfound⟩
  obtain ⟨hnone,hsome⟩ := hfound found rfl
  cases found with
  | some key => exact backendMigrate_spec (hsome key rfl) hs htolerated
  | none =>
    have hfile := hnone rfl
    have hkey : Ensures (.after (Noted M)) (if create then KeychainBackend.getOrCreateKeychainKey else KeychainBackend.read)
        t fun r t => SafeLoad (.mac home) w create t.1 r t.2 := by
      refine ensures_ite.mpr ⟨fun hcreate => backendGetOrCreate_spec hcreate hfile hs htolerated,fun _ => backendRead_spec fun r => ?_⟩
      have hread := hs.read r
      cases r with
      | error e => exact hread.fails e
      | ok k =>
        apply hread.returns (List.forall_mem_cons.mpr ⟨trivial,htolerated⟩)
        intro h
        rw [hfile] at h
        cases h
    refine ensures_bind.mpr (ensures_attempt.mpr (hkey.mono fun r t ht => ?_))
    cases r with
    | ok key => exact ensures_pure.mpr ht
    | error e => exact ensures_ite.mpr ⟨fun _ => ht.noting.fails _,fun _ => ht.noting.fails _⟩

end Load

/-- A file that stays as it is gives the same promises. -/
theorem SafeLoad.congr {p : Platform} {w w' t : World} {create : Bool} {h : AutoCalls} {r : Result Key}
    (hload : SafeLoad p w create h r t) (hfile : w.file = w'.file) : SafeLoad p w' create h r t where
  file := hload.file.trans hfile
  unwritten := hload.unwritten
  fileKey := by
    rw [← Platform.hasFile_congr hfile,← Platform.fileKey_congr hfile]
    exact hload.fileKey
  minted := by
    rw [← Platform.hasFile_congr hfile,← Platform.fileKey_congr hfile]
    exact hload.minted
  denied := hload.denied

/-- Whatever Keychain replies, no sequence of loads replaces the key. -/
theorem loads_neverReplace (M : Machine) (home : Bool) (w : World) : NeverReplaces M home w := by
  intro loads u hloads
  induction hloads with
  | nil => exact ⟨rfl,fun _ h => absurd h List.not_mem_nil⟩
  | @load w create h r t loads u hexec _ ih =>
    have hload := (loadAutoMasterKeyWith_spec home create w).of_exec hexec
    refine ⟨ih.1.trans hload.file,List.forall_mem_cons.mpr ⟨⟨t,hload⟩,fun load hmem => ?_⟩⟩
    obtain ⟨t',hload'⟩ := ih.2 load hmem
    exact ⟨t',hload'.congr hload.file⟩

end Avault.Store
