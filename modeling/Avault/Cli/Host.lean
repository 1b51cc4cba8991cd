import Avault.Cli.Origin
import Avault.Crypto.RecordFamily
import Avault.Foundation.Outcome
import Avault.Store.AutoCell

/-! Processes of `avault` on one host, at the same time: the one-shot commands with any arguments, and the helper of
the agent, over the `auto` store. An operation on the store is not overlapped by another one, and no call of it fails
but where the TPM is not available. The agent itself is left at its start. -/
namespace Avault.Cli.Main
open Foundation Crypto
open Foundation.Program (Exec)
open Store (CellStep Machine MayFail Platform TpmMayBeUnavailable World)

/-- The machine of a host, and which of the `auto` stores it has. -/
structure Host where
  machine : Machine
  platform : Platform

namespace Host

variable (H : Host)

/-- The key that the stores of the host hold, if any, and no other one. -/
def Holds (s : World) (cell : Option Key) : Prop := H.platform.Holds H.machine s cell

/-- What an operation may do. -/
def Step (operation : Store.Operation) (s : World) (r : Result (Option Key)) (t : World) : Prop :=
  Exec (MayFail H.machine TpmMayBeUnavailable) (H.platform.program H.machine operation).run s r t

variable {H} {operation : Store.Operation} {s t : World} {r : Result (Option Key)} {cell : Option Key}

theorem Step.onCell (h : H.Step operation s r t) (hs : H.Holds s cell) : ∃ cell', CellStep cell operation r cell' ∧ H.Holds t cell' :=
  (Platform.operation_onCell hs).of_exec h

/-- A load where no call fails. -/
theorem exists_load {key : Key} (h : H.platform.loads H.machine s = .ok key) : ∃ t, H.Step .load s (.ok (some key)) t := by
  have hload := Store.exec_run (M := H.machine) (A := TpmMayBeUnavailable) (H.platform.load H.machine).run s
  rw [show (Program.run (Store.perform H.machine) (H.platform.load H.machine).run s).1 = .ok key from h] at hload
  exact ⟨_,Program.exec_bind.mpr ⟨_,_,hload,rfl,rfl⟩⟩

end Host

/-- The calls that are answered from outside: by the user, the network, the children, the file system. -/
def AvaultOp.Outside : AvaultOp → Prop
  | .cli (.openSealed _ _ _) | .authorizeMasterKey _ | .runAgent _ => False
  | op => op.access = none

section Step

variable {P : Type} (H : Host) (E : CliEnv)

/-- What a call does to the store of the host. -/
inductive HostStep : World → (op : AvaultOp) → op.Reply → World → Prop
  | access {op r s t operation} : op.access = some (.standard .auto,operation) → H.Step operation s (op.outcome r) t →
    HostStep s op r t
  /-- Where the user agrees, or is not asked, the key is loaded. -/
  | authorized {s t} {r : Result (Option Key)} : H.Step .load s r t →
    HostStep s (.authorizeMasterKey .auto) (r.map fun _ => ()) t
  | unauthorized {s} (e : Error) : HostStep s (.authorizeMasterKey .auto) (.error e) s
  | openSealed {s key name envelope} :
    HostStep s (.cli (.openSealed key name envelope)) (E.crypto.openSealed key name envelope) s
  | outside {op s} (r : op.Reply) : op.Outside → HostStep s op r s

abbrev HostEvent (P : Type) := Event P AvaultOp AvaultOp.Reply World
abbrev HostConfig (P : Type) := Config P AvaultOp AvaultOp.Reply UInt8 World

/-- The processes that were started with these arguments, and any calls of theirs. -/
def HostRun [DecidableEq P] (args : P → List OsString) (start : World) (events : List (HostEvent P)) (d : HostConfig P) : Prop :=
  Run (HostStep H E) (.start (fun i => main E (args i)) start) events d

/-- The event is this call with this reply. -/
def Is (ev : HostEvent P) (op : AvaultOp) (r : op.Reply) : Prop := (⟨op,r⟩ : (op : AvaultOp) × op.Reply) = ⟨ev.op,ev.reply⟩

/-- A forced import has put another key in the store. -/
def Replaces (ev : HostEvent P) : Prop := ∃ key, ev.op.access = some (.standard .auto,.importKey key true) ∧
  ev.op.outcome ev.reply = .ok none

/-- The process was answered with a key. -/
structure KeyLoad (events : List (HostEvent P)) (i : P) (ev : HostEvent P) (key : Key) : Prop where
  mem : ev ∈ events
  process : ev.process = i
  loads : Loads ev.op ev.reply (.standard .auto) key

/-- Whichever of the two came first, the store was not given another key until the other one. -/
def KeptBetween (events : List (HostEvent P)) (ev ev' : HostEvent P) : Prop := ∃ before between after,
  (events = before ++ ev::(between ++ ev'::after) ∨ events = before ++ ev'::(between ++ ev::after)) ∧
    ∀ e ∈ between, ¬ Replaces e

variable {H E} {s t : World} {op : AvaultOp} {r : op.Reply} {cell : Option Key} {unlock : StoreUnlock} {key key' : Key}

theorem cellStep_keeps {cell cell' : Option Key} {operation : Store.Operation} {r : Result (Option Key)}
    (h : CellStep cell operation r cell') (hcell : cell = some key) :
    cell' = some key ∨ ∃ key, operation = .importKey key true ∧ r = .ok none := by
  subst hcell
  cases h with
  | failed | loaded | found => exact .inl rfl
  | imported h =>
    obtain rfl | h := h
    · exact .inr ⟨_,rfl,rfl⟩
    · cases h

theorem AvaultOp.Outside.access_none (h : op.Outside) : op.access = none := by
  unfold AvaultOp.Outside at h
  split at h
  · exact h.elim
  · exact h.elim
  · exact h.elim
  · exact h

/-- A call of a process leaves a key where it is, or is a forced import. -/
theorem HostStep.keeps (h : HostStep H E s op r t) (hs : H.Holds s cell) : ∃ cell', H.Holds t cell' ∧
    ∀ key, cell = some key → cell' = some key ∨
      ∃ key, op.access = some (.standard .auto,.importKey key true) ∧ op.outcome r = .ok none := by
  cases h with
  | access haccess hstep =>
    obtain ⟨cell',hcell,ht⟩ := hstep.onCell hs
    refine ⟨cell',ht,fun key hkey => (cellStep_keeps hcell hkey).imp_right ?_⟩
    rintro ⟨key,rfl,hr⟩
    exact ⟨key,haccess,hr⟩
  | authorized hstep =>
    obtain ⟨cell',hcell,ht⟩ := hstep.onCell hs
    refine ⟨cell',ht,fun key hkey => .inl ((cellStep_keeps hcell hkey).resolve_right ?_)⟩
    rintro ⟨_,h,_⟩
    cases h
  | unauthorized | openSealed | outside => exact ⟨cell,hs,fun key hkey => .inl hkey⟩

/-- A key that is loaded is that of the `auto` store, before where there was one and behind. -/
theorem HostStep.loads (h : HostStep H E s op r t) (hloads : Loads op r unlock key) (hs : H.Holds s cell) :
    unlock = .standard .auto ∧ (∀ key', cell = some key' → key' = key) ∧ H.Holds t (some key) := by
  obtain ⟨hkind,houtcome⟩ := hloads
  have hstore {operation : Store.Operation} (hoperation : operation = .load ∨ operation = .loadOrCreate)
      (hstep : H.Step operation s (.ok (some key)) t) : (∀ key', cell = some key' → key' = key) ∧ H.Holds t (some key) := by
    obtain ⟨cell',hcell,ht⟩ := hstep.onCell hs
    cases hcell with
    | loaded | found => exact ⟨fun _ h => (Option.some.inj h).symm,ht⟩
    | created => exact ⟨nofun,ht⟩
  cases h with
  | access haccess hstep =>
    rw [houtcome] at hstep
    obtain hload | hload := hkind
    · obtain ⟨rfl,rfl⟩ := Prod.mk.inj (Option.some.inj (haccess.symm.trans hload))
      exact ⟨rfl,hstore (.inl rfl) hstep⟩
    · obtain ⟨rfl,rfl⟩ := Prod.mk.inj (Option.some.inj (haccess.symm.trans hload))
      exact ⟨rfl,hstore (.inr rfl) hstep⟩
  | authorized | unauthorized | openSealed =>
    obtain h | h := hkind <;> cases h
  | outside _ houtside =>
    rw [houtside.access_none] at hkind
    obtain h | h := hkind <;> cases h

/-- An import that was done has put its key in the store. -/
theorem HostStep.imports {force : Bool} (h : HostStep H E s op r t) (haccess : op.access = some (unlock,.importKey key force))
    (houtcome : op.outcome r = .ok none) (hs : H.Holds s cell) : H.Holds t (some key) := by
  cases h with
  | access haccess' hstep =>
    obtain ⟨rfl,rfl⟩ := Prod.mk.inj (Option.some.inj (haccess'.symm.trans haccess))
    rw [houtcome] at hstep
    obtain ⟨cell',hcell,ht⟩ := hstep.onCell hs
    cases hcell with
    | imported => exact ht
  | authorized | unauthorized | openSealed => cases haccess
  | outside _ houtside =>
    rw [houtside.access_none] at haccess
    cases haccess

end Step
end Avault.Cli.Main
