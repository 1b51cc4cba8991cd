import Avault.Foundation.Roles
import Avault.Store.Cooldown
import Avault.Store.MacAuto

/-! `authorize_with_gate`: the prompts of all processes of a user, behind one lock file. -/
namespace Avault.Authorize
open Foundation
open Foundation.Program (Fallible ask attempt)
open Store

inductive FlockReply
  | locked
  | interrupted
  | wouldBlock
  | failed (e : Error)

/-- The calls of a process, each with the process that makes it. -/
inductive GateOp (P : Type)
  /-- `open_keychain_authorization_gate`. -/
  | openGate (me : P)
  | flock (me : P)
  | onWait (me : P)
  /-- `Instant::now`. -/
  | instant (me : P)
  | sleep (me : P)
  | clock (me : P)
  | file (me : P) (op : GateFileOp)
  | interactive (me : P)
  | coalesced (me : P)
  /-- The gate is dropped. -/
  | close (me : P)
  /-- A loop goes on for more rounds than are looked at; there is no reply. -/
  | looping (me : P)
  /-- The process is killed, at any time, not by a call of its own. -/
  | crash (me : P)

def GateOp.Reply {P : Type} (T : Type) : GateOp P → Type
  | openGate _ => Result Unit
  | flock _ => FlockReply
  | onWait _ | sleep _ | close _ | crash _ => Unit
  | instant _ => ℕ
  | clock _ => Result ℕ
  | file _ op => op.Reply
  | interactive _ | coalesced _ => Result T
  | looping _ => Empty

abbrev GateM (P T α : Type) := Fallible (GateOp P) (GateOp.Reply T) Error α

/-- `KeychainAuthorizationBusy`, by its text. -/
def keychainAuthorizationBusy : Error :=
  [.message ("another `avault key authorize` is still waiting for the user; " ++ "answer that Keychain prompt first")]

/-- `KeychainAuthorizationCooldown`. -/
def keychainAuthorizationCooldownError (remaining : ℕ) : Error :=
  [.message ("macOS Keychain authorization was recently denied or cancelled; " ++
    "retry `avault key authorize` in " ++ toString remaining ++ "s")]

/-- An error with all its causes in one line, as `{:#}` prints it. -/
def alternate (err : Error) : String := ": ".intercalate (err.map Cause.text)

section Program

variable {P T α : Type}

def looping (me : P) : GateM P T α := ExceptT.mk (.request (.looping me) fun r : Empty => r.elim)

def inGateProgram (me : P) : Program GateFileOp GateFileOp.Reply α → Program (GateOp P) (GateOp.Reply T) α
  | .done a => .done a
  | .request op next => .request (.file me op) fun r => inGateProgram me (next r)

/-- What a process does with its open file of the gate. -/
def inGate (me : P) (x : GateFileM α) : GateM P T α := ExceptT.mk (inGateProgram me x.run)

def clock (me : P) : GateM P T ℕ := ExceptT.mk (Program.call (GateOp.clock me))
def instant (me : P) : GateM P T ℕ := ask (GateOp.instant me)
def interactive (me : P) : GateM P T T := ExceptT.mk (Program.call (GateOp.interactive me))
def coalesced (me : P) : GateM P T T := ExceptT.mk (Program.call (GateOp.coalesced me))

def tryLockKeychainAuthorizationGate (me : P) : ℕ → GateM P T Bool
  | 0 => looping me
  | rounds+1 => do
    match ← ask (GateOp.flock me) with
    | .locked => return true
    | .interrupted => tryLockKeychainAuthorizationGate me rounds
    | .wouldBlock => return false
    | .failed err => Program.liftResult (context "failed to lock Keychain authorization gate" (.error err))

/-- The loop of a caller that waits for the gate. -/
def waitForGate (me : P) (deadline : ℕ) : ℕ → GateM P T Unit
  | 0 => looping me
  | rounds+1 => do
    let locked ← tryLockKeychainAuthorizationGate me rounds
    if locked then return ()
    else do
      let now ← instant me
      if deadline ≤ now then Program.liftResult (.error keychainAuthorizationBusy)
      else do
        let _ ← ask (GateOp.sleep me)
        waitForGate me deadline rounds

/-- A denial starts a new window, from when the user answers. -/
def startCooldown (me : P) : GateM P T Unit := do
  let deniedAt ← clock me
  inGate me (recordKeychainAuthorizationCooldown (saturatingAdd deniedAt keychainAuthorizationCooldownSecs))

def recordDenial (me : P) (err : Error) : GateM P T T := do
  match ← attempt (startCooldown me) with
  | .ok _ => Program.liftResult (.error err)
  | .error recordErr =>
    let text := "failed to record Keychain authorization cooldown: " ++ alternate recordErr
    Program.liftResult (context text (.error err))

/-- What a caller does that has the gate. -/
def authorizeInGate (me : P) (waited : Bool) : GateM P T T := do
  let now ← clock me
  match ← inGate me (keychainAuthorizationCooldown now) with
  | some remaining => Program.liftResult (.error (keychainAuthorizationCooldownError remaining))
  | none =>
    if waited then coalesced me
    else
      match ← attempt (interactive me) with
      | .ok value => do
        let _ ← attempt (inGate me GateFileM.setLenZero)
        return value
      | .error err =>
        if isKeychainDenial err then recordDenial me err
        else Program.liftResult (.error err)

/-- The loops of a caller are looked at for a number of rounds. -/
def authorizeOpened (me : P) (wait rounds : ℕ) : GateM P T T := do
  let locked ← tryLockKeychainAuthorizationGate me rounds
  if locked then authorizeInGate me false
  else do
    let _ ← ask (GateOp.onWait me)
    let start ← instant me
    waitForGate me (start + wait) rounds
    authorizeInGate me true

def authorizeWithGate (me : P) (wait rounds : ℕ) : GateM P T T := do
  let _ ← (ExceptT.mk (Program.call (GateOp.openGate me)) : GateM P T Unit)
  let result ← attempt (authorizeOpened me wait rounds)
  let _ ← ask (GateOp.close me)
  Program.liftResult result

end Program

/-! The world of all callers. -/

structure GateWorld (P : Type) where
  content : Bytes
  cursor : P → ℕ
  holder : Option P
  dead : P → Bool
  /-- The latest reading of the clock. -/
  clock : ℕ

/-- The calls on an open file. One that fails has done nothing, or has written a part. -/
inductive GateFileStep : GateFile → (op : GateFileOp) → op.Reply → GateFile → Prop
  | performed {file op} : GateFileStep file op (file.perform op).1 (file.perform op).2
  | seekFailed {file} (e : Error) (cursor : ℕ) : GateFileStep file .seekStart (.error e) ⟨file.content,cursor⟩
  | readFailed {file limit} (e : Error) (cursor : ℕ) : GateFileStep file (.readToEnd limit) (.error e) ⟨file.content,cursor⟩
  | setLenFailed {file} (e : Error) : GateFileStep file .setLenZero (.error e) file
  | writeFailed {file bytes written} (e : Error) : written <+: bytes →
    GateFileStep file (.writeAll bytes) (.error e) (file.perform (.writeAll written)).2

section World

variable {P : Type} (T : Type) [DecidableEq P]

/-- What the calls do. The lock is free after its holder closes it or is killed, readings of the clock do not
go back, and a killed process makes no more calls. -/
inductive GateStep : GateWorld P → (op : GateOp P) → op.Reply T → GateWorld P → Prop
  | openGate {s me} (r : Result Unit) : s.dead me = false →
    GateStep s (.openGate me) r { s with cursor := Function.update s.cursor me 0 }
  | locked {s me} : s.dead me = false → s.holder = none → GateStep s (.flock me) .locked { s with holder := some me }
  | interrupted {s me} : s.dead me = false → GateStep s (.flock me) .interrupted s
  | wouldBlock {s me} : s.dead me = false → GateStep s (.flock me) .wouldBlock s
  | failed {s me} (e : Error) : s.dead me = false → GateStep s (.flock me) (.failed e) s
  | onWait {s me} : s.dead me = false → GateStep s (.onWait me) () s
  | instant {s me} (now : ℕ) : s.dead me = false → GateStep s (.instant me) now s
  | sleep {s me} : s.dead me = false → GateStep s (.sleep me) () s
  | clock {s me now} : s.dead me = false → s.clock ≤ now → now ≤ u64Max →
    GateStep s (.clock me) (.ok now) { s with clock := now }
  | clockFailed {s me} (e : Error) : s.dead me = false → GateStep s (.clock me) (.error e) s
  | file {s me op r file} : s.dead me = false → GateFileStep ⟨s.content,s.cursor me⟩ op r file →
    GateStep s (.file me op) r { s with content := file.content, cursor := Function.update s.cursor me file.cursor }
  | interactive {s me} (r : Result T) : s.dead me = false → GateStep s (.interactive me) r s
  | coalesced {s me} (r : Result T) : s.dead me = false → GateStep s (.coalesced me) r s
  | close {s me} : s.dead me = false →
    GateStep s (.close me) () { s with holder := if s.holder = some me then none else s.holder }
  | crash {s me} : GateStep s (.crash me) ()
    { s with dead := Function.update s.dead me true, holder := if s.holder = some me then none else s.holder }

end World

section Run

variable {P T : Type}

/-- Every caller, and for each one what may kill it. -/
inductive Participant (P : Type)
  | caller (me : P)
  | killer (me : P)
deriving DecidableEq

/-- Each caller has its own bounds for the wait and for the rounds of its loops. -/
def Participant.program (wait rounds : P → ℕ) : Participant P → Program (GateOp P) (GateOp.Reply T) (Result T)
  | caller me => (authorizeWithGate me (wait me) (rounds me)).run
  | killer me => .request (.crash me) fun _ => .done (.error [])

abbrev GateCalls (P T : Type) := History (GateOp P) (GateOp.Reply (P := P) T)
abbrev GateConfig (P T : Type) := Config (Participant P) (GateOp P) (GateOp.Reply T) (Result T) (GateWorld P)
abbrev GateEvent (P T : Type) := Foundation.Event (Participant P) (GateOp P) (GateOp.Reply T) (GateWorld P)

/-- All callers at their start, at a gate with any record that nobody holds. -/
def arriving (wait rounds : P → ℕ) (content : Bytes) (clock : ℕ) : GateConfig P T :=
  .start (Participant.program wait rounds) ⟨content,fun _ => 0,none,fun _ => false,clock⟩

/-- The prompt of the caller is open. -/
def Inside (d : GateConfig P T) (me : P) : Prop :=
  d.state.dead me = false ∧ (d.process (.caller me)).Awaits (.interactive me)

/-- The latest reading of the clock that the caller had. -/
def lastReading (h : GateCalls P T) : Option ℕ :=
  h.findSome? fun | ⟨.clock _,.ok now⟩ => some now | _ => none

/-- The event ends the record of a denial, with this reading of the clock. -/
inductive Records : GateEvent P T → ℕ → Prop
  | denial {me bytes e reading rest before after} : isKeychainDenial e = true → Records
    ⟨.caller me,⟨.file me .seekStart,(.ok () : Result Unit)⟩::⟨.file me .setLenZero,(.ok () : Result Unit)⟩::
      ⟨.clock me,(.ok reading : Result ℕ)⟩::⟨.interactive me,(.error e : Result T)⟩::rest,
      .file me (.writeAll bytes),(.ok () : Result Unit),before,after⟩ reading

end Run

end Avault.Authorize
