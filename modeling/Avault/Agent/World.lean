import Avault.Agent.HelperFrame
import Avault.Agent.MasterCache
import Avault.Agent.Request
import Avault.Crypto.ProtectedRecord
import Avault.Crypto.Signing
import Avault.Fetch.Execute
import Mathlib.Data.Int.Order.Basic

/-! What the threads of the resident agent share, and the calls they make on it and on the
outside. Every clock reading and every critical section is a call of its own. -/
namespace Avault.Agent
open Foundation Crypto Fetch
open Foundation.Program (Fallible ask)

/-- What the agent is given: the crate calls it rests on, the receiver key pair of its lifetime,
and where the standard master comes from. -/
structure AgentEnv where
  crypto : Primitives
  sha256 : Bytes → Key
  keypair : BlindBoxKeypair
  publicKeyB64 : String
  fingerprintHex : String
  urls : UrlCrate
  parseRequest : Bytes → Result AgentRequest
  source : AgentMasterSource
  /-- The wall clock less the monotonic one, in nanoseconds. -/
  wallOffset : ℤ

inductive AgentOp
  | instantNow
  | systemTimeNow
  | publishGrant (scope : GrantKey) (grant : GrantEntry) (nonces : List (Bytes × Instant))
  | release (scope : GrantKey)
  | getLiveGrant (scope : GrantKey)
  | recordActivity
  | purge
  | cache (op : CacheOp)
  | openSealed (masterKey : Key) (name : String) (envelope : Sealed)
  | openWithDek (dek : Key) (name : String) (envelope : Sealed)
  /-- `run_agent_child_with_opened_env`: the helper is spawned, sent its frame and waited for. -/
  | runChild (command : List String) (opened : List OpenedSecret)
  | send (request : HttpRequest)
  | writeSecretFile (path : String) (bytes : Bytes)
  | signDigest (scheme : SignatureScheme) (key digest : Key)

/-- Time on the wall clock, in nanoseconds since the Unix epoch. -/
abbrev SystemTime := ℤ

def AgentOp.Reply : AgentOp → Type
  | instantNow => Instant
  | systemTimeNow => SystemTime
  | publishGrant _ _ _ => Result Unit
  | release _ => Bool
  | getLiveGrant _ => Result GrantEntry
  | recordActivity | purge => Unit
  | cache op => op.Reply
  | openSealed _ _ _ | openWithDek _ _ _ => Result Bytes
  | runChild _ _ => Result UInt8
  | send _ => Result HttpResponse
  | writeSecretFile _ _ => Result Unit
  | signDigest _ _ _ => Result SignatureResult

structure AgentWorld where
  now : Instant
  state : AgentState
  cell : MasterCell

abbrev AgentM (α : Type) := Fallible AgentOp AgentOp.Reply Error α

def instantNow : AgentM Instant := ask AgentOp.instantNow
def systemTimeNow : AgentM SystemTime := ask AgentOp.systemTimeNow
def publishGrant (scope : GrantKey) (grant : GrantEntry) (nonces : List (Bytes × Instant)) : AgentM Unit :=
  ExceptT.mk (Program.call (AgentOp.publishGrant scope grant nonces))
def releaseGrant (scope : GrantKey) : AgentM Bool := ask (AgentOp.release scope)
def getLiveGrant (scope : GrantKey) : AgentM GrantEntry :=
  ExceptT.mk (Program.call (AgentOp.getLiveGrant scope))
def recordActivity : AgentM Unit := ask AgentOp.recordActivity
def purgeState : AgentM Unit := ask AgentOp.purge
def openSealed (masterKey : Key) (name : String) (envelope : Sealed) : AgentM Bytes :=
  ExceptT.mk (Program.call (AgentOp.openSealed masterKey name envelope))
def openWithDek (dek : Key) (name : String) (envelope : Sealed) : AgentM Bytes :=
  ExceptT.mk (Program.call (AgentOp.openWithDek dek name envelope))
def runChild (command : List String) (opened : List OpenedSecret) : AgentM UInt8 :=
  ExceptT.mk (Program.call (AgentOp.runChild command opened))
def sendRequest (request : HttpRequest) : AgentM HttpResponse :=
  ExceptT.mk (Program.call (AgentOp.send request))
def writeSecretFile (path : String) (bytes : Bytes) : AgentM Unit :=
  ExceptT.mk (Program.call (AgentOp.writeSecretFile path bytes))
def signDigest (scheme : SignatureScheme) (key digest : Key) : AgentM SignatureResult :=
  ExceptT.mk (Program.call (AgentOp.signDigest scheme key digest))

/-- A program of the master cache, run in the agent. -/
def onCache {α : Type} : Program CacheOp CacheOp.Reply α → Program AgentOp AgentOp.Reply α
  | .done a => .done a
  | .request op next => .request (.cache op) fun r => onCache (next r)

def liftCache {α : Type} (x : CacheM α) : AgentM α := ExceptT.mk (onCache x.run)

/-- The readings of a call are not before the last ones, and time passes during those that leave
the agent. -/
inductive AgentStep (E : AgentEnv) : AgentWorld → (op : AgentOp) → op.Reply → AgentWorld → Prop
  | instantNow {w} {n : Instant} : w.now ≤ n → AgentStep E w .instantNow n { w with now := n }
  | systemTimeNow {w} {n : Instant} : w.now ≤ n →
    AgentStep E w .systemTimeNow ((n : ℤ)+E.wallOffset) { w with now := n }
  | publishGrant {w scope grant nonces n₁ n₂} : w.now ≤ n₁ → n₁ ≤ n₂ →
    AgentStep E w (.publishGrant scope grant nonces) (w.state.publishGrant scope grant nonces n₁ n₂).1
      { w with now := n₂, state := (w.state.publishGrant scope grant nonces n₁ n₂).2 }
  | release {w scope n₁ n₂ n₃} : w.now ≤ n₁ → n₁ ≤ n₂ → n₂ ≤ n₃ →
    AgentStep E w (.release scope) (w.state.release scope n₁ n₂ n₃).1
      { w with now := n₃, state := (w.state.release scope n₁ n₂ n₃).2 }
  | getLiveGrant {w scope n} : w.now ≤ n →
    AgentStep E w (.getLiveGrant scope) (w.state.getLiveGrant scope n) { w with now := n }
  | recordActivity {w n₁ n₂} : w.now ≤ n₁ → n₁ ≤ n₂ →
    AgentStep E w .recordActivity () { w with now := n₂, state := w.state.recordActivity n₁ n₂ }
  | purge {w n} : w.now ≤ n → AgentStep E w .purge () { w with now := n, state := w.state.purge n }
  | cache {w op r n cell} : CacheStep w.state.idleTimeout (w.now,w.cell) op r (n,cell) →
    AgentStep E w (.cache op) r { w with now := n, cell := cell }
  | openSealed {w masterKey name envelope} :
    AgentStep E w (.openSealed masterKey name envelope) (E.crypto.openSealed masterKey name envelope) w
  | openWithDek {w dek name envelope} :
    AgentStep E w (.openWithDek dek name envelope) (E.crypto.openWithDek dek name envelope) w
  | runChild {w command opened n} {r : Result UInt8} : w.now ≤ n →
    AgentStep E w (.runChild command opened) r { w with now := n }
  | send {w request n} {r : Result HttpResponse} : w.now ≤ n →
    AgentStep E w (.send request) r { w with now := n }
  | writeSecretFile {w path bytes n} {r : Result Unit} : w.now ≤ n →
    AgentStep E w (.writeSecretFile path bytes) r { w with now := n }
  | signDigest {w scheme key digest n} {r : Result SignatureResult} : w.now ≤ n →
    AgentStep E w (.signDigest scheme key digest) r { w with now := n }

end Avault.Agent
