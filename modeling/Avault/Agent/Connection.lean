import Avault.Error
import Avault.Foundation.Bytes
import Avault.Foundation.Outcome

/-! One connection of the agent: frames are read, handled and answered in turn. A loop of the
source gets a number of turns, and ends in `exhausted` when it needs more. -/
namespace Avault.Agent.Connection
open Foundation
open Foundation.Program

def maxAgentFrameBytes : ℕ := 2*1024*1024
/-- In milliseconds, as all times here. -/
def agentPollInterval : ℕ := 200
def maxAgentReadTimeouts : ℕ := 30
def agentReadTimeout : ℕ := agentPollInterval*maxAgentReadTimeouts

/-- `std::io::Error`, by the kinds that the connection tells apart. -/
inductive SocketError
  | wouldBlock
  | timedOut
  | unexpectedEof
  | writeZero
  | other (error : Error)
  | exhausted
deriving DecidableEq

def SocketError.error : SocketError → Error
  | wouldBlock => [.message "operation would block"]
  | timedOut => [.message "timed out"]
  | unexpectedEof => [.message "unexpected end of file"]
  | writeZero => [.message "write zero"]
  | other error => error
  | exhausted => [.message "out of turns"]

/-- The responses, their encoding by `serde_json`, and the response to an error. -/
structure ResponseCodec (Response : Type) where
  toVec : Response → Result Bytes
  agentErrorResponse : Error → Response

inductive ConnectionOp (Response : Type)
  | setNonblocking
  | authorizePeer
  | now
  | sleep
  | read (length : ℕ)
  | write (bytes : Bytes)
  | handleAgentFrame (frame : Bytes)

def ConnectionOp.Reply {Response : Type} : ConnectionOp Response → Type
  | setNonblocking | authorizePeer => Result Unit
  | now => ℕ
  | sleep => Unit
  | read length => Except SocketError {bytes : Bytes // bytes.length ≤ length}
  | write bytes => Except SocketError {n : ℕ // n ≤ bytes.length}
  | handleAgentFrame _ => Response

abbrev ConnectionM (Response ε α : Type) :=
  Fallible (ConnectionOp Response) ConnectionOp.Reply ε α

section Loops

variable {Response : Type}

def instantNow : ConnectionM Response SocketError ℕ := ask ConnectionOp.now
def sleep : ConnectionM Response SocketError Unit := ask ConnectionOp.sleep
def read (length : ℕ) : ConnectionM Response SocketError {bytes : Bytes // bytes.length ≤ length} :=
  ExceptT.mk (call (ConnectionOp.read length))
def write (bytes : Bytes) : ConnectionM Response SocketError {n : ℕ // n ≤ bytes.length} :=
  ExceptT.mk (call (ConnectionOp.write bytes))
def setNonblocking : ConnectionM Response Error Unit := ExceptT.mk (call ConnectionOp.setNonblocking)
def authorizePeer : ConnectionM Response Error Unit := ExceptT.mk (call ConnectionOp.authorizePeer)
def handleAgentFrame (frame : Bytes) : ConnectionM Response Error Response := ask (ConnectionOp.handleAgentFrame frame)

/-- The loop of `read_exact_agent`: the room left in the buffer, and what has been read into it. -/
def readExactAgentLoop (readDeadline : ℕ) : ℕ → ℕ → Bytes → ConnectionM Response SocketError Bytes
  | 0,room,out => if room = 0 then return out else throw .exhausted
  | turns+1,room,out =>
    if room = 0 then return out
    else do
      match ← attempt (read room) with
      | .ok chunk =>
        if chunk.val = [] then throw .unexpectedEof
        else readExactAgentLoop readDeadline turns (room - chunk.val.length) (out ++ chunk.val)
      | .error err =>
        if err = .wouldBlock ∨ err = .timedOut then do
          let now ← instantNow
          if readDeadline ≤ now then throw .timedOut
          else do
            sleep
            readExactAgentLoop readDeadline turns room out
        else throw err

/-- A turn fills some of the buffer or waits, and no read waits more often than this. -/
def readExactAgent (length : ℕ) : ConnectionM Response SocketError Bytes := do
  let now ← instantNow
  readExactAgentLoop (now + agentReadTimeout) (length + maxAgentReadTimeouts + 1) length []

def writeAllAgentLoop (writeDeadline : ℕ) : ℕ → Bytes → ConnectionM Response SocketError Unit
  | 0,bytes => if bytes = [] then return () else throw .exhausted
  | turns+1,bytes =>
    if bytes = [] then return ()
    else do
      match ← attempt (write bytes) with
      | .ok n => if n.val = 0 then throw .writeZero else writeAllAgentLoop writeDeadline turns (bytes.drop n.val)
      | .error err =>
        if err = .wouldBlock ∨ err = .timedOut then do
          let now ← instantNow
          if writeDeadline ≤ now then throw .timedOut
          else do
            sleep
            writeAllAgentLoop writeDeadline turns bytes
        else throw err

def writeAllAgent (bytes : Bytes) : ConnectionM Response SocketError Unit := do
  let now ← instantNow
  writeAllAgentLoop (now + agentReadTimeout) (bytes.length + maxAgentReadTimeouts + 1) bytes

/-- The outcome of a call to the socket, to be matched on. -/
def outcomeOf {α : Type} (x : ConnectionM Response SocketError α) :
    ConnectionM Response Error (Except SocketError α) := ExceptT.lift x.run

/-- `Result::context` on an `io::Result`. -/
def socketContext {α : Type} (text : String) : Except SocketError α → Result α
  | .ok a => .ok a
  | .error e => .error (.message text::e.error)

def readAgentFrame : ConnectionM Response Error (Option Bytes) := do
  let lenBuf ← outcomeOf (readExactAgent 4)
  if lenBuf = .error .unexpectedEof then return none
  else do
    let lenBuf ← liftResult (socketContext "failed to read agent frame length" lenBuf)
    let len := readBigEndian lenBuf
    liftResult (bailIf (len = 0 ∨ maxAgentFrameBytes < len) "agent frame size is invalid")
    let frame ← outcomeOf (readExactAgent len)
    let frame ← liftResult (socketContext "failed to read agent frame" frame)
    return some frame

def writeAgentFrame (bytes : Bytes) : ConnectionM Response Error Unit := do
  liftResult (bailIf (2^32 ≤ bytes.length) "agent frame exceeds supported size")
  let written ← outcomeOf (writeAllAgent (bigEndian 4 bytes.length))
  liftResult (socketContext "failed to write agent frame length" written)
  let written ← outcomeOf (writeAllAgent bytes)
  liftResult (socketContext "failed to write agent frame" written)

variable (codec : ResponseCodec Response)

def writeAgentJsonFrame (value : Response) : ConnectionM Response Error Unit := do
  let bytes ← liftResult (context "failed to encode agent frame" (codec.toVec value))
  writeAgentFrame bytes

def writeAgentErrorFrame (err : Error) : ConnectionM Response Error Unit :=
  writeAgentJsonFrame codec (codec.agentErrorResponse err)

/-- The error frame is sent, whether or not that succeeds, and the error returned. -/
def failConnection (err : Error) : ConnectionM Response Error Unit := do
  let _ ← attempt (writeAgentErrorFrame codec err)
  throw err

def runAgentConnectionLoop : ℕ → ConnectionM Response Error Unit
  | 0 => throw SocketError.exhausted.error
  | turns+1 => do
    match ← attempt readAgentFrame with
    | .ok (some frame) =>
      let response ← handleAgentFrame frame
      writeAgentJsonFrame codec response
      runAgentConnectionLoop turns
    | .ok none => return ()
    | .error err => failConnection codec err

def runAgentConnection (turns : ℕ) : ConnectionM Response Error Unit := do
  mapResult (context "failed to configure agent connection") setNonblocking
  match ← attempt authorizePeer with
  | .ok _ => runAgentConnectionLoop codec turns
  | .error err => failConnection codec err

end Loops
end Avault.Agent.Connection
