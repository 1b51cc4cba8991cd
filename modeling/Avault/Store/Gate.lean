import Avault.Foundation.Net
import Avault.Foundation.Bytes
import Avault.Foundation.Program

/-! The record of the authorization gate on macOS: until when no prompt is shown. -/
namespace Avault.Store
open Foundation
open Foundation.Program (Fallible call mapResult)

def keychainAuthorizationCooldownSecs : ℕ := 120
def maxKeychainCooldownRecordBytes : ℕ := 32

def u64Max : ℕ := 2^64 - 1

/-- `u64::saturating_add`. -/
def saturatingAdd (a b : ℕ) : ℕ := min (a+b) u64Max

/-- `str::parse::<u64>`: digits after an optional plus sign. -/
def parseU64 (text : String) : Option ℕ :=
  let digits := if text.toList.head? = some '+' then text.toList.tail else text.toList
  let value := Nat.ofDigitChars 10 digits 0
  if digits ≠ [] ∧ digits.all Char.isDigit = true ∧ value ≤ u64Max then some value else none

/-- The calls on the open file of the gate, which has a cursor. -/
inductive GateFileOp
  | seekStart
  /-- `take(limit).read_to_end`. -/
  | readToEnd (limit : ℕ)
  | setLenZero
  | writeAll (bytes : Bytes)

def GateFileOp.Reply : GateFileOp → Type
  | seekStart | setLenZero | writeAll _ => Result Unit
  | readToEnd _ => Result Bytes

abbrev GateFileM (α : Type) := Fallible GateFileOp GateFileOp.Reply Error α

namespace GateFileM

def seekStart : GateFileM Unit := ExceptT.mk (call GateFileOp.seekStart)
def readToEnd (limit : ℕ) : GateFileM Bytes := ExceptT.mk (call (GateFileOp.readToEnd limit))
def setLenZero : GateFileM Unit := ExceptT.mk (call GateFileOp.setLenZero)
def writeAll (bytes : Bytes) : GateFileM Unit := ExceptT.mk (call (GateFileOp.writeAll bytes))

end GateFileM

def recordKeychainAuthorizationCooldown (ends : ℕ) : GateFileM Unit :=
  mapResult (context "failed to record Keychain authorization cooldown") do
    GateFileM.setLenZero
    GateFileM.seekStart
    GateFileM.writeAll (utf8 (toString ends))

/-- The end of the window that a record gives, if it can be read. -/
def recordedUntil (record : Bytes) : Option ℕ := do
  let text ← fromUtf8 record
  if record.length ≤ maxKeychainCooldownRecordBytes then parseU64 (trim text) else none

/-- `keychain_authorization_cooldown`, once the record is read. -/
def reportCooldown (record : Bytes) (now : ℕ) : GateFileM (Option ℕ) :=
  let window := do
    recordKeychainAuthorizationCooldown (saturatingAdd now keychainAuthorizationCooldownSecs)
    return some keychainAuthorizationCooldownSecs
  if record = [] then return none
  else match recordedUntil record with
    | some ends =>
      if ends ≤ now then do
        mapResult (context "failed to clear Keychain authorization cooldown") GateFileM.setLenZero
        return none
      else if ends - now ≤ keychainAuthorizationCooldownSecs then return some (ends - now)
      else window
    | none => window

def keychainAuthorizationCooldown (now : ℕ) : GateFileM (Option ℕ) := do
  let record ← mapResult (context "failed to read Keychain authorization cooldown") do
    GateFileM.seekStart
    GateFileM.readToEnd (maxKeychainCooldownRecordBytes + 1)
  reportCooldown record now

/-- The file behind the gate. -/
structure GateFile where
  content : Bytes
  cursor : ℕ

/-- Every call does what it says, without an I/O error. A write behind the end fills the gap. -/
def GateFile.perform : (op : GateFileOp) → GateFile → op.Reply × GateFile
  | .seekStart,file => (.ok (),{ file with cursor := 0 })
  | .readToEnd limit,file =>
    let bytes := (file.content.drop file.cursor).take limit
    (.ok bytes,{ file with cursor := file.cursor + bytes.length })
  | .setLenZero,file => (.ok (),{ file with content := [] })
  | .writeAll bytes,file =>
    let before := file.content.take file.cursor
    let gap := List.replicate (file.cursor - file.content.length) 0
    (.ok (),⟨before ++ gap ++ bytes ++ file.content.drop (file.cursor + bytes.length),file.cursor + bytes.length⟩)

end Avault.Store
