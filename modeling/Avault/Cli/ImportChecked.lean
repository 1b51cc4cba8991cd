import Avault.Cli.ImportJson
import Avault.Foundation.Checked

/-! The scanner of a key import with its machine words: every index into the input, every sum and every
turn of a loop may end in a fault. -/
namespace Avault.Cli.ImportChecked
open Foundation Foundation.Checked
open ImportJson (getRange isAsciiDigit isJsonWs isScalarByte charFromU32 shortEscape maxStdinSecretBytes)

abbrev Scan (α : Type) := Checked Error α

/-- A target, by the width of its pointers. -/
structure Target where
  bits : ℕ
  wide : 16 ≤ bits

namespace Target

/-- How many values a `usize` has. -/
def usize (T : Target) : ℕ := 2^T.bits

/-- The longest slice there may be. -/
def isizeMax (T : Target) : ℕ := 2^(T.bits - 1) - 1

end Target

structure Slice (T : Target) where
  bytes : Bytes
  fits : bytes.length ≤ T.isizeMax

variable (T : Target)

/-- `while matches!(input.get(index), Some(..)) { index += 1; }`. -/
def advance (p : UInt8 → Bool) (input : Bytes) : ℕ → ℕ → Scan ℕ
  | 0,_ => fault .turns
  | turns+1,index => if input[index]?.any p then do advance p input turns (← add T.usize index 1) else return index

/-- As many turns as a loop is ever given. -/
def turnsFor (input : Bytes) : ℕ := input.length + 1

def skipJsonWs (input : Bytes) (index : ℕ) : Scan ℕ := advance T isJsonWs input (turnsFor input) index

def jsonScalarEnd (input : Bytes) (index : ℕ) : Scan ℕ := advance T isScalarByte input (turnsFor input) index

def hexValue (byte : UInt8) : Scan ℕ :=
  if isAsciiDigit byte then sub byte.toNat (ascii '0').toNat
  else if ascii 'a' ≤ byte ∧ byte ≤ ascii 'f' then do add (2^8) (← sub byte.toNat (ascii 'a').toNat) 10
  else if ascii 'A' ≤ byte ∧ byte ≤ ascii 'F' then do add (2^8) (← sub byte.toNat (ascii 'A').toNat) 10
  else lift (bail "invalid JSON unicode escape")

def hexDigits (value : ℕ) (bytes : Bytes) : Scan ℕ :=
  bytes.foldlM (fun value byte => do return shiftLeft (2^16) value 4 ||| (← hexValue byte)) value

def decodeHexQuad (input : Bytes) (start : ℕ) : Scan ℕ := do
  let _ ← add T.usize start 4
  let bytes ← lift (orError "short JSON unicode escape" (getRange input start 4))
  hexDigits 0 bytes

def decodeJsonUnicodeEscape (input : Bytes) (start : ℕ) : Scan (Char × ℕ) := do
  let first ← decodeHexQuad T input start
  if 0xd800 ≤ first ∧ first ≤ 0xdbff then do
    let backslash ← add T.usize start 4
    lift (bailIf (input[backslash]? ≠ some (ascii '\\')) "invalid JSON surrogate pair")
    let letter ← add T.usize start 5
    lift (bailIf (input[letter]? ≠ some (ascii 'u')) "invalid JSON surrogate pair")
    let second ← decodeHexQuad T input (← add T.usize start 6)
    lift (bailIf (¬ (0xdc00 ≤ second ∧ second ≤ 0xdfff)) "invalid JSON surrogate pair")
    let high ← sub first 0xd800
    let upper ← add (2^32) 0x10000 (shiftLeft (2^32) high 10)
    let low ← sub second 0xdc00
    let codepoint ← add (2^32) upper low
    let scalar ← lift (orError "invalid JSON unicode escape" (charFromU32 codepoint))
    return (scalar,10)
  else if 0xdc00 ≤ first ∧ first ≤ 0xdfff then lift (bail "invalid JSON surrogate pair")
  else do
    let scalar ← lift (orError "invalid JSON unicode escape" (charFromU32 first))
    return (scalar,4)

/-- What an escape stands for, and the index behind all of it but one byte. -/
def decodeJsonEscape (input : Bytes) (index : ℕ) : Scan (Bytes × ℕ) := do
  let escaped ← lift (orError "unterminated JSON escape" input[index]?)
  match shortEscape escaped with
  | some byte => return ([byte],index)
  | none =>
    if escaped = ascii 'u' then do
      let (scalar,consumed) ← decodeJsonUnicodeEscape T input (← add T.usize index 1)
      return (String.utf8EncodeChar scalar,← add T.usize index consumed)
    else lift (bail "invalid JSON escape")

/-- What is pushed for a byte that does not end the string, and the index of its last byte. -/
def decodeJsonByte (input : Bytes) (index : ℕ) (byte : UInt8) : Scan (Bytes × ℕ) := do
  if byte = ascii '\\' then do decodeJsonEscape T input (← add T.usize index 1)
  else if byte < 0x20 then lift (bail "invalid control byte in JSON string")
  else return ([byte],index)

def decodeJsonStringLoop (input : Bytes) : ℕ → ℕ → Bytes → Scan Bytes
  | 0,_,_ => fault .turns
  | turns+1,index,out =>
    if index < input.length then do
      let byte ← elem input index
      if byte = ascii '"' then return out
      else do
        let (pushed,last) ← decodeJsonByte T input index byte
        lift (bailIf (maxStdinSecretBytes < (out ++ pushed).length) "stdin secret input exceeds the supported size limit")
        decodeJsonStringLoop input turns (← add T.usize last 1) (out ++ pushed)
    else lift (bail "unterminated JSON string")

def decodeJsonStringBytes (input : Bytes) : Scan Bytes := do
  lift (bailIf (input.head? ≠ some (ascii '"')) "JSON string expected")
  decodeJsonStringLoop T input (turnsFor input) 1 []

def jsonStringEndLoop (input : Bytes) : ℕ → ℕ → Scan ℕ
  | 0,_ => fault .turns
  | turns+1,index =>
    if index < input.length then do
      let byte ← elem input index
      if byte = ascii '"' then add T.usize index 1
      else if byte = ascii '\\' then do
        let index ← add T.usize index 1
        lift (bailIf (input[index]? = none) "unterminated JSON escape")
        jsonStringEndLoop input turns (← add T.usize index 1)
      else if byte < 0x20 then lift (bail "invalid control byte in JSON string")
      else do jsonStringEndLoop input turns (← add T.usize index 1)
    else lift (bail "unterminated JSON string")

def jsonStringEnd (input : Bytes) : Scan ℕ := do
  lift (bailIf (input.head? ≠ some (ascii '"')) "JSON string expected")
  jsonStringEndLoop T input (turnsFor input) 1

def jsonCompoundEndLoop (input : Bytes) : ℕ → ℕ → List UInt8 → Scan ℕ
  | 0,_,_ => fault .turns
  | turns+1,index,stack =>
    if index < input.length then do
      let byte ← elem input index
      if byte = ascii '"' then do
        let stringEnd ← jsonStringEnd T (← suffix input index)
        jsonCompoundEndLoop input turns (← add T.usize index stringEnd) stack
      else if byte = ascii '\x7b' ∨ byte = ascii '[' then do
        jsonCompoundEndLoop input turns (← add T.usize index 1) (byte::stack)
      else if byte = ascii '\x7d' then do
        lift (bailIf (stack.head? ≠ some (ascii '\x7b')) "invalid JSON object")
        let index ← add T.usize index 1
        if stack.tail = [] then return index else jsonCompoundEndLoop input turns index stack.tail
      else if byte = ascii ']' then do
        lift (bailIf (stack.head? ≠ some (ascii '[')) "invalid JSON array")
        let index ← add T.usize index 1
        if stack.tail = [] then return index else jsonCompoundEndLoop input turns index stack.tail
      else do jsonCompoundEndLoop input turns (← add T.usize index 1) stack
    else lift (bail "unterminated JSON value")

def jsonCompoundEnd (input : Bytes) (start : ℕ) : Scan ℕ := do
  let bracket ← elem input start
  jsonCompoundEndLoop T input (turnsFor input) (← add T.usize start 1) [bracket]

/-- An arm of the match with the guard that the word stands there. -/
def wordEnd (input : Bytes) (start : ℕ) (word : String) : Scan ℕ := do
  let stop ← add T.usize start (utf8 word).length
  lift (bailIf (getRange input start (utf8 word).length ≠ some (utf8 word)) "invalid JSON value")
  return stop

def jsonValueEnd (input : Bytes) (start : ℕ) : Scan ℕ := do
  let byte ← lift (orError "missing JSON value" input[start]?)
  if byte = ascii '"' then do add T.usize start (← jsonStringEnd T (← suffix input start))
  else if byte = ascii '\x7b' ∨ byte = ascii '[' then jsonCompoundEnd T input start
  else if byte = ascii '-' ∨ isAsciiDigit byte then jsonScalarEnd T input start
  else if byte = ascii 't' then wordEnd T input start "true"
  else if byte = ascii 'f' then wordEnd T input start "false"
  else if byte = ascii 'n' then wordEnd T input start "null"
  else lift (bail "invalid JSON value")

def findJsonFieldLoop (input field : Bytes) : ℕ → ℕ → Scan ℕ
  | 0,_ => fault .turns
  | turns+1,index => do
    let keyStart ← skipJsonWs T input index
    lift (bailIf (input[keyStart]? = some (ascii '\x7d')) "key import JSON missing required field")
    lift (bailIf (input[keyStart]? ≠ some (ascii '"')) "key import JSON object key expected")
    let key ← decodeJsonStringBytes T (← suffix input keyStart)
    let stringEnd ← jsonStringEnd T (← suffix input keyStart)
    let afterKey ← add T.usize stringEnd keyStart
    let colon ← skipJsonWs T input afterKey
    lift (bailIf (input[colon]? ≠ some (ascii ':')) "key import JSON is invalid")
    let value ← skipJsonWs T input (← add T.usize colon 1)
    if key = field then return value
    else do
      let index ← skipJsonWs T input (← jsonValueEnd T input value)
      if input[index]? = some (ascii ',') then do findJsonFieldLoop input field turns (← add T.usize index 1)
      else if input[index]? = some (ascii '\x7d') then lift (bail "key import JSON missing required field")
      else lift (bail "key import JSON is invalid")

def findJsonFieldValue (input field : Bytes) : Scan ℕ := do
  let index ← skipJsonWs T input 0
  lift (bailIf (input[index]? ≠ some (ascii '\x7b')) "key import JSON must be an object")
  findJsonFieldLoop T input field (turnsFor input) (← add T.usize index 1)

def importBlobFromJson {Blob : Type} (fromSlice : Bytes → Result Blob) (input : Bytes) : Scan Blob := do
  let valueStart ← findJsonFieldValue T input (utf8 "blob")
  let valueEnd ← jsonValueEnd T input valueStart
  let value ← range input valueStart valueEnd
  lift (context "key import blob is invalid" (fromSlice value))

def importPassphraseFromJson (input : Bytes) : Scan Bytes := do
  let passphraseStart ← findJsonFieldValue T input (utf8 "passphrase")
  lift (bailIf (input[passphraseStart]? ≠ some (ascii '"')) "key import passphrase must be a string")
  decodeJsonStringBytes T (← suffix input passphraseStart)

/-- A string that is cut off in the low half of a surrogate pair. -/
example : (decodeJsonStringBytes ⟨64,by decide⟩ (utf8 "\"\\ud83d\\ude")).run =
    .ok (.error [.message "short JSON unicode escape"]) := by decide +kernel

end Avault.Cli.ImportChecked
