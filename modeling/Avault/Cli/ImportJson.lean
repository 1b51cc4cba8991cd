import Avault.Error
import Avault.Foundation.Scan

/-! The scanner that finds the fields of a key import without a value of the whole text. -/
namespace Avault.Cli.ImportJson
open Foundation

def maxStdinSecretBytes : ℕ := 1024*1024

def isJsonWs (byte : UInt8) : Bool := byte = ascii ' ' ∨ byte = ascii '\n' ∨ byte = ascii '\r' ∨ byte = ascii '\t'

def isAsciiDigit (byte : UInt8) : Bool := ascii '0' ≤ byte ∧ byte ≤ ascii '9'

/-- `<[u8]>::get` of a range. -/
def getRange (input : Bytes) (start length : ℕ) : Option Bytes :=
  if start + length ≤ input.length then some ((input.drop start).take length) else none

def skipJsonWs (input : Bytes) (index : ℕ) : ℕ :=
  if h : index < input.length then
    if isJsonWs input[index] then skipJsonWs input (index + 1) else index
  else index
termination_by input.length - index

def isScalarByte (byte : UInt8) : Bool :=
  byte = ascii '-' ∨ byte = ascii '+' ∨ byte = ascii '.' ∨ isAsciiDigit byte ∨
    (ascii 'a' ≤ byte ∧ byte ≤ ascii 'z') ∨ (ascii 'A' ≤ byte ∧ byte ≤ ascii 'Z')

def jsonScalarEnd (input : Bytes) (index : ℕ) : ℕ :=
  if h : index < input.length then
    if isScalarByte input[index] then jsonScalarEnd input (index + 1) else index
  else index
termination_by input.length - index

def hexValue (byte : UInt8) : Result ℕ :=
  if isAsciiDigit byte then .ok (byte.toNat - (ascii '0').toNat)
  else if ascii 'a' ≤ byte ∧ byte ≤ ascii 'f' then .ok (byte.toNat - (ascii 'a').toNat + 10)
  else if ascii 'A' ≤ byte ∧ byte ≤ ascii 'F' then .ok (byte.toNat - (ascii 'A').toNat + 10)
  else bail "invalid JSON unicode escape"

def decodeHexQuad (input : Bytes) (start : ℕ) : Result ℕ := do
  let bytes ← orError "short JSON unicode escape" (getRange input start 4)
  bytes.foldlM (fun value byte => do return value*16 + (← hexValue byte)) 0

/-- `char::from_u32`. -/
def charFromU32 (n : ℕ) : Option Char :=
  if h : n.isValidChar then some (Char.ofNatAux n h) else none

def decodeJsonUnicodeEscape (input : Bytes) (start : ℕ) : Result (Char × ℕ) := do
  let first ← decodeHexQuad input start
  if 0xd800 ≤ first ∧ first ≤ 0xdbff then do
    bailIf (input[start + 4]? ≠ some (ascii '\\') ∨ input[start + 5]? ≠ some (ascii 'u')) "invalid JSON surrogate pair"
    let second ← decodeHexQuad input (start + 6)
    bailIf (¬ (0xdc00 ≤ second ∧ second ≤ 0xdfff)) "invalid JSON surrogate pair"
    let codepoint := 0x10000 + (first - 0xd800)*1024 + (second - 0xdc00)
    let scalar ← orError "invalid JSON unicode escape" (charFromU32 codepoint)
    return (scalar,10)
  else if 0xdc00 ≤ first ∧ first ≤ 0xdfff then bail "invalid JSON surrogate pair"
  else do
    let scalar ← orError "invalid JSON unicode escape" (charFromU32 first)
    return (scalar,4)

/-- The escapes of one letter. -/
def shortEscape (escaped : UInt8) : Option UInt8 :=
  if escaped = ascii '"' then some (ascii '"')
  else if escaped = ascii '\\' then some (ascii '\\')
  else if escaped = ascii '/' then some (ascii '/')
  else if escaped = ascii 'b' then some 0x08
  else if escaped = ascii 'f' then some 0x0c
  else if escaped = ascii 'n' then some (ascii '\n')
  else if escaped = ascii 'r' then some (ascii '\r')
  else if escaped = ascii 't' then some (ascii '\t')
  else none

/-- What an escape stands for, and how far the index moves behind its letter. -/
def decodeJsonEscape (input : Bytes) (index : ℕ) : Result (Bytes × ℕ) := do
  let escaped ← orError "unterminated JSON escape" input[index]?
  match shortEscape escaped with
  | some byte => return ([byte],0)
  | none =>
    if escaped = ascii 'u' then do
      let (scalar,consumed) ← decodeJsonUnicodeEscape input (index + 1)
      return (String.utf8EncodeChar scalar,consumed)
    else bail "invalid JSON escape"

def decodeJsonStringLoop (input : Bytes) (index : ℕ) (out : Bytes) : Result Bytes :=
  if h : index < input.length then
    if input[index] = ascii '"' then .ok out
    else if input[index] = ascii '\\' then do
      let (pushed,consumed) ← decodeJsonEscape input (index + 1)
      bailIf (maxStdinSecretBytes < (out ++ pushed).length) "stdin secret input exceeds the supported size limit"
      decodeJsonStringLoop input (index + 1 + consumed + 1) (out ++ pushed)
    else if input[index] < 0x20 then bail "invalid control byte in JSON string"
    else do
      bailIf (maxStdinSecretBytes < (out ++ [input[index]]).length) "stdin secret input exceeds the supported size limit"
      decodeJsonStringLoop input (index + 1) (out ++ [input[index]])
  else bail "unterminated JSON string"
termination_by input.length - index

def decodeJsonStringBytes (input : Bytes) : Result Bytes := do
  bailIf (input.head? ≠ some (ascii '"')) "JSON string expected"
  decodeJsonStringLoop input 1 []

def jsonStringEndLoop (input : Bytes) (index : ℕ) : Result {n : ℕ // 0 < n} :=
  if h : index < input.length then
    if input[index] = ascii '"' then .ok ⟨index + 1,Nat.succ_pos _⟩
    else if input[index] = ascii '\\' then
      if input[index + 1]? = none then bail "unterminated JSON escape" else jsonStringEndLoop input (index + 1 + 1)
    else if input[index] < 0x20 then bail "invalid control byte in JSON string"
    else jsonStringEndLoop input (index + 1)
  else bail "unterminated JSON string"
termination_by input.length - index

def jsonStringEnd (input : Bytes) : Result {n : ℕ // 0 < n} := do
  bailIf (input.head? ≠ some (ascii '"')) "JSON string expected"
  jsonStringEndLoop input 1

/-- The loop of `json_compound_end`, with the last bracket of the stack first. -/
def jsonCompoundEndLoop (input : Bytes) (index : ℕ) (stack : List UInt8) : Result ℕ :=
  if h : index < input.length then
    if input[index] = ascii '"' then do
      let stringEnd ← jsonStringEnd (input.drop index)
      have := stringEnd.property
      jsonCompoundEndLoop input (index + stringEnd.val) stack
    else if input[index] = ascii '\x7b' ∨ input[index] = ascii '[' then
      jsonCompoundEndLoop input (index + 1) (input[index]::stack)
    else if input[index] = ascii '\x7d' then
      if stack.head? ≠ some (ascii '\x7b') then bail "invalid JSON object"
      else if stack.tail = [] then .ok (index + 1)
      else jsonCompoundEndLoop input (index + 1) stack.tail
    else if input[index] = ascii ']' then
      if stack.head? ≠ some (ascii '[') then bail "invalid JSON array"
      else if stack.tail = [] then .ok (index + 1)
      else jsonCompoundEndLoop input (index + 1) stack.tail
    else jsonCompoundEndLoop input (index + 1) stack
  else bail "unterminated JSON value"
termination_by input.length - index

def jsonCompoundEnd (input : Bytes) (start : ℕ) : Result ℕ :=
  jsonCompoundEndLoop input (start + 1) input[start]?.toList

def jsonValueEnd (input : Bytes) (start : ℕ) : Result ℕ := do
  let byte ← orError "missing JSON value" input[start]?
  if byte = ascii '"' then do
    let stringEnd ← jsonStringEnd (input.drop start)
    return start + stringEnd.val
  else if byte = ascii '\x7b' ∨ byte = ascii '[' then jsonCompoundEnd input start
  else if byte = ascii '-' ∨ isAsciiDigit byte then return jsonScalarEnd input start
  else if byte = ascii 't' ∧ getRange input start 4 = some (utf8 "true") then return start + 4
  else if byte = ascii 'f' ∧ getRange input start 5 = some (utf8 "false") then return start + 5
  else if byte = ascii 'n' ∧ getRange input start 4 = some (utf8 "null") then return start + 4
  else bail "invalid JSON value"

/-- The loop of `find_json_field_value`. It reads on with every turn, so that a turn for each byte is
enough. -/
def findJsonFieldLoop (input field : Bytes) : ℕ → ℕ → Result ℕ
  | 0,_ => bail "key import JSON is invalid"
  | turns+1,index => do
    let index := skipJsonWs input index
    bailIf (input[index]? = some (ascii '\x7d')) "key import JSON missing required field"
    bailIf (input[index]? ≠ some (ascii '"')) "key import JSON object key expected"
    let key ← decodeJsonStringBytes (input.drop index)
    let stringEnd ← jsonStringEnd (input.drop index)
    let colon := skipJsonWs input (stringEnd.val + index)
    bailIf (input[colon]? ≠ some (ascii ':')) "key import JSON is invalid"
    let value := skipJsonWs input (colon + 1)
    if key = field then return value
    else do
      let valueEnd ← jsonValueEnd input value
      let index := skipJsonWs input valueEnd
      if input[index]? = some (ascii ',') then findJsonFieldLoop input field turns (index + 1)
      else if input[index]? = some (ascii '\x7d') then bail "key import JSON missing required field"
      else bail "key import JSON is invalid"

def findJsonFieldValue (input field : Bytes) : Result ℕ := do
  let index := skipJsonWs input 0
  bailIf (input[index]? ≠ some (ascii '\x7b')) "key import JSON must be an object"
  findJsonFieldLoop input field input.length (index + 1)

/-- A blob is what `serde_json::from_slice` makes of the value. -/
def importBlobFromJson {Blob : Type} (fromSlice : Bytes → Result Blob) (input : Bytes) : Result Blob := do
  let valueStart ← findJsonFieldValue input (utf8 "blob")
  let valueEnd ← jsonValueEnd input valueStart
  context "key import blob is invalid" (fromSlice ((input.drop valueStart).take (valueEnd - valueStart)))

def importPassphraseFromJson (input : Bytes) : Result Bytes := do
  let passphraseStart ← findJsonFieldValue input (utf8 "passphrase")
  bailIf (input[passphraseStart]? ≠ some (ascii '"')) "key import passphrase must be a string"
  decodeJsonStringBytes (input.drop passphraseStart)

end Avault.Cli.ImportJson
