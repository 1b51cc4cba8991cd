import Avault.Error
import Avault.Foundation.Bytes

/-! The frame that carries opened secrets from the agent to the helper process, with its
writer and its reader. -/
namespace Avault.Agent
open Foundation

/-- Limits of the reader; the writer does not have them. -/
def maxAgentRunSecrets : ℕ := 1024
def maxAgentRunEnvNameBytes : ℕ := 4096
def maxStdinSecretBytes : ℕ := 1024*1024

def agentRunHelperMagic : Bytes := utf8 "avault-agent-run-env-v1" ++ [0]

structure OpenedSecret where
  name : String
  plaintext : Bytes
deriving DecidableEq, Repr

/-- `impl Write`: `write_all` may fail, and otherwise the bytes are appended. -/
structure ByteWriter (ω : Type) where
  writeAll : ω → Bytes → Result ω
  written : ω → Bytes
  written_writeAll : ∀ {w b w'}, writeAll w b = .ok w' → written w' = written w ++ b

/-- A writer into memory, which never fails. -/
def ByteWriter.buffer : ByteWriter Bytes where
  writeAll w b := .ok (w ++ b)
  written w := w
  written_writeAll h := (Except.ok.inj h).symm

def isShellNameStart (c : Char) : Bool := c == '_' || c.isUpper || c.isLower

def validateShellName (name label : String) : Result Unit :=
  match name.toList with
  | [] => bail ("invalid " ++ label)
  | first::rest => do
    bailIf (isShellNameStart first = false) ("invalid " ++ label)
    bailIf ((rest.all fun c => isShellNameStart c || c.isDigit) = false) ("invalid " ++ label)

def IsShellName (name : String) : Prop :=
  ∃ first rest, name.toList = first::rest ∧ isShellNameStart first = true ∧
    (rest.all fun c => isShellNameStart c || c.isDigit) = true

theorem validateShellName_eq_ok {name label : String} {u : Unit} :
    validateShellName name label = .ok u ↔ IsShellName name := by
  unfold validateShellName IsShellName
  split
  · next h => simp [h]
  · next first rest h =>
    simp only [bind_eq_ok,bailIf_eq_ok,Bool.not_eq_false]
    constructor
    · rintro ⟨_,hfirst,hrest⟩
      exact ⟨first,rest,h,hfirst,hrest⟩
    · rintro ⟨_,_,heq,hfirst,hrest⟩
      obtain ⟨rfl,rfl⟩ := List.cons.inj (h.symm.trans heq)
      exact ⟨(),hfirst,hrest⟩

def validateEnvValue (value : Bytes) : Result Unit := do
  let _ ← context "secret value is not valid UTF-8 for env delivery"
    (orError "invalid utf-8 sequence" (fromUtf8 value))
  bailIf (0 ∈ value) "secret value contains a NUL byte and cannot be delivered as an env var"

/-- `u32::try_from`. -/
def tryIntoU32 (n : ℕ) : Result ℕ :=
  if n < 2^32 then .ok n else bail "out of range integral type conversion attempted"

section Writer

variable {ω : Type} (W : ByteWriter ω)

def writeAgentRunHelperBytes (w : ω) (bytes : Bytes) : Result ω := do
  let len ← context "agent run helper field is too large" (tryIntoU32 bytes.length)
  let w ← context "failed to write agent run helper frame" (W.writeAll w (bigEndian 4 len))
  context "failed to write agent run helper frame" (W.writeAll w bytes)

def writeAgentRunHelperSecret (w : ω) (secret : OpenedSecret) : Result ω := do
  validateShellName secret.name "env var name"
  validateEnvValue secret.plaintext
  let w ← writeAgentRunHelperBytes W w (utf8 secret.name)
  writeAgentRunHelperBytes W w secret.plaintext

def writeAgentRunHelperFrame (w : ω) (opened : List OpenedSecret) : Result ω := do
  bailIf (opened = []) "agent run helper requires at least one secret"
  let count ← context "too many secrets for agent run helper" (tryIntoU32 opened.length)
  let w ← context "failed to write agent run helper frame" (W.writeAll w agentRunHelperMagic)
  let w ← context "failed to write agent run helper frame" (W.writeAll w (bigEndian 4 count))
  opened.foldlM (writeAgentRunHelperSecret W) w

end Writer

/-- `read_exact` on the input that is left. -/
def readExact (n : ℕ) (input : Bytes) : Result (Bytes × Bytes) :=
  if n ≤ input.length then .ok (input.take n,input.drop n)
  else .error [.message "failed to read agent run helper frame",.io .other "failed to fill whole buffer"]

def readAgentRunHelperU32 (input : Bytes) : Result (ℕ × Bytes) := do
  let (buf,input) ← readExact 4 input
  return (readBigEndian buf,input)

/-- One round of the loop of `read_agent_run_helper_frame`. -/
def readAgentRunHelperSecret (input : Bytes) : Result (OpenedSecret × Bytes) := do
  let (nameLen,input) ← readAgentRunHelperU32 input
  bailIf (nameLen = 0 ∨ nameLen > maxAgentRunEnvNameBytes) "agent run helper env name is invalid"
  let (name,input) ← readExact nameLen input
  let name ← context "agent run helper env name is invalid"
    (orError "invalid utf-8 sequence" (fromUtf8 name))
  validateShellName name "env var name"
  let (valueLen,input) ← readAgentRunHelperU32 input
  bailIf (valueLen > maxStdinSecretBytes) "agent run helper secret value is too large"
  let (plaintext,input) ← readExact valueLen input
  validateEnvValue plaintext
  return (⟨name,plaintext⟩,input)

def readAgentRunHelperSecrets : ℕ → Bytes → Result (List OpenedSecret × Bytes)
  | 0,input => .ok ([],input)
  | n+1,input => do
    let (secret,input) ← readAgentRunHelperSecret input
    let (rest,input) ← readAgentRunHelperSecrets n input
    return (secret::rest,input)

def readAgentRunHelperFrame (input : Bytes) : Result (List OpenedSecret × Bytes) := do
  let (magic,input) ← readExact agentRunHelperMagic.length input
  bailIf (magic ≠ agentRunHelperMagic) "agent run helper frame is invalid"
  let (count,input) ← readAgentRunHelperU32 input
  bailIf (count = 0 ∨ count > maxAgentRunSecrets) "agent run helper secret count is invalid"
  readAgentRunHelperSecrets count input

/-- The variable `agent_run_helper_cmd` sets for a secret. -/
def childEnvVar (secret : OpenedSecret) : Result (String × String) := do
  let value ← context "secret value is not valid UTF-8 for env delivery"
    (orError "invalid utf-8 sequence" (fromUtf8 secret.plaintext))
  return (secret.name,value)

/-- The `child.env` calls of `agent_run_helper_cmd` after `env_clear`, in order. -/
def agentRunHelperEnv (input : Bytes) : Result (List (String × String)) := do
  let (opened,_) ← readAgentRunHelperFrame input
  opened.mapM childEnvVar

/-- What the writer checks of a secret. -/
structure OpenedSecret.Writable (secret : OpenedSecret) : Prop where
  name : validateShellName secret.name "env var name" = .ok ()
  value : validateEnvValue secret.plaintext = .ok ()
  nameLength : (utf8 secret.name).length < 2^32
  valueLength : secret.plaintext.length < 2^32

/-- What the reader asks of a secret beyond that. -/
structure OpenedSecret.Fits (secret : OpenedSecret) : Prop where
  name : (utf8 secret.name).length ≤ maxAgentRunEnvNameBytes
  value : secret.plaintext.length ≤ maxStdinSecretBytes

/-- The limits under which a frame is read back. -/
structure HelperFits (opened : List OpenedSecret) : Prop where
  count : opened.length ≤ maxAgentRunSecrets
  secrets : ∀ secret ∈ opened, secret.Fits

def secretBytes (secret : OpenedSecret) : Bytes :=
  field 4 (utf8 secret.name) ++ field 4 secret.plaintext

def helperFrame (opened : List OpenedSecret) : Bytes :=
  agentRunHelperMagic ++ (bigEndian 4 opened.length ++ opened.flatMap secretBytes)

@[simp] theorem tryIntoU32_eq_ok {n m : ℕ} : tryIntoU32 n = .ok m ↔ n < 2^32 ∧ n = m := by
  unfold tryIntoU32
  split
  · rename_i h
    exact ⟨fun heq => ⟨h,Except.ok.inj heq⟩,fun heq => heq.2 ▸ rfl⟩
  · rename_i h
    exact ⟨nofun,fun heq => absurd heq.1 h⟩

section Writer

variable {ω : Type} {W : ByteWriter ω}

theorem writeAgentRunHelperBytes_written {w w' : ω} {bytes : Bytes}
    (h : writeAgentRunHelperBytes W w bytes = .ok w') :
    bytes.length < 2^32 ∧ W.written w' = W.written w ++ field 4 bytes := by
  simp only [writeAgentRunHelperBytes,bind_eq_ok,context_eq_ok,tryIntoU32_eq_ok] at h
  obtain ⟨_,⟨hlen,rfl⟩,w₁,h₁,h₂⟩ := h
  refine ⟨hlen,?_⟩
  rw [W.written_writeAll h₂,W.written_writeAll h₁,List.append_assoc]
  rfl

theorem writeAgentRunHelperSecret_written {w w' : ω} {secret : OpenedSecret}
    (h : writeAgentRunHelperSecret W w secret = .ok w') :
    secret.Writable ∧ W.written w' = W.written w ++ secretBytes secret := by
  simp only [writeAgentRunHelperSecret,bind_eq_ok] at h
  obtain ⟨_,hname,_,hvalue,w₁,h₁,h₂⟩ := h
  obtain ⟨hn,hw₁⟩ := writeAgentRunHelperBytes_written h₁
  obtain ⟨hv,hw₂⟩ := writeAgentRunHelperBytes_written h₂
  refine ⟨⟨hname,hvalue,hn,hv⟩,?_⟩
  rw [hw₂,hw₁,List.append_assoc]
  rfl

theorem writeAgentRunHelperSecrets_written {opened : List OpenedSecret} {w w' : ω}
    (h : opened.foldlM (writeAgentRunHelperSecret W) w = .ok w') :
    (∀ secret ∈ opened, secret.Writable) ∧
      W.written w' = W.written w ++ opened.flatMap secretBytes := by
  induction opened generalizing w with
  | nil =>
    obtain rfl := Except.ok.inj h
    simp
  | cons secret rest ih =>
    rw [List.foldlM_cons,bind_eq_ok] at h
    obtain ⟨w₁,h₁,h₂⟩ := h
    obtain ⟨hsecret,hw₁⟩ := writeAgentRunHelperSecret_written h₁
    obtain ⟨hrest,hw'⟩ := ih h₂
    refine ⟨List.forall_mem_cons.mpr ⟨hsecret,hrest⟩,?_⟩
    rw [hw',hw₁,List.flatMap_cons,List.append_assoc]

theorem writeAgentRunHelperFrame_written {opened : List OpenedSecret} {w w' : ω}
    (h : writeAgentRunHelperFrame W w opened = .ok w') :
    opened ≠ [] ∧ opened.length < 2^32 ∧ (∀ secret ∈ opened, secret.Writable) ∧
      W.written w' = W.written w ++ helperFrame opened := by
  simp only [writeAgentRunHelperFrame,bind_eq_ok,context_eq_ok,bailIf_eq_ok,tryIntoU32_eq_ok] at h
  obtain ⟨_,hne,_,⟨hcount,rfl⟩,w₁,h₁,w₂,h₂,h₃⟩ := h
  obtain ⟨hsecrets,hw'⟩ := writeAgentRunHelperSecrets_written h₃
  refine ⟨hne,hcount,hsecrets,?_⟩
  rw [hw',W.written_writeAll h₂,W.written_writeAll h₁]
  simp only [helperFrame,List.append_assoc]

end Writer

theorem tryIntoU32_ok {n : ℕ} (h : n < 2^32) : tryIntoU32 n = .ok n := if_pos h

theorem writeAgentRunHelperBytes_buffer {w bytes : Bytes} (h : bytes.length < 2^32) :
    writeAgentRunHelperBytes .buffer w bytes = .ok (w ++ field 4 bytes) := by
  simp only [writeAgentRunHelperBytes,tryIntoU32_ok h,ByteWriter.buffer,context_ok,ok_bind,field,
    List.append_assoc]

/-- Writing to memory fails only on a secret that the writer refuses. -/
theorem writeAgentRunHelperSecret_buffer {w : Bytes} {secret : OpenedSecret}
    (h : secret.Writable) :
    writeAgentRunHelperSecret .buffer w secret = .ok (w ++ secretBytes secret) := by
  simp only [writeAgentRunHelperSecret,h.name,h.value,ok_bind,secretBytes,List.append_assoc,
    writeAgentRunHelperBytes_buffer h.nameLength,writeAgentRunHelperBytes_buffer h.valueLength]

theorem writeAgentRunHelperSecrets_buffer {opened : List OpenedSecret} {w : Bytes}
    (h : ∀ secret ∈ opened, secret.Writable) :
    opened.foldlM (writeAgentRunHelperSecret .buffer) w = .ok (w ++ opened.flatMap secretBytes) := by
  induction opened generalizing w with
  | nil => rw [List.flatMap_nil,List.append_nil]; rfl
  | cons secret rest ih =>
    obtain ⟨hsecret,hrest⟩ := List.forall_mem_cons.mp h
    rw [List.foldlM_cons,writeAgentRunHelperSecret_buffer hsecret,ok_bind,ih hrest,
      List.flatMap_cons,List.append_assoc]

theorem writeAgentRunHelperFrame_buffer {opened : List OpenedSecret} {w : Bytes}
    (hne : opened ≠ []) (hcount : opened.length < 2^32) (h : ∀ secret ∈ opened, secret.Writable) :
    writeAgentRunHelperFrame .buffer w opened = .ok (w ++ helperFrame opened) := by
  have hsecrets := writeAgentRunHelperSecrets_buffer
    (w := w ++ agentRunHelperMagic ++ bigEndian 4 opened.length) h
  simp only [writeAgentRunHelperFrame,bailIf_neg hne,tryIntoU32_ok hcount,ok_bind,context_ok]
  simp only [ByteWriter.buffer,context_ok,ok_bind,List.append_assoc] at hsecrets ⊢
  exact hsecrets

theorem readExact_append (a rest : Bytes) : readExact a.length (a ++ rest) = .ok (a,rest) := by
  unfold readExact
  rw [if_pos (by simp),List.take_left,List.drop_left]

theorem readAgentRunHelperU32_append {n : ℕ} (hn : n < 2^32) (rest : Bytes) :
    readAgentRunHelperU32 (bigEndian 4 n ++ rest) = .ok (n,rest) := by
  have hread := readExact_append (bigEndian 4 n) rest
  rw [bigEndian_length] at hread
  simp only [readAgentRunHelperU32,hread,ok_bind,pure_eq_ok]
  rw [readBigEndian_bigEndian (n := 4) hn]

theorem validateShellName_ne_empty {name label : String}
    (h : validateShellName name label = .ok ()) : utf8 name ≠ [] := by
  intro hempty
  obtain rfl := utf8_eq_nil.mp hempty
  cases h

/-- A secret that the writer accepts is read back where it fits, and rejected where not. -/
theorem readAgentRunHelperSecret_eq_ok {secret : OpenedSecret} (hw : secret.Writable)
    {rest : Bytes} {r : OpenedSecret × Bytes} :
    readAgentRunHelperSecret (secretBytes secret ++ rest) = .ok r ↔
      secret.Fits ∧ r = (secret,rest) := by
  have hne : (utf8 secret.name).length ≠ 0 :=
    fun h => validateShellName_ne_empty hw.name (List.length_eq_zero_iff.mp h)
  simp only [readAgentRunHelperSecret,secretBytes,field,List.append_assoc,ok_bind,bind_eq_ok,
    readAgentRunHelperU32_append hw.nameLength,readAgentRunHelperU32_append hw.valueLength,
    readExact_append,fromUtf8_utf8,orError_some,context_ok,bailIf_eq_ok,hw.name,hw.value]
  constructor
  · rintro ⟨_,hname,_,hvalue,h⟩
    exact ⟨⟨by omega,by omega⟩,(Except.ok.inj h).symm⟩
  · rintro ⟨⟨hname,hvalue⟩,rfl⟩
    exact ⟨(),by omega,(),by omega,rfl⟩

theorem readAgentRunHelperSecrets_eq_ok {opened : List OpenedSecret}
    (hw : ∀ secret ∈ opened, secret.Writable) {r : List OpenedSecret × Bytes} :
    readAgentRunHelperSecrets opened.length (opened.flatMap secretBytes) = .ok r ↔
      (∀ secret ∈ opened, secret.Fits) ∧ r = (opened,[]) := by
  induction opened generalizing r with
  | nil =>
    simp [readAgentRunHelperSecrets,eq_comm]
  | cons secret rest ih =>
    obtain ⟨hsecret,hrest⟩ := List.forall_mem_cons.mp hw
    simp only [List.length_cons,readAgentRunHelperSecrets,List.flatMap_cons,bind_eq_ok,
      readAgentRunHelperSecret_eq_ok hsecret,List.forall_mem_cons]
    constructor
    · rintro ⟨_,⟨hfits,rfl⟩,_,hread,h⟩
      obtain ⟨hfitsRest,rfl⟩ := (ih hrest).mp hread
      exact ⟨⟨hfits,hfitsRest⟩,(Except.ok.inj h).symm⟩
    · rintro ⟨⟨hfits,hfitsRest⟩,rfl⟩
      exact ⟨_,⟨hfits,rfl⟩,_,(ih hrest).mpr ⟨hfitsRest,rfl⟩,rfl⟩

theorem readAgentRunHelperFrame_eq_ok {opened : List OpenedSecret} (hne : opened ≠ [])
    (hcount : opened.length < 2^32) (hw : ∀ secret ∈ opened, secret.Writable)
    {r : List OpenedSecret × Bytes} :
    readAgentRunHelperFrame (helperFrame opened) = .ok r ↔
      HelperFits opened ∧ r = (opened,[]) := by
  have hlen : opened.length ≠ 0 := fun h => hne (List.length_eq_zero_iff.mp h)
  simp only [readAgentRunHelperFrame,helperFrame,readExact_append,ok_bind,bind_eq_ok,bailIf_eq_ok,
    readAgentRunHelperU32_append hcount,readAgentRunHelperSecrets_eq_ok hw]
  constructor
  · rintro ⟨_,_,_,hmax,hfits,hr⟩
    exact ⟨⟨by omega,hfits⟩,hr⟩
  · rintro ⟨⟨hmax,hfits⟩,hr⟩
    exact ⟨(),not_not.mpr rfl,(),by omega,hfits,hr⟩

theorem validateEnvValue_utf8 {value : Bytes} (h : validateEnvValue value = .ok ()) :
    ∃ text, value = utf8 text := by
  simp only [validateEnvValue,bind_eq_ok,context_eq_ok,orError_eq_ok] at h
  obtain ⟨text,htext,_⟩ := h
  exact ⟨text,fromUtf8_eq_some.mp htext⟩

theorem mapM_childEnvVar {opened : List OpenedSecret}
    (hw : ∀ secret ∈ opened, secret.Writable) : ∃ env, opened.mapM childEnvVar = .ok env ∧
      env.map (fun v => (⟨v.1,utf8 v.2⟩ : OpenedSecret)) = opened := by
  induction opened with
  | nil => exact ⟨[],rfl,rfl⟩
  | cons secret rest ih =>
    obtain ⟨hsecret,hrest⟩ := List.forall_mem_cons.mp hw
    obtain ⟨env,henv,hmap⟩ := ih hrest
    obtain ⟨text,htext⟩ := validateEnvValue_utf8 hsecret.value
    have hvar : childEnvVar secret = .ok (secret.name,text) := by
      simp only [childEnvVar,htext,fromUtf8_utf8,orError_some,context_ok,ok_bind,pure_eq_ok]
    refine ⟨(secret.name,text)::env,?_,?_⟩
    · rw [List.mapM_cons,hvar,ok_bind,henv,ok_bind,pure_eq_ok]
    · rw [List.map_cons,hmap,← htext]

/-- The frame is read back as it was written, and the child gets exactly its variables: each
name, with the text whose UTF-8 encoding is the secret. -/
def ReachesChild (opened : List OpenedSecret) (frame : Bytes) : Prop :=
  readAgentRunHelperFrame frame = .ok (opened,[]) ∧
    ∃ env, agentRunHelperEnv frame = .ok env ∧
      env.map (fun v => (⟨v.1,utf8 v.2⟩ : OpenedSecret)) = opened

/-- A frame that was written reaches the child exactly where it keeps the reader's limits. -/
theorem reachesChild_iff_helperFits {ω : Type} (W : ByteWriter ω) (w w' : ω)
    (opened : List OpenedSecret) (h : writeAgentRunHelperFrame W w opened = .ok w') :
    ∃ frame, W.written w' = W.written w ++ frame ∧
      (ReachesChild opened frame ↔ HelperFits opened) := by
  obtain ⟨hne,hcount,hw,hwritten⟩ := writeAgentRunHelperFrame_written h
  refine ⟨helperFrame opened,hwritten,fun hreach => ?_,fun hfits => ?_⟩
  · exact ((readAgentRunHelperFrame_eq_ok hne hcount hw).mp hreach.1).1
  · have hread := (readAgentRunHelperFrame_eq_ok hne hcount hw).mpr ⟨hfits,rfl⟩
    obtain ⟨env,henv,hmap⟩ := mapM_childEnvVar hw
    refine ⟨hread,env,?_,hmap⟩
    rw [agentRunHelperEnv,hread,ok_bind]
    exact henv

/-- A short secret reaches the child. -/
theorem reachesChild_iff_helperFits_token : ∃ frame,
    writeAgentRunHelperFrame ByteWriter.buffer [] [⟨"TOKEN",utf8 "s3cret"⟩] = .ok frame ∧
      ReachesChild [⟨"TOKEN",utf8 "s3cret"⟩] frame := by
  obtain ⟨frame,hframe⟩ : ∃ frame, writeAgentRunHelperFrame ByteWriter.buffer []
      [⟨"TOKEN",utf8 "s3cret"⟩] = .ok frame := ⟨_,rfl⟩
  obtain ⟨frame',hwritten,hiff⟩ := reachesChild_iff_helperFits _ _ _ _ hframe
  obtain rfl : frame = frame' := hwritten
  exact ⟨frame,hframe,hiff.mpr ⟨by decide,by
    rintro secret hmem
    obtain rfl := List.mem_singleton.mp hmem
    exact ⟨by decide,by decide⟩⟩⟩

/-- A secret under an environment variable name of `n+1` letters. -/
def longNameSecret (n : ℕ) : OpenedSecret := ⟨String.ofList (List.replicate (n+1) 'A'),utf8 "s3cret"⟩

theorem longNameSecret_name_length (n : ℕ) : (utf8 (longNameSecret n).name).length = n+1 := by
  have hsize : 'A'.utf8Size = 1 := by decide
  simp [longNameSecret,utf8,hsize]

theorem longNameSecret_writable {n : ℕ} (hn : n+1 < 2^32) : (longNameSecret n).Writable where
  name := by
    have hall : (List.replicate n 'A').all (fun c => isShellNameStart c || c.isDigit) = true := by
      rw [List.all_eq_true]
      intro c hc
      rw [List.eq_of_mem_replicate hc]
      decide
    simp only [longNameSecret,validateShellName,String.toList_ofList,List.replicate_succ,hall]
    rfl
  value := show validateEnvValue (utf8 "s3cret") = .ok () by decide
  nameLength := by rwa [longNameSecret_name_length]
  valueLength := show (utf8 "s3cret").length < 2^32 by decide

/-- The writer sends a name beyond the reader's limit and the reader refuses it. -/
theorem longNameSecret_rejected {n : ℕ} (hlong : maxAgentRunEnvNameBytes < n+1)
    (hn : n+1 < 2^32) : ∃ frame,
    writeAgentRunHelperFrame ByteWriter.buffer [] [longNameSecret n] = .ok frame ∧
      ∀ r, readAgentRunHelperFrame frame ≠ .ok r := by
  have hw : ∀ secret ∈ [longNameSecret n], secret.Writable := by
    rintro secret hmem
    exact List.mem_singleton.mp hmem ▸ longNameSecret_writable hn
  refine ⟨_,writeAgentRunHelperFrame_buffer (by simp) (by simp) hw,fun r hread => ?_⟩
  obtain ⟨hfits,_⟩ := (readAgentRunHelperFrame_eq_ok (by simp) (by simp) hw).mp hread
  have hname := (hfits.secrets _ (List.mem_singleton_self _)).name
  rw [longNameSecret_name_length] at hname
  omega

theorem longNameSecret_not_reachesChild : ∃ frame,
    writeAgentRunHelperFrame ByteWriter.buffer [] [longNameSecret 4096] = .ok frame ∧
      ∀ r, readAgentRunHelperFrame frame ≠ .ok r :=
  longNameSecret_rejected (by decide) (by decide)

end Avault.Agent
