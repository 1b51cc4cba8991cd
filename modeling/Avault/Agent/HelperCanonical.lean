import Avault.Agent.HelperFrame
import Mathlib.Data.List.Infix

/-! The helper-frame reader accepts the frames of the writer within its limits, and nothing
that was cut short. -/
namespace Avault.Agent
open Foundation

/-- A secret in a frame that the reader accepts. -/
structure HelperSecret (secret : OpenedSecret) : Prop where
  name : IsShellName secret.name
  nameLength : (utf8 secret.name).length ≤ maxAgentRunEnvNameBytes
  text : ∃ text, secret.plaintext = utf8 text
  noNul : 0 ∉ secret.plaintext
  valueLength : secret.plaintext.length ≤ maxStdinSecretBytes

/-- A frame that the reader accepts: the magic, a count, and that many pairs of fields. -/
structure IsHelperFrame (opened : List OpenedSecret) (frame : Bytes) : Prop where
  count : 1 ≤ opened.length ∧ opened.length ≤ maxAgentRunSecrets
  secrets : ∀ secret ∈ opened, HelperSecret secret
  bytes : frame = agentRunHelperMagic ++ (bigEndian 4 opened.length ++
    opened.flatMap fun secret => field 4 (utf8 secret.name) ++ field 4 secret.plaintext)

section Reader

variable {input rest : Bytes}

theorem readExact_eq_ok {n : ℕ} {a : Bytes} : readExact n input = .ok (a,rest) ↔ a.length = n ∧ input = a ++ rest := by
  unfold readExact
  constructor
  · intro h
    split at h
    · next hn =>
      obtain ⟨rfl,rfl⟩ := Prod.mk.inj (Except.ok.inj h)
      exact ⟨List.length_take_of_le hn,(List.take_append_drop n input).symm⟩
    · cases h
  · rintro ⟨rfl,rfl⟩
    exact readExact_append a rest

theorem readAgentRunHelperU32_eq_ok {n : ℕ} :
    readAgentRunHelperU32 input = .ok (n,rest) ↔ n < 2^32 ∧ input = bigEndian 4 n ++ rest := by
  simp only [readAgentRunHelperU32,bind_eq_ok,Prod.exists,readExact_eq_ok]
  constructor
  · rintro ⟨b,_,⟨hb,rfl⟩,h⟩
    obtain ⟨rfl,rfl⟩ := Prod.mk.inj (Except.ok.inj h)
    have hlt := readBigEndian_lt b
    have hread := bigEndian_readBigEndian b
    rw [hb] at hlt hread
    exact ⟨hlt,by rw [hread]⟩
  · rintro ⟨hn,rfl⟩
    exact ⟨_,_,⟨bigEndian_length 4 n,rfl⟩,by rw [readBigEndian_bigEndian (n := 4) hn]; rfl⟩

theorem validateEnvValue_eq_ok {value : Bytes} {u : Unit} :
    validateEnvValue value = .ok u ↔ (∃ text, value = utf8 text) ∧ 0 ∉ value := by
  simp only [validateEnvValue,bind_eq_ok,context_eq_ok,orError_eq_ok,fromUtf8_eq_some,bailIf_eq_ok]
  constructor
  · rintro ⟨text,htext,hnul⟩
    exact ⟨⟨text,htext⟩,hnul⟩
  · rintro ⟨⟨text,htext⟩,hnul⟩
    exact ⟨text,htext,hnul⟩

theorem HelperSecret.writable {secret : OpenedSecret} (h : HelperSecret secret) : secret.Writable where
  name := validateShellName_eq_ok.mpr h.name
  value := validateEnvValue_eq_ok.mpr ⟨h.text,h.noNul⟩
  nameLength := lt_of_le_of_lt h.nameLength (by decide)
  valueLength := lt_of_le_of_lt h.valueLength (by decide)

theorem readAgentRunHelperSecret_ok {secret : OpenedSecret} :
    readAgentRunHelperSecret input = .ok (secret,rest) ↔
      HelperSecret secret ∧ input = secretBytes secret ++ rest := by
  constructor
  · intro h
    simp only [readAgentRunHelperSecret,bind_eq_ok,Prod.exists,readAgentRunHelperU32_eq_ok,readExact_eq_ok,
      context_eq_ok,orError_eq_ok,fromUtf8_eq_some,bailIf_eq_ok,validateShellName_eq_ok,
      validateEnvValue_eq_ok] at h
    obtain ⟨_,_,⟨_,rfl⟩,_,hname,_,_,⟨rfl,rfl⟩,name,rfl,_,hshell,_,_,⟨_,rfl⟩,_,hvalue,plaintext,_,⟨rfl,rfl⟩,_,
      ⟨htext,hnul⟩,h⟩ := h
    obtain ⟨rfl,rfl⟩ := Prod.mk.inj (Except.ok.inj h)
    refine ⟨⟨hshell,Nat.le_of_not_lt fun h => hname (.inr h),htext,hnul,Nat.le_of_not_lt hvalue⟩,?_⟩
    simp only [secretBytes,field,List.append_assoc]
  · rintro ⟨h,rfl⟩
    exact (readAgentRunHelperSecret_eq_ok h.writable).mpr ⟨⟨h.nameLength,h.valueLength⟩,rfl⟩

/-- A round for each secret of the list, from its front. -/
theorem readAgentRunHelperSecrets_ok {n : ℕ} {opened : List OpenedSecret} :
    readAgentRunHelperSecrets n input = .ok (opened,rest) ↔
      opened.length = n ∧ (∀ secret ∈ opened, HelperSecret secret) ∧ input = opened.flatMap secretBytes ++ rest := by
  induction n generalizing input opened rest with
  | zero =>
    constructor
    · intro h
      obtain ⟨rfl,rfl⟩ := Prod.mk.inj (Except.ok.inj h)
      simp
    · rintro ⟨hlen,-,rfl⟩
      obtain rfl := List.length_eq_zero_iff.mp hlen
      rfl
  | succ n ih =>
    simp only [readAgentRunHelperSecrets,bind_eq_ok,Prod.exists,readAgentRunHelperSecret_ok,ih]
    constructor
    · rintro ⟨secret,_,⟨hsecret,rfl⟩,secrets,_,⟨rfl,hsecrets,rfl⟩,h⟩
      obtain ⟨rfl,rfl⟩ := Prod.mk.inj (Except.ok.inj h)
      exact ⟨rfl,List.forall_mem_cons.mpr ⟨hsecret,hsecrets⟩,by simp⟩
    · rintro ⟨hlen,hall,rfl⟩
      obtain ⟨secret,secrets,rfl⟩ := List.exists_cons_of_length_eq_add_one hlen
      obtain ⟨hsecret,hsecrets⟩ := List.forall_mem_cons.mp hall
      exact ⟨secret,_,⟨hsecret,by simp⟩,secrets,rest,⟨Nat.succ.inj hlen,hsecrets,rfl⟩,rfl⟩

theorem readAgentRunHelperFrame_ok {opened : List OpenedSecret} :
    readAgentRunHelperFrame input = .ok (opened,rest) ↔
      ∃ frame, IsHelperFrame opened frame ∧ input = frame ++ rest := by
  simp only [readAgentRunHelperFrame,bind_eq_ok,Prod.exists,readExact_eq_ok,bailIf_eq_ok,not_not,
    readAgentRunHelperU32_eq_ok,readAgentRunHelperSecrets_ok]
  constructor
  · rintro ⟨_,_,⟨_,rfl⟩,_,rfl,_,_,⟨_,rfl⟩,_,hcount,rfl,hsecrets,rfl⟩
    exact ⟨helperFrame opened,⟨by omega,hsecrets,rfl⟩,by simp only [helperFrame,List.append_assoc]⟩
  · rintro ⟨_,⟨hcount,hsecrets,rfl⟩,rfl⟩
    have hlen : opened.length < 2^32 := lt_of_le_of_lt hcount.2 (by decide)
    exact ⟨_,_,⟨rfl,by simp only [List.append_assoc]; rfl⟩,(),rfl,_,_,⟨hlen,rfl⟩,(),by omega,rfl,hsecrets,rfl⟩

end Reader

/-- Secrets that the writer can put into fields, whether the reader would accept them or not. -/
structure HelperFields (opened : List OpenedSecret) : Prop where
  count : opened.length < 2^32
  fields : ∀ secret ∈ opened, (utf8 secret.name).length < 2^32 ∧ secret.plaintext.length < 2^32

section Cut

variable {opened : List OpenedSecret}

theorem IsHelperFrame.fields {frame : Bytes} (h : IsHelperFrame opened frame) : HelperFields opened where
  count := lt_of_le_of_lt h.count.2 (by decide)
  fields secret hmem := ⟨(h.secrets secret hmem).writable.nameLength,(h.secrets secret hmem).writable.valueLength⟩

def IsSecretWord (secret : OpenedSecret) (word : Bytes) : Prop :=
  ((utf8 secret.name).length < 2^32 ∧ secret.plaintext.length < 2^32) ∧ word = secretBytes secret

theorem isSecretWord_prefixFree : PrefixFree IsSecretWord := by
  rintro ⟨name,plaintext⟩ ⟨name',plaintext'⟩ _ _ r s ⟨⟨hname,hvalue⟩,rfl⟩ ⟨⟨hname',hvalue'⟩,rfl⟩ heq
  have hfield := isField_prefixFree 4
  simp only [secretBytes,List.append_assoc] at heq ⊢
  obtain ⟨hsame,-,heq⟩ := hfield ⟨hname,rfl⟩ ⟨hname',rfl⟩ heq
  obtain ⟨rfl,-,rfl⟩ := hfield ⟨hvalue,rfl⟩ ⟨hvalue',rfl⟩ heq
  obtain rfl := utf8_inj.mp hsame
  exact ⟨rfl,rfl,rfl⟩

theorem secretWords (h : ∀ secret ∈ opened, (utf8 secret.name).length < 2^32 ∧ secret.plaintext.length < 2^32) :
    Sequence IsSecretWord opened (opened.flatMap secretBytes) := by
  induction opened with
  | nil => exact .nil
  | cons secret secrets ih =>
    obtain ⟨hsecret,hsecrets⟩ := List.forall_mem_cons.mp h
    exact .cons ⟨hsecret,rfl⟩ (ih hsecrets)

/-- No frame begins with another one. -/
theorem helperFrame_prefixFree {opened' : List OpenedSecret} {r s : Bytes} (h : HelperFields opened)
    (h' : HelperFields opened') (heq : helperFrame opened ++ r = helperFrame opened' ++ s) :
    opened = opened' ∧ r = s := by
  simp only [helperFrame,List.append_assoc] at heq
  have hrest := List.append_cancel_left heq
  obtain ⟨hcount,hsecrets⟩ := List.append_inj hrest (by simp)
  have hlen : opened.length = opened'.length := bigEndian_injOn h.count h'.count hcount
  obtain ⟨rfl,-,rfl⟩ := isSecretWord_prefixFree.sequence_counted (secretWords h.fields) (secretWords h'.fields) hlen
    hsecrets
  exact ⟨rfl,rfl⟩

theorem readAgentRunHelperFrame_cut {cut : Bytes} (h : HelperFields opened) (hcut : cut <+: helperFrame opened)
    (hne : cut ≠ helperFrame opened) : ∃ e, readAgentRunHelperFrame cut = .error e := by
  cases hread : readAgentRunHelperFrame cut with
  | error e => exact ⟨e,rfl⟩
  | ok r =>
    obtain ⟨opened',rest⟩ := r
    obtain ⟨_,hframe,rfl⟩ := readAgentRunHelperFrame_ok.mp hread
    obtain ⟨more,hmore⟩ := hcut
    obtain rfl : _ = helperFrame opened' := hframe.bytes
    rw [List.append_assoc] at hmore
    obtain ⟨rfl,hrest⟩ := helperFrame_prefixFree (r := rest ++ more) (s := []) hframe.fields h (by simpa using hmore)
    obtain ⟨rfl,-⟩ := List.append_eq_nil_iff.mp hrest
    exact (hne (List.append_nil _)).elim

end Cut

/-- The child is started with the secrets of a whole frame, which is what the writer makes of
them, or not at all. -/
theorem readAgentRunHelperFrame_canonical (input : Bytes) :
    (∀ opened rest, readAgentRunHelperFrame input = .ok (opened,rest) ↔
      ∃ frame, IsHelperFrame opened frame ∧ input = frame ++ rest) ∧
    (∀ opened frame, IsHelperFrame opened frame →
      writeAgentRunHelperFrame .buffer [] opened = .ok frame ∧
      ∀ cut, cut <+: frame → cut ≠ frame → ∃ e, readAgentRunHelperFrame cut = .error e) ∧
    ∀ opened, HelperFields opened → input <+: helperFrame opened → input ≠ helperFrame opened →
      ∃ e, agentRunHelperEnv input = .error e := by
  refine ⟨fun opened rest => readAgentRunHelperFrame_ok,fun opened frame h => ?_,fun opened h hcut hne => ?_⟩
  · obtain rfl : frame = helperFrame opened := h.bytes
    have hopened : opened ≠ [] := List.ne_nil_of_length_pos h.count.1
    refine ⟨?_,fun cut hcut hne => readAgentRunHelperFrame_cut h.fields hcut hne⟩
    exact writeAgentRunHelperFrame_buffer hopened h.fields.count fun secret hmem => (h.secrets secret hmem).writable
  · obtain ⟨e,he⟩ := readAgentRunHelperFrame_cut h hcut hne
    exact ⟨e,by rw [agentRunHelperEnv,he]; rfl⟩

end Avault.Agent
