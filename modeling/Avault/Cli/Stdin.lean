import Avault.Error
import Avault.Foundation.Bytes
import Avault.Foundation.Outcome

/-! The readers of the standard input: a passphrase line, and what follows it up to a cap. -/
namespace Avault.Cli.Stdin
open Foundation
open Foundation.Program

def maxStdinPassphraseBytes : ℕ := 64*1024
def stdinReadChunkBytes : ℕ := 8192

/-- `Read::read`, into a buffer of a given length. -/
structure ReadOp where
  length : ℕ

def ReadOp.Reply (op : ReadOp) : Type := Result {bytes : Bytes // bytes.length ≤ op.length}

abbrev StdinM (α : Type) := Fallible ReadOp ReadOp.Reply Error α

def read (length : ℕ) : StdinM {bytes : Bytes // bytes.length ≤ length} := ExceptT.mk (call (ReadOp.mk length))

/-- The loop of `read_passphrase_line`. -/
def readPassphraseLineLoop (out : Bytes) : StdinM Bytes :=
  if maxStdinPassphraseBytes ≤ out.length then
    liftResult (bail "store passphrase exceeds the supported size limit")
  else do
    let scratch ← read 1
    match scratch.val with
    | [] => return out
    | byte::_ => if byte = 10 then return out else readPassphraseLineLoop (out ++ [byte])
termination_by maxStdinPassphraseBytes - out.length
decreasing_by simp only [List.length_append,List.length_singleton]; omega

def popCr (out : Bytes) : Bytes := if out.getLast? = some 13 then out.dropLast else out

def readPassphraseLine : StdinM Bytes := do
  let out ← readPassphraseLineLoop []
  let out := popCr out
  liftResult (bailIf (out = []) "a non-empty store passphrase is required")
  return out

/-- `read_zeroizing_to_cap`, with what it has read so far. -/
def readToCapLoop (maxLen : ℕ) (out : Bytes) : StdinM Bytes :=
  if out.length < maxLen then do
    let scratch ← read (min (maxLen - out.length) stdinReadChunkBytes)
    if scratch.val.length = 0 then return out else readToCapLoop maxLen (out ++ scratch.val)
  else do
    let extra ← read 1
    liftResult (bailIf (extra.val.length ≠ 0) "stdin secret input exceeds the supported size limit")
    return out
termination_by maxLen - out.length
decreasing_by simp only [List.length_append]; omega

def readZeroizingToCap (maxLen : ℕ) : StdinM Bytes := readToCapLoop maxLen []

/-- A reader without errors, which may split the stream as it likes. -/
inductive SplitRead : Bytes → (op : ReadOp) → op.Reply → Bytes → Prop
  | read {op stream chunk rest} (h : Takes op.length stream chunk rest) : SplitRead stream op (.ok ⟨chunk,h.fits⟩) rest

/-- The bytes before the first newline. -/
def line (stream : Bytes) : Bytes := stream.takeWhile (· ≠ 10)

/-- What comes behind that newline. -/
def afterLine (stream : Bytes) : Bytes := (stream.dropWhile (· ≠ 10)).tail

section Spec

variable {stream : Bytes}

theorem ensures_read {length : ℕ} {Q : Result {bytes : Bytes // bytes.length ≤ length} → Bytes → Prop} :
    Ensures (.after SplitRead) (read length) stream Q ↔
      ∀ chunk rest, (h : Takes length stream chunk rest) → Q (.ok ⟨chunk,h.fits⟩) rest := by
  constructor
  · exact fun h chunk rest htakes => h _ _ (.read htakes)
  · rintro h _ _ ⟨htakes⟩
    exact h _ _ htakes

/-- The loop stops at the newline or at the end, unless the room runs out before. -/
theorem readPassphraseLineLoop_ensures (stream out : Bytes) :
    Ensures (.after SplitRead) (readPassphraseLineLoop out) stream fun r t =>
      if out.length + (line stream).length < maxStdinPassphraseBytes then
        r = .ok (out ++ line stream) ∧ t = afterLine stream
      else ∃ e, r = .error e := by
  induction stream generalizing out with
  | nil =>
    unfold readPassphraseLineLoop
    refine ensures_ite.mpr ⟨fun hfull => ?_,fun hroom => ?_⟩
    · simp only [ensures_liftResult]
      rw [if_neg (by omega)]
      exact ⟨_,rfl⟩
    · rw [ensures_bind,ensures_read]
      intro chunk rest htakes
      obtain ⟨rfl,-,rfl⟩ | ⟨_,-,hstream⟩ := htakes.one
      · simp [line,afterLine,not_le.mp hroom]
      · cases hstream
  | cons byte stream ih =>
    unfold readPassphraseLineLoop
    refine ensures_ite.mpr ⟨fun hfull => ?_,fun hroom => ?_⟩
    · simp only [ensures_liftResult]
      rw [if_neg (by omega)]
      exact ⟨_,rfl⟩
    · rw [ensures_bind,ensures_read]
      intro chunk rest htakes
      obtain ⟨-,hstream,-⟩ | ⟨_,rfl,hstream⟩ := htakes.one
      · cases hstream
      · obtain ⟨rfl,rfl⟩ := List.cons.inj hstream
        refine ensures_ite.mpr ⟨fun hnewline => ?_,fun hother => ?_⟩
        · simp [line,afterLine,hnewline,not_le.mp hroom]
        · have hline : line (byte::stream) = byte::line stream := by simp [line,hother]
          have hafter : afterLine (byte::stream) = afterLine stream := by simp [afterLine,hother]
          apply (ih (out ++ [byte])).mono
          intro r t h
          rw [hline,hafter]
          simpa [Nat.add_assoc,Nat.add_comm 1] using h

/-- The loop takes the whole stream, unless it is longer than the room that is left. -/
theorem readToCapLoop_ensures {maxLen : ℕ} (out : Bytes) (hout : out.length ≤ maxLen) :
    Ensures (.after SplitRead) (readToCapLoop maxLen out) stream fun r t =>
      if out.length + stream.length ≤ maxLen then r = .ok (out ++ stream) ∧ t = [] else ∃ e, r = .error e := by
  induction hlen : stream.length using Nat.strong_induction_on generalizing out stream with
  | _ n ih =>
    subst hlen
    unfold readToCapLoop
    refine ensures_ite.mpr ⟨fun hroom => ?_,fun hfull => ?_⟩
    · rw [ensures_bind,ensures_read]
      intro chunk rest htakes
      have hchunk := htakes.fits
      refine ensures_ite.mpr ⟨fun hended => ?_,fun hmore => ?_⟩
      · obtain rfl := List.length_eq_zero_iff.mp hended
        have hread : 0 < min (maxLen - out.length) stdinReadChunkBytes :=
          lt_min (Nat.sub_pos_of_lt hroom) (by decide)
        obtain ⟨rfl,rfl⟩ := (Takes.nil_iff hread).mp htakes
        simp [hout]
      · obtain rfl := htakes.split
        have hpos : chunk.length ≠ 0 := hmore
        refine (ih rest.length ?_ (out ++ chunk) ?_ rfl).mono fun r t h => ?_
        · rw [List.length_append]
          omega
        · rw [List.length_append]
          omega
        · simpa [Nat.add_assoc] using h
    · rw [ensures_bind,ensures_read]
      intro chunk rest htakes
      obtain ⟨rfl,rfl,rfl⟩ | ⟨_,rfl,rfl⟩ := htakes.one
      · refine ensures_check.mpr ⟨fun _ _ => ?_,fun _ he => (error_ne_ok he.symm).elim⟩
        simp [hout]
      · refine ensures_check.mpr ⟨fun _ hok => (bailIf_eq_ok.mp hok (Nat.succ_ne_zero _)).elim,fun e _ => ?_⟩
        rw [if_neg (by simp only [List.length_cons]; omega)]
        exact ⟨e,rfl⟩

theorem readPassphraseLine_ensures : Ensures (.after SplitRead) readPassphraseLine stream fun r t =>
    if (line stream).length < maxStdinPassphraseBytes ∧ popCr (line stream) ≠ [] then
      r = .ok (popCr (line stream)) ∧ t = afterLine stream
    else ∃ e, r = .error e := by
  have hloop := readPassphraseLineLoop_ensures stream []
  simp only [List.length_nil,Nat.zero_add,List.nil_append] at hloop
  by_cases hshort : (line stream).length < maxStdinPassphraseBytes
  · simp only [hshort,if_true,true_and] at hloop ⊢
    refine hloop.bind (fun out t h => ?_) fun e t h => (error_ne_ok h.1).elim
    obtain ⟨hout,rfl⟩ := h
    obtain rfl := Except.ok.inj hout
    refine ensures_check.mpr ⟨fun _ hok => ?_,fun e he => ?_⟩
    · rw [ensures_pure,if_pos (bailIf_eq_ok.mp hok)]
      exact ⟨rfl,rfl⟩
    · rw [if_neg fun hne => error_ne_ok (he.symm.trans (bailIf_neg hne))]
      exact ⟨e,rfl⟩
  · simp only [hshort,if_false,false_and] at hloop ⊢
    refine hloop.bind (fun out t h => ?_) fun e t _ => ⟨e,rfl⟩
    obtain ⟨e,he⟩ := h
    exact (error_ne_ok he.symm).elim

theorem splitRead_exists (stream : Bytes) (op : ReadOp) : ∃ r t, SplitRead stream op r t := by
  obtain ⟨chunk,rest,htakes⟩ := Takes.exists_chunk op.length stream
  exact ⟨_,_,.read htakes⟩

end Spec

/-- The line is read whole or refused, and after it the payload is. -/
structure ReadsExactly (stream : Bytes) : Prop where
  line : ∀ r t, Exec SplitRead readPassphraseLine.run stream r t →
    ((∃ out, r = .ok out) ↔ (line stream).length ≤ maxStdinPassphraseBytes ∧ popCr (line stream) ≠ []) ∧
    ∀ out, r = .ok out → out = popCr (line stream) ∧ t = afterLine stream
  payload : ∀ r t, Exec SplitRead readPassphraseLine.run stream r t → ∀ out, r = .ok out →
    ∀ maxLen r' t', Exec SplitRead (readZeroizingToCap maxLen).run t r' t' →
      ((∃ payload, r' = .ok payload) ↔ t.length ≤ maxLen) ∧ ∀ payload, r' = .ok payload → payload = t

theorem readsExactly_of_ne {stream : Bytes} (hne : (line stream).length ≠ maxStdinPassphraseBytes) :
    ReadsExactly stream where
  line r t hexec := by
    have h := readPassphraseLine_ensures.of_exec hexec
    split at h
    · next hok =>
      obtain ⟨rfl,rfl⟩ := h
      refine ⟨⟨fun _ => ⟨Nat.le_of_lt hok.1,hok.2⟩,fun _ => ⟨_,rfl⟩⟩,fun out hout => ?_⟩
      exact ⟨(Except.ok.inj hout).symm,rfl⟩
    · next hbad =>
      obtain ⟨e,rfl⟩ := h
      refine ⟨⟨fun ⟨_,h⟩ => (error_ne_ok h).elim,fun hok => ?_⟩,fun out hout => (error_ne_ok hout).elim⟩
      exact (hbad ⟨Nat.lt_of_le_of_ne hok.1 hne,hok.2⟩).elim
  payload r t _ out _ maxLen r' t' hexec := by
    have h := (readToCapLoop_ensures [] (Nat.zero_le maxLen)).of_exec hexec
    simp only [List.length_nil,Nat.zero_add,List.nil_append] at h
    split at h
    · next hfits =>
      obtain ⟨rfl,-⟩ := h
      exact ⟨⟨fun _ => hfits,fun _ => ⟨t,rfl⟩⟩,fun payload hp => (Except.ok.inj hp).symm⟩
    · next hlong =>
      obtain ⟨e,rfl⟩ := h
      exact ⟨⟨fun ⟨_,h⟩ => (error_ne_ok h).elim,fun h => (hlong h).elim⟩,fun _ h => (error_ne_ok h).elim⟩

/-- A line that fills the limit is refused: the loop stops for want of room before it can see
the newline. -/
theorem not_readsExactly {stream : Bytes} (hfull : (line stream).length = maxStdinPassphraseBytes) :
    ¬ ReadsExactly stream := by
  intro h
  obtain ⟨r,t,hexec⟩ := exists_exec splitRead_exists readPassphraseLine.run stream
  have herror := readPassphraseLine_ensures.of_exec hexec
  rw [if_neg (by omega)] at herror
  obtain ⟨e,rfl⟩ := herror
  have hpop : popCr (line stream) ≠ [] := by
    intro hempty
    have hlen := congrArg List.length hempty
    unfold popCr at hlen
    split at hlen
    · rw [List.length_dropLast,hfull] at hlen
      exact absurd hlen (by decide)
    · rw [hfull] at hlen
      exact absurd hlen (by decide)
  obtain ⟨_,hok⟩ := (h.line _ t hexec).1.mpr ⟨Nat.le_of_eq hfull,hpop⟩
  exact error_ne_ok hok

/-- Both readers are exact on every stream whose first line does not have just the length of the
limit. -/
theorem readsExactly_iff (stream : Bytes) : ReadsExactly stream ↔ (line stream).length ≠ maxStdinPassphraseBytes :=
  ⟨fun h hfull => not_readsExactly hfull h,readsExactly_of_ne⟩

theorem line_replicate (n : ℕ) (rest : Bytes) : line (List.replicate n 65 ++ 10::rest) = List.replicate n 65 := by
  induction n with
  | zero => rfl
  | succ n ih => simp_all [line,List.replicate_succ]

/-- A passphrase of as many bytes as the limit allows, and a payload. -/
theorem readsExactly_full : ¬ ReadsExactly (List.replicate 65536 65 ++ [10,1]) :=
  not_readsExactly (by rw [line_replicate,List.length_replicate]; rfl)

end Avault.Cli.Stdin
