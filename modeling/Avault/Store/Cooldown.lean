import Avault.Store.Gate

/-! The cooldown over whole sequences of calls, from a record of any content. -/
namespace Avault.Store
open Foundation

/-- A call on the gate, with its reading of the clock. -/
inductive GateCall
  | cooldown (now : ℕ)
  | record (now : ℕ)

def GateCall.reading : GateCall → ℕ
  | cooldown now | record now => now

/-- The file behind a call. -/
def GateFile.call (file : GateFile) : GateCall → GateFile
  | .cooldown now => ((keychainAuthorizationCooldown now).run.run GateFile.perform file).2
  | .record now =>
    ((recordKeychainAuthorizationCooldown (saturatingAdd now keychainAuthorizationCooldownSecs)).run.run
      GateFile.perform file).2

/-- The file behind a sequence of calls. -/
def GateFile.calls (file : GateFile) (calls : List GateCall) : GateFile := calls.foldl GateFile.call file

/-- What a call after these calls reports. -/
def GateFile.reports (file : GateFile) (calls : List GateCall) (now : ℕ) : Result (Option ℕ) :=
  ((keychainAuthorizationCooldown now).run.run GateFile.perform (file.calls calls)).1

/-- The readings of a clock that does not go back. -/
structure Clock (calls : List GateCall) : Prop where
  sorted : (calls.map GateCall.reading).Pairwise (· ≤ ·)
  u64 : ∀ call ∈ calls, call.reading ≤ u64Max

def GateCall.IsCooldown : GateCall → Prop
  | cooldown _ => True
  | record _ => False

structure BoundedCooldown (file : GateFile) : Prop where
  bounded : ∀ calls now, file.reports calls now = .ok none ∨
    ∃ remaining, file.reports calls now = .ok (some remaining) ∧ 1 ≤ remaining ∧
      remaining ≤ keychainAuthorizationCooldownSecs
  /-- What was reported is kept. -/
  kept : ∀ calls t remaining later t', Clock (calls ++ .cooldown t::(later ++ [.cooldown t'])) →
    file.reports calls t = .ok (some remaining) → t' < min (t + remaining) u64Max →
    ∃ remaining', file.reports (calls ++ .cooldown t::later) t' = .ok (some remaining')
  /-- Without a denial there is at most one window. -/
  ended : ∀ t later t', Clock (.cooldown t::(later ++ [.cooldown t'])) → (∀ call ∈ later, call.IsCooldown) →
    t + keychainAuthorizationCooldownSecs ≤ t' → file.reports (.cooldown t::later) t' = .ok none
  recorded : ∀ calls t later t', Clock (calls ++ .record t::(later ++ [.cooldown t'])) →
    (∀ call ∈ later, call.IsCooldown) → t' < saturatingAdd t keychainAuthorizationCooldownSecs →
    file.reports (calls ++ .record t::later) t' =
      .ok (some (saturatingAdd t keychainAuthorizationCooldownSecs - t'))

section Record

/-- What the record is read with, for the digits: they are no space, no sign and one byte each. -/
theorem isDigit_reads {c : Char} (h : c.isDigit = true) :
    isWhitespace c = false ∧ c ≠ '+' ∧ (String.utf8EncodeChar c).length = 1 := by
  have hall : ∀ n < 58, 48 ≤ n → isWhitespace (Char.ofNat n) = false ∧ Char.ofNat n ≠ '+' ∧
      (String.utf8EncodeChar (Char.ofNat n)).length = 1 := by decide
  obtain ⟨hlower,hupper⟩ := Char.isDigit_iff_toNat.mp h
  rw [← Char.ofNat_toNat c]
  exact hall c.toNat (Nat.lt_succ_of_le hupper) hlower

theorem toList_toString (n : ℕ) : (toString n).toList = Nat.toDigits 10 n := Nat.toList_repr

theorem isDigit_of_mem {n : ℕ} {c : Char} (hc : c ∈ Nat.toDigits 10 n) : c.isDigit = true :=
  Nat.isDigit_of_mem_toDigits (by decide) (by decide) hc

theorem parseU64_toString {n : ℕ} (h : n ≤ u64Max) : parseU64 (toString n) = some n := by
  have hplus : (Nat.toDigits 10 n).head? ≠ some '+' := fun heq =>
    (isDigit_reads (isDigit_of_mem (List.mem_of_head? heq))).2.1 rfl
  have hall : (Nat.toDigits 10 n).all Char.isDigit = true := List.all_eq_true.mpr fun c hc => isDigit_of_mem hc
  simp only [parseU64,toList_toString,hplus,if_false,Nat.ofDigitChars_ten_toDigits,hall]
  exact if_pos ⟨Nat.toDigits_ne_nil,trivial,h⟩

theorem dropWhile_eq_self {p : Char → Bool} {text : List Char} (h : ∀ c ∈ text, p c = false) :
    text.dropWhile p = text := by
  cases text with
  | nil => rfl
  | cons c text => exact List.dropWhile_cons_of_neg (by simp [h c])

theorem trim_toString (n : ℕ) : trim (toString n) = toString n := by
  have hall : ∀ c ∈ Nat.toDigits 10 n, isWhitespace c = false := fun c hc => (isDigit_reads (isDigit_of_mem hc)).1
  have hreverse : ∀ c ∈ (Nat.toDigits 10 n).reverse, isWhitespace c = false := fun c hc =>
    hall c (List.mem_reverse.mp hc)
  rw [trim,toList_toString,dropWhile_eq_self hall,dropWhile_eq_self hreverse,List.reverse_reverse,← toList_toString,
    String.ofList_toList]

theorem toString_length {n : ℕ} (h : n ≤ u64Max) : (utf8 (toString n)).length ≤ maxKeychainCooldownRecordBytes := by
  have hone : (Nat.toDigits 10 n).map (fun c => (String.utf8EncodeChar c).length) =
      (Nat.toDigits 10 n).map fun _ => 1 :=
    List.map_congr_left fun c hc => (isDigit_reads (isDigit_of_mem hc)).2.2
  have hlen : (Nat.toDigits 10 n).length ≤ 20 :=
    (Nat.length_toDigits_le_iff (by decide) (by decide)).mpr (lt_of_le_of_lt h (by decide))
  rw [utf8,toList_toString,List.length_flatMap,hone,List.map_const',List.sum_replicate_nat,Nat.mul_one]
  exact hlen.trans (by decide)

theorem recordedUntil_toString {n : ℕ} (h : n ≤ u64Max) : recordedUntil (utf8 (toString n)) = some n := by
  rw [recordedUntil,fromUtf8_utf8,Option.bind_eq_bind,Option.bind_some,if_pos (toString_length h),trim_toString,
    parseU64_toString h]

end Record

section Call

/-- What a call reports of a record, and the record behind it. -/
def cooldownOutcome (content : Bytes) (now : ℕ) : Option ℕ × Bytes :=
  let window := (some keychainAuthorizationCooldownSecs,
    utf8 (toString (saturatingAdd now keychainAuthorizationCooldownSecs)))
  if content = [] then (none,[])
  else match recordedUntil (content.take (maxKeychainCooldownRecordBytes + 1)) with
    | some ends =>
      if ends ≤ now then (none,[])
      else if ends - now ≤ keychainAuthorizationCooldownSecs then (some (ends - now),content) else window
    | none => window

variable (file : GateFile)

theorem record_run (ends : ℕ) : (recordKeychainAuthorizationCooldown ends).run.run GateFile.perform file =
    (.ok (),⟨utf8 (toString ends),(utf8 (toString ends)).length⟩) := by
  have hwrite : GateFile.perform (.writeAll (utf8 (toString ends))) ⟨[],0⟩ =
      (.ok (),⟨utf8 (toString ends),(utf8 (toString ends)).length⟩) := by
    simp [GateFile.perform]
  change (context _ (GateFile.perform (.writeAll (utf8 (toString ends))) ⟨[],0⟩).1,_) = _
  rw [hwrite]
  exact congrArg (Prod.mk _) (congrArg Prod.snd hwrite)

/-- A new window from a record that cannot be used. -/
theorem window_run (now : ℕ) : (do
      recordKeychainAuthorizationCooldown (saturatingAdd now keychainAuthorizationCooldownSecs)
      return some keychainAuthorizationCooldownSecs : GateFileM (Option ℕ)).run.run GateFile.perform file =
    (.ok (some keychainAuthorizationCooldownSecs),
      ((recordKeychainAuthorizationCooldown (saturatingAdd now keychainAuthorizationCooldownSecs)).run.run
        GateFile.perform file).2) := by
  rfl

theorem reportCooldown_run (now : ℕ) : ∃ cursor,
    (reportCooldown (file.content.take (maxKeychainCooldownRecordBytes + 1)) now).run.run GateFile.perform file =
      (.ok (cooldownOutcome file.content now).1,⟨(cooldownOutcome file.content now).2,cursor⟩) := by
  have hempty : file.content.take (maxKeychainCooldownRecordBytes + 1) = [] ↔ file.content = [] := by
    simp [maxKeychainCooldownRecordBytes]
  unfold reportCooldown cooldownOutcome
  simp only [hempty]
  by_cases hfile : file.content = []
  · refine ⟨file.cursor,?_⟩
    rw [if_pos hfile,if_pos hfile,← hfile]
    rfl
  · rw [if_neg hfile,if_neg hfile]
    cases recordedUntil (file.content.take (maxKeychainCooldownRecordBytes + 1)) with
    | none => exact ⟨_,by rw [window_run,record_run]⟩
    | some ends =>
      by_cases hended : ends ≤ now
      · simp only [if_pos hended]
        exact ⟨_,rfl⟩
      · by_cases hnear : ends - now ≤ keychainAuthorizationCooldownSecs
        · simp only [if_neg hended,if_pos hnear]
          exact ⟨file.cursor,rfl⟩
        · simp only [if_neg hended,if_neg hnear]
          exact ⟨_,by rw [window_run,record_run]⟩

/-- The calls read the record, and leave behind what the outcome says. -/
theorem cooldown_run (now : ℕ) : ∃ cursor, (keychainAuthorizationCooldown now).run.run GateFile.perform file =
    (.ok (cooldownOutcome file.content now).1,⟨(cooldownOutcome file.content now).2,cursor⟩) :=
  reportCooldown_run ⟨file.content,0 + (file.content.take (maxKeychainCooldownRecordBytes + 1)).length⟩ now

theorem call_cooldown (now : ℕ) : (file.call (.cooldown now)).content = (cooldownOutcome file.content now).2 := by
  obtain ⟨cursor,hrun⟩ := cooldown_run file now
  rw [GateFile.call,hrun]

theorem call_record (now : ℕ) : (file.call (.record now)).content =
    utf8 (toString (saturatingAdd now keychainAuthorizationCooldownSecs)) := by
  rw [GateFile.call,record_run]

theorem reports_eq (calls : List GateCall) (now : ℕ) :
    file.reports calls now = .ok (cooldownOutcome (file.calls calls).content now).1 := by
  obtain ⟨cursor,hrun⟩ := cooldown_run (file.calls calls) now
  rw [GateFile.reports,hrun]

theorem calls_append (before later : List GateCall) : file.calls (before ++ later) = (file.calls before).calls later :=
  List.foldl_append

end Call

section Window

/-- The record can be read, and gives this end of the window. -/
def HoldsUntil (content : Bytes) (ends : ℕ) : Prop :=
  content ≠ [] ∧ recordedUntil (content.take (maxKeychainCooldownRecordBytes + 1)) = some ends

variable {content : Bytes} {ends now : ℕ}

theorem holdsUntil_toString (h : ends ≤ u64Max) : HoldsUntil (utf8 (toString ends)) ends := by
  refine ⟨fun hempty => ?_,?_⟩
  · have hlist := toList_toString ends
    rw [utf8_eq_nil.mp hempty] at hlist
    exact Nat.toDigits_ne_nil hlist.symm
  · rw [List.take_of_length_le ((toString_length h).trans (Nat.le_succ _)),recordedUntil_toString h]

theorem saturatingAdd_le (a b : ℕ) : saturatingAdd a b ≤ u64Max := min_le_right _ _

theorem HoldsUntil.outcome_lt (h : HoldsUntil content ends) (hlt : now < ends)
    (hnear : ends ≤ now + keychainAuthorizationCooldownSecs) : cooldownOutcome content now = (some (ends - now),content) := by
  simp only [cooldownOutcome,if_neg h.1,h.2,if_neg (not_le.mpr hlt)]
  exact if_pos (by omega)

theorem HoldsUntil.outcome_le (h : HoldsUntil content ends) (hle : ends ≤ now) : cooldownOutcome content now = (none,[]) := by
  simp only [cooldownOutcome,if_neg h.1,h.2,if_pos hle]

/-- No window, the window of the record, or a new one. -/
theorem outcome_cases (content : Bytes) (now : ℕ) : cooldownOutcome content now = (none,[]) ∨
    (∃ ends, HoldsUntil content ends ∧ now < ends ∧ ends ≤ now + keychainAuthorizationCooldownSecs) ∨
    cooldownOutcome content now = (some keychainAuthorizationCooldownSecs,
      utf8 (toString (saturatingAdd now keychainAuthorizationCooldownSecs))) := by
  by_cases hempty : content = []
  · exact .inl (if_pos hempty)
  · simp only [cooldownOutcome,if_neg hempty,HoldsUntil]
    cases hread : recordedUntil (content.take (maxKeychainCooldownRecordBytes + 1)) with
    | none => exact .inr (.inr rfl)
    | some ends =>
      by_cases hended : ends ≤ now
      · exact .inl (if_pos hended)
      · by_cases hnear : ends - now ≤ keychainAuthorizationCooldownSecs
        · exact .inr (.inl ⟨ends,⟨hempty,rfl⟩,not_le.mp hended,by omega⟩)
        · exact .inr (.inr ((if_neg hended).trans (if_neg hnear)))

/-- The record is usable without a new window, and lasts until at least this reading. -/
def Lasts (content : Bytes) (lower last : ℕ) : Prop :=
  ∃ ends, HoldsUntil content ends ∧ lower ≤ ends ∧ ends ≤ last + keychainAuthorizationCooldownSecs

/-- The record gives no window, or one that is over by this reading. -/
def Expires (content : Bytes) (upper : ℕ) : Prop := content = [] ∨ ∃ ends, HoldsUntil content ends ∧ ends ≤ upper

/-- What is reported, and the record behind it, after a call at this reading. -/
theorem outcome_some {remaining : ℕ} (h : (cooldownOutcome content now).1 = some remaining) :
    1 ≤ remaining ∧ remaining ≤ keychainAuthorizationCooldownSecs ∧
      Lasts (cooldownOutcome content now).2 (min (now + remaining) u64Max) now := by
  obtain hnone | ⟨ends,hholds,hlt,hnear⟩ | hnew := outcome_cases content now
  · rw [hnone] at h
    cases h
  · rw [hholds.outcome_lt hlt hnear] at h ⊢
    obtain rfl := Option.some.inj h
    exact ⟨by omega,by omega,ends,hholds,by omega,hnear⟩
  · rw [hnew] at h ⊢
    obtain rfl := Option.some.inj h
    exact ⟨by decide,le_refl _,_,holdsUntil_toString (saturatingAdd_le _ _),le_refl _,min_le_left _ _⟩

theorem outcome_expires (content : Bytes) (now : ℕ) :
    Expires (cooldownOutcome content now).2 (now + keychainAuthorizationCooldownSecs) := by
  obtain hnone | ⟨ends,hholds,hlt,hnear⟩ | hnew := outcome_cases content now
  · exact .inl (by rw [hnone])
  · rw [hholds.outcome_lt hlt hnear]
    exact .inr ⟨ends,hholds,hnear⟩
  · rw [hnew]
    exact .inr ⟨_,holdsUntil_toString (saturatingAdd_le _ _),min_le_left _ _⟩

end Window

section Calls

variable {file : GateFile} {later : List GateCall} {lower last t : ℕ}

/-- A window that was reported lasts over all calls before its end. -/
theorem calls_lasts (h : Lasts file.content lower last) (hsorted : (last::later.map GateCall.reading).Pairwise (· ≤ ·))
    (hto : ∀ call ∈ later, call.reading < lower)
    (hrecord : ∀ call ∈ later, lower ≤ saturatingAdd call.reading keychainAuthorizationCooldownSecs)
    (hend : ∀ reading ∈ last::later.map GateCall.reading, reading ≤ t) : Lasts (file.calls later).content lower t := by
  induction later generalizing file last with
  | nil =>
    obtain ⟨ends,hholds,hlower,hupper⟩ := h
    have hlast := hend last List.mem_cons_self
    exact ⟨ends,hholds,hlower,by omega⟩
  | cons call later ih =>
    obtain ⟨hfirst,hsorted⟩ := List.pairwise_cons.mp hsorted
    obtain ⟨hcall,hto⟩ := List.forall_mem_cons.mp hto
    obtain ⟨hnew,hrecord⟩ := List.forall_mem_cons.mp hrecord
    refine ih ?_ hsorted hto hrecord (List.forall_mem_cons.mp hend).2
    obtain ⟨ends,hholds,hlower,hupper⟩ := h
    have hlast : last ≤ call.reading := hfirst _ List.mem_cons_self
    cases call with
    | cooldown now =>
      simp only [GateCall.reading] at hcall hlast
      refine ⟨ends,?_,hlower,by simp only [GateCall.reading]; omega⟩
      rw [call_cooldown,hholds.outcome_lt (by omega) (by omega)]
      exact hholds
    | record now =>
      rw [call_record]
      exact ⟨_,holdsUntil_toString (saturatingAdd_le _ _),hnew,min_le_left _ _⟩

/-- A record that is not renewed keeps its end, or is cleared. -/
theorem calls_expires {upper : ℕ} (h : Expires file.content upper)
    (hcooldown : ∀ call ∈ later, call.IsCooldown)
    (hfrom : ∀ call ∈ later, upper ≤ call.reading + keychainAuthorizationCooldownSecs) :
    Expires (file.calls later).content upper := by
  induction later generalizing file with
  | nil => exact h
  | cons call later ih =>
    obtain ⟨hcall,hcooldown⟩ := List.forall_mem_cons.mp hcooldown
    obtain ⟨hnear,hfrom⟩ := List.forall_mem_cons.mp hfrom
    refine ih ?_ hcooldown hfrom
    cases call with
    | record now => exact hcall.elim
    | cooldown now =>
      simp only [GateCall.reading] at hnear
      rw [call_cooldown]
      obtain hempty | ⟨ends,hholds,hupper⟩ := h
      · rw [hempty]
        exact .inl rfl
      · obtain hlt | hover := Nat.lt_or_ge now ends
        · rw [hholds.outcome_lt hlt (by omega)]
          exact .inr ⟨ends,hholds,hupper⟩
        · rw [hholds.outcome_le hover]
          exact .inl rfl

/-- Within its window a record is left as it is. -/
theorem calls_holds {ends : ℕ} (h : HoldsUntil file.content ends) (hcooldown : ∀ call ∈ later, call.IsCooldown)
    (hto : ∀ call ∈ later, call.reading < ends)
    (hfrom : ∀ call ∈ later, ends ≤ call.reading + keychainAuthorizationCooldownSecs) :
    HoldsUntil (file.calls later).content ends := by
  induction later generalizing file with
  | nil => exact h
  | cons call later ih =>
    obtain ⟨hcall,hcooldown⟩ := List.forall_mem_cons.mp hcooldown
    obtain ⟨hlt,hto⟩ := List.forall_mem_cons.mp hto
    obtain ⟨hnear,hfrom⟩ := List.forall_mem_cons.mp hfrom
    refine ih ?_ hcooldown hto hfrom
    cases call with
    | record now => exact hcall.elim
    | cooldown now =>
      have houtcome := h.outcome_lt (show now < ends from hlt) hnear
      rw [call_cooldown,houtcome]
      exact h

end Calls

section Clock

variable {calls later : List GateCall} {first : GateCall} {t' : ℕ}

theorem Clock.tail (h : Clock (calls ++ first::(later ++ [.cooldown t']))) :
    (first.reading::later.map GateCall.reading).Pairwise (· ≤ ·) ∧
      (∀ call ∈ later, first.reading ≤ call.reading ∧ call.reading ≤ t') ∧ first.reading ≤ t' ∧ t' ≤ u64Max := by
  have hsorted := h.sorted
  rw [List.map_append,List.pairwise_append,List.map_cons,List.map_append,← List.cons_append,
    List.pairwise_append] at hsorted
  obtain ⟨-,⟨hpairs,-,hlast⟩,-⟩ := hsorted
  have hto (reading : ℕ) (hmem : reading ∈ first.reading::later.map GateCall.reading) : reading ≤ t' :=
    hlast reading hmem t' (List.mem_singleton_self _)
  refine ⟨hpairs,fun call hcall => ?_,hto _ List.mem_cons_self,h.u64 (.cooldown t') (by simp)⟩
  have hmem : call.reading ∈ later.map GateCall.reading := List.mem_map_of_mem hcall
  exact ⟨(List.pairwise_cons.mp hpairs).1 _ hmem,hto _ (List.mem_cons_of_mem _ hmem)⟩

end Clock

/-- Whatever the record holds, prompts are suppressed for one window at a time, and a window
that was reported or recorded is kept. -/
theorem boundedCooldown (file : GateFile) : BoundedCooldown file where
  bounded calls now := by
    rw [reports_eq]
    cases hreport : (cooldownOutcome (file.calls calls).content now).1 with
    | none => exact .inl rfl
    | some remaining =>
      obtain ⟨hpos,hle,-⟩ := outcome_some hreport
      exact .inr ⟨remaining,rfl,hpos,hle⟩
  kept calls t remaining later t' hclock hreport hbefore := by
    obtain ⟨hsorted,hbetween,hle,-⟩ := hclock.tail
    rw [reports_eq] at hreport
    obtain ⟨-,hremaining,hlasts⟩ := outcome_some (Except.ok.inj hreport)
    have hlasts' := calls_lasts (t := t') (by rwa [← call_cooldown] at hlasts) hsorted
      (fun call hcall => lt_of_le_of_lt (hbetween call hcall).2 hbefore) (fun call hcall => ?_) ?_
    · obtain ⟨ends,hholds,hlower,hupper⟩ := hlasts'
      rw [reports_eq,calls_append]
      exact ⟨ends - t',congrArg Except.ok (congrArg Prod.fst (hholds.outcome_lt (by omega) hupper))⟩
    · have hfrom : t ≤ call.reading := (hbetween call hcall).1
      unfold saturatingAdd
      omega
    · refine List.forall_mem_cons.mpr ⟨hle,fun reading hreading => ?_⟩
      obtain ⟨call,hcall,rfl⟩ := List.mem_map.mp hreading
      exact (hbetween call hcall).2
  ended t later t' hclock hcooldown hafter := by
    obtain ⟨-,hbetween,-,-⟩ := (show Clock ([] ++ .cooldown t::(later ++ [.cooldown t'])) from hclock).tail
    have hexpires := outcome_expires file.content t
    rw [← call_cooldown] at hexpires
    have hexpires' := calls_expires hexpires hcooldown fun call hcall =>
      Nat.add_le_add_right (hbetween call hcall).1 _
    rw [reports_eq]
    apply congrArg Except.ok
    obtain hempty | ⟨ends,hholds,hupper⟩ := hexpires'
    · exact congrArg (fun content => (cooldownOutcome content t').1) hempty
    · exact congrArg Prod.fst (hholds.outcome_le (hupper.trans hafter))
  recorded calls t later t' hclock hcooldown hbefore := by
    obtain ⟨-,hbetween,hle,-⟩ := hclock.tail
    have hends : saturatingAdd t keychainAuthorizationCooldownSecs ≤ t + keychainAuthorizationCooldownSecs :=
      min_le_left _ _
    have hholds : HoldsUntil ((file.calls calls).call (.record t)).content
        (saturatingAdd t keychainAuthorizationCooldownSecs) := by
      rw [call_record]
      exact holdsUntil_toString (saturatingAdd_le _ _)
    have hholds' := calls_holds hholds hcooldown (fun call hcall => lt_of_le_of_lt (hbetween call hcall).2 hbefore)
      fun call hcall => hends.trans (Nat.add_le_add_right (hbetween call hcall).1 _)
    rw [reports_eq,calls_append]
    refine congrArg Except.ok (congrArg Prod.fst (hholds'.outcome_lt hbefore ?_))
    exact hends.trans (Nat.add_le_add_right hle _)

/-- Near the end of the clock's range a window is cut short: its end saturates. -/
theorem boundedCooldown_saturated : Clock [.cooldown (u64Max - 10),.cooldown u64Max] ∧
    GateFile.reports ⟨utf8 "x",0⟩ [] (u64Max - 10) = .ok (some 120) ∧ u64Max < u64Max - 10 + 120 ∧
    GateFile.reports ⟨utf8 "x",0⟩ [.cooldown (u64Max - 10)] u64Max = .ok none := by
  have hunreadable : recordedUntil ((utf8 "x").take (maxKeychainCooldownRecordBytes + 1)) = none := by decide
  have hnew : cooldownOutcome (utf8 "x") (u64Max - 10) = (some 120,utf8 (toString u64Max)) := by
    simp only [cooldownOutcome,hunreadable]
    rw [if_neg (by decide)]
    rfl
  refine ⟨⟨by decide,?_⟩,?_,by decide,?_⟩
  · rintro call hcall
    obtain rfl | rfl : call = .cooldown (u64Max - 10) ∨ call = .cooldown u64Max := by simpa using hcall
    · exact Nat.sub_le _ _
    · exact le_refl _
  · exact (reports_eq _ _ _).trans (by rw [GateFile.calls,List.foldl_nil,hnew])
  · have hcall := call_cooldown ⟨utf8 "x",0⟩ (u64Max - 10)
    rw [hnew] at hcall
    have hholds : HoldsUntil (GateFile.call ⟨utf8 "x",0⟩ (.cooldown (u64Max - 10))).content u64Max := by
      rw [hcall]
      exact holdsUntil_toString (le_refl _)
    rw [reports_eq]
    exact congrArg Except.ok (congrArg Prod.fst (hholds.outcome_le (le_refl _)))

end Avault.Store
