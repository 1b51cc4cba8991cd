import Avault.Agent.Connection

/-! A connection handles the frames of its stream, however the socket cuts the stream. -/
namespace Avault.Agent.Connection
open Foundation
open Foundation.Program

/-- The socket of a peer, and what an observer with a stopwatch has noted about it. -/
structure Socket (Response : Type) where
  /-- What is still to be read. -/
  stream : Bytes
  time : ℕ
  /-- The beginning of the gap that is going on: the first of the last reads that would have blocked. -/
  blockedSince : Option ℕ
  longestGap : ℕ
  /-- The deadline of the last read that was begun, and whether a gap was still there after one. -/
  readDeadline : ℕ
  late : Bool
  handled : List (Bytes × Response)
  written : Bytes

/-- Why the frames of a stream are over. -/
inductive FrameStop
  /-- Before or inside a length. -/
  | ended
  | invalid
  /-- Inside a body. -/
  | cut

def FrameStop.error : FrameStop → Option Error
  | ended => none
  | invalid => some [.message "agent frame size is invalid"]
  | cut => some (.message "failed to read agent frame"::SocketError.unexpectedEof.error)

/-- The bodies in a stream: each behind its length, as four bytes. -/
def parseFrames (stream : Bytes) : List Bytes × FrameStop :=
  if stream.length < 4 then ([],.ended)
  else
    let len := readBigEndian (stream.take 4)
    let rest := stream.drop 4
    if len = 0 ∨ maxAgentFrameBytes < len then ([],.invalid)
    else if rest.length < len then ([],.cut)
    else
      let frames := parseFrames (rest.drop len)
      (rest.take len::frames.1,frames.2)
termination_by stream.length
decreasing_by simp only [List.length_drop]; omega

section Step

variable {Response : Type}

namespace Socket

def start (stream : Bytes) (time : ℕ) : Socket Response := ⟨stream,time,none,0,0,false,[],[]⟩

def gapAt (s : Socket Response) (time : ℕ) : ℕ := time - s.blockedSince.getD time

/-- The clock is read in a gap, or else for the deadline of a new read or write. -/
def reading (s : Socket Response) (time : ℕ) : Socket Response :=
  if s.blockedSince = none then { s with time := time, readDeadline := time + agentReadTimeout }
  else { s with time := time, longestGap := max s.longestGap (s.gapAt time), late := s.late || s.readDeadline ≤ time }

def blocked (s : Socket Response) (time : ℕ) : Socket Response :=
  { s with time := time, blockedSince := some (s.blockedSince.getD time), longestGap := max s.longestGap (s.gapAt time) }

def received (s : Socket Response) (time : ℕ) (rest : Bytes) : Socket Response :=
  { s with stream := rest, time := time, blockedSince := none, longestGap := max s.longestGap (s.gapAt time) }

end Socket

/-- The calls of a connection with an authorized peer, all of whose writes succeed. The clock does
not go back, and a sleep is not shorter than asked for. -/
inductive SocketStep : Socket Response → (op : ConnectionOp Response) → op.Reply → Socket Response → Prop
  | setNonblocking {s} : SocketStep s .setNonblocking (.ok ()) s
  | authorizePeer {s} : SocketStep s .authorizePeer (.ok ()) s
  | now {s} {n : ℕ} : s.time ≤ n → SocketStep s .now n (s.reading n)
  | sleep {s n} : s.time + agentPollInterval ≤ n → SocketStep s .sleep () { s with time := n }
  | read {s n length chunk rest} (h : Takes length s.stream chunk rest) : s.time ≤ n →
    SocketStep s (.read length) (.ok ⟨chunk,h.fits⟩) (s.received n rest)
  | wouldBlock {s n length err} : s.time ≤ n → err = .wouldBlock ∨ err = .timedOut →
    SocketStep s (.read length) (.error err) (s.blocked n)
  | write {s bytes} (n : {n : ℕ // n ≤ bytes.length}) : (bytes ≠ [] → 0 < n.val) →
    SocketStep s (.write bytes) (.ok n) { s with written := s.written ++ bytes.take n.val }
  | handleAgentFrame {s frame} (response : Response) :
    SocketStep s (.handleAgentFrame frame) response { s with handled := s.handled ++ [(frame,response)] }

/-- A response behind its length. -/
def frameOf (codec : ResponseCodec Response) (response : Response) : Bytes :=
  (codec.toVec response).toOption.elim [] (field 4)

/-- What the connection has done with a stream. -/
structure Serves (codec : ResponseCodec Response) (stream : Bytes) (r : Result Unit) (t : Socket Response) : Prop where
  handled : t.handled.map Prod.fst = (parseFrames stream).1
  written : t.written = (t.handled.map fun frame => frameOf codec frame.2).flatten ++
    (parseFrames stream).2.error.elim [] fun e => frameOf codec (codec.agentErrorResponse e)
  result : r = (parseFrames stream).2.error.elim (.ok ()) .error

/-- Every response can be written. -/
def ResponseCodec.Writable (codec : ResponseCodec Response) : Prop :=
  ∀ response, ∃ bytes, codec.toVec response = .ok bytes ∧ bytes.length < 2^32

end Step

section Calls

variable {Response α β ε : Type} {s t : Socket Response}

theorem SocketStep.late {op : ConnectionOp Response} {r : op.Reply} (h : SocketStep s op r t) (hlate : s.late = true) :
    t.late = true := by
  cases h with
  | now _ =>
    unfold Socket.reading
    split
    · exact hlate
    · simp [hlate]
  | setNonblocking | authorizePeer | sleep _ | read _ _ | wouldBlock _ _ | write _ _ | handleAgentFrame _ => exact hlate

/-- The condition, unless a gap was there after a deadline. -/
def OnTime (Q : α → Socket Response → Prop) (a : α) (t : Socket Response) : Prop := t.late = true ∨ Q a t

theorem wp_late {p : Program (ConnectionOp Response) ConnectionOp.Reply α} {Q : α → Socket Response → Prop}
    (hlate : s.late = true) : wp (.after SocketStep) p (OnTime Q) s := by
  induction p generalizing s with
  | done a => exact .inl hlate
  | request op next ih => exact fun r t hstep => ih r (hstep.late hlate)

theorem ensures_late {x : ConnectionM Response ε α} {Q : Except ε α → Socket Response → Prop} (hlate : s.late = true) :
    Ensures (.after SocketStep) x s (OnTime Q) := wp_late hlate

theorem ensures_outcomeOf {x : ConnectionM Response SocketError α}
    {Q : Except Error (Except SocketError α) → Socket Response → Prop} :
    Ensures (.after SocketStep) (outcomeOf x) s Q ↔ Ensures (.after SocketStep) x s fun r t => Q (.ok r) t := by
  have hrun : (outcomeOf x).run = x.run >>= fun r => done (.ok r) := rfl
  unfold Ensures
  rw [hrun,wp_bind]
  rfl

theorem ensures_instantNow {Q : Except SocketError ℕ → Socket Response → Prop} :
    Ensures (.after SocketStep) instantNow s Q ↔ ∀ n, s.time ≤ n → Q (.ok n) (s.reading n) := by
  constructor
  · exact fun h n hn => h n _ (.now hn)
  · intro h r t hstep
    cases hstep with
    | now hn => exact h _ hn

theorem ensures_sleep {Q : Except SocketError Unit → Socket Response → Prop} :
    Ensures (.after SocketStep) sleep s Q ↔ ∀ n, s.time + agentPollInterval ≤ n → Q (.ok ()) { s with time := n } := by
  constructor
  · exact fun h n hn => h () _ (.sleep hn)
  · intro h r t hstep
    cases hstep with
    | sleep hn => exact h _ hn

theorem ensures_read {length : ℕ} {Q : Except SocketError {bytes : Bytes // bytes.length ≤ length} → Socket Response → Prop} :
    Ensures (.after SocketStep) (read length) s Q ↔
      (∀ n chunk rest, s.time ≤ n → (h : Takes length s.stream chunk rest) → Q (.ok ⟨chunk,h.fits⟩) (s.received n rest)) ∧
      ∀ n err, s.time ≤ n → err = .wouldBlock ∨ err = .timedOut → Q (.error err) (s.blocked n) := by
  constructor
  · exact fun h => ⟨fun n chunk rest hn htakes => h _ _ (.read htakes hn),fun n err hn herr => h _ _ (.wouldBlock hn herr)⟩
  · rintro ⟨hread,hblock⟩ r t hstep
    cases hstep with
    | read htakes hn => exact hread _ _ _ hn htakes
    | wouldBlock hn herr => exact hblock _ _ hn herr

theorem ensures_write {bytes : Bytes} {Q : Except SocketError {n : ℕ // n ≤ bytes.length} → Socket Response → Prop} :
    Ensures (.after SocketStep) (write bytes) s Q ↔
      ∀ n : {n : ℕ // n ≤ bytes.length}, (bytes ≠ [] → 0 < n.val) → Q (.ok n) { s with written := s.written ++ bytes.take n.val } := by
  constructor
  · exact fun h n hn => h _ _ (.write n hn)
  · rintro h r t hstep
    cases hstep with
    | write n hn => exact h n hn

theorem ensures_handleAgentFrame {frame : Bytes} {Q : Result Response → Socket Response → Prop} :
    Ensures (.after SocketStep) (handleAgentFrame frame) s Q ↔
      ∀ response, Q (.ok response) { s with handled := s.handled ++ [(frame,response)] } := by
  constructor
  · exact fun h response => h _ _ (.handleAgentFrame response)
  · intro h r t hstep
    cases hstep with
    | handleAgentFrame _ => exact h _

theorem ensures_setNonblocking {Q : Result Unit → Socket Response → Prop} (h : Q (.ok ()) s) :
    Ensures (.after SocketStep) setNonblocking s Q := by
  intro r t hstep
  cases hstep with
  | setNonblocking => exact h

theorem ensures_authorizePeer {Q : Result Unit → Socket Response → Prop} (h : Q (.ok ()) s) :
    Ensures (.after SocketStep) authorizePeer s Q := by
  intro r t hstep
  cases hstep with
  | authorizePeer => exact h

/-- A gap after the clock was read at `time` and the thread has slept to `later`. -/
def Socket.waited (s : Socket Response) (time later : ℕ) : Socket Response :=
  { s with
    time := later
    longestGap := max s.longestGap (s.gapAt time)
    late := s.late || s.readDeadline ≤ time }

theorem Socket.reading_blocked (s : Socket Response) (n m : ℕ) : (s.blocked n).reading m = (s.blocked n).waited m m :=
  if_neg (Option.some_ne_none _)

end Calls

section Read

variable {Response : Type} {s t : Socket Response} {room length turns : ℕ} {out : Bytes}

/-- What does not change while a frame is read. -/
structure SameOutput (s t : Socket Response) : Prop where
  idle : t.blockedSince = none
  handled : t.handled = s.handled
  written : t.written = s.written

/-- The room is filled from the stream, or the stream was too short. -/
inductive ReadOutcome (s : Socket Response) (room : ℕ) (out : Bytes) : Except SocketError Bytes → Socket Response → Prop
  | full {chunk : Bytes} {t : Socket Response} : chunk.length = room → s.stream = chunk ++ t.stream → SameOutput s t →
    ReadOutcome s room out (.ok (out ++ chunk)) t
  | ended {t : Socket Response} : s.stream.length < room → SameOutput s t → ReadOutcome s room out (.error .unexpectedEof) t

/-- A chunk in front of what the rest of the loop reads. -/
theorem ReadOutcome.received {n : ℕ} {chunk rest : Bytes} {r : Except SocketError Bytes} (htakes : Takes room s.stream chunk rest)
    (h : ReadOutcome (s.received n rest) (room - chunk.length) (out ++ chunk) r t) : ReadOutcome s room out r t := by
  have hfits := htakes.fits
  have hsplit := htakes.split
  cases h with
  | @full more _ hlen hstream hsame =>
    rw [List.append_assoc]
    refine .full (by rw [List.length_append]; omega) ?_ ⟨hsame.idle,hsame.handled,hsame.written⟩
    rw [hsplit,List.append_assoc]
    exact congrArg _ hstream
  | ended hshort hsame =>
    refine .ended ?_ ⟨hsame.idle,hsame.handled,hsame.written⟩
    rw [hsplit,List.length_append]
    change rest.length < room - chunk.length at hshort
    omega

theorem ReadOutcome.of_same {u : Socket Response} {r : Except SocketError Bytes} (h : ReadOutcome u room out r t)
    (hstream : u.stream = s.stream) (hhandled : u.handled = s.handled) (hwritten : u.written = s.written) :
    ReadOutcome s room out r t := by
  cases h with
  | full hlen hsplit hsame =>
    exact .full hlen (hstream.symm.trans hsplit) ⟨hsame.idle,hsame.handled.trans hhandled,hsame.written.trans hwritten⟩
  | ended hshort hsame =>
    exact .ended (hstream ▸ hshort) ⟨hsame.idle,hsame.handled.trans hhandled,hsame.written.trans hwritten⟩

/-- The turns last: each one fills some of the room, or brings the clock closer to the deadline. -/
theorem readExactAgentLoop_ensures (waits : ℕ) (hturns : room + waits + 1 ≤ turns)
    (hwaits : s.readDeadline ≤ s.time + agentPollInterval*waits) (hidle : room = 0 → s.blockedSince = none) :
    Ensures (.after SocketStep) (readExactAgentLoop s.readDeadline turns room out) s (OnTime (ReadOutcome s room out)) := by
  induction turns generalizing s room out waits with
  | zero => omega
  | succ turns ih =>
    unfold readExactAgentLoop
    refine ensures_ite.mpr ⟨fun hzero => ?_,fun hroom => ?_⟩
    · have h : ReadOutcome s room out (.ok (out ++ [])) s := .full hzero.symm rfl ⟨hidle hzero,rfl,rfl⟩
      rw [List.append_nil] at h
      exact .inr h
    · rw [ensures_bind,ensures_attempt,ensures_read]
      refine ⟨fun n chunk rest hn htakes => ?_,fun n err hn herr => ?_⟩
      · refine ensures_ite.mpr ⟨fun hnil => ?_,fun hchunk => ?_⟩
        · obtain rfl : chunk = [] := hnil
          have hstream := htakes.ended rfl (Nat.pos_of_ne_zero hroom)
          exact .inr (.ended (by rw [hstream]; exact Nat.pos_of_ne_zero hroom) ⟨rfl,rfl,rfl⟩)
        · have hpos : 0 < chunk.length := List.length_pos_iff.mpr hchunk
          have hfits := htakes.fits
          have hleft : room - chunk.length + waits + 1 ≤ turns := by omega
          refine (ih (s := s.received n rest) waits hleft ?_ ?_).mono ?_
          · exact hwaits.trans (Nat.add_le_add_right hn _)
          · exact fun _ => rfl
          · exact fun r t h => h.imp_right (ReadOutcome.received htakes)
      · refine ensures_ite.mpr ⟨fun _ => ?_,fun hother => (hother herr).elim⟩
        rw [ensures_bind,ensures_instantNow]
        intro m hm
        refine ensures_ite.mpr ⟨fun hdeadline => .inl ?_,fun hdeadline => ?_⟩
        · simp [Socket.reading,Socket.blocked,hdeadline]
        · rw [ensures_bind,ensures_sleep,Socket.reading_blocked]
          intro k hk
          have hn : s.time ≤ n := hn
          have hm : n ≤ m := hm
          have hdeadline : ¬ s.readDeadline ≤ m := hdeadline
          have hk : m + agentPollInterval ≤ k := hk
          unfold agentPollInterval at hk hwaits
          refine (ih (s := (s.blocked n).waited m k) (waits - 1) ?_ ?_ ?_).mono ?_
          · omega
          · change s.readDeadline ≤ k + agentPollInterval*(waits - 1)
            unfold agentPollInterval
            omega
          · exact fun hzero => (hroom hzero).elim
          · exact fun r t h => h.imp_right fun h => h.of_same rfl rfl rfl

theorem readExactAgent_ensures (hidle : s.blockedSince = none) :
    Ensures (.after SocketStep) (readExactAgent length) s (OnTime (ReadOutcome s length [])) := by
  unfold readExactAgent
  rw [ensures_bind,ensures_instantNow]
  intro n hn
  rw [Socket.reading,if_pos hidle]
  refine (readExactAgentLoop_ensures (s := { s with time := n, readDeadline := n + agentReadTimeout })
    maxAgentReadTimeouts (Nat.le_refl _) (Nat.le_refl _) fun _ => hidle).mono ?_
  exact fun r t h => h.imp_right fun h => h.of_same rfl rfl rfl

end Read

section Write

variable {Response : Type} {s t u : Socket Response} {bytes more : Bytes} {turns : ℕ}

/-- Just these bytes are written. -/
structure Wrote (s : Socket Response) (bytes : Bytes) (t : Socket Response) : Prop where
  idle : t.blockedSince = none
  stream : t.stream = s.stream
  handled : t.handled = s.handled
  written : t.written = s.written ++ bytes

theorem Wrote.append (h : Wrote s bytes t) (h' : Wrote t more u) : Wrote s (bytes ++ more) u where
  idle := h'.idle
  stream := h'.stream.trans h.stream
  handled := h'.handled.trans h.handled
  written := by rw [h'.written,h.written,List.append_assoc]

theorem writeAllAgentLoop_ensures {writeDeadline : ℕ} (hidle : s.blockedSince = none) (hturns : bytes.length ≤ turns) :
    Ensures (.after SocketStep) (writeAllAgentLoop writeDeadline turns bytes) s fun r t => r = .ok () ∧ Wrote s bytes t := by
  have hdone : Wrote s [] s := ⟨hidle,rfl,rfl,(List.append_nil _).symm⟩
  induction turns generalizing s bytes with
  | zero =>
    obtain rfl := List.length_eq_zero_iff.mp (Nat.le_zero.mp hturns)
    exact ⟨rfl,hdone⟩
  | succ turns ih =>
    unfold writeAllAgentLoop
    refine ensures_ite.mpr ⟨fun hnil => ?_,fun hne => ?_⟩
    · exact ⟨rfl,hnil ▸ hdone⟩
    · rw [ensures_bind,ensures_attempt,ensures_write]
      intro n hn
      have hn := hn hne
      refine ensures_ite.mpr ⟨fun hzero => (Nat.ne_of_gt hn hzero).elim,fun _ => ?_⟩
      have hrest : (bytes.drop n.val).length ≤ turns := by rw [List.length_drop]; omega
      refine (ih (s := { s with written := s.written ++ bytes.take n.val }) hidle hrest
        ⟨hidle,rfl,rfl,(List.append_nil _).symm⟩).mono fun r t h => ⟨h.1,?_⟩
      have hfirst : Wrote s (bytes.take n.val) { s with written := s.written ++ bytes.take n.val } := ⟨hidle,rfl,rfl,rfl⟩
      rw [← List.take_append_drop n.val bytes]
      exact hfirst.append h.2

theorem writeAllAgent_ensures (hidle : s.blockedSince = none) :
    Ensures (.after SocketStep) (writeAllAgent bytes) s fun r t => r = .ok () ∧ Wrote s bytes t := by
  unfold writeAllAgent
  rw [ensures_bind,ensures_instantNow]
  intro n hn
  rw [Socket.reading,if_pos hidle]
  have hturns : bytes.length ≤ bytes.length + maxAgentReadTimeouts + 1 := by omega
  refine (writeAllAgentLoop_ensures (s := { s with time := n, readDeadline := n + agentReadTimeout }) hidle hturns).mono
    fun r t h => ⟨h.1,?_⟩
  exact ⟨h.2.idle,h.2.stream,h.2.handled,h.2.written⟩

theorem writeAgentFrame_ensures (hidle : s.blockedSince = none) (hlen : bytes.length < 2^32) :
    Ensures (.after SocketStep) (writeAgentFrame bytes) s fun r t => r = .ok () ∧ Wrote s (field 4 bytes) t := by
  unfold writeAgentFrame
  rw [bailIf_neg (not_le.mpr hlen),liftResult_ok_bind,ensures_bind,ensures_outcomeOf]
  apply (writeAllAgent_ensures hidle).mono
  rintro r t ⟨rfl,hlength⟩
  rw [then_ok,socketContext,liftResult_ok_bind,ensures_bind,ensures_outcomeOf]
  apply (writeAllAgent_ensures hlength.idle).mono
  rintro r u ⟨rfl,hbody⟩
  exact ⟨rfl,hlength.append hbody⟩

variable {codec : ResponseCodec Response}

theorem writeAgentJsonFrame_ensures (hcodec : codec.Writable) (hidle : s.blockedSince = none) (value : Response) :
    Ensures (.after SocketStep) (writeAgentJsonFrame codec value) s fun r t =>
      r = .ok () ∧ Wrote s (frameOf codec value) t := by
  obtain ⟨bytes,hbytes,hlen⟩ := hcodec value
  have hframe : frameOf codec value = field 4 bytes := by rw [frameOf,hbytes]; rfl
  unfold writeAgentJsonFrame
  rw [hbytes,context_ok,liftResult_ok_bind,hframe]
  exact writeAgentFrame_ensures hidle hlen

theorem failConnection_ensures (hcodec : codec.Writable) (hidle : s.blockedSince = none) (err : Error) :
    Ensures (.after SocketStep) (failConnection codec err) s fun r t =>
      r = .error err ∧ Wrote s (frameOf codec (codec.agentErrorResponse err)) t := by
  unfold failConnection
  rw [ensures_bind,ensures_attempt]
  apply (writeAgentJsonFrame_ensures hcodec hidle _).mono
  intro r t h
  exact ⟨rfl,h.2⟩

end Write

section Frames

variable {Response : Type} {s t : Socket Response} {lenBuf : Bytes}

theorem parseFrames_append (rest : Bytes) (hlen : lenBuf.length = 4) : parseFrames (lenBuf ++ rest) =
    if readBigEndian lenBuf = 0 ∨ maxAgentFrameBytes < readBigEndian lenBuf then ([],.invalid)
    else if rest.length < readBigEndian lenBuf then ([],.cut)
    else (rest.take (readBigEndian lenBuf)::(parseFrames (rest.drop (readBigEndian lenBuf))).1,
      (parseFrames (rest.drop (readBigEndian lenBuf))).2) := by
  have hlong : ¬ (lenBuf ++ rest).length < 4 := by rw [List.length_append]; omega
  have htake : (lenBuf ++ rest).take 4 = lenBuf := List.take_left' hlen
  have hdrop : (lenBuf ++ rest).drop 4 = rest := List.drop_left' hlen
  rw [parseFrames,if_neg hlong]
  simp only [htake,hdrop]

theorem parseFrames_short {stream : Bytes} (h : stream.length < 4) : parseFrames stream = ([],.ended) := by
  rw [parseFrames,if_pos h]

/-- A frame is read off the stream, or the stream stops. -/
inductive FrameOutcome (s : Socket Response) : Result (Option Bytes) → Socket Response → Prop
  | frame {body : Bytes} {t : Socket Response} :
    parseFrames s.stream = (body::(parseFrames t.stream).1,(parseFrames t.stream).2) →
    t.stream.length < s.stream.length → SameOutput s t → FrameOutcome s (.ok (some body)) t
  | ended {t : Socket Response} : parseFrames s.stream = ([],.ended) → SameOutput s t → FrameOutcome s (.ok none) t
  | failed {stop : FrameStop} {e : Error} {t : Socket Response} : parseFrames s.stream = ([],stop) → stop.error = some e →
    SameOutput s t → FrameOutcome s (.error e) t

theorem ok_ne_eof {bytes : Bytes} (h : (.ok bytes : Except SocketError Bytes) = .error .unexpectedEof) : False := by
  cases h

theorem readAgentFrame_ensures (hidle : s.blockedSince = none) :
    Ensures (.after SocketStep) readAgentFrame s (OnTime (FrameOutcome s)) := by
  unfold readAgentFrame
  rw [ensures_bind,ensures_outcomeOf]
  apply (readExactAgent_ensures hidle).mono
  intro r t h
  obtain hlate | h := h
  · exact ensures_late hlate
  cases h with
  | ended hshort hsame => exact .inr (.ended (parseFrames_short hshort) hsame)
  | @full lenBuf _ hlen hstream hsame =>
    rw [then_ok]
    have hparse := parseFrames_append t.stream hlen
    rw [← hstream] at hparse
    refine ensures_ite.mpr ⟨fun heof => (ok_ne_eof heof).elim,fun _ => ?_⟩
    rw [socketContext,liftResult_ok_bind]
    refine ensures_check.mpr ⟨fun _ hok => ?_,fun e he => ?_⟩
    · rw [List.nil_append] at hok ⊢
      rw [if_neg (bailIf_eq_ok.mp hok)] at hparse
      rw [ensures_bind,ensures_outcomeOf]
      apply (readExactAgent_ensures hsame.idle).mono
      intro r u h
      obtain hlate | h := h
      · exact ensures_late hlate
      cases h with
      | ended hshort hsame' =>
        rw [if_pos hshort] at hparse
        exact .inr (.failed hparse rfl ⟨hsame'.idle,hsame'.handled.trans hsame.handled,hsame'.written.trans hsame.written⟩)
      | @full body _ hbody hrest hsame' =>
        have hlong : ¬ t.stream.length < readBigEndian lenBuf := by
          rw [hrest,List.length_append]
          omega
        have htake : t.stream.take (readBigEndian lenBuf) = body := by rw [hrest]; exact List.take_left' hbody
        have hdrop : t.stream.drop (readBigEndian lenBuf) = u.stream := by rw [hrest]; exact List.drop_left' hbody
        rw [if_neg hlong,htake,hdrop] at hparse
        refine .inr (.frame hparse ?_ ⟨hsame'.idle,hsame'.handled.trans hsame.handled,hsame'.written.trans hsame.written⟩)
        rw [hstream,hrest,List.length_append,List.length_append]
        omega
    · rw [List.nil_append] at he
      have hbad : readBigEndian lenBuf = 0 ∨ maxAgentFrameBytes < readBigEndian lenBuf := by
        by_contra hgood
        exact error_ne_ok (he.symm.trans (bailIf_neg hgood))
      rw [bailIf,if_pos hbad] at he
      obtain rfl := Except.error.inj he
      rw [if_pos hbad] at hparse
      exact .inr (.failed hparse rfl hsame)

variable {codec : ResponseCodec Response}

/-- What the loop does from here on. -/
structure Continues (codec : ResponseCodec Response) (s : Socket Response) (more : List (Bytes × Response))
    (r : Result Unit) (t : Socket Response) : Prop where
  bodies : more.map Prod.fst = (parseFrames s.stream).1
  handled : t.handled = s.handled ++ more
  written : t.written = s.written ++ ((more.map fun frame => frameOf codec frame.2).flatten ++
    (parseFrames s.stream).2.error.elim [] fun e => frameOf codec (codec.agentErrorResponse e))
  result : r = (parseFrames s.stream).2.error.elim (.ok ()) .error

/-- A frame with its response, in front of what follows. -/
theorem Continues.cons {u v : Socket Response} {body : Bytes} {response : Response} {more : List (Bytes × Response)}
    {r : Result Unit} (hparse : parseFrames s.stream = (body::(parseFrames t.stream).1,(parseFrames t.stream).2))
    (hsame : SameOutput s t)
    (hwrote : Wrote { t with handled := t.handled ++ [(body,response)] } (frameOf codec response) u)
    (h : Continues codec u more r v) : Continues codec s ((body,response)::more) r v := by
  have hstream : u.stream = t.stream := hwrote.stream
  obtain ⟨hbodies,hhandled,hwritten,hresult⟩ := h
  rw [hstream] at hbodies hwritten hresult
  refine ⟨?_,?_,?_,?_⟩
  · rw [hparse,List.map_cons,hbodies]
  · rw [hhandled,hwrote.handled,hsame.handled,List.append_assoc]
    rfl
  · rw [hwritten,hwrote.written,hsame.written,hparse,List.map_cons,List.flatten_cons,List.append_assoc,List.append_assoc]
  · rw [hparse]
    exact hresult

/-- By induction on the turns, of which every frame takes one. -/
theorem runAgentConnectionLoop_ensures (hcodec : codec.Writable) {turns : ℕ} (hturns : s.stream.length < turns)
    (hidle : s.blockedSince = none) : Ensures (.after SocketStep) (runAgentConnectionLoop codec turns) s
      (OnTime fun r t => ∃ more, Continues codec s more r t) := by
  induction turns generalizing s with
  | zero => omega
  | succ turns ih =>
    unfold runAgentConnectionLoop
    rw [ensures_bind,ensures_attempt]
    apply (readAgentFrame_ensures hidle).mono
    intro r t h
    obtain hlate | h := h
    · exact ensures_late hlate
    cases h with
    | ended hparse hsame =>
      refine .inr ⟨[],?_,?_,?_,?_⟩
      · rw [hparse,List.map_nil]
      · rw [hsame.handled,List.append_nil]
      · rw [hparse,hsame.written]
        exact (List.append_nil _).symm
      · rw [hparse]
        rfl
    | @failed stop e _ hparse hstop hsame =>
      apply (failConnection_ensures hcodec hsame.idle e).mono
      rintro r u ⟨rfl,hwrote⟩
      refine .inr ⟨[],?_,?_,?_,?_⟩
      · rw [hparse,List.map_nil]
      · rw [hwrote.handled,hsame.handled,List.append_nil]
      · rw [hparse,hwrote.written,hsame.written,hstop]
        rfl
      · rw [hparse,hstop]
        rfl
    | @frame body _ hparse hshorter hsame =>
      rw [then_ok,ensures_bind,ensures_handleAgentFrame]
      intro response
      rw [then_ok,ensures_bind]
      refine (writeAgentJsonFrame_ensures (s := { t with handled := t.handled ++ [(body,response)] }) hcodec
        hsame.idle response).mono ?_
      rintro r u ⟨rfl,hwrote⟩
      have hstream : u.stream = t.stream := hwrote.stream
      have hrest : u.stream.length < turns := by rw [hstream]; omega
      refine (ih hrest hwrote.idle).mono fun r v h => h.imp_right ?_
      rintro ⟨more,hmore⟩
      exact ⟨_,hmore.cons hparse hsame hwrote⟩

end Frames

section Statement

variable {Response : Type} {codec : ResponseCodec Response} {stream : Bytes} {time turns : ℕ} {r : Result Unit}
  {t : Socket Response}

/-- The frames of the stream are handled and answered, unless a gap is still there when the deadline
of a read has come. -/
theorem connection_serves (hcodec : codec.Writable) (hturns : stream.length < turns)
    (hexec : Exec SocketStep (runAgentConnection codec turns).run (.start stream time) r t) (hlate : t.late = false) :
    Serves codec stream r t := by
  have hensures : Ensures (.after SocketStep) (runAgentConnection codec turns) (.start stream time)
      (OnTime fun r t => ∃ more, Continues codec (.start stream time) more r t) := by
    unfold runAgentConnection
    rw [ensures_bind,ensures_mapResult]
    apply ensures_setNonblocking
    rw [context_ok,then_ok,ensures_bind,ensures_attempt]
    exact ensures_authorizePeer (runAgentConnectionLoop_ensures hcodec hturns rfl)
  obtain hmissed | ⟨more,hbodies,hhandled,hwritten,hresult⟩ := hensures.of_exec hexec
  · rw [hlate] at hmissed
    cases hmissed
  · have hhandled : t.handled = more := hhandled
    exact ⟨hhandled ▸ hbodies,hhandled ▸ hwritten,hresult⟩

end Statement

section Concrete

/-- A peer that sends its next byte, of `left` ones that are left, at a set time. -/
def scripted (arrival : ℕ → ℕ) : (op : ConnectionOp Bytes) → Socket Bytes → op.Reply × Socket Bytes
  | .setNonblocking,s | .authorizePeer,s => (.ok (),s)
  | .now,s => (s.time,s.reading s.time)
  | .sleep,s => ((),{ s with time := s.time + agentPollInterval })
  | .read length,s =>
    if s.time < arrival s.stream.length then (.error .wouldBlock,s.blocked s.time)
    else (.ok ⟨s.stream.take (min length 1),by simp only [List.length_take]; omega⟩,
      s.received s.time (s.stream.drop (min length 1)))
  | .write bytes,s => (.ok ⟨bytes.length,Nat.le_refl _⟩,{ s with written := s.written ++ bytes })
  | .handleAgentFrame frame,s => (frame,{ s with handled := s.handled ++ [(frame,frame)] })

theorem scripted_step (arrival : ℕ → ℕ) (s : Socket Bytes) (op : ConnectionOp Bytes) :
    SocketStep s op (scripted arrival op s).1 (scripted arrival op s).2 := by
  cases op with
  | setNonblocking => exact .setNonblocking
  | authorizePeer => exact .authorizePeer
  | now => exact .now (Nat.le_refl _)
  | sleep => exact .sleep (Nat.le_refl _)
  | read length =>
    by_cases hearly : s.time < arrival s.stream.length
    · rw [show scripted arrival (.read length) s = (.error .wouldBlock,s.blocked s.time) from if_pos hearly]
      exact .wouldBlock (Nat.le_refl _) (.inl rfl)
    · rw [show scripted arrival (.read length) s = (.ok ⟨s.stream.take (min length 1),_⟩,
        s.received s.time (s.stream.drop (min length 1))) from if_neg hearly]
      refine .read ⟨(List.take_append_drop _ _).symm,?_,fun hnil hroom => ?_⟩ (Nat.le_refl _)
      · rw [List.length_take]
        omega
      · have hlen := congrArg List.length hnil
        rw [List.length_take,List.length_nil] at hlen
        exact List.length_eq_zero_iff.mp (by omega)
  | write bytes =>
    have h : SocketStep s (.write bytes) (.ok ⟨bytes.length,Nat.le_refl _⟩)
        { s with written := s.written ++ bytes.take bytes.length } := .write _ fun hne => List.length_pos_iff.mpr hne
    rw [List.take_length] at h
    exact h
  | handleAgentFrame frame => exact .handleAgentFrame frame

/-- Responses are bytes, cut off after eight of them, and every error has the same one. -/
def echoCodec : ResponseCodec Bytes where
  toVec response := .ok (response.take 8)
  agentErrorResponse _ := [255]

theorem echoCodec_writable : echoCodec.Writable := by
  intro response
  refine ⟨_,rfl,?_⟩
  rw [List.length_take]
  omega

theorem scripted_exec (arrival : ℕ → ℕ) (turns : ℕ) (stream : Bytes) :
    Exec SocketStep (runAgentConnection echoCodec turns).run (.start stream 0)
      (run (scripted arrival) (runAgentConnection echoCodec turns).run (.start stream 0)).1
      (run (scripted arrival) (runAgentConnection echoCodec turns).run (.start stream 0)).2 := by
  refine Exec.mono ?_ ((exec_perform _).mpr rfl)
  rintro s op r t hperform
  have h := scripted_step arrival s op
  rwa [hperform] at h

theorem parseFrames_seven : parseFrames [0,0,0,1,7] = ([[7]],.ended) := by
  rw [show ([0,0,0,1,7] : Bytes) = [0,0,0,1] ++ [7] from rfl,parseFrames_append _ rfl,if_neg (by decide),if_neg (by decide),
    parseFrames_short (by decide)]
  rfl

/-- A frame of one byte that arrives at once. -/
theorem connection_serves_atOnce : ∃ r t, Exec SocketStep (runAgentConnection echoCodec 6).run (.start [0,0,0,1,7] 0) r t ∧
    Serves echoCodec [0,0,0,1,7] r t :=
  ⟨_,_,scripted_exec (fun _ => 0) 6 [0,0,0,1,7],
    connection_serves echoCodec_writable (by decide) (scripted_exec (fun _ => 0) 6 [0,0,0,1,7]) (by decide +kernel)⟩

/-- The second byte comes after 3.4 seconds and the third one 3.4 seconds later, past the deadline. -/
theorem slowGaps : ∃ r t, Exec SocketStep (runAgentConnection echoCodec 6).run (.start [0,0,0,1,7] 0) r t ∧
    t.longestGap < agentReadTimeout ∧ ¬ Serves echoCodec [0,0,0,1,7] r t :=
  ⟨_,_,scripted_exec (fun left => (5 - left)*3400) 6 [0,0,0,1,7],by decide +kernel,by
    intro h
    have hhandled := congrArg List.length h.handled
    rw [parseFrames_seven] at hhandled
    exact absurd hhandled (by decide +kernel)⟩

end Concrete
end Avault.Agent.Connection
