import Avault.Agent.Framing
import Avault.Foundation.Interleaving

/-! A connection with any peer and any socket: reads and writes may fail at any point, the peer may
be refused, and the clock may show anything. -/
namespace Avault.Agent.Connection
open Foundation
open Foundation.Program

variable {Response : Type}

/-- What a peer has sent and the connection has not read, and what the connection has written. -/
structure Peer where
  unread : Bytes
  written : Bytes

/-- A read returns nothing only at the end of the stream, and never fails with an end of its own. -/
inductive PeerStep : Peer → (op : ConnectionOp Response) → op.Reply → Peer → Prop
  | setNonblocking {s} (r : Result Unit) : PeerStep s .setNonblocking r s
  | authorizePeer {s} (r : Result Unit) : PeerStep s .authorizePeer r s
  | now {s} (n : ℕ) : PeerStep s .now n s
  | sleep {s} : PeerStep s .sleep () s
  | read {s length chunk rest} (h : Takes length s.unread chunk rest) :
    PeerStep s (.read length) (.ok ⟨chunk,h.fits⟩) { s with unread := rest }
  | readFailed {s length err} : err ≠ .unexpectedEof → PeerStep s (.read length) (.error err) s
  | write {s bytes} (n : {n : ℕ // n ≤ bytes.length}) :
    PeerStep s (.write bytes) (.ok n) { s with written := s.written ++ bytes.take n.val }
  | writeFailed {s bytes} (err : SocketError) : PeerStep s (.write bytes) (.error err) s
  | handleAgentFrame {s frame} (response : Response) : PeerStep s (.handleAgentFrame frame) response s

abbrev ConnectionCalls (Response : Type) : Type := History (ConnectionOp Response) ConnectionOp.Reply

/-- The frames that were handled, with their responses. -/
def handled : ConnectionCalls Response → List (Bytes × Response)
  | [] => []
  | ⟨.handleAgentFrame frame,response⟩::h => handled h ++ [((frame,response) : Bytes × Response)]
  | ⟨_,_⟩::h => handled h

variable (codec : ResponseCodec Response) (stream : Bytes)

def answers (h : ConnectionCalls Response) : Bytes := ((handled h).map fun frame => frameOf codec frame.2).flatten

/-- Nothing but answers goes out, in order, and at most one error frame behind them. -/
structure Confined (h : ConnectionCalls Response) (written : Bytes) : Prop where
  frames : (handled h).map Prod.fst <+: (parseFrames stream).1
  bytes : ∃ err : Option Error,
    written <+: answers codec h ++ err.elim [] fun e => frameOf codec (codec.agentErrorResponse e)

/-- A frame is handled when all earlier ones are answered, in its turn, and for an authorized peer. -/
structure InTurn (h : ConnectionCalls Response) (frame : Bytes) (s : Peer) : Prop where
  next : (handled h).map Prod.fst ++ [frame] <+: (parseFrames stream).1
  answered : s.written = answers codec h
  authorized : ⟨.authorizePeer,.ok ()⟩ ∈ h

def Exchange (h : ConnectionCalls Response) (op : ConnectionOp Response) (s : Peer) : Prop :=
  Confined codec stream h s.written ∧ ∀ frame, op = .handleAgentFrame frame → InTurn codec stream h frame s

/-- What a connection has done when it is over. -/
structure Over (r : Result Unit) (v : ConnectionCalls Response × Peer) : Prop where
  confined : Confined codec stream v.1 v.2.written
  complete : r = .ok () → parseFrames stream = ((handled v.1).map Prod.fst,.ended) ∧ v.2.written = answers codec v.1

/-- Between two frames. -/
structure Between (h : ConnectionCalls Response) (s : Peer) : Prop where
  frames : parseFrames stream = ((handled h).map Prod.fst ++ (parseFrames s.unread).1,(parseFrames s.unread).2)
  answered : s.written = answers codec h
  authorized : ⟨.authorizePeer,.ok ()⟩ ∈ h

section Calls

variable {codec stream} {α ε : Type} {h : ConnectionCalls Response} {s : Peer}

abbrev AnyPeer (codec : ResponseCodec Response) (stream : Bytes) :
    Transformer (ConnectionOp Response) ConnectionOp.Reply (ConnectionCalls Response × Peer) :=
  .watched PeerStep (Exchange codec stream)

theorem ensures_outcome {x : ConnectionM Response SocketError α}
    {Q : Except Error (Except SocketError α) → ConnectionCalls Response × Peer → Prop} :
    Ensures (AnyPeer codec stream) (outcomeOf x) (h,s) Q ↔
      Ensures (AnyPeer codec stream) x (h,s) fun r v => Q (.ok r) v := by
  have hrun : (outcomeOf x).run = x.run >>= fun r => done (.ok r) := rfl
  unfold Ensures
  rw [hrun,wp_bind]
  rfl

theorem ensures_anyNow {Q : Except SocketError ℕ → ConnectionCalls Response × Peer → Prop}
    (hconfined : Confined codec stream h s.written) (hnext : ∀ n, Q (.ok n) (⟨.now,n⟩::h,s)) :
    Ensures (AnyPeer codec stream) instantNow (h,s) Q := by
  refine ⟨⟨hconfined,nofun⟩,fun r t hstep => ?_⟩
  cases hstep with
  | now => exact hnext _

theorem ensures_anySleep {Q : Except SocketError Unit → ConnectionCalls Response × Peer → Prop}
    (hconfined : Confined codec stream h s.written) (hnext : Q (.ok ()) (⟨.sleep,()⟩::h,s)) :
    Ensures (AnyPeer codec stream) sleep (h,s) Q := by
  refine ⟨⟨hconfined,nofun⟩,fun r t hstep => ?_⟩
  cases hstep with
  | sleep => exact hnext

theorem ensures_anyRead {length : ℕ}
    {Q : Except SocketError {bytes : Bytes // bytes.length ≤ length} → ConnectionCalls Response × Peer → Prop}
    (hconfined : Confined codec stream h s.written)
    (hread : ∀ chunk rest, (htakes : Takes length s.unread chunk rest) →
      Q (.ok ⟨chunk,htakes.fits⟩) (⟨.read length,.ok ⟨chunk,htakes.fits⟩⟩::h,{ s with unread := rest }))
    (hfailed : ∀ err, err ≠ .unexpectedEof → Q (.error err) (⟨.read length,.error err⟩::h,s)) :
    Ensures (AnyPeer codec stream) (read length) (h,s) Q := by
  refine ⟨⟨hconfined,nofun⟩,fun r t hstep => ?_⟩
  cases hstep with
  | read htakes => exact hread _ _ htakes
  | readFailed herr => exact hfailed _ herr

theorem ensures_anyWrite {bytes : Bytes}
    {Q : Except SocketError {n : ℕ // n ≤ bytes.length} → ConnectionCalls Response × Peer → Prop}
    (hconfined : Confined codec stream h s.written)
    (hwrite : ∀ n : {n : ℕ // n ≤ bytes.length},
      Q (.ok n) (⟨.write bytes,.ok n⟩::h,{ s with written := s.written ++ bytes.take n.val }))
    (hfailed : ∀ err, Q (.error err) (⟨.write bytes,.error err⟩::h,s)) :
    Ensures (AnyPeer codec stream) (write bytes) (h,s) Q := by
  refine ⟨⟨hconfined,nofun⟩,fun r t hstep => ?_⟩
  cases hstep with
  | write n => exact hwrite n
  | writeFailed err => exact hfailed err

theorem ensures_anyHandle {frame : Bytes} {Q : Result Response → ConnectionCalls Response × Peer → Prop}
    (hconfined : Confined codec stream h s.written) (hturn : InTurn codec stream h frame s)
    (hnext : ∀ response : Response, Q (.ok response) (⟨.handleAgentFrame frame,response⟩::h,s)) :
    Ensures (AnyPeer codec stream) (handleAgentFrame frame) (h,s) Q := by
  refine ⟨⟨hconfined,fun frame' hframe => ?_⟩,fun r t hstep => ?_⟩
  · obtain rfl := ConnectionOp.handleAgentFrame.inj hframe
    exact hturn
  · cases hstep
    exact hnext _

theorem ensures_anyNonblocking {Q : Result Unit → ConnectionCalls Response × Peer → Prop}
    (hconfined : Confined codec stream h s.written) (hnext : ∀ r, Q r (⟨.setNonblocking,r⟩::h,s)) :
    Ensures (AnyPeer codec stream) setNonblocking (h,s) Q := by
  refine ⟨⟨hconfined,nofun⟩,fun r t hstep => ?_⟩
  cases hstep
  exact hnext _

theorem ensures_anyAuthorize {Q : Result Unit → ConnectionCalls Response × Peer → Prop}
    (hconfined : Confined codec stream h s.written) (hnext : ∀ r, Q r (⟨.authorizePeer,r⟩::h,s)) :
    Ensures (AnyPeer codec stream) authorizePeer (h,s) Q := by
  refine ⟨⟨hconfined,nofun⟩,fun r t hstep => ?_⟩
  cases hstep
  exact hnext _

end Calls

section Read

variable {codec stream} {h : ConnectionCalls Response} {s : Peer} {room length turns deadline : ℕ} {out bytes : Bytes}

/-- Nothing is handled and nothing is written. -/
structure Quiet (h : ConnectionCalls Response) (s : Peer) (v : ConnectionCalls Response × Peer) : Prop where
  later : h <:+ v.1
  handled : handled v.1 = Connection.handled h
  written : v.2.written = s.written

theorem Quiet.refl : Quiet h s (h,s) := ⟨List.suffix_refl h,rfl,rfl⟩

theorem Quiet.trans {v w : ConnectionCalls Response × Peer} (hv : Quiet h s v) (hw : Quiet v.1 v.2 w) : Quiet h s w :=
  ⟨hv.later.trans hw.later,hw.handled.trans hv.handled,hw.written.trans hv.written⟩

theorem Quiet.confined {v : ConnectionCalls Response × Peer} (hv : Quiet h s v)
    (hconfined : Confined codec stream h s.written) : Confined codec stream v.1 v.2.written := by
  obtain ⟨hframes,err,hbytes⟩ := hconfined
  refine ⟨hv.handled ▸ hframes,err,?_⟩
  rw [hv.written,answers,hv.handled]
  exact hbytes

/-- The room is filled from the stream, or the stream was too short, or the read has failed. -/
inductive AnyRead (h : ConnectionCalls Response) (s : Peer) (room : ℕ) (out : Bytes) :
    Except SocketError Bytes → ConnectionCalls Response × Peer → Prop
  | full {chunk v} : chunk.length = room → s.unread = chunk ++ v.2.unread → Quiet h s v → AnyRead h s room out (.ok (out ++ chunk)) v
  | ended {v} : s.unread.length < room → Quiet h s v → AnyRead h s room out (.error .unexpectedEof) v
  | failed {err v} : err ≠ .unexpectedEof → Quiet h s v → AnyRead h s room out (.error err) v

theorem AnyRead.before {v : ConnectionCalls Response × Peer} {r : Except SocketError Bytes}
    {w : ConnectionCalls Response × Peer} (hv : Quiet h s v) (hsame : v.2.unread = s.unread)
    (hread : AnyRead v.1 v.2 room out r w) : AnyRead h s room out r w := by
  cases hread with
  | full hlen hsplit hquiet => exact .full hlen (hsame ▸ hsplit) (hv.trans hquiet)
  | ended hshort hquiet => exact .ended (hsame ▸ hshort) (hv.trans hquiet)
  | failed herr hquiet => exact .failed herr (hv.trans hquiet)

theorem AnyRead.received {chunk rest : Bytes} {r : Except SocketError Bytes} {v w : ConnectionCalls Response × Peer}
    (htakes : Takes room s.unread chunk rest) (hv : Quiet h s v) (hrest : v.2.unread = rest)
    (hread : AnyRead v.1 v.2 (room - chunk.length) (out ++ chunk) r w) : AnyRead h s room out r w := by
  have hfits := htakes.fits
  have hsplit := htakes.split
  cases hread with
  | @full more _ hlen hstream hquiet =>
    rw [List.append_assoc]
    refine .full (by rw [List.length_append]; omega) ?_ (hv.trans hquiet)
    rw [hsplit,← hrest,hstream,List.append_assoc]
  | ended hshort hquiet =>
    refine .ended ?_ (hv.trans hquiet)
    rw [hsplit,List.length_append,← hrest]
    omega
  | failed herr hquiet => exact .failed herr (hv.trans hquiet)

theorem AnyRead.nothing (hzero : room = 0) : AnyRead h s room out (.ok out) (h,s) := by
  have hfull : AnyRead h s room out (.ok (out ++ [])) (h,s) := .full hzero.symm rfl .refl
  rwa [List.append_nil] at hfull

theorem readExactAgentLoop_any (hconfined : Confined codec stream h s.written) :
    Ensures (AnyPeer codec stream) (readExactAgentLoop deadline turns room out) (h,s) (AnyRead h s room out) := by
  induction turns generalizing h s room out with
  | zero =>
    unfold readExactAgentLoop
    exact ensures_ite.mpr ⟨AnyRead.nothing,fun _ => .failed (fun h => by cases h) .refl⟩
  | succ turns ih =>
    unfold readExactAgentLoop
    refine ensures_ite.mpr ⟨AnyRead.nothing,fun hroom => ?_⟩
    rw [ensures_bind,ensures_attempt]
    apply ensures_anyRead hconfined
    · intro chunk rest htakes
      have hquiet : Quiet h s (⟨.read room,.ok ⟨chunk,htakes.fits⟩⟩::h,{ s with unread := rest }) :=
        ⟨List.suffix_cons _ _,rfl,rfl⟩
      refine ensures_ite.mpr ⟨fun hnil => ?_,fun _ => ?_⟩
      · obtain rfl : chunk = [] := hnil
        have hstream := htakes.ended rfl (Nat.pos_of_ne_zero hroom)
        exact .ended (by rw [hstream]; exact Nat.pos_of_ne_zero hroom) hquiet
      · exact (ih (hquiet.confined hconfined)).mono fun r w hread => hread.received htakes hquiet rfl
    · intro err herr
      have hquiet : Quiet h s (⟨.read room,.error err⟩::h,s) := ⟨List.suffix_cons _ _,rfl,rfl⟩
      refine ensures_ite.mpr ⟨fun _ => ?_,fun _ => .failed herr hquiet⟩
      rw [ensures_bind]
      apply ensures_anyNow (hquiet.confined hconfined)
      intro n
      have hquiet' : Quiet h s (⟨.now,n⟩::⟨.read room,.error err⟩::h,s) := hquiet.trans ⟨List.suffix_cons _ _,rfl,rfl⟩
      refine ensures_ite.mpr ⟨fun _ => .failed (fun h => by cases h) hquiet',fun _ => ?_⟩
      rw [ensures_bind]
      apply ensures_anySleep (hquiet'.confined hconfined)
      have hslept : Quiet h s (⟨.sleep,()⟩::⟨.now,n⟩::⟨.read room,.error err⟩::h,s) :=
        hquiet'.trans ⟨List.suffix_cons _ _,rfl,rfl⟩
      exact (ih (hslept.confined hconfined)).mono fun r w hread => hread.before hslept rfl

theorem readExactAgent_any (hconfined : Confined codec stream h s.written) :
    Ensures (AnyPeer codec stream) (readExactAgent length) (h,s) (AnyRead h s length []) := by
  unfold readExactAgent
  rw [ensures_bind]
  apply ensures_anyNow hconfined
  intro n
  have hquiet : Quiet h s (⟨.now,n⟩::h,s) := ⟨List.suffix_cons _ _,rfl,rfl⟩
  exact (readExactAgentLoop_any (hquiet.confined hconfined)).mono fun r w hread => hread.before hquiet rfl

/-- A frame is read off the stream, or the stream has ended, or there is no frame to be had. -/
inductive AnyFrame (h : ConnectionCalls Response) (s : Peer) :
    Result (Option Bytes) → ConnectionCalls Response × Peer → Prop
  | frame {body v} : parseFrames s.unread = (body::(parseFrames v.2.unread).1,(parseFrames v.2.unread).2) → Quiet h s v →
    AnyFrame h s (.ok (some body)) v
  | ended {v} : parseFrames s.unread = ([],.ended) → Quiet h s v → AnyFrame h s (.ok none) v
  | failed {e v} : Quiet h s v → AnyFrame h s (.error e) v

theorem readAgentFrame_any (hconfined : Confined codec stream h s.written) :
    Ensures (AnyPeer codec stream) readAgentFrame (h,s) (AnyFrame h s) := by
  unfold readAgentFrame
  rw [ensures_bind,ensures_outcome]
  apply (readExactAgent_any hconfined).mono
  intro r v hread
  rw [then_ok]
  cases hread with
  | ended hshort hquiet => exact .ended (parseFrames_short hshort) hquiet
  | failed herr hquiet =>
    exact ensures_ite.mpr ⟨fun heof => (herr (Except.error.inj heof)).elim,fun _ => .failed hquiet⟩
  | @full lenBuf _ hlen hstream hquiet =>
    have hparse := parseFrames_append v.2.unread hlen
    rw [← hstream] at hparse
    refine ensures_ite.mpr ⟨fun heof => (ok_ne_eof heof).elim,fun _ => ?_⟩
    rw [socketContext,liftResult_ok_bind,List.nil_append]
    refine ensures_check.mpr ⟨fun _ hok => ?_,fun e _ => .failed hquiet⟩
    rw [if_neg (bailIf_eq_ok.mp hok)] at hparse
    rw [ensures_bind,ensures_outcome]
    apply (readExactAgent_any (hquiet.confined hconfined)).mono
    intro r w hread
    cases hread with
    | ended hshort hquiet' => exact .failed (hquiet.trans hquiet')
    | failed herr hquiet' => exact .failed (hquiet.trans hquiet')
    | @full body _ hbody hrest hquiet' =>
      have hlong : ¬ v.2.unread.length < readBigEndian lenBuf := by
        rw [hrest,List.length_append]
        omega
      have htake : v.2.unread.take (readBigEndian lenBuf) = body := by rw [hrest]; exact List.take_left' hbody
      have hdrop : v.2.unread.drop (readBigEndian lenBuf) = w.2.unread := by rw [hrest]; exact List.drop_left' hbody
      rw [if_neg hlong,htake,hdrop] at hparse
      exact .frame hparse (hquiet.trans hquiet')

end Read

section Write

variable {codec stream} {h : ConnectionCalls Response} {s : Peer} {turns deadline : ℕ} {bytes more : Bytes}

/-- Some of the bytes are written, and all of them if the write succeeds. -/
structure Sent (h : ConnectionCalls Response) (s : Peer) (bytes : Bytes) {ε : Type} (r : Except ε Unit)
    (v : ConnectionCalls Response × Peer) : Prop where
  later : h <:+ v.1
  handled : handled v.1 = handled h
  unread : v.2.unread = s.unread
  part : ∃ part, part <+: bytes ∧ v.2.written = s.written ++ part ∧ (r = .ok () → part = bytes)

theorem Sent.nothing {ε : Type} {r : Except ε Unit} (hr : r = .ok () → bytes = []) : Sent h s bytes r (h,s) :=
  ⟨List.suffix_refl h,rfl,rfl,[],List.nil_prefix,(List.append_nil _).symm,fun hok => (hr hok).symm⟩

/-- Whatever of the bytes goes out, only answers do. -/
theorem Confined.shorter {written written' : Bytes} (hconfined : Confined codec stream h written) (hbegins : written' <+: written) :
    Confined codec stream h written' := by
  obtain ⟨hframes,err,hbytes⟩ := hconfined
  exact ⟨hframes,err,hbegins.trans hbytes⟩

theorem Confined.congr {h' : ConnectionCalls Response} {written : Bytes} (hconfined : Confined codec stream h written)
    (hhandled : handled h' = handled h) : Confined codec stream h' written := by
  obtain ⟨hframes,err,hbytes⟩ := hconfined
  refine ⟨hhandled ▸ hframes,err,?_⟩
  rw [answers,hhandled]
  exact hbytes

theorem Sent.before {h' : ConnectionCalls Response} {ε : Type} {r : Except ε Unit} {v : ConnectionCalls Response × Peer}
    (hsent : Sent h' s bytes r v) (hlater : h <:+ h') (hhandled : Connection.handled h' = Connection.handled h) :
    Sent h s bytes r v :=
  ⟨hlater.trans hsent.later,hsent.handled.trans hhandled,hsent.unread,hsent.part⟩

/-- More bytes behind those that were written. -/
theorem Sent.append {ε : Type} {r : Except ε Unit} {v w : ConnectionCalls Response × Peer}
    (hv : Sent h s bytes (.ok () : Except ε Unit) v) (hw : Sent v.1 v.2 more r w) : Sent h s (bytes ++ more) r w := by
  obtain ⟨part,hpart,hwritten,hall⟩ := hv.part
  obtain rfl := hall rfl
  obtain ⟨part',hpart',hwritten',hall'⟩ := hw.part
  refine ⟨hv.later.trans hw.later,hw.handled.trans hv.handled,hw.unread.trans hv.unread,part ++ part',?_,?_,fun hok => ?_⟩
  · exact (List.prefix_append_right_inj part).mpr hpart'
  · rw [hwritten',hwritten,List.append_assoc]
  · rw [hall' hok]

theorem writeAllAgentLoop_any (hconfined : Confined codec stream h (s.written ++ bytes)) :
    Ensures (AnyPeer codec stream) (writeAllAgentLoop deadline turns bytes) (h,s) (Sent h s bytes) := by
  induction turns generalizing h s bytes with
  | zero =>
    unfold writeAllAgentLoop
    exact ensures_ite.mpr ⟨fun hnil => .nothing fun _ => hnil,fun _ => .nothing fun h => by cases h⟩
  | succ turns ih =>
    unfold writeAllAgentLoop
    refine ensures_ite.mpr ⟨fun hnil => .nothing fun _ => hnil,fun _ => ?_⟩
    rw [ensures_bind,ensures_attempt]
    apply ensures_anyWrite (hconfined.shorter (List.prefix_append _ _))
    · intro n
      have hfirst : Sent h s (bytes.take n.val) (.ok () : Except SocketError Unit)
          (⟨.write bytes,.ok n⟩::h,{ s with written := s.written ++ bytes.take n.val }) :=
        ⟨List.suffix_cons _ _,rfl,rfl,_,List.prefix_refl _,rfl,fun _ => rfl⟩
      refine ensures_ite.mpr ⟨fun _ => ?_,fun _ => ?_⟩
      · exact ⟨List.suffix_cons _ _,rfl,rfl,_,List.take_prefix _ _,rfl,fun h => by cases h⟩
      · rw [← List.take_append_drop n.val bytes,← List.append_assoc] at hconfined
        have hrest := ih (h := ⟨.write bytes,.ok n⟩::h) (s := { s with written := s.written ++ bytes.take n.val })
          (hconfined.congr rfl)
        refine hrest.mono fun r v hsent => ?_
        have hboth := hfirst.append hsent
        rwa [List.take_append_drop] at hboth
    · intro err
      refine ensures_ite.mpr ⟨fun _ => ?_,fun _ => ⟨List.suffix_cons _ _,rfl,rfl,[],List.nil_prefix,(List.append_nil _).symm,fun h => by cases h⟩⟩
      rw [ensures_bind]
      refine ensures_anyNow ((hconfined.shorter (List.prefix_append _ _)).congr rfl) fun n => ?_
      have hnow : h <:+ ⟨.now,n⟩::⟨.write bytes,.error err⟩::h := (List.suffix_cons _ _).trans (List.suffix_cons _ _)
      refine ensures_ite.mpr ⟨fun _ => ⟨hnow,rfl,rfl,[],List.nil_prefix,(List.append_nil _).symm,fun h => by cases h⟩,fun _ => ?_⟩
      rw [ensures_bind]
      refine ensures_anySleep ((hconfined.shorter (List.prefix_append _ _)).congr rfl) ?_
      refine (ih (h := ⟨.sleep,()⟩::⟨.now,n⟩::⟨.write bytes,.error err⟩::h) (hconfined.congr rfl)).mono fun r v hsent => ?_
      exact hsent.before (hnow.trans (List.suffix_cons _ _)) rfl

theorem writeAllAgent_any (hconfined : Confined codec stream h (s.written ++ bytes)) :
    Ensures (AnyPeer codec stream) (writeAllAgent bytes) (h,s) (Sent h s bytes) := by
  unfold writeAllAgent
  rw [ensures_bind]
  refine ensures_anyNow (hconfined.shorter (List.prefix_append _ _)) fun n => ?_
  refine (writeAllAgentLoop_any (h := ⟨.now,n⟩::h) (hconfined.congr rfl)).mono fun r v hsent => ?_
  exact hsent.before (List.suffix_cons _ _) rfl

/-- What a frame does from what one of its writes did. -/
theorem Sent.within {ε ε' : Type} {r : Except ε Unit} {r' : Except ε' Unit} {v : ConnectionCalls Response × Peer}
    (hsent : Sent h s bytes r v) (hbegins : bytes <+: more) (hr : r' = .ok () → r = .ok () ∧ bytes = more) :
    Sent h s more r' v := by
  obtain ⟨part,hpart,hwritten,hall⟩ := hsent.part
  refine ⟨hsent.later,hsent.handled,hsent.unread,part,hpart.trans hbegins,hwritten,fun hok => ?_⟩
  exact (hall (hr hok).1).trans (hr hok).2

theorem writeAgentFrame_any (hconfined : Confined codec stream h (s.written ++ field 4 bytes)) :
    Ensures (AnyPeer codec stream) (writeAgentFrame bytes) (h,s) (Sent h s (field 4 bytes)) := by
  unfold writeAgentFrame
  refine ensures_check.mpr ⟨fun _ _ => ?_,fun e _ => .nothing fun h => by cases h⟩
  have hfield : s.written ++ field 4 bytes = s.written ++ bigEndian 4 bytes.length ++ bytes := (List.append_assoc _ _ _).symm
  rw [hfield] at hconfined
  rw [ensures_bind,ensures_outcome]
  apply (writeAllAgent_any (hconfined.shorter (List.prefix_append _ _))).mono
  intro r v hlength
  rw [then_ok]
  cases r with
  | error e => exact hlength.within (List.prefix_append _ _) fun h => by cases h
  | ok u =>
    rw [socketContext,liftResult_ok_bind,ensures_bind,ensures_outcome]
    obtain ⟨part,-,hwritten,hall⟩ := hlength.part
    rw [hall rfl] at hwritten
    rw [← hwritten] at hconfined
    apply (writeAllAgent_any (hconfined.congr hlength.handled)).mono
    intro r w hbody
    rw [then_ok]
    cases r with
    | error e => exact (hlength.append hbody).within (List.prefix_refl _) fun h => by cases h
    | ok u => exact (hlength.append hbody).within (List.prefix_refl _) fun _ => ⟨rfl,rfl⟩

theorem writeAgentJsonFrame_any {value : Response} (hconfined : Confined codec stream h (s.written ++ frameOf codec value)) :
    Ensures (AnyPeer codec stream) (writeAgentJsonFrame codec value) (h,s) (Sent h s (frameOf codec value)) := by
  unfold writeAgentJsonFrame
  refine ensures_check.mpr ⟨fun bytes hbytes => ?_,fun e _ => .nothing nofun⟩
  have hframe : frameOf codec value = field 4 bytes := by
    rw [frameOf,context_eq_ok.mp hbytes]
    rfl
  rw [hframe] at hconfined ⊢
  exact writeAgentFrame_any hconfined

end Write

section Loop

variable {codec stream} {h : ConnectionCalls Response} {s : Peer} {v : ConnectionCalls Response × Peer} {turns : ℕ}

theorem Sent.confined {bytes : Bytes} {ε : Type} {r : Except ε Unit} (hsent : Sent h s bytes r v)
    (hconfined : Confined codec stream h (s.written ++ bytes)) : Confined codec stream v.1 v.2.written := by
  obtain ⟨part,hpart,hwritten,-⟩ := hsent.part
  rw [hwritten]
  exact (hconfined.shorter ((List.prefix_append_right_inj _).mpr hpart)).congr hsent.handled

/-- The last thing that goes out may be an error frame. -/
theorem failConnection_any (hframes : (handled h).map Prod.fst <+: (parseFrames stream).1)
    (hanswered : s.written = answers codec h) (err : Error) :
    Ensures (AnyPeer codec stream) (failConnection codec err) (h,s) (Over codec stream) := by
  have hconfined : Confined codec stream h (s.written ++ frameOf codec (codec.agentErrorResponse err)) :=
    ⟨hframes,some err,hanswered ▸ List.prefix_refl _⟩
  unfold failConnection
  rw [ensures_bind,ensures_attempt]
  apply (writeAgentJsonFrame_any hconfined).mono
  intro r v hsent
  exact ⟨hsent.confined hconfined,nofun⟩

theorem Between.confined (hbetween : Between codec stream h s) : Confined codec stream h s.written := by
  refine ⟨?_,none,?_⟩
  · rw [hbetween.frames]
    exact List.prefix_append _ _
  · rw [hbetween.answered]
    exact List.prefix_append _ _

theorem answers_handled {frame : Bytes} {response : Response} :
    answers codec (⟨.handleAgentFrame frame,response⟩::h) = answers codec h ++ frameOf codec response := by
  simp [answers,handled]

/-- By induction on the turns, of which every frame takes one. -/
theorem runAgentConnectionLoop_any (hbetween : Between codec stream h s) :
    Ensures (AnyPeer codec stream) (runAgentConnectionLoop codec turns) (h,s) (Over codec stream) := by
  induction turns generalizing h s with
  | zero => exact ⟨hbetween.confined,fun h => by cases h⟩
  | succ turns ih =>
    unfold runAgentConnectionLoop
    rw [ensures_bind,ensures_attempt]
    apply (readAgentFrame_any hbetween.confined).mono
    intro r v hread
    rw [then_ok]
    cases hread with
    | ended hparse hquiet =>
      refine ⟨hquiet.confined hbetween.confined,fun _ => ⟨?_,?_⟩⟩
      · rw [hbetween.frames,hparse,hquiet.handled,List.append_nil]
      · rw [hquiet.written,hbetween.answered,answers,answers,hquiet.handled]
    | failed hquiet =>
      apply failConnection_any
      · exact (hquiet.confined hbetween.confined).frames
      · rw [hquiet.written,hbetween.answered,answers,answers,hquiet.handled]
    | @frame body _ hparse hquiet =>
      have hframes : parseFrames stream =
          ((handled v.1).map Prod.fst ++ body::(parseFrames v.2.unread).1,(parseFrames v.2.unread).2) := by
        rw [hbetween.frames,hparse,hquiet.handled]
      have hanswered : v.2.written = answers codec v.1 := by
        rw [hquiet.written,hbetween.answered,answers,answers,hquiet.handled]
      have hauthorized := hquiet.later.subset hbetween.authorized
      rw [ensures_bind]
      apply ensures_anyHandle (hquiet.confined hbetween.confined)
      · refine ⟨?_,hanswered,hauthorized⟩
        rw [hframes]
        exact ⟨_,List.append_assoc _ _ _⟩
      · intro response
        have hhandled : (handled (⟨.handleAgentFrame body,response⟩::v.1)).map Prod.fst = (handled v.1).map Prod.fst ++ [body] := by
          simp [handled]
        have hconfined : Confined codec stream (⟨.handleAgentFrame body,response⟩::v.1)
            (v.2.written ++ frameOf codec response) := by
          refine ⟨?_,none,?_⟩
          · rw [hhandled,hframes]
            exact ⟨_,List.append_assoc _ _ _⟩
          · rw [answers_handled,hanswered]
            exact List.prefix_append _ _
        rw [then_ok,ensures_bind]
        apply (writeAgentJsonFrame_any hconfined).mono
        intro r w hsent
        cases r with
        | error e => exact ⟨hsent.confined hconfined,fun h => by cases h⟩
        | ok u =>
          obtain ⟨part,-,hwritten,hall⟩ := hsent.part
          apply ih
          refine ⟨?_,?_,hsent.later.subset (List.mem_cons_of_mem _ hauthorized)⟩
          · rw [hsent.handled,hhandled,hsent.unread,hframes,List.append_assoc]
            rfl
          · rw [hwritten,hall rfl,answers,hsent.handled,← answers,answers_handled,hanswered]

/-- Whatever the peer and the socket do, and wherever the connection is. -/
theorem runAgentConnection_any (turns : ℕ) (stream : Bytes) :
    Ensures (AnyPeer codec stream) (runAgentConnection codec turns) ([],⟨stream,[]⟩) (Over codec stream) := by
  have hstart : Confined codec stream ([] : ConnectionCalls Response) [] := ⟨List.nil_prefix,none,List.nil_prefix⟩
  unfold runAgentConnection
  rw [ensures_bind,ensures_mapResult]
  apply ensures_anyNonblocking hstart
  intro r
  cases r with
  | error e => exact ⟨hstart.congr rfl,nofun⟩
  | ok u =>
    rw [context_ok,then_ok,ensures_bind,ensures_attempt]
    refine ensures_anyAuthorize (hstart.congr rfl) fun r => ?_
    cases r with
    | error e =>
      apply failConnection_any
      · exact List.nil_prefix
      · rfl
    | ok u => exact runAgentConnectionLoop_any ⟨rfl,rfl,List.mem_cons_self⟩

end Loop

section Statement

variable {codec : ResponseCodec Response} {stream : Bytes} {turns : ℕ} {h : ConnectionCalls Response} {t : Peer}
  {q : Program (ConnectionOp Response) ConnectionOp.Reply (Result Unit)}

/-- At every point of a connection, whatever its peer and its socket do: nothing but answers goes
out, each frame is handled in its turn, and a connection that ends well has answered them all. -/
structure Kept (codec : ResponseCodec Response) (stream : Bytes) (h : ConnectionCalls Response)
    (q : Program (ConnectionOp Response) ConnectionOp.Reply (Result Unit)) (t : Peer) : Prop where
  confined : Confined codec stream h t.written
  inTurn : ∀ frame next, q = .request (.handleAgentFrame frame) next → InTurn codec stream h frame t
  completed : ∀ r, q = .done r → Over codec stream r (h,t)

theorem watched_any (hreaches : Reaches (runAgentConnection codec turns).run h q) (hsteps : Steps PeerStep ⟨stream,[]⟩ h t) :
    wp (AnyPeer codec stream) q (Over codec stream) (h,t) :=
  hreaches.watched hsteps (runAgentConnection_any turns stream)

theorem confined_of_wp (hwp : wp (AnyPeer codec stream) q (Over codec stream) (h,t)) :
    Confined codec stream h t.written := by
  cases q with
  | done r => exact hwp.confined
  | request op next => exact hwp.1.1

theorem connection_anyPeer (hreaches : Reaches (runAgentConnection codec turns).run h q)
    (hsteps : Steps PeerStep ⟨stream,[]⟩ h t) : Kept codec stream h q t := by
  have hwp := watched_any hreaches hsteps
  refine ⟨confined_of_wp hwp,?_,?_⟩
  · rintro frame next rfl
    exact hwp.1.2 frame rfl
  · rintro r rfl
    exact hwp

end Statement

/-- A peer whose second frame is about to be handled: the first one came after a read that would have blocked, and its
answer went out in two parts. -/
theorem connection_anyPeer_frame : ∃ h next, handled h = [([7],[7])] ∧ ⟨.read 4,.error .wouldBlock⟩ ∈ h ∧
    ⟨.write [0,0,0,1],.ok ⟨3,by decide⟩⟩ ∈ h ∧
    Kept echoCodec [0,0,0,1,7,0,0,0,1,8] h (.request (.handleAgentFrame [8]) next) ⟨[],[0,0,0,1,7]⟩ := by
  have hlength {b : UInt8} {rest : Bytes} : Takes 4 ([0,0,0,1] ++ b::rest) [0,0,0,1] (b::rest) := ⟨rfl,by decide,nofun⟩
  have hbody {b : UInt8} {rest : Bytes} : Takes 1 (b::rest) [b] rest := ⟨rfl,le_refl 1,nofun⟩
  have hblocked {s : Peer} : @PeerStep Bytes s (.read 4) (.error .wouldBlock) s := .readFailed nofun
  have hreaches : Reaches (runAgentConnection echoCodec 2).run [] _ := .nil
  have hsteps : Steps PeerStep (⟨[0,0,0,1,7,0,0,0,1,8],[]⟩ : Peer) ([] : ConnectionCalls Bytes) _ := .nil
  have ⟨hreaches,hsteps⟩ := hreaches.turn hsteps rfl (.setNonblocking (.ok ()))
  have ⟨hreaches,hsteps⟩ := hreaches.turn hsteps rfl (.authorizePeer (.ok ()))
  have ⟨hreaches,hsteps⟩ := hreaches.turn hsteps rfl (.now 0)
  have ⟨hreaches,hsteps⟩ := hreaches.turn hsteps rfl hblocked
  have ⟨hreaches,hsteps⟩ := hreaches.turn hsteps rfl (.now 0)
  have ⟨hreaches,hsteps⟩ := hreaches.turn hsteps rfl .sleep
  have ⟨hreaches,hsteps⟩ := hreaches.turn hsteps rfl (.read hlength)
  have ⟨hreaches,hsteps⟩ := hreaches.turn hsteps rfl (.now 0)
  have ⟨hreaches,hsteps⟩ := hreaches.turn hsteps rfl (.read hbody)
  have ⟨hreaches,hsteps⟩ := hreaches.turn hsteps rfl (.handleAgentFrame [7])
  have ⟨hreaches,hsteps⟩ := hreaches.turn hsteps rfl (.now 0)
  have ⟨hreaches,hsteps⟩ := hreaches.turn hsteps rfl (.write ⟨3,by decide⟩)
  have ⟨hreaches,hsteps⟩ := hreaches.turn hsteps rfl (.write ⟨1,by decide⟩)
  have ⟨hreaches,hsteps⟩ := hreaches.turn hsteps rfl (.now 0)
  have ⟨hreaches,hsteps⟩ := hreaches.turn hsteps rfl (.write ⟨1,by decide⟩)
  have ⟨hreaches,hsteps⟩ := hreaches.turn hsteps rfl (.now 0)
  have ⟨hreaches,hsteps⟩ := hreaches.turn hsteps rfl (.read hlength)
  have ⟨hreaches,hsteps⟩ := hreaches.turn hsteps rfl (.now 0)
  have ⟨hreaches,hsteps⟩ := hreaches.turn hsteps rfl (.read hbody)
  exact ⟨_,_,rfl,List.mem_of_getElem? (i := 15) rfl,List.mem_of_getElem? (i := 7) rfl,connection_anyPeer hreaches hsteps⟩

end Avault.Agent.Connection
