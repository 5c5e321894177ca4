import OnlineChat.Framing
import OnlineChat.Server.Capacity

/-!
# What a refused packet leaves behind

`sendLocked` queues the packet before it looks at the length of the queue, and its callers
take a refusal for "not sent".  The packet stays in the queue, and the next drain that the
socket lets through writes it.
-/

namespace OnlineChat

open MiniJson ChatServer SendSide

variable {c : SendSide} {body user : Bytes} {ts : Int} {results : List WriteResult}

/-! ## Refusals -/

/-- The connection is open, and the packet would make its queue longer than the cap. -/
def Overflows (c : SendSide) (body : Bytes) : Prop :=
  c.isOpen = true ∧ kSendQueueCap < c.outbuf.length + (makeWireFrame body).length

/-- Nothing is left of the packet that a section has refused: the queue is as it was
before, and whatever the connection does afterwards, what is taken out of the queue is what
would be taken out of it without the section. -/
structure LeavesNothing (c : SendSide) (refused : Section) : Prop where
  outbuf : refused.side.outbuf = c.outbuf
  stream : ∀ steps : List SendStep,
    Write.streamed (refused.writes ++ (Channel.run { side := refused.side } steps).wire) =
      Write.streamed (Channel.run { side := c } steps).wire

theorem sendLocked_overflows (overflows : Overflows c body) :
    c.sendLocked body user ts results =
      ⟨false, { c with outbuf := c.outbuf ++ makeWireFrame body },
        ({ c with outbuf := c.outbuf ++ makeWireFrame body } : SendSide).notifyOverpressure
          user ts results⟩ := by
  unfold sendLocked
  rw [if_neg (by simp [overflows.1])]
  simp only [List.length_append]
  rw [if_pos overflows.2]

theorem sendRelay_eq_sendLocked {obj : Object} {originSeq : Int} (isOpen : c.isOpen = true)
    (short : bodyOf obj originSeq = some body) :
    c.sendRelay obj originSeq user ts results = c.sendLocked body user ts results := by
  unfold sendRelay
  rw [if_neg (by simp [isOpen])]
  simp only [short]

/-- A notice takes nothing out of the queue. -/
theorem streamed_notifyOverpressure (c : SendSide) (user : Bytes) (ts : Int)
    (results : List WriteResult) :
    Write.streamed (c.notifyOverpressure user ts results) = [] := by
  unfold notifyOverpressure
  split <;> rfl

/-- The round of `monitorLoop` in which the socket takes `n` bytes. -/
def drainsAll (n : Nat) : SendStep :=
  { op := .drainSlow, username := [], ts := 0, results := [.accepted n] }

/-- The queue goes out, and the connection is not kicked. -/
theorem drainSlow_all {n : Nat} (isOpen : c.isOpen = true) (nonempty : c.outbuf ≠ [])
    (fits : c.outbuf.length ≤ n) :
    c.drainSlow user ts [.accepted n] = ⟨true, { c with outbuf := [] }, [.stream c.outbuf]⟩ := by
  unfold drainSlow
  rw [drainOutLocked_all isOpen nonempty fits]
  rfl

theorem run_drainsAll {n : Nat} (isOpen : c.isOpen = true) (fits : c.outbuf.length ≤ n) :
    Write.streamed (Channel.run { side := c } [drainsAll n]).wire = c.outbuf := by
  by_cases empty : c.outbuf = []
  · have drained : c.drainOutLocked [.accepted n] = (⟨true, c, []⟩, [.accepted n]) := by
      unfold drainOutLocked
      exact if_pos empty
    have quiet : c.drainSlow [] 0 [.accepted n] = ⟨true, c, []⟩ := by
      unfold drainSlow
      rw [drained]
      exact if_pos ⟨rfl, by simp [empty]⟩
    show Write.streamed ([] ++ (c.drainSlow [] 0 [.accepted n]).writes) = c.outbuf
    rw [quiet, empty]
    rfl
  · show Write.streamed ([] ++ (c.drainSlow [] 0 [.accepted n]).writes) = c.outbuf
    rw [drainSlow_all isOpen empty fits]
    exact List.append_nil c.outbuf

/-- The drain behind a refusal writes the refused packet. -/
theorem drained_of_overflows (overflows : Overflows c body) {n : Nat}
    (fits : (c.outbuf ++ makeWireFrame body).length ≤ n) :
    Write.streamed ((c.sendLocked body user ts results).writes ++
      (Channel.run { side := (c.sendLocked body user ts results).side } [drainsAll n]).wire) =
        c.outbuf ++ makeWireFrame body := by
  rw [sendLocked_overflows overflows]
  dsimp only
  rw [Channel.streamed_append, streamed_notifyOverpressure, List.nil_append]
  exact run_drainsAll (c := { c with outbuf := c.outbuf ++ makeWireFrame body }) overflows.1 fits

/-- A refusal for the cap always leaves something: in the queue, and in what is written
later. -/
theorem not_leavesNothing (overflows : Overflows c body) :
    (c.sendLocked body user ts results).side.outbuf ≠ c.outbuf ∧
      ∃ steps : List SendStep,
        Write.streamed ((c.sendLocked body user ts results).writes ++
          (Channel.run { side := (c.sendLocked body user ts results).side } steps).wire) ≠
        Write.streamed (Channel.run { side := c } steps).wire := by
  have differs : c.outbuf ++ makeWireFrame body ≠ c.outbuf := by
    intro same
    exact makeWireFrame_ne_nil body (List.append_right_eq_self.mp same)
  constructor
  · rw [sendLocked_overflows overflows]
    exact differs
  · refine ⟨[drainsAll (c.outbuf ++ makeWireFrame body).length], ?_⟩
    rw [drained_of_overflows overflows le_rfl, run_drainsAll overflows.1]
    · exact differs
    · simp

/-- Every refusal of the packet for the cap, by `sendLocked` or by a `sendRelay` of a
message or of an offline row, leaves nothing behind. -/
def RefusesCleanly (c : SendSide) (body : Bytes) : Prop :=
  ∀ (user : Bytes) (ts : Int) (results : List WriteResult), Overflows c body →
    ((c.sendLocked body user ts results).ok = false →
      LeavesNothing c (c.sendLocked body user ts results)) ∧
    ∀ (obj : Object) (originSeq : Int), bodyOf obj originSeq = some body →
      (c.sendRelay obj originSeq user ts results).ok = false →
        LeavesNothing c (c.sendRelay obj originSeq user ts results)

/-- A refused packet leaves nothing behind on a connection that is closed or whose queue
has room for it: there it is not refused for the cap.  Everywhere else it stays queued. -/
theorem refusesCleanly_iff (c : SendSide) (body : Bytes) :
    RefusesCleanly c body ↔
      c.isOpen = false ∨ c.outbuf.length + (makeWireFrame body).length ≤ kSendQueueCap := by
  constructor
  · intro cleanly
    by_contra full
    obtain ⟨isOpen, long⟩ := not_or.mp full
    have overflows : Overflows c body :=
      ⟨Bool.eq_true_of_not_eq_false isOpen, Nat.lt_of_not_le long⟩
    have refused : (c.sendLocked body [] 0 []).ok = false := by rw [sendLocked_overflows overflows]
    have left := (cleanly [] 0 [] overflows).1 refused
    exact (not_leavesNothing overflows).1 left.outbuf
  · rintro (closed | fits) user ts results ⟨isOpen, long⟩
    · rw [closed] at isOpen
      cases isOpen
    · exact absurd long (Nat.not_lt.mpr fits)

/-! ## A private message -/

/-- A private message from alice to bob. -/
def letter : Object :=
  messageFrame (bytes "alice") (bytes "bob") [] (List.replicate 10000 97) 1

/-- Bob has not read 25 letters. -/
def backlog : SendSide :=
  { outbuf :=
      (List.replicate 25 (makeWireFrame (serialize (letter.setNum (bytes "seq") 1)))).flatten }

theorem length_letter :
    (makeWireFrame (serialize (letter.setNum (bytes "seq") 1))).length = 10094 := by
  rw [letter, length_live, relaySize, escapeString_replicate, List.length_replicate]
  decide +kernel

theorem length_backlog : backlog.outbuf.length = 252350 := by
  show (List.replicate 25 (makeWireFrame _)).flatten.length = 252350
  rw [List.length_flatten, List.map_replicate, length_letter]
  rfl

theorem overflows_backlog : Overflows backlog (serialize (letter.setNum (bytes "seq") 1)) := by
  have queued := length_backlog
  have packet := length_letter
  refine ⟨rfl, ?_⟩
  unfold kSendQueueCap
  omega

/-- The next letter is refused, so that it becomes an offline row, and the next round of
`monitorLoop` delivers it all the same. -/
theorem refused_and_delivered :
    let refused := backlog.sendRelay letter 1 (bytes "bob") 1 [.wouldBlock]
    let letters := backlog.outbuf ++ makeWireFrame (serialize (letter.setNum (bytes "seq") 1))
    refused.ok = false ∧
      Write.streamed (refused.writes ++
        (Channel.run { side := refused.side } [drainsAll letters.length]).wire) = letters ∧
      ¬ RefusesCleanly backlog (serialize (letter.setNum (bytes "seq") 1)) := by
  intro refused letters
  have overflows := overflows_backlog
  have short : bodyOf letter 1 = some (serialize (letter.setNum (bytes "seq") 1)) := by
    have length := length_letter
    rw [length_makeWireFrame] at length
    unfold bodyOf kMaxFrame
    rw [if_neg (by omega)]
  have section' : refused = backlog.sendLocked (serialize (letter.setNum (bytes "seq") 1))
      (bytes "bob") 1 [.wouldBlock] := sendRelay_eq_sendLocked rfl short
  rw [section']
  refine ⟨by rw [sendLocked_overflows overflows], drained_of_overflows overflows le_rfl, ?_⟩
  intro cleanly
  rcases (refusesCleanly_iff _ _).mp cleanly with closed | fits
  · cases closed
  · exact absurd overflows.2 (Nat.not_lt.mpr fits)

end OnlineChat
