import OnlineChat.Frame

/-!
# The two frame decoders

The server feeds a `FrameReader` chunk by chunk; the Python client reads exactly the
bytes it needs.  Both see the same bodies in a stream, however it is cut.
-/

namespace OnlineChat

namespace FrameReader

/-- Feed the chunks one by one and call `next` until it returns false after each. -/
def feedAll (r : FrameReader) : List Bytes → List Bytes × FrameReader
  | [] => ([], r)
  | chunk :: chunks =>
      let (bodies, r) := (r.feed chunk).readAll
      let (later, r) := r.feedAll chunks
      (bodies ++ later, r)

/-! ## Draining the reader -/

/-- The calls of `next` up to the first one that returns false: the bodies, and what
is left. -/
inductive Drains : FrameReader → List Bytes → FrameReader → Prop where
  | stuck {r r' : FrameReader} : r.next = (none, r') → Drains r [] r'
  | frame {r r' r'' : FrameReader} {body : Bytes} {bodies : List Bytes} :
      r.next = (some body, r') → Drains r' bodies r'' → Drains r (body :: bodies) r''

variable {r r' : FrameReader} {body more : Bytes} {bodies : List Bytes}

/-- A body that is taken out comes behind its length, which the limit allows. -/
theorem next_eq_some (taken : r.next = (some body, r')) :
    r.failed = false ∧ r'.failed = false ∧ r'.maxFrame = r.maxFrame ∧
      ∃ b0 b1 b2 b3, announced b0 b1 b2 b3 = body.length ∧ body.length ≤ r.maxFrame ∧
        r.buf = b0 :: b1 :: b2 :: b3 :: (body ++ r'.buf) := by
  unfold next at taken
  split at taken
  · cases taken
  next alive =>
    have alive : r.failed = false := by simpa using alive
    split at taken
    next b0 b1 b2 b3 rest buffered =>
      dsimp only at taken
      split at taken
      · cases taken
      next short =>
        split at taken
        · cases taken
        next whole =>
          cases taken
          have size : (rest.take (announced b0 b1 b2 b3)).length = announced b0 b1 b2 b3 :=
            List.length_take_of_le (Nat.not_lt.mp whole)
          refine ⟨alive, alive, rfl, b0, b1, b2, b3, size.symm, ?_, ?_⟩
          · rw [size]
            exact Nat.not_lt.mp short
          · simp [buffered]
    · cases taken

/-- Without a body, `next` leaves the reader as it is or fails. -/
theorem next_eq_none (silent : r.next = (none, r')) :
    (r' = r ∧ (r.failed = true ∨ r.buf.length < 4 ∨ ∃ b0 b1 b2 b3 rest,
        r.buf = b0 :: b1 :: b2 :: b3 :: rest ∧ announced b0 b1 b2 b3 ≤ r.maxFrame ∧
        rest.length < announced b0 b1 b2 b3)) ∨
      (r.failed = false ∧ r' = { r with failed := true } ∧ ∃ b0 b1 b2 b3 rest,
        r.buf = b0 :: b1 :: b2 :: b3 :: rest ∧ r.maxFrame < announced b0 b1 b2 b3) := by
  unfold next at silent
  split at silent
  next failed =>
    cases silent
    exact .inl ⟨rfl, .inl failed⟩
  next alive =>
    have alive : r.failed = false := by simpa using alive
    split at silent
    next b0 b1 b2 b3 rest buffered =>
      dsimp only at silent
      split at silent
      next long =>
        cases silent
        exact .inr ⟨alive, rfl, b0, b1, b2, b3, rest, buffered, long⟩
      next short =>
        split at silent
        next half =>
          cases silent
          exact .inl ⟨rfl, .inr (.inr ⟨b0, b1, b2, b3, rest, buffered, Nat.not_lt.mp short, half⟩)⟩
        · cases silent
    next few =>
      cases silent
      refine .inl ⟨rfl, .inr (.inl ?_)⟩
      by_contra many
      match buffered : r.buf, many with
      | b0 :: b1 :: b2 :: b3 :: rest, _ => exact few b0 b1 b2 b3 rest buffered
      | [], many | [_], many | [_, _], many | [_, _, _], many => simp at many

theorem next_of_failed (failed : r.failed = true) : r.next = (none, r) := by
  unfold next
  rw [if_pos failed]

theorem Drains.next_last (drains : Drains r bodies r') : r'.next = (none, r') := by
  induction drains with
  | stuck silent =>
      rcases next_eq_none silent with ⟨rfl, -⟩ | ⟨-, rfl, -⟩
      · exact silent
      · exact next_of_failed rfl
  | frame _ _ inductionHypothesis => exact inductionHypothesis

theorem drain_of_drains {rounds : Nat} (drains : Drains r bodies r')
    (enough : r.buf.length < rounds) : r.drain rounds = (bodies, r') := by
  induction drains generalizing rounds with
  | stuck silent =>
      cases rounds with
      | zero => exact absurd enough (Nat.not_lt_zero _)
      | succ rounds => simp [drain, silent]
  | frame taken _ inductionHypothesis =>
      cases rounds with
      | zero => exact absurd enough (Nat.not_lt_zero _)
      | succ rounds =>
          obtain ⟨-, -, -, b0, b1, b2, b3, -, -, buffered⟩ := next_eq_some taken
          have shorter := congrArg List.length buffered
          simp only [List.length_cons, List.length_append] at shorter
          have later := inductionHypothesis (show _ < rounds by omega)
          simp [drain, taken, later]

theorem exists_drains (r : FrameReader) : ∃ bodies r', Drains r bodies r' := by
  induction size : r.buf.length using Nat.strong_induction_on generalizing r with
  | _ n inductionHypothesis =>
      subst size
      match result : r.next with
      | (none, r') => exact ⟨[], r', .stuck result⟩
      | (some body, r') =>
          obtain ⟨-, -, -, b0, b1, b2, b3, -, -, buffered⟩ := next_eq_some result
          have shorter := congrArg List.length buffered
          simp only [List.length_cons, List.length_append] at shorter
          obtain ⟨bodies, r'', later⟩ := inductionHypothesis r'.buf.length (by omega) r' rfl
          exact ⟨body :: bodies, r'', .frame result later⟩

/-- `readAll` calls `next` often enough. -/
theorem readAll_eq_iff : r.readAll = (bodies, r') ↔ Drains r bodies r' := by
  constructor
  · intro read
    obtain ⟨bodies', r'', drains⟩ := exists_drains r
    have read' : r.readAll = (bodies', r'') := drain_of_drains drains (Nat.lt_succ_self _)
    obtain ⟨rfl, rfl⟩ := Prod.mk.inj (read.symm.trans read')
    exact drains
  · intro drains
    exact drain_of_drains drains (Nat.lt_succ_self _)

/-! ## More bytes -/

theorem feed_of_alive (alive : r.failed = false) :
    r.feed more = { r with buf := r.buf ++ more } := by simp [feed, alive]

theorem feed_of_failed (failed : r.failed = true) : r.feed more = r := by simp [feed, failed]

@[simp]
theorem feed_nil (r : FrameReader) : r.feed [] = r := by
  unfold feed
  split <;> simp

theorem feed_feed (r : FrameReader) (a b : Bytes) : (r.feed a).feed b = r.feed (a ++ b) := by
  cases failed : r.failed with
  | true => simp [feed_of_failed failed]
  | false => simp [feed, failed]

/-- More bytes behind a whole frame do not change it. -/
theorem next_feed_of_some (taken : r.next = (some body, r')) :
    (r.feed more).next = (some body, r'.feed more) := by
  obtain ⟨alive, alive', limit, b0, b1, b2, b3, size, short, buffered⟩ := next_eq_some taken
  have unread : r' = { r with buf := r'.buf } := by
    cases r
    cases r'
    simp_all
  rw [feed_of_alive alive, feed_of_alive alive', unread]
  simp [next, alive, buffered, size, Nat.not_lt.mpr short]

/-- More bytes behind an oversized length do not change that it is one. -/
theorem next_feed_of_failed (alive : r.failed = false) (silent : r.next = (none, r'))
    (failed : r'.failed = true) :
    (r.feed more).next = (none, { r.feed more with failed := true }) := by
  rcases next_eq_none silent with ⟨rfl, -⟩ | ⟨-, rfl, b0, b1, b2, b3, rest, buffered, long⟩
  · simp [alive] at failed
  · simp [feed_of_alive alive, next, alive, buffered, long]

/-- What comes out before the next chunk comes out of the two chunks together first. -/
theorem Drains.feed {bodies' : List Bytes} {r'' : FrameReader} (drains : Drains r bodies r')
    (later : Drains (r'.feed more) bodies' r'') (alive : r'.failed = false) :
    Drains (r.feed more) (bodies ++ bodies') r'' := by
  induction drains with
  | stuck silent =>
      rcases next_eq_none silent with ⟨rfl, -⟩ | ⟨-, rfl, -⟩
      · exact later
      · cases alive
  | frame taken _ inductionHypothesis =>
      exact .frame (next_feed_of_some taken) (inductionHypothesis later alive)

theorem Drains.feed_failed (drains : Drains r bodies r') (more : Bytes) (alive : r.failed = false)
    (failed : r'.failed = true) : ∃ r'', Drains (r.feed more) bodies r'' ∧ r''.failed = true := by
  induction drains with
  | stuck silent => exact ⟨_, .stuck (next_feed_of_failed alive silent failed), rfl⟩
  | frame taken _ inductionHypothesis =>
      obtain ⟨r'', later, failed'⟩ := inductionHypothesis (next_eq_some taken).2.1 failed
      exact ⟨r'', .frame (next_feed_of_some taken) later, failed'⟩

/-- Chunk by chunk or in one piece: the same bodies, and the same failure. -/
theorem drains_feedAll (chunks : List Bytes) (waiting : r.next = (none, r)) :
    ∃ r', Drains (r.feed chunks.flatten) (r.feedAll chunks).1 r' ∧
      r'.failed = (r.feedAll chunks).2.failed ∧
      ((r.feedAll chunks).2.failed = false → r' = (r.feedAll chunks).2) := by
  induction chunks generalizing r with
  | nil =>
      refine ⟨r, ?_, rfl, fun _ => rfl⟩
      simpa [feedAll] using Drains.stuck waiting
  | cons chunk chunks inductionHypothesis =>
      obtain ⟨bodies, r₁, drains⟩ := exists_drains (r.feed chunk)
      have read : (r.feed chunk).readAll = (bodies, r₁) := readAll_eq_iff.mpr drains
      obtain ⟨r₂, later, failed, same⟩ := inductionHypothesis drains.next_last
      simp only [feedAll, read, List.flatten_cons, ← feed_feed]
      cases alive : r₁.failed with
      | false => exact ⟨r₂, drains.feed later alive, failed, same⟩
      | true =>
          -- nothing comes out of a reader that has failed
          have silent : Drains r₁ (r₁.feedAll chunks).1 r₂ := by
            rwa [feed_of_failed alive] at later
          have none : (r₁.feedAll chunks).1 = [] ∧ r₂ = r₁ := by
            have read := readAll_eq_iff.mpr silent
            have read' := readAll_eq_iff.mpr (.stuck (next_of_failed alive))
            exact Prod.mk.inj (read.symm.trans read')
          obtain ⟨none, rfl⟩ := none
          rw [none, List.append_nil]
          cases before : r.failed with
          | true =>
              rw [feed_of_failed before] at drains ⊢
              rw [feed_of_failed before]
              exact ⟨r₂, drains, failed, same⟩
          | false =>
              have alive' : (r.feed chunk).failed = false := by simp [feed, before]
              obtain ⟨r₃, drained, failed'⟩ := drains.feed_failed chunks.flatten alive' alive
              exact ⟨r₃, drained, by rw [failed', ← failed, alive], by simp [← failed, alive]⟩

theorem drains_frames {maxFrame : Nat}
    (short : ∀ body ∈ bodies, body.length ≤ maxFrame ∧ body.length < 2 ^ 32) :
    Drains { buf := bodies.flatMap makeWireFrame, maxFrame } bodies { maxFrame } := by
  induction bodies with
  | nil => exact .stuck rfl
  | cons body bodies inductionHypothesis =>
      obtain ⟨limit, fits⟩ := short body (by simp)
      refine .frame (next_frame rfl ?_ limit fits) (inductionHypothesis ?_)
      · exact List.flatMap_cons
      · intro body' membership
        exact short body' (by simp [membership])

end FrameReader

/-! ## The Python client -/

/-- Why `recv_frame` raises: the peer has closed, the length is over the limit, or the body
is not the UTF-8 text of a JSON value. -/
inductive RecvError where
  | closed
  | oversized
  | undecodable
  deriving DecidableEq

/-- `MAX_FRAME` of the client. -/
def maxFrameClient : Nat := 1 <<< 20

/-- `sock.recv(n)` on the segments that arrive: at most `n` bytes of the next one, and
nothing at the end of the stream. -/
def recv (n : Nat) : List Bytes → Bytes × List Bytes
  | [] => ([], [])
  | [] :: segments => recv n segments
  | (b :: bs) :: segments => ((b :: bs).take n, (b :: bs).drop n :: segments)

/-- The loop of `recv_exact`.  Every round but the last one receives a byte. -/
def recvExactLoop (n : Nat) : Nat → Bytes → List Bytes → Except RecvError (Bytes × List Bytes)
  | 0, data, segments => .ok (data, segments)
  | rounds + 1, data, segments =>
      if data.length < n then
        match recv (n - data.length) segments with
        | ([], _) => .error .closed
        | (chunk, segments) => recvExactLoop n rounds (data ++ chunk) segments
      else .ok (data, segments)

def recvExact (n : Nat) (segments : List Bytes) : Except RecvError (Bytes × List Bytes) :=
  recvExactLoop n (n + 1) [] segments

/-- `struct.unpack(">I", header)`. -/
def unpackLength : Bytes → Nat
  | [b0, b1, b2, b3] => announced b0 b1 b2 b3
  | _ => 0

variable {Value : Type}

/-- `recv_frame`; `loads` decodes the UTF-8 text of a JSON value. -/
def recvFrame (loads : Bytes → Option Value) (segments : List Bytes) :
    Except RecvError (Value × List Bytes) :=
  match recvExact 4 segments with
  | .error error => .error error
  | .ok (header, segments) =>
      if maxFrameClient < unpackLength header then .error .oversized
      else
        match recvExact (unpackLength header) segments with
        | .error error => .error error
        | .ok (body, segments) =>
            match loads body with
            | some value => .ok (value, segments)
            | none => .error .undecodable

/-- The receive loop of the client: the values up to the exception that ends it. -/
def recvFrames (loads : Bytes → Option Value) : Nat → List Bytes → List Value × Option RecvError
  | 0, _ => ([], none)
  | rounds + 1, segments =>
      match recvFrame loads segments with
      | .error error => ([], some error)
      | .ok (value, segments) =>
          let (values, error) := recvFrames loads rounds segments
          (value :: values, error)

/-- Every frame takes bytes out of the stream, so this many rounds end it. -/
def recvAll (loads : Bytes → Option Value) (segments : List Bytes) :
    List Value × Option RecvError :=
  recvFrames loads (segments.flatten.length + 1) segments

theorem recv_cases {n : Nat} (positive : 0 < n) (segments : List Bytes) :
    (segments.flatten = [] ∧ (recv n segments).1 = []) ∨
      ∃ b chunk rest, recv n segments = (b :: chunk, rest) ∧ (b :: chunk).length ≤ n ∧
        segments.flatten = b :: chunk ++ rest.flatten := by
  induction segments with
  | nil => exact .inl ⟨rfl, rfl⟩
  | cons segment segments inductionHypothesis =>
      cases segment with
      | nil => exact inductionHypothesis
      | cons b bs =>
          obtain ⟨n, rfl⟩ := Nat.exists_eq_succ_of_ne_zero (Nat.ne_of_gt positive)
          refine .inr ⟨b, bs.take n, bs.drop n :: segments, rfl, ?_, ?_⟩
          · simp
          · simp [← List.append_assoc]

/-- `recv_exact` returns the next bytes of the stream, unless it ends before. -/
theorem recvExactLoop_eq (n rounds : Nat) (data : Bytes) (segments : List Bytes)
    (room : data.length ≤ n) (enough : n < rounds + data.length) :
    (n ≤ (data ++ segments.flatten).length ∧ ∃ rest,
        recvExactLoop n rounds data segments = .ok ((data ++ segments.flatten).take n, rest) ∧
        rest.flatten = (data ++ segments.flatten).drop n) ∨
      ((data ++ segments.flatten).length < n ∧
        recvExactLoop n rounds data segments = .error .closed) := by
  induction rounds generalizing data segments with
  | zero => omega
  | succ rounds inductionHypothesis =>
      unfold recvExactLoop
      split
      next missing =>
        rcases recv_cases (Nat.sub_pos_of_lt missing) segments with
          ⟨ended, none⟩ | ⟨b, chunk, rest, received, size, split⟩
        · right
          cases result : recv (n - data.length) segments with
          | mk chunk rest =>
              obtain rfl : chunk = [] := by simpa [result] using none
              exact ⟨by simpa [ended] using missing, rfl⟩
        · rw [received, split, ← List.append_assoc]
          dsimp only
          refine inductionHypothesis (data ++ b :: chunk) rest ?_ ?_
          · rw [List.length_append]
            omega
          · rw [List.length_append, List.length_cons]
            omega
      next full =>
        obtain rfl : n = data.length := by omega
        exact .inl ⟨by simp, segments, by simp, by simp⟩

theorem recvExact_eq (n : Nat) (segments : List Bytes) :
    (n ≤ segments.flatten.length ∧ ∃ rest,
        recvExact n segments = .ok (segments.flatten.take n, rest) ∧
        rest.flatten = segments.flatten.drop n) ∨
      (segments.flatten.length < n ∧ recvExact n segments = .error .closed) :=
  recvExactLoop_eq n (n + 1) [] segments (Nat.zero_le n) (Nat.lt_succ_self n)

/-! ## The two decoders -/

variable (loads : Bytes → Option Value)

/-- What `recv_frame` does behind a length. -/
theorem recvFrame_of_length {segments : List Bytes} {b0 b1 b2 b3 : UInt8} {rest : Bytes}
    (stream : segments.flatten = b0 :: b1 :: b2 :: b3 :: rest) :
    (maxFrameClient < announced b0 b1 b2 b3 ∧ recvFrame loads segments = .error .oversized) ∨
      (announced b0 b1 b2 b3 ≤ maxFrameClient ∧
        ((rest.length < announced b0 b1 b2 b3 ∧ recvFrame loads segments = .error .closed) ∨
          (announced b0 b1 b2 b3 ≤ rest.length ∧
            match loads (rest.take (announced b0 b1 b2 b3)) with
            | none => recvFrame loads segments = .error .undecodable
            | some value => ∃ segments', recvFrame loads segments = .ok (value, segments') ∧
                segments'.flatten = rest.drop (announced b0 b1 b2 b3)))) := by
  rcases recvExact_eq 4 segments with ⟨-, segments', header, remaining⟩ | ⟨few, -⟩
  · have remaining : segments'.flatten = rest := by simp [remaining, stream]
    have header : recvExact 4 segments = .ok ([b0, b1, b2, b3], segments') := by
      rw [header, stream]
      rfl
    unfold recvFrame
    rw [header]
    simp only [unpackLength]
    by_cases long : maxFrameClient < announced b0 b1 b2 b3
    · exact .inl ⟨long, if_pos long⟩
    · refine .inr ⟨Nat.not_lt.mp long, ?_⟩
      simp only [long, if_false]
      rcases recvExact_eq (announced b0 b1 b2 b3) segments' with
        ⟨many, segments'', received, left⟩ | ⟨few, closed⟩
      · refine .inr ⟨remaining ▸ many, ?_⟩
        rw [remaining] at received left
        simp only [received]
        cases loads (rest.take (announced b0 b1 b2 b3)) with
        | none => rfl
        | some value => exact ⟨segments'', rfl, left⟩
      · rw [closed]
        exact .inl ⟨remaining ▸ few, rfl⟩
  · simp only [stream, List.length_cons] at few
    omega

/-- `recv_frame` raises where `next` returns false. -/
theorem recvFrame_of_none {r r' : FrameReader} {segments : List Bytes} (alive : r.failed = false)
    (limit : r.maxFrame = kMaxFrame) (buffered : r.buf = segments.flatten)
    (silent : r.next = (none, r')) :
    recvFrame loads segments = .error (if r'.failed then .oversized else .closed) := by
  have same : maxFrameClient = kMaxFrame := rfl
  rcases FrameReader.next_eq_none silent with
    ⟨rfl, failed | few | ⟨b0, b1, b2, b3, rest, start, short, half⟩⟩ |
    ⟨-, rfl, b0, b1, b2, b3, rest, start, long⟩
  · simp [alive] at failed
  · rw [if_neg (by simp [alive])]
    rcases recvExact_eq 4 segments with ⟨many, -⟩ | ⟨-, closed⟩
    · rw [← buffered] at many
      omega
    · unfold recvFrame
      rw [closed]
  · rw [if_neg (by simp [alive])]
    rcases recvFrame_of_length loads (buffered.symm.trans start) with
      ⟨long, -⟩ | ⟨-, ⟨-, closed⟩ | ⟨many, -⟩⟩
    · omega
    · exact closed
    · omega
  · rcases recvFrame_of_length loads (buffered.symm.trans start) with
      ⟨-, oversized⟩ | ⟨short, -⟩
    · exact oversized
    · omega

/-- `recv_frame` decodes the body that `next` takes out. -/
theorem recvFrame_of_some {r r' : FrameReader} {segments : List Bytes} {body : Bytes}
    (limit : r.maxFrame = kMaxFrame) (buffered : r.buf = segments.flatten)
    (taken : r.next = (some body, r')) :
    match loads body with
    | none => recvFrame loads segments = .error .undecodable
    | some value => ∃ rest, recvFrame loads segments = .ok (value, rest) ∧
        r'.buf = rest.flatten := by
  have same : maxFrameClient = kMaxFrame := rfl
  obtain ⟨-, -, -, b0, b1, b2, b3, size, short, start⟩ := FrameReader.next_eq_some taken
  rcases recvFrame_of_length loads (buffered.symm.trans start) with
    ⟨long, -⟩ | ⟨-, ⟨few, -⟩ | ⟨-, decoded⟩⟩
  · omega
  · rw [List.length_append] at few
    omega
  · rw [size, List.take_left, List.drop_left] at decoded
    cases result : loads body with
    | none => simpa [result] using decoded
    | some value =>
        simp only [result] at decoded
        obtain ⟨rest, received, left⟩ := decoded
        exact ⟨rest, received, left.symm⟩

/-- The client gets the bodies that the reader takes out, up to the first one that it cannot
decode, and ends as the reader does otherwise. -/
theorem recvFrames_of_drains {r r' : FrameReader} {bodies : List Bytes} {segments : List Bytes}
    {rounds : Nat} (drains : r.Drains bodies r') (alive : r.failed = false)
    (limit : r.maxFrame = kMaxFrame) (buffered : r.buf = segments.flatten)
    (enough : r.buf.length < rounds) :
    (recvFrames loads rounds segments).1.map some = (bodies.map loads).takeWhile Option.isSome ∧
      (recvFrames loads rounds segments).2 =
        some (if bodies.all fun body => (loads body).isSome then
          if r'.failed then .oversized else .closed
        else .undecodable) := by
  induction drains generalizing segments rounds with
  | stuck silent =>
      obtain ⟨rounds, rfl⟩ := Nat.exists_eq_succ_of_ne_zero (Nat.ne_of_gt (Nat.zero_lt_of_lt enough))
      simp [recvFrames, recvFrame_of_none loads alive limit buffered silent]
  | frame taken _ inductionHypothesis =>
      next r r₁ r' body bodies _ =>
      obtain ⟨rounds, rfl⟩ := Nat.exists_eq_succ_of_ne_zero (Nat.ne_of_gt (Nat.zero_lt_of_lt enough))
      obtain ⟨-, alive', limit', b0, b1, b2, b3, -, -, start⟩ := FrameReader.next_eq_some taken
      have step := recvFrame_of_some loads limit buffered taken
      cases decoded : loads body with
      | none =>
          rw [decoded] at step
          simp [recvFrames, step, decoded]
      | some value =>
          rw [decoded] at step
          obtain ⟨rest, received, left⟩ := step
          have shorter := congrArg List.length start
          simp only [List.length_cons, List.length_append] at shorter
          obtain ⟨values, ending⟩ := inductionHypothesis alive' (limit'.trans limit) left
            (show _ < rounds by omega)
          simp [recvFrames, received, decoded, values, ending]

/-- What the codec promises for `loads`, the decoder of the client. -/
structure Codec (loads : Bytes → Option Value) : Prop where
  /-- The reader takes out the bodies that were encoded, and nothing is left. -/
  encoded : ∀ (maxFrame : Nat) (bodies chunks : List Bytes),
    (∀ body ∈ bodies, body.length ≤ maxFrame ∧ body.length < 2 ^ 32) →
    chunks.flatten = bodies.flatMap makeWireFrame →
    ({ maxFrame } : FrameReader).feedAll chunks = (bodies, { maxFrame })
  /-- The cuts do not matter. -/
  chunks : ∀ (maxFrame : Nat) (chunks chunks' : List Bytes), chunks.flatten = chunks'.flatten →
    (({ maxFrame } : FrameReader).feedAll chunks).1 =
        (({ maxFrame } : FrameReader).feedAll chunks').1 ∧
      (({ maxFrame } : FrameReader).feedAll chunks).2.failed =
        (({ maxFrame } : FrameReader).feedAll chunks').2.failed
  /-- The client gets the same bodies up to the first one that is not the UTF-8 text of a
  JSON value; if there is none, it ends as the reader does. -/
  client : ∀ chunks segments : List Bytes, chunks.flatten = segments.flatten →
    (recvAll loads segments).1.map some =
        ((({} : FrameReader).feedAll chunks).1.map loads).takeWhile Option.isSome ∧
      (recvAll loads segments).2 =
        some (if (({} : FrameReader).feedAll chunks).1.all fun body => (loads body).isSome then
          if (({} : FrameReader).feedAll chunks).2.failed then .oversized else .closed
        else .undecodable)

theorem codec_holds (loads : Bytes → Option Value) : Codec loads := by
  refine ⟨?_, ?_, ?_⟩
  · intro maxFrame bodies chunks short stream
    obtain ⟨r, drains, failed, same⟩ :=
      FrameReader.drains_feedAll (r := { maxFrame }) chunks rfl
    have whole : (({ maxFrame } : FrameReader).feed chunks.flatten) =
        { buf := bodies.flatMap makeWireFrame, maxFrame } := by simp [FrameReader.feed, stream]
    have read := FrameReader.readAll_eq_iff.mpr drains
    rw [whole, FrameReader.readAll_eq_iff.mpr (FrameReader.drains_frames short)] at read
    obtain ⟨taken, rfl⟩ := Prod.mk.inj read
    exact Prod.ext taken.symm (same failed.symm).symm
  · intro maxFrame chunks chunks' stream
    obtain ⟨r, drains, failed, -⟩ := FrameReader.drains_feedAll (r := { maxFrame }) chunks rfl
    obtain ⟨r', drains', failed', -⟩ := FrameReader.drains_feedAll (r := { maxFrame }) chunks' rfl
    have read := FrameReader.readAll_eq_iff.mpr drains
    rw [stream, FrameReader.readAll_eq_iff.mpr drains'] at read
    obtain ⟨taken, rfl⟩ := Prod.mk.inj read
    exact ⟨taken.symm, failed.symm.trans failed'⟩
  · intro chunks segments stream
    obtain ⟨r, drains, failed, -⟩ := FrameReader.drains_feedAll (r := {}) chunks rfl
    rw [← failed]
    refine recvFrames_of_drains loads drains rfl rfl ?_ ?_
    · simp [FrameReader.feed, stream]
    · simp [FrameReader.feed, stream]

/-- Two frames in three chunks, cut inside the second length. -/
theorem codec_holds_cut :
    ({} : FrameReader).feedAll [[0, 0, 0, 1, 65, 0], [0], [0, 2, 66, 67]] =
      ([[65], [66, 67]], {}) := by
  refine (codec_holds some).encoded kMaxFrame [[65], [66, 67]] _ ?_ rfl
  decide

/-- A frame with an empty body: the reader takes it out, and the client raises on it.  A body
of 4 GiB: its length does not fit into the four bytes, so that an empty body comes out. -/
theorem codec_limits :
    ((({} : FrameReader).feedAll [[0, 0, 0, 0]]).1 = [[]] ∧
      (({} : FrameReader).feedAll [[0, 0, 0, 0]]).2.failed = false ∧
      recvAll (fun body => if body = [] then none else some body) [[0, 0, 0, 0]] =
        ([], some .undecodable)) ∧
    ∃ (maxFrame : Nat) (body : Bytes), body.length ≤ maxFrame ∧
      (({ maxFrame } : FrameReader).feedAll [makeWireFrame body]).1 ≠ [body] := by
  refine ⟨⟨by decide, by decide, by decide⟩, 2 ^ 32, List.replicate (2 ^ 32) 0, ?_, ?_⟩
  · rw [List.length_replicate]
  · intro whole
    have wire : makeWireFrame (List.replicate (2 ^ 32) 0) =
        0 :: 0 :: 0 :: 0 :: List.replicate (2 ^ 32) 0 := by
      unfold makeWireFrame
      rw [List.length_replicate]
      rfl
    obtain ⟨r, drains, -⟩ := FrameReader.drains_feedAll (r := { maxFrame := 2 ^ 32 })
      [makeWireFrame (List.replicate (2 ^ 32) 0)] rfl
    rw [whole] at drains
    cases drains with
    | frame taken later =>
        obtain ⟨-, -, -, b0, b1, b2, b3, size, -, start⟩ := FrameReader.next_eq_some taken
        simp only [FrameReader.feed, List.flatten_singleton, wire, List.nil_append,
          Bool.false_eq_true, if_false, List.cons.injEq] at start
        obtain ⟨rfl, rfl, rfl, rfl, -⟩ := start
        rw [List.length_replicate] at size
        exact absurd size (by decide)

end OnlineChat
