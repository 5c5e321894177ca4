import OnlineChat.Bytes

/-!
# Frame layer

A frame is a 4-byte big-endian length and a JSON body.  `FrameReader` accumulates
the received bytes and takes the frames out one by one.
-/

namespace OnlineChat

/-- `kMaxFrame`: a longer frame is a protocol error. -/
def kMaxFrame : Nat := 2 ^ 20

/-- The four bytes of `n`, big-endian. -/
def lengthPrefix (n : Nat) : Bytes :=
  [UInt8.ofNat (n / 16777216), UInt8.ofNat (n / 65536), UInt8.ofNat (n / 256), UInt8.ofNat n]

def makeWireFrame (body : Bytes) : Bytes := lengthPrefix body.length ++ body

/-- The length that four bytes announce. -/
def announced (b0 b1 b2 b3 : UInt8) : Nat :=
  b0.toNat * 16777216 + b1.toNat * 65536 + b2.toNat * 256 + b3.toNat

theorem announced_lengthPrefix {n : Nat} (fits : n < 2 ^ 32) :
    announced (UInt8.ofNat (n / 16777216)) (UInt8.ofNat (n / 65536))
      (UInt8.ofNat (n / 256)) (UInt8.ofNat n) = n := by
  simp only [announced, UInt8.toNat_ofNat']
  omega

@[simp]
theorem length_makeWireFrame (body : Bytes) :
    (makeWireFrame body).length = body.length + 4 := by
  simp [makeWireFrame, lengthPrefix]

structure FrameReader where
  buf : Bytes := []
  maxFrame : Nat := kMaxFrame
  failed : Bool := false

namespace FrameReader

def feed (r : FrameReader) (data : Bytes) : FrameReader :=
  if r.failed then r else { r with buf := r.buf ++ data }

/-- Take out the next body.  `none` without a failure is half a frame, and
consumes nothing. -/
def next (r : FrameReader) : Option Bytes × FrameReader :=
  if r.failed then (none, r)
  else
    match r.buf with
    | b0 :: b1 :: b2 :: b3 :: rest =>
        let len := announced b0 b1 b2 b3
        if r.maxFrame < len then (none, { r with failed := true })
        else if rest.length < len then (none, r)
        else (some (rest.take len), { r with buf := rest.drop len })
    | _ => (none, r)

/-- Call `next` until it returns false: the bodies in order. -/
def drain : Nat → FrameReader → List Bytes × FrameReader
  | 0, r => ([], r)
  | rounds + 1, r =>
      match r.next with
      | (some body, r) => let (bodies, r) := drain rounds r; (body :: bodies, r)
      | (none, r) => ([], r)

/-- Every body taken out shortens the buffer, so this many calls empty it. -/
def readAll (r : FrameReader) : List Bytes × FrameReader := r.drain (r.buf.length + 1)

theorem next_frame {r : FrameReader} {body rest : Bytes} (alive : r.failed = false)
    (buffered : r.buf = makeWireFrame body ++ rest) (short : body.length ≤ r.maxFrame)
    (fits : body.length < 2 ^ 32) :
    r.next = (some body, { r with buf := rest }) := by
  have len := announced_lengthPrefix fits
  simp only [makeWireFrame, lengthPrefix, List.cons_append, List.nil_append] at buffered
  simp [next, alive, buffered, len, Nat.not_lt.mpr short]

/-- Fewer bytes than the frame they start: nothing comes out and nothing fails. -/
theorem next_partial {r : FrameReader} {body rest : Bytes} (alive : r.failed = false)
    (buffered : r.buf ++ rest = makeWireFrame body) (missing : rest ≠ [])
    (short : body.length ≤ r.maxFrame) (fits : body.length < 2 ^ 32) :
    r.next = (none, r) := by
  have len := announced_lengthPrefix fits
  have size := congrArg List.length buffered
  have pos := List.length_pos_iff.mpr missing
  rw [List.length_append, length_makeWireFrame] at size
  unfold next
  rw [if_neg (by simp [alive])]
  match buf : r.buf with
  | [] | [_] | [_, _] | [_, _, _] => rfl
  | b0 :: b1 :: b2 :: b3 :: got =>
      rw [buf] at buffered size
      simp only [makeWireFrame, lengthPrefix, List.cons_append, List.nil_append,
        List.cons.injEq] at buffered
      obtain ⟨rfl, rfl, rfl, rfl, -⟩ := buffered
      simp only [List.length_cons] at size
      have small : got.length < body.length := by omega
      simp [len, Nat.not_lt.mpr short, small]

/-- The reader takes whole frames out in order and keeps what is behind them. -/
theorem drain_frames {bodies : List Bytes} {rest : Bytes} {rounds : Nat} {r : FrameReader}
    (alive : r.failed = false)
    (buffered : r.buf = bodies.flatMap makeWireFrame ++ rest)
    (short : ∀ body ∈ bodies, body.length ≤ r.maxFrame) (small : r.maxFrame < 2 ^ 32)
    (enough : bodies.length < rounds)
    (stuck : ({ r with buf := rest } : FrameReader).next = (none, { r with buf := rest })) :
    r.drain rounds = (bodies, { r with buf := rest }) := by
  induction bodies generalizing r rounds with
  | nil =>
      obtain ⟨rounds, rfl⟩ : ∃ n, rounds = n + 1 := ⟨rounds - 1, by simp at enough; omega⟩
      have same : r = { r with buf := rest } := by
        cases r
        simpa using buffered
      rw [drain, same, stuck]
  | cons body bodies inductionHypothesis =>
      obtain ⟨rounds, rfl⟩ : ∃ n, rounds = n + 1 := ⟨rounds - 1, by simp at enough; omega⟩
      have bodyShort := short body (by simp)
      have split : r.buf = makeWireFrame body ++ (bodies.flatMap makeWireFrame ++ rest) := by
        simpa using buffered
      have taken := next_frame alive split bodyShort (by omega)
      have later : ({ r with buf := bodies.flatMap makeWireFrame ++ rest } :
          FrameReader).drain rounds = (bodies, { r with buf := rest }) :=
        inductionHypothesis alive rfl (fun body' there => short body' (by simp [there])) small
          (by simpa using enough) stuck
      simp [drain, taken, later]

/-- A beginning of a sequence of frames is some whole frames and a part of the next. -/
theorem exists_split {bodies : List Bytes} {bytes rest : Bytes}
    (whole : bytes ++ rest = bodies.flatMap makeWireFrame) :
    ∃ full later part, bodies = full ++ later ∧ bytes = full.flatMap makeWireFrame ++ part ∧
      part ++ rest = later.flatMap makeWireFrame ∧
      (part = [] ∨ ∃ body others, later = body :: others ∧
        part.length < (makeWireFrame body).length) := by
  induction bodies generalizing bytes with
  | nil =>
      obtain ⟨rfl, rfl⟩ : bytes = [] ∧ rest = [] := by simpa using whole
      exact ⟨[], [], [], rfl, rfl, rfl, .inl rfl⟩
  | cons body bodies inductionHypothesis =>
      rw [List.flatMap_cons] at whole
      by_cases short : bytes.length < (makeWireFrame body).length
      · exact ⟨[], body :: bodies, bytes, rfl, rfl, whole, .inr ⟨body, bodies, rfl, short⟩⟩
      · rcases List.append_eq_append_iff.mp whole with ⟨mid, frame, -⟩ | ⟨mid, rfl, tails⟩
        · have size := congrArg List.length frame
          rw [List.length_append] at size
          obtain rfl : mid = [] := List.length_eq_zero_iff.mp (by omega)
          rw [List.append_nil] at frame
          have tails : [] ++ rest = bodies.flatMap makeWireFrame := by simpa [frame] using whole
          obtain ⟨full, later, part, split, start, remaining, normal⟩ := inductionHypothesis tails
          refine ⟨body :: full, later, part, by simp [split], ?_, remaining, normal⟩
          rw [List.flatMap_cons, List.append_assoc, ← start, List.append_nil, frame]
        · obtain ⟨full, later, part, split, start, remaining, normal⟩ :=
            inductionHypothesis tails.symm
          refine ⟨body :: full, later, part, by simp [split], ?_, remaining, normal⟩
          rw [List.flatMap_cons, List.append_assoc, ← start]

/-- A reader that receives a beginning of a sequence of frames takes out exactly the
whole frames, does not fail, and keeps the part of the next one. -/
theorem readAll_eq_of_starts {bodies : List Bytes} {bytes : Bytes}
    (short : ∀ body ∈ bodies, body.length ≤ kMaxFrame)
    (starts : bytes <+: bodies.flatMap makeWireFrame) :
    ∃ full later part, bodies = full ++ later ∧ bytes = full.flatMap makeWireFrame ++ part ∧
      (part = [] ∨ ∃ body others, later = body :: others ∧
        part.length < (makeWireFrame body).length) ∧
      ({ buf := bytes } : FrameReader).readAll = (full, { buf := part }) := by
  obtain ⟨rest, whole⟩ := starts
  obtain ⟨full, later, part, split, start, remaining, normal⟩ := exists_split whole
  have stuck : ({ buf := part } : FrameReader).next = (none, { buf := part }) := by
    rcases normal with rfl | ⟨body, others, rfl, less⟩
    · rfl
    · rw [List.flatMap_cons] at remaining
      rcases List.append_eq_append_iff.mp remaining with ⟨mid, frame, -⟩ | ⟨mid, rfl, -⟩
      · have bound := short body (by simp [split])
        have missing : mid ≠ [] := by
          rintro rfl
          simp [frame] at less
        exact next_partial rfl frame.symm missing bound (Nat.lt_of_le_of_lt bound (by decide))
      · simp at less
  refine ⟨full, later, part, split, start, normal, ?_⟩
  have count : full.length ≤ (full.flatMap makeWireFrame).length := by
    clear stuck normal remaining start split
    induction full with
    | nil => simp
    | cons body full inductionHypothesis => simp at inductionHypothesis ⊢; omega
  refine drain_frames (r := { buf := bytes }) rfl start
    (fun body membership => short body (by simp [split, membership]))
    (show kMaxFrame < 2 ^ 32 by decide) ?_ stuck
  rw [start, List.length_append]
  omega

end FrameReader

end OnlineChat
