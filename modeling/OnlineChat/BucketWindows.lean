import OnlineChat.Buckets

/-!
# What a bucket grants in a stretch of calls

A token that is granted comes from the balance before the stretch or was added in it.
-/

namespace OnlineChat.TokenBucket

variable {b : TokenBucket} {rate burst now : Rat}

/-- How many of the calls at these times are granted a token. -/
def granted (b : TokenBucket) : List Rat → Nat
  | [] => 0
  | now :: times =>
      (if (b.tryConsume now 1).1 then 1 else 0) + granted (b.tryConsume now 1).2 times

/-- The balance is overdrawn by no more than the tolerance, and does not exceed the burst. -/
structure Balanced (rate burst : Rat) (b : TokenBucket) : Prop where
  rate_eq : b.rate = rate
  burst_eq : b.burst = burst
  owes : -(1 / 1000000000) ≤ b.tokens
  holds : b.tokens ≤ burst

theorem balanced_ofRate (room : 0 ≤ burst) : (ofRate rate burst).Balanced rate burst := by
  refine ⟨rfl, rfl, ?_, le_refl burst⟩
  show -(1 / 1000000000) ≤ burst
  linarith

/-! ## One call -/

theorem Balanced.refill (balanced : b.Balanced rate burst) (fills : 0 ≤ rate) (room : 0 ≤ burst)
    (now : Rat) : (b.refill now).Balanced rate burst := by
  obtain ⟨rfl, rfl, owes, holds⟩ := balanced
  unfold TokenBucket.refill
  split
  · exact ⟨rfl, rfl, owes, holds⟩
  next ahead =>
    have gains : 0 ≤ (now - b.lastRefill) * b.rate := mul_nonneg (by linarith) fills
    refine ⟨rfl, rfl, ?_, ?_⟩
    · dsimp only
      split <;> linarith
    · dsimp only
      split
      · exact le_rfl
      next below => exact not_lt.mp below

/-- A refill adds what the rate yields since the last one, or less. -/
theorem tokens_refill_le (balanced : b.Balanced rate burst) (now : Rat) :
    (b.refill now).tokens ≤ b.tokens + rate * ((b.refill now).lastRefill - b.lastRefill) := by
  obtain ⟨rfl, rfl, -, -⟩ := balanced
  unfold TokenBucket.refill
  split
  · simp
  next ahead =>
    dsimp only
    split
    next above => linarith
    next => linarith

/-- A call refills the bucket and takes what it grants. -/
theorem tokens_tryConsume (b : TokenBucket) (now : Rat) :
    (b.tryConsume now 1).2.tokens + (if (b.tryConsume now 1).1 then 1 else 0) =
        (b.refill now).tokens ∧
      (b.tryConsume now 1).2.lastRefill = (b.refill now).lastRefill := by
  unfold tryConsume
  dsimp only
  split
  · exact ⟨by simp, rfl⟩
  · exact ⟨by simp, rfl⟩

theorem Balanced.tryConsume (balanced : b.Balanced rate burst) (fills : 0 ≤ rate)
    (room : 0 ≤ burst) (now : Rat) : (b.tryConsume now 1).2.Balanced rate burst := by
  have refilled := balanced.refill fills room now
  unfold TokenBucket.tryConsume
  dsimp only
  split
  · exact refilled
  next enough =>
    have holds := refilled.holds
    exact ⟨refilled.rate_eq, refilled.burst_eq, by dsimp only; linarith, by dsimp only; linarith⟩

/-- No clock reading takes the last refill back. -/
theorem lastRefill_le_refill (b : TokenBucket) (now : Rat) :
    b.lastRefill ≤ (b.refill now).lastRefill ∧ now ≤ (b.refill now).lastRefill := by
  unfold TokenBucket.refill
  split
  next behind => exact ⟨le_rfl, behind⟩
  next ahead => exact ⟨(not_le.mp ahead).le, le_rfl⟩

/-! ## Sequences of calls -/

theorem after_concat (b : TokenBucket) (times : List Rat) (now : Rat) :
    b.after (times ++ [now]) = ((b.after times).tryConsume now 1).2 := by
  simp [after]

theorem Balanced.after (balanced : b.Balanced rate burst) (fills : 0 ≤ rate) (room : 0 ≤ burst)
    (times : List Rat) : (b.after times).Balanced rate burst :=
  List.foldlRecOn times _ balanced fun _ kept now _ => kept.tryConsume fills room now

theorem granted_cons (b : TokenBucket) (now : Rat) (times : List Rat) :
    (b.granted (now :: times) : Rat) =
      (if (b.tryConsume now 1).1 then 1 else 0) + (b.tryConsume now 1).2.granted times := by
  rw [granted]
  push_cast
  rfl

/-- The last refill is not earlier than any reading so far. -/
theorem le_lastRefill_after (times : List Rat) :
    b.lastRefill ≤ (b.after times).lastRefill ∧
      ∀ now ∈ times, now ≤ (b.after times).lastRefill := by
  induction times generalizing b with
  | nil => exact ⟨le_rfl, List.forall_mem_nil _⟩
  | cons now times inductionHypothesis =>
      obtain ⟨kept, later⟩ := inductionHypothesis (b := (b.tryConsume now 1).2)
      obtain ⟨grows, reached⟩ := b.lastRefill_le_refill now
      rw [(b.tokens_tryConsume now).2] at kept
      exact ⟨grows.trans kept, List.forall_mem_cons.mpr ⟨reached.trans kept, later⟩⟩

/-- What is granted and what is left over comes from the balance and the refills. -/
theorem granted_add_tokens_le (balanced : b.Balanced rate burst) (fills : 0 ≤ rate)
    (room : 0 ≤ burst) (times : List Rat) :
    b.granted times + (b.after times).tokens ≤
      b.tokens + rate * ((b.after times).lastRefill - b.lastRefill) := by
  induction times generalizing b with
  | nil => simp [granted, TokenBucket.after]
  | cons now times inductionHypothesis =>
      have later := inductionHypothesis (balanced.tryConsume fills room now)
      have refilled := tokens_refill_le balanced now
      obtain ⟨taken, same⟩ := b.tokens_tryConsume now
      rw [same] at later
      have rest : b.after (now :: times) = (b.tryConsume now 1).2.after times := rfl
      rw [granted_cons, rest]
      linarith

/-- In a stretch of calls no more is granted than the burst and what the rate yields between
its first and its last refill, the balance stays within its bounds, and a reading that is
not the largest one so far adds nothing. -/
theorem granted_le (fills : 0 ≤ rate) (room : 0 ≤ burst) :
    (∀ before first times init last, first :: times = init ++ [last] →
      (((ofRate rate burst).after before).granted (first :: times) : Rat) ≤
        burst + rate * (((((ofRate rate burst).after before).after init).refill last).lastRefill -
          (((ofRate rate burst).after before).refill first).lastRefill) + 1 / 1000000000) ∧
    (∀ calls now, -(1 / 1000000000) ≤ ((ofRate rate burst).after calls).tokens ∧
      ((ofRate rate burst).after calls).tokens ≤ burst ∧
      -(1 / 1000000000) ≤ (((ofRate rate burst).after calls).refill now).tokens ∧
      (((ofRate rate burst).after calls).refill now).tokens ≤ burst) ∧
    ∀ calls earlier now, earlier ∈ calls → now ≤ earlier →
      ((ofRate rate burst).after calls).refill now = (ofRate rate burst).after calls := by
  have start : (ofRate rate burst).Balanced rate burst := balanced_ofRate room
  refine ⟨?_, ?_, ?_⟩
  · intro before first times init last stretch
    have balanced := start.after fills room before
    generalize (ofRate rate burst).after before = b at balanced
    have refilled := balanced.refill fills room first
    have consumed := balanced.tryConsume fills room first
    obtain ⟨taken, same⟩ := b.tokens_tryConsume first
    have later := granted_add_tokens_le consumed fills room times
    have ends : (b.tryConsume first 1).2.after times = ((b.after init).tryConsume last 1).2 := by
      rw [← after_concat, ← stretch]
      rfl
    have left := (consumed.after fills room times).owes
    have holds := refilled.holds
    rw [same, ends, ((b.after init).tokens_tryConsume last).2] at later
    rw [ends] at left
    rw [granted_cons]
    linarith
  · intro calls now
    have balanced := start.after fills room calls
    have refilled := balanced.refill fills room now
    exact ⟨balanced.owes, balanced.holds, refilled.owes, refilled.holds⟩
  · intro calls earlier now there old
    exact if_pos (old.trans ((le_lastRefill_after calls).2 earlier there))

/-- One token every two seconds, two at once, and a clock that jumps back. -/
theorem granted_le_two :
    (((ofRate (1 / 2) 2).after [10]).granted [11, 12, 5, 14] : Rat) ≤
      2 + 1 / 2 * (((((ofRate (1 / 2) 2).after [10]).after [11, 12, 5]).refill 14).lastRefill -
        (((ofRate (1 / 2) 2).after [10]).refill 11).lastRefill) + 1 / 1000000000 :=
  (granted_le (by norm_num) (by norm_num)).1 [10] 11 [12, 5, 14] [11, 12, 5] 14 rfl

end OnlineChat.TokenBucket
