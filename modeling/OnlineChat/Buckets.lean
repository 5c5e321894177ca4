import Mathlib.Tactic.Linarith
import Mathlib.Tactic.NormNum
import OnlineChat.RateLimiter

/-!
# A bucket of its own for every key

The limiter forgets the keys that have been idle and starts them again with a full bucket.
A bucket that was never forgotten would be full by then, so that every key is answered as by
a bucket of its own.
-/

namespace OnlineChat

open Library

variable {b b' : TokenBucket} {l : KeyedRateLimiter} {rate burst idle now clock : Rat}
  {key other : Bytes} {calls : List (Bytes × Rat)}

/-! ## One bucket -/

namespace TokenBucket

/-- The bucket after one token was asked for at each of these times. -/
def after (b : TokenBucket) (times : List Rat) : TokenBucket :=
  times.foldl (fun b now => (b.tryConsume now 1).2) b

/-- The bucket has that rate and burst, and at no time behind `clock` it was overdrawn by
more than the tolerance of `try_consume`. -/
structure Sane (rate burst clock : Rat) (b : TokenBucket) : Prop where
  rate_eq : b.rate = rate
  burst_eq : b.burst = burst
  owes : -(1 / 1000000000) ≤ b.tokens
  past : b.lastRefill ≤ clock

theorem sane_ofRate (room : 0 ≤ burst) (start : 0 ≤ clock) :
    (ofRate rate burst).Sane rate burst clock := by
  refine ⟨rfl, rfl, ?_, start⟩
  show -(1 / 1000000000) ≤ burst
  linarith

theorem Sane.mono {clock' : Rat} (sane : b.Sane rate burst clock) (later : clock ≤ clock') :
    b.Sane rate burst clock' :=
  ⟨sane.rate_eq, sane.burst_eq, sane.owes, sane.past.trans later⟩

theorem Sane.refill (sane : b.Sane rate burst clock) (fills : 0 < rate) (room : 0 ≤ burst)
    (later : clock ≤ now) : (b.refill now).Sane rate burst now := by
  unfold TokenBucket.refill
  split
  · exact sane.mono later
  next ahead =>
    refine ⟨sane.rate_eq, sane.burst_eq, ?_, le_rfl⟩
    dsimp only
    have gains : 0 ≤ (now - b.lastRefill) * b.rate := by
      rw [sane.rate_eq]
      apply mul_nonneg _ fills.le
      linarith
    have owes := sane.owes
    split
    · rw [sane.burst_eq]
      linarith
    · linarith

/-- A token is given only when one is there, up to the tolerance. -/
theorem Sane.tryConsume (sane : b.Sane rate burst clock) (fills : 0 < rate) (room : 0 ≤ burst)
    (later : clock ≤ now) : (b.tryConsume now 1).2.Sane rate burst now := by
  have refilled := sane.refill fills room later
  unfold TokenBucket.tryConsume
  dsimp only
  split
  · exact refilled
  next enough =>
    refine ⟨refilled.rate_eq, refilled.burst_eq, ?_, refilled.past⟩
    dsimp only
    linarith

theorem lastRefill_refill (past : b.lastRefill ≤ now) : (b.refill now).lastRefill = now := by
  unfold TokenBucket.refill
  split
  next behind => exact past.antisymm behind
  next => rfl

theorem lastRefill_tryConsume (past : b.lastRefill ≤ now) :
    (b.tryConsume now 1).2.lastRefill = now := by
  have refilled := lastRefill_refill past
  unfold TokenBucket.tryConsume
  dsimp only
  split <;> exact refilled

theorem tryConsume_congr (same : b.refill now = b'.refill now) :
    b.tryConsume now 1 = b'.tryConsume now 1 := by
  unfold TokenBucket.tryConsume
  rw [same]

/-- A bucket that could gain more than a burst since its last refill is full. -/
theorem refill_eq_full (ahead : b.lastRefill < now)
    (full : b.burst < b.tokens + (now - b.lastRefill) * b.rate) :
    b.refill now = { b with tokens := b.burst, lastRefill := now } := by
  unfold TokenBucket.refill
  rw [if_neg (not_le.mpr ahead)]
  dsimp only
  rw [if_pos full]

theorem refill_ofRate (fills : 0 < rate) (positive : 0 < now) :
    (ofRate rate burst).refill now = { rate, burst, tokens := burst, lastRefill := now } := by
  refine refill_eq_full positive ?_
  show burst < burst + (now - 0) * rate
  have gains : 0 < (now - 0) * rate := mul_pos (by linarith) fills
  linarith

/-- A bucket that was idle for the time in which more than a burst comes in cannot be told
from a new one. -/
theorem Sane.refill_eq_new (sane : b.Sane rate burst clock) (fills : 0 < rate)
    (positive : 0 < now) (long : burst + 1 ≤ rate * idle)
    (idled : b.lastRefill + idle < now) (start : 0 ≤ idle) :
    b.refill now = (ofRate rate burst).refill now := by
  have gains : rate * idle < (now - b.lastRefill) * b.rate := by
    rw [sane.rate_eq, mul_comm rate]
    exact mul_lt_mul_of_pos_right (by linarith) fills
  have owes := sane.owes
  rw [refill_ofRate fills positive, refill_eq_full (by linarith) (by
    rw [sane.burst_eq]
    linarith)]
  rw [← sane.rate_eq, ← sane.burst_eq]

end TokenBucket

/-! ## The limiter beside the buckets -/

/-- The times at which a key was asked for. -/
def timesOf (key : Bytes) (calls : List (Bytes × Rat)) : List Rat :=
  (calls.filter fun call => call.1 = key).map Prod.snd

/-- The bucket that has seen only the calls of one key. -/
def TokenBucket.alone (rate burst : Rat) (key : Bytes) (calls : List (Bytes × Rat)) :
    TokenBucket :=
  (TokenBucket.ofRate rate burst).after (timesOf key calls)

open TokenBucket

theorem alone_concat_self : alone rate burst key (calls ++ [(key, now)]) =
    ((alone rate burst key calls).tryConsume now 1).2 := by
  simp [alone, timesOf, TokenBucket.after]

theorem alone_concat_of_ne (differs : other ≠ key) :
    alone rate burst other (calls ++ [(key, now)]) = alone rate burst other calls := by
  simp [alone, timesOf, Ne.symm differs]

namespace KeyedRateLimiter

/-- The limiter after these calls of `allow`. -/
def after (l : KeyedRateLimiter) (calls : List (Bytes × Rat)) : KeyedRateLimiter :=
  calls.foldl (fun l call => (l.allow call.1 call.2).2) l

/-- If the call collects garbage, removing the idle keys brings the table below its
bound. -/
def IdleSuffices (l : KeyedRateLimiter) (key : Bytes) (now : Rat) : Prop :=
  l.table.find? key = none → l.maxKeys ≤ l.table.size →
    (l.table.filter fun entry => ¬ l.idleGcSec < now - entry.2.lastSeen).size < l.maxKeys

instance (l : KeyedRateLimiter) (key : Bytes) (now : Rat) : Decidable (l.IdleSuffices key now) :=
  inferInstanceAs (Decidable (_ → _ → _))

/-- What a limiter that has answered these calls by `clock` knows: a key in its table has the
bucket that has seen only its own calls, and a key that is not there was never asked for or
has been idle for long. -/
structure Knows (rate burst idle clock : Rat) (calls : List (Bytes × Rat))
    (l : KeyedRateLimiter) : Prop where
  rate_eq : l.rate = rate
  burst_eq : l.burst = burst
  idle_eq : l.idleGcSec = idle
  start : 0 ≤ clock
  alone : ∀ key, (alone rate burst key calls).Sane rate burst clock
  known : ∀ key entry, l.table.find? key = some entry →
    entry.bucket = TokenBucket.alone rate burst key calls ∧
      entry.lastSeen = (TokenBucket.alone rate burst key calls).lastRefill
  unknown : ∀ key, l.table.find? key = none →
    TokenBucket.alone rate burst key calls = ofRate rate burst ∨
      (TokenBucket.alone rate burst key calls).lastRefill + idle < clock

theorem Knows.later (knows : l.Knows rate burst idle clock calls) (later : clock ≤ now) :
    l.Knows rate burst idle now calls :=
  { knows with
    start := knows.start.trans later
    alone := fun key => (knows.alone key).mono later
    unknown := fun key absent => (knows.unknown key absent).imp_right later.trans_lt' }

/-- Removing the idle keys forgets only what does not matter. -/
theorem Knows.gc (knows : l.Knows rate burst idle now calls)
    (suffices' : (l.table.filter fun entry => ¬ l.idleGcSec < now - entry.2.lastSeen).size <
      l.maxKeys) : (l.gc now).Knows rate burst idle now calls := by
  have table : (l.gc now).table =
      l.table.filter fun entry => ¬ l.idleGcSec < now - entry.2.lastSeen := by
    unfold KeyedRateLimiter.gc
    exact if_neg (not_le.mpr suffices')
  refine ⟨knows.rate_eq, knows.burst_eq, knows.idle_eq, knows.start, knows.alone, ?_, ?_⟩
  · intro key entry found
    rw [table, SortedMap.find?_filter] at found
    exact knows.known key entry (Option.filter_eq_some_iff.mp found).1
  · intro key absent
    rw [table, SortedMap.find?_filter] at absent
    cases found : l.table.find? key with
    | none => exact knows.unknown key found
    | some entry =>
        obtain ⟨-, seen⟩ := knows.known key entry found
        rw [found, Option.filter_some] at absent
        have idled : l.idleGcSec < now - entry.lastSeen := by
          by_contra fresh
          simp [fresh] at absent
        rw [knows.idle_eq, seen] at idled
        exact .inr (by linarith)

/-- The entry with which a call goes on, and the limiter behind the collection. -/
def entryFor (l : KeyedRateLimiter) (key : Bytes) (now : Rat) : LimiterEntry × KeyedRateLimiter :=
  match l.table.find? key with
  | some entry => (entry, l)
  | none =>
      (⟨.ofRate l.rate l.burst, now⟩, if l.maxKeys ≤ l.table.size then l.gc now else l)

/-- What a call does with its entry. -/
def allowWith (found : LimiterEntry × KeyedRateLimiter) (key : Bytes) (now : Rat) :
    Bool × KeyedRateLimiter :=
  let (ok, bucket) := found.1.bucket.tryConsume now 1
  let table := found.2.table.insert key { bucket, lastSeen := now }
  (ok, if ok then { found.2 with table, hits := found.2.hits + 1 }
    else { found.2 with table, rejects := found.2.rejects + 1 })

theorem allow_eq (l : KeyedRateLimiter) (key : Bytes) (now : Rat) :
    l.allow key now = allowWith (l.entryFor key now) key now := rfl

theorem Knows.entryFor (knows : l.Knows rate burst idle now calls)
    (suffices' : l.IdleSuffices key now) :
    (l.entryFor key now).2.Knows rate burst idle now calls := by
  unfold KeyedRateLimiter.entryFor
  split
  · exact knows
  next absent =>
    dsimp only
    split
    next full => exact knows.gc (suffices' absent full)
    next => exact knows

/-- The entry of a call refills like the bucket that has seen only the calls of its key. -/
theorem Knows.refill (knows : l.Knows rate burst idle now calls) (fills : 0 < rate)
    (room : 0 ≤ burst) (long : burst + 1 ≤ rate * idle) (positive : 0 < now) :
    (l.entryFor key now).1.bucket.refill now =
      (TokenBucket.alone rate burst key calls).refill now := by
  unfold KeyedRateLimiter.entryFor
  split
  next entry found => rw [(knows.known key entry found).1]
  next absent =>
    dsimp only
    rw [knows.rate_eq, knows.burst_eq]
    rcases knows.unknown key absent with new | idled
    · rw [new]
    · have start : 0 ≤ idle := by
        by_contra negative
        have below : rate * idle < 0 := mul_neg_of_pos_of_neg fills (not_le.mp negative)
        linarith
      exact ((knows.alone key).refill_eq_new fills positive long idled start).symm

theorem Knows.insert (knows : l.Knows rate burst idle now calls) (fills : 0 < rate)
    (room : 0 ≤ burst) (key : Bytes) (hits rejects : Int) :
    KeyedRateLimiter.Knows rate burst idle now (calls ++ [(key, now)])
      { l with
        table := l.table.insert key
          ⟨((TokenBucket.alone rate burst key calls).tryConsume now 1).2, now⟩
        hits, rejects } := by
  refine ⟨knows.rate_eq, knows.burst_eq, knows.idle_eq, knows.start, ?_, ?_, ?_⟩
  · intro other
    by_cases same : other = key
    · rw [same, alone_concat_self]
      exact (knows.alone key).tryConsume fills room le_rfl
    · rw [alone_concat_of_ne same]
      exact knows.alone other
  · intro other entry found
    rw [SortedMap.find?_insert] at found
    by_cases same : other = key
    · rw [if_pos same] at found
      obtain rfl := Option.some.inj found
      rw [same, alone_concat_self]
      exact ⟨rfl, (lastRefill_tryConsume (knows.alone key).past).symm⟩
    · rw [if_neg same] at found
      rw [alone_concat_of_ne same]
      exact knows.known other entry found
  · intro other absent
    rw [SortedMap.find?_insert] at absent
    by_cases same : other = key
    · rw [if_pos same] at absent
      cases absent
    · rw [if_neg same] at absent
      rw [alone_concat_of_ne same]
      exact knows.unknown other absent

/-- One call answers like the bucket of its key alone. -/
theorem Knows.allow (knows : l.Knows rate burst idle clock calls) (fills : 0 < rate)
    (room : 0 ≤ burst) (long : burst + 1 ≤ rate * idle) (positive : 0 < now)
    (later : clock ≤ now) (suffices' : l.IdleSuffices key now) :
    (l.allow key now).1 = ((TokenBucket.alone rate burst key calls).tryConsume now 1).1 ∧
      (l.allow key now).2.Knows rate burst idle now (calls ++ [(key, now)]) := by
  have present := knows.later later
  have same : (l.entryFor key now).1.bucket.tryConsume now 1 =
      (TokenBucket.alone rate burst key calls).tryConsume now 1 :=
    tryConsume_congr (present.refill fills room long positive)
  have inserted := (present.entryFor suffices').insert fills room key
  rw [allow_eq, allowWith, same]
  refine ⟨rfl, ?_⟩
  dsimp only
  split
  · exact inserted _ _
  · exact inserted _ _

/-! ## Runs of calls -/

/-- The calls come at positive times that do not decrease, and idle keys suffice whenever
garbage is collected. -/
structure Paced (l : KeyedRateLimiter) (calls : List (Bytes × Rat)) : Prop where
  positive : ∀ call ∈ calls, 0 < call.2
  ordered : calls.Pairwise fun call later => call.2 ≤ later.2
  collects : ∀ before key now later, calls = before ++ (key, now) :: later →
    (l.after before).IdleSuffices key now

theorem after_concat (l : KeyedRateLimiter) (calls : List (Bytes × Rat)) (key : Bytes)
    (now : Rat) : l.after (calls ++ [(key, now)]) = ((l.after calls).allow key now).2 := by
  simp [after]

/-- The time of the last call. -/
def clockOf (calls : List (Bytes × Rat)) : Rat := (calls.getLast?.map Prod.snd).getD 0

theorem clockOf_le {later : List (Bytes × Rat)} (positive : 0 < now)
    (ordered : (calls ++ (key, now) :: later).Pairwise fun call later => call.2 ≤ later.2) :
    clockOf calls ≤ now := by
  unfold clockOf
  cases last : calls.getLast? with
  | none => exact positive.le
  | some call =>
      exact (List.pairwise_append.mp ordered).2.2 call (List.mem_of_getLast? last) _
        (List.mem_cons_self ..)

theorem knows_after (fills : 0 < rate) (room : 0 ≤ burst) (long : burst + 1 ≤ rate * idle)
    {maxKeys : Nat} {before later : List (Bytes × Rat)}
    (paced : Paced { rate, burst, maxKeys, idleGcSec := idle } (before ++ later)) :
    (KeyedRateLimiter.after { rate, burst, maxKeys, idleGcSec := idle } before).Knows rate burst
      idle (clockOf before) before := by
  induction before using List.reverseRecOn generalizing later with
  | nil =>
      refine ⟨rfl, rfl, rfl, le_rfl, fun key => sane_ofRate room le_rfl, ?_, ?_⟩
      · intro key entry found
        cases found
      · exact fun key _ => .inl rfl
  | append_singleton before call inductionHypothesis =>
      obtain ⟨key, now⟩ := call
      rw [List.append_assoc] at paced
      have positive : 0 < now := paced.positive (key, now) (by simp)
      have knows := inductionHypothesis paced
      have step := knows.allow fills room long positive (clockOf_le positive paced.ordered)
        (paced.collects before key now later rfl)
      rw [after_concat]
      simpa [clockOf] using step.2

/-- Every call is answered as by a bucket that only the earlier calls of its key were fed
to. -/
theorem allow_eq_alone {maxKeys : Nat} (fills : 0 < rate) (room : 0 ≤ burst)
    (long : burst + 1 ≤ rate * idle)
    (paced : Paced { rate, burst, maxKeys, idleGcSec := idle } calls)
    {before later : List (Bytes × Rat)} (here : calls = before ++ (key, now) :: later) :
    ((KeyedRateLimiter.after { rate, burst, maxKeys, idleGcSec := idle } before).allow key now).1 =
      (((TokenBucket.ofRate rate burst).after (timesOf key before)).tryConsume now 1).1 := by
  subst here
  have positive : 0 < now := paced.positive (key, now) (by simp)
  have knows := knows_after fills room long paced
  exact (knows.allow fills room long positive (clockOf_le positive paced.ordered)
    (paced.collects before key now later rfl)).1

/-- Two keys share a table for one: the first is forgotten when the second comes, and
comes back. -/
def twoKeys : List (Bytes × Rat) := [([1], 1), ([2], 10), ([1], 20)]

theorem paced_twoKeys :
    Paced { rate := 1, burst := 1, maxKeys := 1, idleGcSec := 2 } twoKeys := by
  refine ⟨by decide, by decide, ?_⟩
  intro before key now later split
  rcases before with _ | ⟨first, _ | ⟨second, _ | ⟨third, before⟩⟩⟩
  · cases split
    decide +kernel
  · cases split
    decide +kernel
  · cases split
    decide +kernel
  · simp [twoKeys] at split

/-- The first key comes back and is answered as if it had never been forgotten. -/
theorem allow_eq_alone_twoKeys :
    ((KeyedRateLimiter.after { rate := 1, burst := 1, maxKeys := 1, idleGcSec := 2 }
      [([1], 1), ([2], 10)]).allow [1] 20).1 =
      (((TokenBucket.ofRate 1 1).after (timesOf [1] [([1], 1), ([2], 10)])).tryConsume 20 1).1 :=
  allow_eq_alone (by norm_num) (by norm_num) (by norm_num) paced_twoKeys rfl

end KeyedRateLimiter

end OnlineChat
