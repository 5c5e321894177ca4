import Mathlib.Tactic.Linarith
import OnlineChat.Buckets

/-!
# The bound on the keys of a limiter

A call adds at most its own key, and a table that is full is cut first. Clock readings need
not be ordered: when no key counts as idle, the table is halved.
-/

namespace OnlineChat.KeyedRateLimiter

open Library

variable {l : KeyedRateLimiter} {key other : Bytes} {now : Rat} {entry : LimiterEntry}
  {calls : List (Bytes × Rat)}

/-- The bucket on which a call draws. -/
def bucketOf (l : KeyedRateLimiter) (key : Bytes) : TokenBucket :=
  match l.table.find? key with
  | some entry => entry.bucket
  | none => .ofRate l.rate l.burst

/-! ## Collecting -/

/-- A table of two keys or more that the idle keys leave full loses at least one of the
rest. -/
theorem size_gc_lt (room : 2 ≤ l.maxKeys) (bounded : l.table.size ≤ l.maxKeys) :
    (l.gc now).table.size < l.maxKeys := by
  unfold gc
  generalize kept : l.table.filter (fun entry => ¬ l.idleGcSec < now - entry.2.lastSeen) = table
  have fewer : table.size ≤ l.maxKeys := by
    rw [← kept]
    exact (List.length_filter_le ..).trans bounded
  dsimp only
  split
  next full =>
    have halved : (table.drop (table.size / 2)).size = table.size - table.size / 2 :=
      List.length_drop
    omega
  next apart => exact not_le.mp apart

theorem find?_of_find?_gc (found : (l.gc now).table.find? key = some entry) :
    l.table.find? key = some entry := by
  rw [SortedMap.find?_eq_some_iff] at found ⊢
  have kept : (key, entry) ∈
      (l.table.filter fun entry => ¬ l.idleGcSec < now - entry.2.lastSeen).entries := by
    unfold gc at found
    dsimp only at found
    split at found
    · exact List.mem_of_mem_drop found
    · exact found
  exact List.mem_of_mem_filter kept

/-! ## The limiter that a call goes on with -/

/-- Only the table is cut. -/
theorem entryFor_eq (l : KeyedRateLimiter) (key : Bytes) (now : Rat) :
    ∃ table, (l.entryFor key now).2 = { l with table } := by
  cases found : l.table.find? key with
  | some entry =>
      simp only [entryFor, found]
      exact ⟨l.table, rfl⟩
  | none =>
      simp only [entryFor, found]
      split
      · exact ⟨(l.gc now).table, rfl⟩
      · exact ⟨l.table, rfl⟩

theorem size_entryFor_le (room : 2 ≤ l.maxKeys) (bounded : l.table.size ≤ l.maxKeys) :
    (l.entryFor key now).2.table.size ≤ l.maxKeys := by
  cases found : l.table.find? key with
  | some entry => simpa only [entryFor, found] using bounded
  | none =>
      simp only [entryFor, found]
      split
      · exact (size_gc_lt room bounded).le
      · exact bounded

/-- A key that is not in the table finds room there. -/
theorem size_entryFor_lt (room : 2 ≤ l.maxKeys) (bounded : l.table.size ≤ l.maxKeys)
    (absent : key ∉ (l.entryFor key now).2.table.keys) :
    (l.entryFor key now).2.table.size < l.maxKeys := by
  cases found : l.table.find? key with
  | some entry =>
      simp only [entryFor, found, ← SortedMap.find?_isSome_iff, Option.isSome_some,
        not_true_eq_false] at absent
  | none =>
      simp only [entryFor, found]
      split
      · exact size_gc_lt room bounded
      next free => exact not_le.mp free

theorem bucket_entryFor (l : KeyedRateLimiter) (key : Bytes) (now : Rat) :
    (l.entryFor key now).1.bucket = l.bucketOf key := by
  cases found : l.table.find? key with
  | some entry => simp only [entryFor, bucketOf, found]
  | none => simp only [entryFor, bucketOf, found]

theorem find?_of_find?_entryFor (found : (l.entryFor key now).2.table.find? other = some entry) :
    l.table.find? other = some entry := by
  cases here : l.table.find? key with
  | some entry => simpa only [entryFor, here] using found
  | none =>
      simp only [entryFor, here] at found
      split at found
      · exact find?_of_find?_gc found
      · exact found

/-! ## One call -/

theorem answer_allow (l : KeyedRateLimiter) (key : Bytes) (now : Rat) :
    (l.allow key now).1 = ((l.bucketOf key).tryConsume now 1).1 := by
  rw [← bucket_entryFor l key now]
  rfl

/-- What a call leaves in the table: its own key, charged once, and of the others only what
was there. -/
theorem find?_allow (l : KeyedRateLimiter) (key : Bytes) (now : Rat) :
    (l.allow key now).2.table.find? key =
      some ⟨((l.bucketOf key).tryConsume now 1).2, now⟩ := by
  rw [allow_eq, allowWith, bucket_entryFor]
  dsimp only
  split <;> exact SortedMap.find?_insert_self ..

theorem find?_of_find?_allow (differs : other ≠ key)
    (found : (l.allow key now).2.table.find? other = some entry) :
    l.table.find? other = some entry := by
  have table : (l.allow key now).2.table.find? other =
      (l.entryFor key now).2.table.find? other := by
    rw [allow_eq, allowWith]
    dsimp only
    split <;> exact (SortedMap.find?_insert ..).trans (if_neg differs)
  exact find?_of_find?_entryFor (table ▸ found)

theorem size_allow (room : 2 ≤ l.maxKeys) (bounded : l.table.size ≤ l.maxKeys) :
    (l.allow key now).2.table.size ≤ l.maxKeys := by
  have inserted : ∀ entry,
      ((l.entryFor key now).2.table.insert key entry).size ≤ l.maxKeys := by
    intro entry
    by_cases present : key ∈ (l.entryFor key now).2.table.keys
    · rw [SortedMap.size_insert_of_mem present]
      exact size_entryFor_le room bounded
    · rw [← SortedMap.find?_isSome_iff, Bool.not_eq_true, Option.isSome_eq_false_iff,
        Option.isNone_iff_eq_none] at present
      rw [SortedMap.size_insert present]
      refine size_entryFor_lt room bounded ?_
      simp [← SortedMap.find?_isSome_iff, present]
  rw [allow_eq, allowWith]
  dsimp only
  split <;> exact inserted _

/-- A call changes no setting, and one of the two counters by one. -/
theorem allow_fields (l : KeyedRateLimiter) (key : Bytes) (now : Rat) :
    (l.allow key now).2.rate = l.rate ∧ (l.allow key now).2.burst = l.burst ∧
      (l.allow key now).2.maxKeys = l.maxKeys ∧
      (l.allow key now).2.hits = l.hits + (if (l.allow key now).1 then 1 else 0) ∧
      (l.allow key now).2.rejects = l.rejects + (if (l.allow key now).1 then 0 else 1) := by
  obtain ⟨table, cut⟩ := l.entryFor_eq key now
  rw [allow_eq, allowWith, cut]
  dsimp only
  split <;> simp

/-! ## Runs of calls -/

/-- What holds of a limiter after so many calls. -/
structure Bounded (rate burst : Rat) (maxKeys count : Nat) (l : KeyedRateLimiter) : Prop where
  rate_eq : l.rate = rate
  burst_eq : l.burst = burst
  maxKeys_eq : l.maxKeys = maxKeys
  bounded : l.table.size ≤ maxKeys
  counted : l.hits + l.rejects = count

theorem Bounded.allow {rate burst : Rat} {maxKeys count : Nat} (room : 2 ≤ maxKeys)
    (holds : l.Bounded rate burst maxKeys count) (key : Bytes) (now : Rat) :
    (l.allow key now).2.Bounded rate burst maxKeys (count + 1) := by
  obtain ⟨rate_eq, burst_eq, maxKeys_eq, hits_eq, rejects_eq⟩ := l.allow_fields key now
  obtain rfl := holds.maxKeys_eq
  refine ⟨rate_eq.trans holds.rate_eq, burst_eq.trans holds.burst_eq, maxKeys_eq,
    size_allow room holds.bounded, ?_⟩
  have counted := holds.counted
  rw [hits_eq, rejects_eq]
  split <;> push_cast <;> linarith

theorem bounded_after {maxKeys : Nat} (room : 2 ≤ maxKeys) (rate burst idleGcSec : Rat)
    (calls : List (Bytes × Rat)) :
    (after { rate, burst, maxKeys, idleGcSec } calls).Bounded rate burst maxKeys
      calls.length := by
  induction calls using List.reverseRecOn with
  | nil => exact ⟨rfl, rfl, rfl, Nat.zero_le _, rfl⟩
  | append_singleton calls call inductionHypothesis =>
      rw [after_concat, List.length_append]
      exact inductionHypothesis.allow room call.1 call.2

/-- After every call the table is within its bound, the key of the call has the bucket it had
before (or a new one) with this one charge, no other key has anything new, and the call is
counted. -/
theorem after_call_within_bound {maxKeys : Nat} (room : 2 ≤ maxKeys) (rate burst idleGcSec : Rat)
    (calls : List (Bytes × Rat)) (key : Bytes) (now : Rat) :
    let before := after { rate, burst, maxKeys, idleGcSec } calls
    let behind := after { rate, burst, maxKeys, idleGcSec } (calls ++ [(key, now)])
    let bucket := match before.table.find? key with
      | some entry => entry.bucket
      | none => .ofRate rate burst
    behind.table.size ≤ maxKeys ∧
      (before.allow key now).1 = (bucket.tryConsume now 1).1 ∧
      behind.table.find? key = some ⟨(bucket.tryConsume now 1).2, now⟩ ∧
      (∀ other entry, other ≠ key → behind.table.find? other = some entry →
        before.table.find? other = some entry) ∧
      behind.hits + behind.rejects = (calls ++ [(key, now)]).length := by
  intro before behind bucket
  have holds : before.Bounded rate burst maxKeys calls.length :=
    bounded_after room rate burst idleGcSec calls
  have called : behind = (before.allow key now).2 := after_concat ..
  have drawn : before.bucketOf key = bucket := by
    unfold bucketOf
    rw [holds.rate_eq, holds.burst_eq]
  have later := holds.allow room key now
  rw [← called] at later
  refine ⟨later.bounded, ?_, ?_, ?_, ?_⟩
  · rw [answer_allow, drawn]
  · rw [called, find?_allow, drawn]
  · intro other entry differs found
    rw [called] at found
    exact find?_of_find?_allow differs found
  · rw [later.counted, List.length_append]
    rfl

/-- Three keys come to a table for two, while the clock goes back. -/
theorem after_call_within_bound_backward :
    let before := after { rate := 1, burst := 1, maxKeys := 2, idleGcSec := 5 }
      [([1], 30), ([2], 20)]
    let behind := after { rate := 1, burst := 1, maxKeys := 2, idleGcSec := 5 }
      ([([1], 30), ([2], 20)] ++ [([3], 10)])
    let bucket := match before.table.find? [3] with
      | some entry => entry.bucket
      | none => .ofRate 1 1
    behind.table.size ≤ 2 ∧
      (before.allow [3] 10).1 = (bucket.tryConsume 10 1).1 ∧
      behind.table.find? [3] = some ⟨(bucket.tryConsume 10 1).2, 10⟩ ∧
      (∀ other entry, other ≠ [3] → behind.table.find? other = some entry →
        before.table.find? other = some entry) ∧
      behind.hits + behind.rejects = ([([1], 30), ([2], 20)] ++ [([3], 10)]).length :=
  after_call_within_bound le_rfl 1 1 5 [([1], 30), ([2], 20)] [3] 10

end OnlineChat.KeyedRateLimiter
