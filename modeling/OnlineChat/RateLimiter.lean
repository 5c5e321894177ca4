import Mathlib.Data.Rat.Init
import OnlineChat.Bytes
import OnlineChat.Library.SortedMap

/-!
# Token buckets

The limiter keeps one bucket for every key, over exact rationals, and bounds the
number of keys.
-/

namespace OnlineChat

open Library

structure TokenBucket where
  rate : Rat
  burst : Rat
  tokens : Rat
  lastRefill : Rat := 0

namespace TokenBucket

def ofRate (rate burst : Rat) : TokenBucket := { rate, burst, tokens := burst }

/-- A clock that did not advance adds nothing. -/
def refill (b : TokenBucket) (now : Rat) : TokenBucket :=
  if now ≤ b.lastRefill then b
  else
    let tokens := b.tokens + (now - b.lastRefill) * b.rate
    { b with tokens := if b.burst < tokens then b.burst else tokens, lastRefill := now }

def tryConsume (b : TokenBucket) (now : Rat) (n : Rat) : Bool × TokenBucket :=
  let b := b.refill now
  if b.tokens + 1 / 1000000000 < n then (false, b)
  else (true, { b with tokens := b.tokens - n })

end TokenBucket

structure LimiterEntry where
  bucket : TokenBucket
  lastSeen : Rat

structure KeyedRateLimiter where
  rate : Rat
  burst : Rat
  maxKeys : Nat := 10000
  idleGcSec : Rat := 30
  hits : Int := 0
  rejects : Int := 0
  table : SortedMap Bytes LimiterEntry := ∅

namespace KeyedRateLimiter

/-- Drop the idle keys; when that is not enough, also the first half of the rest. -/
def gc (l : KeyedRateLimiter) (now : Rat) : KeyedRateLimiter :=
  let table := l.table.filter fun entry => ¬ l.idleGcSec < now - entry.2.lastSeen
  { l with table := if l.maxKeys ≤ table.size then table.drop (table.size / 2) else table }

def allow (l : KeyedRateLimiter) (key : Bytes) (now : Rat) : Bool × KeyedRateLimiter :=
  let (entry, l) : LimiterEntry × KeyedRateLimiter :=
    match l.table.find? key with
    | some entry => (entry, l)
    | none =>
        (⟨.ofRate l.rate l.burst, now⟩, if l.maxKeys ≤ l.table.size then l.gc now else l)
  let (ok, bucket) := entry.bucket.tryConsume now 1
  let table := l.table.insert key { bucket, lastSeen := now }
  (ok, if ok then { l with table, hits := l.hits + 1 }
    else { l with table, rejects := l.rejects + 1 })

end KeyedRateLimiter

end OnlineChat
