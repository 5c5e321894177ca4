import OnlineChat.Library.SortedMap
import OnlineChat.MiniJson
import OnlineChat.PwdHash

/-!
# Session tokens

The table maps the hash of a token to its user and expiry.
-/

namespace OnlineChat

open Library MiniJson PwdHash

structure Token where
  user : Bytes
  exp : Int

structure TokenBook where
  ttlSec : Int
  tokens : SortedMap Bytes Token := ∅

namespace TokenBook

/-- The key of the table: the hexadecimal SHA-256 of the token. -/
def hashToken (hashes : Hashes) (token : Bytes) : Bytes := toHex (hashes.sha256 token)

/-- Above this many entries `issue` collects the expired ones. -/
def gcThreshold : Nat := 100000

def gc (b : TokenBook) (now : Int) : TokenBook :=
  { b with tokens := b.tokens.filter fun entry => ¬ entry.2.exp < now }

/-- Record a fresh token.  `now` and `now'` are the clock readings of `issue` and of
the collection; the result holds the expiry, a sum of two `long long`. -/
def issue (hashes : Hashes) (b : TokenBook) (user token : Bytes) (now now' : Int) :
    Int × TokenBook :=
  let exp := wrap64 (now + b.ttlSec)
  let b := { b with tokens := b.tokens.insert (hashToken hashes token) ⟨user, exp⟩ }
  (exp, if gcThreshold < b.tokens.size then b.gc now' else b)

/-- The user of a live token.  An expired one is removed. -/
def validate (hashes : Hashes) (b : TokenBook) (token : Bytes) (now : Int) :
    Option Bytes × TokenBook :=
  if token = [] then (none, b)
  else
    match b.tokens.find? (hashToken hashes token) with
    | none => (none, b)
    | some t =>
        if t.exp < now then
          (none, { b with tokens := b.tokens.erase (hashToken hashes token) })
        else (some t.user, b)

/-- After `issue` the table holds the fresh token and old ones. -/
theorem mem_issue {hashes : Hashes} {b : TokenBook} {user token : Bytes} {now now' : Int}
    {entry : Bytes × Token} (there : entry ∈ (b.issue hashes user token now now').2.tokens.entries) :
    entry = (hashToken hashes token, ⟨user, wrap64 (now + b.ttlSec)⟩) ∨ entry ∈ b.tokens.entries := by
  simp only [issue] at there
  split at there
  · exact SortedMap.mem_insertIn (List.mem_filter.mp there).1
  · exact SortedMap.mem_insertIn there

theorem mem_validate {hashes : Hashes} {b : TokenBook} {token : Bytes} {now : Int}
    {entry : Bytes × Token} (there : entry ∈ (b.validate hashes token now).2.tokens.entries) :
    entry ∈ b.tokens.entries := by
  unfold validate at there
  repeat' split at there
  · exact there
  · exact there
  · exact (List.mem_filter.mp there).1
  · exact there

/-- A token is valid for the user under whose name its digest is in the table. -/
theorem entry_of_validate {hashes : Hashes} {b : TokenBook} {token user : Bytes} {now : Int}
    (valid : (b.validate hashes token now).1 = some user) :
    ∃ exp, (hashToken hashes token, ⟨user, exp⟩) ∈ b.tokens.entries := by
  unfold validate at valid
  split at valid
  · cases valid
  · split at valid
    · cases valid
    next t found =>
      split at valid
      · cases valid
      · obtain rfl := Option.some.inj valid
        exact ⟨t.exp, SortedMap.mem_entries_of_find? found⟩

end TokenBook

end OnlineChat
