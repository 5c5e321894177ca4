import OnlineChat.TokenBook

/-!
# The life of a token

A token is good for the user to whom it was issued until the expiry that the book has computed
for it, whatever the book has collected or deleted in the meantime.  The expiry is a
`long long`.
-/

namespace OnlineChat.TokenBook

open Library MiniJson PwdHash

/-! ## Calls -/

/-- The bytes that `random_hex(32)` draws. -/
abbrev Draw := Vector UInt8 32

def Draw.token (raw : Draw) : Bytes := toHex raw.toList

/-- A call with its clock readings; the second one of `issue` is that of the collection. -/
inductive Call where
  | issue (user : Bytes) (raw : Draw) (now now' : Int)
  | validate (token : Bytes) (now : Int)

def Call.readings : Call → List Int
  | .issue _ _ now now' => [now, now']
  | .validate _ now => [now]

def Call.token : Call → Bytes
  | .issue _ raw _ _ => raw.token
  | .validate token _ => token

def Call.draw : Call → Option Draw
  | .issue _ raw _ _ => some raw
  | .validate _ _ => none

def call (hashes : Hashes) (b : TokenBook) : Call → TokenBook
  | .issue user raw now now' => (b.issue hashes user raw.token now now').2
  | .validate token now => (b.validate hashes token now).2

/-- The book after these calls. -/
def after (hashes : Hashes) (ttlSec : Int) (calls : List Call) : TokenBook :=
  calls.foldl (call hashes) { ttlSec }

/-- The clock does not go back, no token is drawn twice, and the digests of the tokens that
occur are apart. -/
structure Sound (hashes : Hashes) (calls : List Call) : Prop where
  ordered : (calls.flatMap Call.readings).Pairwise (· ≤ ·)
  distinct : (calls.filterMap Call.draw).Nodup
  injective : ∀ token ∈ calls.map Call.token, ∀ token' ∈ calls.map Call.token,
    hashes.sha256 token = hashes.sha256 token' → token = token'

/-- `issue(user)` has returned the token at that time. -/
def Issued (calls : List Call) (user token : Bytes) (time : Int) : Prop :=
  ∃ raw now', .issue user raw time now' ∈ calls ∧ raw.token = token

variable {hashes : Hashes} {ttlSec clock now now' : Int} {calls before later : List Call}
  {b : TokenBook} {user token : Bytes} {raw : Draw}

/-! ## One call -/

/-- The entries are those of issued tokens, and none of a token that is still good is
missing. -/
structure Knows (hashes : Hashes) (ttlSec clock : Int) (calls : List Call) (b : TokenBook) :
    Prop where
  ttl : b.ttlSec = ttlSec
  issued : ∀ k t, b.tokens.find? k = some t →
    ∃ token time, Issued calls t.user token time ∧ k = hashToken hashes token ∧
      t.exp = wrap64 (time + ttlSec)
  good : ∀ user token time, Issued calls user token time → clock ≤ wrap64 (time + ttlSec) →
    b.tokens.find? (hashToken hashes token) = some ⟨user, wrap64 (time + ttlSec)⟩

theorem Issued.append {time : Int} (issued : Issued calls user token time) (more : List Call) :
    Issued (calls ++ more) user token time := by
  obtain ⟨raw, now', there, rfl⟩ := issued
  exact ⟨raw, now', List.mem_append_left more there, rfl⟩

theorem issued_concat_issue {user' token' : Bytes} {time : Int} :
    Issued (calls ++ [.issue user raw now now']) user' token' time ↔
      Issued calls user' token' time ∨ (user' = user ∧ token' = raw.token ∧ time = now) := by
  constructor
  · rintro ⟨raw', now'', there, rfl⟩
    rcases List.mem_append.mp there with old | new
    · exact .inl ⟨raw', now'', old, rfl⟩
    · cases List.mem_singleton.mp new
      exact .inr ⟨rfl, rfl, rfl⟩
  · rintro (issued | ⟨rfl, rfl, rfl⟩)
    · exact issued.append _
    · exact ⟨raw, now', by simp, rfl⟩

theorem issued_concat_validate {user' token' : Bytes} {time : Int} :
    Issued (calls ++ [.validate token now]) user' token' time ↔ Issued calls user' token' time := by
  simp [Issued]

theorem Knows.mono (knows : Knows hashes ttlSec clock calls b) (later : clock ≤ now) :
    Knows hashes ttlSec now calls b :=
  ⟨knows.ttl, knows.issued, fun user token time issued good =>
    knows.good user token time issued (later.trans good)⟩

/-- Removing what has expired loses no good token. -/
theorem Knows.filter {p : Bytes × Token → Bool} (knows : Knows hashes ttlSec clock calls b)
    (later : clock ≤ now) (expired : ∀ entry, p entry = false → entry.2.exp < now ∨
      b.tokens.find? entry.1 ≠ some entry.2) :
    Knows hashes ttlSec now calls { b with tokens := b.tokens.filter p } := by
  refine ⟨knows.ttl, ?_, ?_⟩
  · intro k t found
    rw [SortedMap.find?_filter, Option.filter_eq_some_iff] at found
    exact knows.issued k t found.1
  · intro user token time issued good
    have found := knows.good user token time issued (later.trans good)
    rw [SortedMap.find?_filter, found, Option.filter_eq_some_iff]
    refine ⟨rfl, ?_⟩
    by_contra gone
    rcases expired _ (Bool.eq_false_iff.mpr gone) with dead | other
    · exact absurd dead (not_lt.mpr good)
    · exact other found

theorem Knows.issue (knows : Knows hashes ttlSec clock calls b)
    (fresh : ∀ user' token' time, Issued calls user' token' time →
      hashToken hashes token' ≠ hashToken hashes raw.token)
    (later : clock ≤ now) (collected : now ≤ now') :
    Knows hashes ttlSec now' (calls ++ [.issue user raw now now'])
      (b.issue hashes user raw.token now now').2 := by
  have inserted : Knows hashes ttlSec now (calls ++ [.issue user raw now now'])
      { b with tokens :=
          b.tokens.insert (hashToken hashes raw.token) ⟨user, wrap64 (now + b.ttlSec)⟩ } := by
    refine ⟨knows.ttl, ?_, ?_⟩
    · intro k t found
      rw [SortedMap.find?_insert] at found
      split at found
      next same =>
        obtain rfl := Option.some.inj found
        refine ⟨raw.token, now, issued_concat_issue.mpr (.inr ⟨rfl, rfl, rfl⟩), same, ?_⟩
        rw [knows.ttl]
      next =>
        obtain ⟨token, time, issued, rest⟩ := knows.issued k t found
        exact ⟨token, time, issued.append _, rest⟩
    · intro user' token' time issued good
      rw [SortedMap.find?_insert]
      rcases issued_concat_issue.mp issued with old | ⟨rfl, rfl, rfl⟩
      · rw [if_neg (fresh user' token' time old)]
        exact knows.good user' token' time old (later.trans good)
      · rw [if_pos rfl, knows.ttl]
  simp only [TokenBook.issue]
  split
  · refine inserted.filter collected fun entry gone => .inl ?_
    simpa using gone
  · exact inserted.mono collected

theorem Knows.validate (knows : Knows hashes ttlSec clock calls b) (later : clock ≤ now) :
    Knows hashes ttlSec now (calls ++ [.validate token now]) (b.validate hashes token now).2 := by
  have same {b' : TokenBook} (kept : Knows hashes ttlSec now calls b') :
      Knows hashes ttlSec now (calls ++ [.validate token now]) b' := by
    refine ⟨kept.ttl, ?_, ?_⟩
    · intro k t found
      obtain ⟨token', time, issued, rest⟩ := kept.issued k t found
      exact ⟨token', time, issued.append _, rest⟩
    · intro user token' time issued good
      exact kept.good user token' time (issued_concat_validate.mp issued) good
  have waited := knows.mono later
  apply same
  unfold TokenBook.validate
  split
  · exact waited
  · split
    next => exact waited
    next t found =>
      split
      next dead =>
        refine knows.filter later fun entry gone => ?_
        have key : entry.1 = hashToken hashes token := by simpa using gone
        by_cases held : entry.2 = t
        · exact .inl (held ▸ dead)
        · right
          rw [key, found]
          exact fun same => held (Option.some.inj same).symm
      next => exact waited

/-! ## Sequences of calls -/

theorem Draw.token_injective : Function.Injective Draw.token := fun _ _ same =>
  Vector.toList_inj.mp (toHex_injective same)

theorem hashToken_inj {token token' : Bytes} (sound : Sound hashes calls)
    (there : token ∈ calls.map Call.token) (there' : token' ∈ calls.map Call.token)
    (same : hashToken hashes token = hashToken hashes token') : token = token' :=
  sound.injective token there token' there' (toHex_injective same)

/-- The tokens that were issued before are apart from the next one. -/
theorem Sound.fresh (sound : Sound hashes (before ++ .issue user raw now now' :: later))
    {user' token' : Bytes} {time : Int} (issued : Issued before user' token' time) :
    hashToken hashes token' ≠ hashToken hashes raw.token := by
  obtain ⟨raw', now'', there, rfl⟩ := issued
  intro same
  have tokens : raw'.token = raw.token := by
    refine hashToken_inj sound ?_ ?_ same
    · exact List.mem_map_of_mem (f := Call.token) (List.mem_append_left _ there)
    · exact List.mem_map_of_mem (f := Call.token) (List.mem_append_right _ (List.mem_cons_self ..))
  have draws := sound.distinct
  rw [List.filterMap_append, List.nodup_append] at draws
  have old : raw' ∈ before.filterMap Call.draw := List.mem_filterMap.mpr ⟨_, there, rfl⟩
  exact draws.2.2 raw' old raw (by simp [Call.draw]) (Draw.token_injective tokens)

/-- Whatever was read before is not later than what is read now. -/
theorem Sound.readings_le {k : Call} (sound : Sound hashes (before ++ k :: later))
    {reading : Int} (old : reading ∈ before.flatMap Call.readings) (new : now ∈ k.readings) :
    reading ≤ now := by
  have ordered := sound.ordered
  rw [List.flatMap_append, List.pairwise_append] at ordered
  exact ordered.2.2 reading old now (List.mem_flatMap.mpr ⟨k, List.mem_cons_self .., new⟩)

theorem knows_after (sound : Sound hashes (before ++ later))
    (past : ∀ reading ∈ before.flatMap Call.readings, reading ≤ clock) :
    Knows hashes ttlSec clock before (after hashes ttlSec before) := by
  induction before using List.reverseRecOn generalizing later clock with
  | nil =>
      refine ⟨rfl, ?_, ?_⟩
      · intro k t found
        cases found
      · rintro user token time ⟨raw, now', there, -⟩
        cases there
  | append_singleton before k inductionHypothesis =>
      rw [List.append_assoc] at sound
      rw [after, List.foldl_concat]
      cases k with
      | issue user raw now now' =>
          have first := inductionHypothesis sound fun reading old =>
            sound.readings_le old (List.mem_cons_self ..)
          have collected : now ≤ now' := by
            have ordered := sound.ordered
            rw [List.flatMap_append, List.pairwise_append] at ordered
            exact (List.pairwise_cons.mp ordered.2.1).1 now' (by simp [Call.readings])
          refine (first.issue (fun user' token' time => sound.fresh) le_rfl collected).mono ?_
          exact past now' (by simp [Call.readings])
      | validate token now =>
          have first := inductionHypothesis sound fun reading old =>
            sound.readings_le old (List.mem_cons_self ..)
          exact (first.validate le_rfl).mono (past now (by simp [Call.readings]))

/-- A token is valid exactly for the user to whom it was issued, and until the expiry that the
book holds. -/
theorem valid_iff (sound : Sound hashes calls)
    (here : calls = before ++ .validate token now :: later) :
    ((after hashes ttlSec before).validate hashes token now).1 = some user ↔
      ∃ time, Issued before user token time ∧ now ≤ wrap64 (time + ttlSec) := by
  subst here
  have knows : Knows hashes ttlSec now before (after hashes ttlSec before) :=
    knows_after sound fun reading old => sound.readings_le old (List.mem_singleton_self now)
  constructor
  · intro valid
    unfold TokenBook.validate at valid
    split at valid
    · cases valid
    · split at valid
      · cases valid
      next t found =>
        split at valid
        · cases valid
        next alive =>
          obtain rfl := Option.some.inj valid
          obtain ⟨token', time, issued, key, exp⟩ := knows.issued _ t found
          obtain rfl : token = token' := by
            refine hashToken_inj sound ?_ ?_ key
            · simp [Call.token]
            · obtain ⟨raw, now', there, rfl⟩ := issued
              exact List.mem_map_of_mem (f := Call.token) (List.mem_append_left _ there)
          exact ⟨time, issued, exp ▸ not_lt.mp alive⟩
  · rintro ⟨time, issued, good⟩
    have found := knows.good user token time issued good
    have named : token ≠ [] := by
      obtain ⟨raw, now', -, rfl⟩ := issued
      intro empty
      have length := congrArg List.length empty
      simp [Draw.token] at length
    unfold TokenBook.validate
    rw [if_neg named, found]
    dsimp only
    rw [if_neg (not_lt.mpr good)]

/-- A draw is issued once. -/
theorem Sound.issued_unique (sound : Sound hashes (before ++ later)) {user' : Bytes}
    {time time' : Int} (issued : Issued before user token time)
    (issued' : Issued before user' token time') : user' = user ∧ time' = time := by
  obtain ⟨raw, end₁, there, rfl⟩ := issued
  obtain ⟨raw', end₂, there', same⟩ := issued'
  obtain rfl := Draw.token_injective same
  have draws := sound.distinct
  rw [List.filterMap_append] at draws
  obtain ⟨front, back, rfl⟩ := List.append_of_mem there
  rcases List.mem_append.mp there' with early | late
  · have twice : raw' ∈ front.filterMap Call.draw := List.mem_filterMap.mpr ⟨_, early, rfl⟩
    simp only [List.filterMap_append, List.filterMap_cons, Call.draw, List.append_assoc] at draws
    exact absurd rfl ((List.nodup_append.mp draws).2.2 raw' twice raw' (by simp))
  · rcases List.mem_cons.mp late with same | late
    · obtain ⟨rfl, -, rfl, -⟩ := Call.issue.inj same
      exact ⟨rfl, rfl⟩
    · have twice : raw' ∈ back.filterMap Call.draw := List.mem_filterMap.mpr ⟨_, late, rfl⟩
      simp only [List.filterMap_append, List.filterMap_cons, Call.draw, List.append_assoc] at draws
      have rest := (List.nodup_append.mp draws).2.1
      exact absurd (List.mem_append_left _ twice) (List.nodup_cons.mp rest).1

/-- Whenever a token is shown, it is valid for the users to whom it was issued within the last
`ttlSec` seconds, and for nobody else. -/
def ExactUntilExpiry (hashes : Hashes) (ttlSec : Int) (calls : List Call) : Prop :=
  ∀ before token now later, calls = before ++ .validate token now :: later → ∀ user,
    ((after hashes ttlSec before).validate hashes token now).1 = some user ↔
      ∃ time, Issued before user token time ∧ now ≤ time + ttlSec

/-- The expiry of a token that was issued at `time` does not overflow, or (below, which takes a
negative `ttlSec`) what it has become is over at `now`. -/
def Fits (ttlSec time now : Int) : Prop :=
  time + ttlSec < 2 ^ 63 ∧ (-2 ^ 63 ≤ time + ttlSec ∨ time + ttlSec + 2 ^ 64 < now)

/-- What `long long` addition does to an expiry. -/
theorem fits_iff {time : Int} (order : time ≤ now) (low : -2 ^ 63 ≤ time) (high : now < 2 ^ 63)
    (ttl : -2 ^ 63 ≤ ttlSec ∧ ttlSec < 2 ^ 63) :
    (now ≤ wrap64 (time + ttlSec) ↔ now ≤ time + ttlSec) ↔ Fits ttlSec time now := by
  unfold Fits wrap64
  omega

theorem Sound.order (sound : Sound hashes (before ++ .validate token now :: later))
    {time : Int} (issued : Issued before user token time) : time ≤ now := by
  obtain ⟨raw, now', there, -⟩ := issued
  refine sound.readings_le (List.mem_flatMap.mpr ⟨_, there, ?_⟩) (List.mem_singleton_self now)
  exact List.mem_cons_self

/-- The tokens of a book are good exactly until they expire if and only if no token is shown
whose expiry has overflowed. -/
theorem exactUntilExpiry_iff (sound : Sound hashes calls)
    (clock : ∀ reading ∈ calls.flatMap Call.readings, -2 ^ 63 ≤ reading ∧ reading < 2 ^ 63)
    (ttl : -2 ^ 63 ≤ ttlSec ∧ ttlSec < 2 ^ 63) :
    ExactUntilExpiry hashes ttlSec calls ↔
      ∀ before token now later, calls = before ++ .validate token now :: later →
        ∀ user time, Issued before user token time → Fits ttlSec time now := by
  have fits {before token now later user time}
      (here : calls = before ++ .validate token now :: later)
      (issued : Issued before user token time) :
      (now ≤ wrap64 (time + ttlSec) ↔ now ≤ time + ttlSec) ↔ Fits ttlSec time now := by
    subst here
    obtain ⟨raw, now', there, -⟩ := id issued
    refine fits_iff (sound.order issued) (clock time ?_).1 (clock now ?_).2 ttl
    · exact List.mem_flatMap.mpr ⟨_, List.mem_append_left _ there, List.mem_cons_self⟩
    · exact List.mem_flatMap.mpr ⟨.validate token now, by simp, List.mem_singleton_self now⟩
  constructor
  · intro exactly before token now later here user time issued
    rw [← fits here issued]
    have law : (∃ time, Issued before user token time ∧ now ≤ wrap64 (time + ttlSec)) ↔
        ∃ time, Issued before user token time ∧ now ≤ time + ttlSec :=
      (valid_iff sound here).symm.trans (exactly before token now later here user)
    have unique {time'} (issued' : Issued before user token time') : time' = time :=
      ((here ▸ sound).issued_unique issued issued').2
    constructor
    · intro good
      obtain ⟨time', issued', good'⟩ := law.mp ⟨time, issued, good⟩
      exact unique issued' ▸ good'
    · intro good
      obtain ⟨time', issued', good'⟩ := law.mpr ⟨time, issued, good⟩
      exact unique issued' ▸ good'
  · intro within before token now later here user
    rw [valid_iff sound here]
    refine exists_congr fun time => and_congr_right fun issued => ?_
    exact (fits here issued).mpr (within before token now later here user time issued)

namespace Demo

def first : Draw := .ofFn fun i => UInt8.ofNat i

def second : Draw := .ofFn fun i => UInt8.ofNat (32 + i)

/-- SHA-256 of the two tokens. -/
def digests : Hashes where
  sha256 token :=
    if token = first.token then
      [108, 134, 198, 170, 197, 251, 36, 188, 245, 217, 147, 156, 183, 215, 213, 100, 92, 227, 148,
        24, 244, 73, 224, 59, 38, 45, 212, 250, 20, 180, 185, 43]
    else if token = second.token then
      [49, 192, 228, 168, 222, 61, 50, 168, 150, 79, 77, 214, 195, 250, 174, 36, 138, 57, 148, 243,
        196, 226, 38, 253, 216, 238, 86, 144, 76, 150, 198, 247]
    else []
  hmac _ _ := []

/-- Two tokens for a minute, and both are shown in the last second of the first one. -/
def twoTokens : List Call :=
  [.issue (bytes "alice") first 100 100, .issue (bytes "bob") second 120 120,
    .validate first.token 160, .validate first.token 161]

theorem sound_twoTokens : Sound digests twoTokens :=
  ⟨by decide, by decide +kernel, by decide +kernel⟩

theorem exactUntilExpiry_twoTokens : ExactUntilExpiry digests 60 twoTokens := by
  refine (exactUntilExpiry_iff sound_twoTokens (by decide) (by decide)).mpr ?_
  intro before token now later here user time issued
  obtain ⟨raw, now', there, -⟩ := issued
  have among : Call.issue user raw time now' ∈ twoTokens := by
    rw [here]
    exact List.mem_append_left _ there
  have early : time ≤ 120 ∧ 100 ≤ time := by
    rcases List.mem_cons.mp among with same | among
    · obtain ⟨-, -, rfl, -⟩ := Call.issue.inj same
      decide
    · rcases List.mem_cons.mp among with same | among
      · obtain ⟨-, -, rfl, -⟩ := Call.issue.inj same
        decide
      · simp at among
  unfold Fits
  omega

/-- A token that is to be good for 2^63 - 1 seconds, and is shown in the second in which it was
issued. -/
def forever : List Call :=
  [.issue (bytes "alice") first 1700000000 1700000000, .validate first.token 1700000000]

/-- It is dead at once. -/
theorem not_exactUntilExpiry_forever :
    Sound digests forever ∧ ¬ ExactUntilExpiry digests (2 ^ 63 - 1) forever := by
  have sound : Sound digests forever := ⟨by decide, by decide +kernel, by decide +kernel⟩
  refine ⟨sound, ?_⟩
  intro exactly
  have issued : Issued (forever.take 1) (bytes "alice") first.token 1700000000 :=
    ⟨first, 1700000000, List.mem_cons_self, rfl⟩
  have valid := (exactly (forever.take 1) first.token 1700000000 [] rfl (bytes "alice")).mpr
    ⟨1700000000, issued, by decide⟩
  have refused :
      ((after digests (2 ^ 63 - 1) (forever.take 1)).validate digests first.token
        1700000000).1 = none := by
    decide +kernel
  cases refused.symm.trans valid

end Demo

end OnlineChat.TokenBook
