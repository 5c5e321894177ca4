import Mathlib.Order.Basic

/-!
# Parsers that get their index by reference

A parser reads a text of `n` bytes through an index that its caller owns. A parser that fails
leaves the index where it stopped. The rules below say where the index can be and how a parser
can end, one for each way to put parsers together.
-/

namespace OnlineChat.Library

/-- A parser over an index that outlives a failure. -/
abbrev Scan (ε α : Type) := ExceptT ε (StateM Nat) α

namespace Scan

variable {ε α β : Type} {n i : Nat} {fine : ε → Prop} {p : Scan ε α} {f : α → Scan ε β}
  {post post' : α → Nat → Prop}

/-- How the parser ends when it starts at `i`, and where the index is then. -/
def run (p : Scan ε α) (i : Nat) : Except ε α × Nat := StateT.run (ExceptT.run p) i

theorem run_bind (p : Scan ε α) (f : α → Scan ε β) (i : Nat) :
    (p >>= f).run i =
      match p.run i with
      | (.ok a, j) => (f a).run j
      | (.error e, j) => (.error e, j) := by
  unfold run
  rw [ExceptT.run_bind, StateT.run_bind]
  generalize StateT.run (ExceptT.run p) i = ended
  rcases ended with ⟨_ | _, _⟩ <;> rfl

/-! ## What a parser can do -/

/-- From `i` on the index moves forward only and stays within a text of `n` bytes. The parser
fails only as `fine` allows, and `post` holds of what it returns and of the index then. -/
structure Meets (n : Nat) (fine : ε → Prop) (p : Scan ε α) (i : Nat) (post : α → Nat → Prop) :
    Prop where
  forward : i ≤ (p.run i).2
  inside : (p.run i).2 ≤ n
  fails : ∀ e, (p.run i).1 = .error e → fine e
  returns : ∀ a, (p.run i).1 = .ok a → post a (p.run i).2

theorem meets_pure (a : α) (inside : i ≤ n) (holds : post a i) : Meets n fine (pure a) i post :=
  ⟨Nat.le_refl i, inside, nofun, fun _ same => Except.ok.inj same ▸ holds⟩

theorem meets_throw (e : ε) (inside : i ≤ n) (allowed : fine e) :
    Meets n fine (throw e) i post :=
  ⟨Nat.le_refl i, inside, fun _ same => Except.error.inj same ▸ allowed, nofun⟩

theorem meets_get {post : Nat → Nat → Prop} (inside : i ≤ n) (holds : post i i) :
    Meets (ε := ε) n fine get i post :=
  ⟨Nat.le_refl i, inside, nofun, fun _ same => Except.ok.inj same ▸ holds⟩

theorem meets_modify {g : Nat → Nat} {post : Unit → Nat → Prop} (forward : i ≤ g i)
    (inside : g i ≤ n) (holds : post () (g i)) : Meets (ε := ε) n fine (modify g) i post :=
  ⟨forward, inside, nofun, fun _ _ => holds⟩

theorem meets_ofExcept {r : Except ε α} (inside : i ≤ n) (allowed : ∀ e, r = .error e → fine e)
    (holds : ∀ a, r = .ok a → post a i) : Meets n fine (MonadExcept.ofExcept r) i post := by
  cases r with
  | error e => exact meets_throw e inside (allowed e rfl)
  | ok a => exact meets_pure a inside (holds a rfl)

/-- The second parser starts where the first one has left the index. -/
theorem Meets.bind {post : β → Nat → Prop}
    (first : Meets n fine p i fun a j => Meets n fine (f a) j post) :
    Meets n fine (p >>= f) i post := by
  obtain ⟨forward, inside, fails, returns⟩ := first
  have bound := run_bind p f i
  cases ended : p.run i with
  | mk r j =>
      rw [ended] at forward inside fails returns bound
      cases r with
      | error e =>
          refine ⟨?_, ?_, ?_, ?_⟩ <;> rw [bound]
          · exact forward
          · exact inside
          · exact fun _ same => Except.error.inj same ▸ fails e rfl
          · nofun
      | ok a =>
          have second := returns a rfl
          refine ⟨?_, ?_, ?_, ?_⟩ <;> rw [bound]
          · exact Nat.le_trans forward second.forward
          · exact second.inside
          · exact second.fails
          · exact second.returns

theorem Meets.mono (meets : Meets n fine p i post)
    (weaker : ∀ a j, i ≤ j → j ≤ n → post a j → post' a j) : Meets n fine p i post' :=
  ⟨meets.forward, meets.inside, meets.fails, fun a same =>
    weaker a _ meets.forward meets.inside (meets.returns a same)⟩

/-- The second parser is entered with what the first one ensures. -/
theorem Meets.andThen {post' : β → Nat → Prop} (first : Meets n fine p i post)
    (second : ∀ a j, i ≤ j → j ≤ n → post a j → Meets n fine (f a) j post') :
    Meets n fine (p >>= f) i post' :=
  .bind (first.mono second)

theorem meets_ite {c : Prop} [Decidable c] {q : Scan ε α} (left : c → Meets n fine p i post)
    (right : ¬ c → Meets n fine q i post) : Meets n fine (if c then p else q) i post := by
  split
  next holds => exact left holds
  next fails => exact right fails

/-! ## Without the index of a failure -/

/-- The parser as a function that returns the index only when it succeeds. -/
def plain (p : Scan ε α) (i : Nat) : Except ε (α × Nat) :=
  match p.run i with
  | (.ok a, j) => .ok (a, j)
  | (.error e, _) => .error e

@[simp]
theorem plain_pure (a : α) (i : Nat) : (pure a : Scan ε α).plain i = .ok (a, i) := rfl

@[simp]
theorem plain_throw (e : ε) (i : Nat) : (throw e : Scan ε α).plain i = .error e := rfl

@[simp]
theorem plain_ofExcept (r : Except ε α) (i : Nat) :
    (MonadExcept.ofExcept r : Scan ε α).plain i = r.map fun a => (a, i) := by
  cases r <;> rfl

theorem plain_bind (p : Scan ε α) (f : α → Scan ε β) (i : Nat) :
    (p >>= f).plain i = p.plain i >>= fun reached => (f reached.1).plain reached.2 := by
  unfold plain
  rw [run_bind]
  rcases p.run i with ⟨_ | _, _⟩ <;> rfl

/-- A parser that is known without its index goes first. -/
theorem plain_bind_of {q : Nat → Except ε (α × Nat)} (same : ∀ i, p.plain i = q i)
    (f : α → Scan ε β) (i : Nat) :
    (p >>= f).plain i = q i >>= fun reached => (f reached.1).plain reached.2 := by
  rw [plain_bind, same]

@[simp]
theorem plain_ite (c : Prop) [Decidable c] (p q : Scan ε α) (i : Nat) :
    (if c then p else q).plain i = if c then p.plain i else q.plain i := by
  split <;> rfl

@[simp]
theorem plain_get_bind (f : Nat → Scan ε α) (i : Nat) : (get >>= f).plain i = (f i).plain i :=
  plain_bind ..

@[simp]
theorem plain_modify_bind (g : Nat → Nat) (f : Unit → Scan ε α) (i : Nat) :
    (modify g >>= f).plain i = (f ()).plain (g i) :=
  plain_bind ..

@[simp]
theorem plain_throw_bind (e : ε) (f : α → Scan ε β) (i : Nat) :
    ((throw e : Scan ε α) >>= f).plain i = .error e :=
  plain_bind ..

@[simp]
theorem plain_ofExcept_bind (r : Except ε α) (f : α → Scan ε β) (i : Nat) :
    (MonadExcept.ofExcept r >>= f).plain i = r >>= fun a => (f a).plain i := by
  rw [plain_bind, plain_ofExcept]
  cases r <;> rfl

end Scan

end OnlineChat.Library
