import Mathlib.Logic.Relation
import Mathlib.Logic.Function.Basic

/-!
# Threads that share a state

A thread is a stack of commands that it still has to run.  Running the first
one is atomic: it changes the shared state and puts the commands that follow
from it on top of the stack.  The threads interleave in any order.

The module gives the invariant rule for such runs and the rule for proof
outlines: an assertion at every waiting command, kept by the thread that runs
and by all the others.
-/

namespace OnlineChat.Library

universe u

/-- The shared state and, for every thread, the commands it still has to run. -/
structure Config (Thread Cmd Shared : Type u) where
  shared : Shared
  stack : Thread → List Cmd

/-- The meaning of one command.  `none` means that it has to wait; `Ext` is what
the outside world answers to it. -/
structure Program (Thread Ext Cmd Shared : Type u) where
  exec : Thread → Ext → Cmd → Shared → Option (Shared × List Cmd)

namespace Program

variable {Thread Ext Cmd Shared : Type u} [DecidableEq Thread]
  (program : Program Thread Ext Cmd Shared)

/-- Let one thread run its first command. -/
def fire (t : Thread) (e : Ext) (c : Config Thread Cmd Shared) :
    Option (Config Thread Cmd Shared) :=
  match c.stack t with
  | [] => none
  | k :: rest =>
      (program.exec t e k c.shared).map fun r =>
        ⟨r.1, Function.update c.stack t (r.2 ++ rest)⟩

theorem fire_eq_some_iff {t : Thread} {e : Ext} {c c' : Config Thread Cmd Shared} :
    program.fire t e c = some c' ↔
      ∃ k rest s new, c.stack t = k :: rest ∧
        program.exec t e k c.shared = some (s, new) ∧
        c' = ⟨s, Function.update c.stack t (new ++ rest)⟩ := by
  unfold fire
  cases stack : c.stack t with
  | nil => simp
  | cons k rest =>
      simp only [Option.map_eq_some_iff, Prod.exists, List.cons.injEq]
      constructor
      · rintro ⟨s, new, ran, rfl⟩
        exact ⟨k, rest, s, new, ⟨rfl, rfl⟩, ran, rfl⟩
      · rintro ⟨_, _, s, new, ⟨rfl, rfl⟩, ran, rfl⟩
        exact ⟨s, new, ran, rfl⟩

/-- One step of one thread, taken where `When` allows it. -/
def Step (When : Config Thread Cmd Shared → Thread → Ext → Bool)
    (c c' : Config Thread Cmd Shared) : Prop :=
  ∃ t e, When c t e = true ∧ program.fire t e c = some c'

/-- A run of any length, every step of it taken where `When` allows it. -/
def Reaches (When : Config Thread Cmd Shared → Thread → Ext → Bool) :
    Config Thread Cmd Shared → Config Thread Cmd Shared → Prop :=
  Relation.ReflTransGen (program.Step When)

/-- The condition that allows every step. -/
def always (_ : Config Thread Cmd Shared) (_ : Thread) (_ : Ext) : Bool := true

variable {program} {When When' : Config Thread Cmd Shared → Thread → Ext → Bool}
  {c c' : Config Thread Cmd Shared}

/-- What every allowed step keeps holds at the end of every run. -/
theorem Reaches.invariant {motive : Config Thread Cmd Shared → Prop}
    (run : program.Reaches When c c') (start : motive c)
    (step : ∀ c₁ t e k rest s new, program.Reaches When c c₁ → motive c₁ → When c₁ t e = true →
      c₁.stack t = k :: rest → program.exec t e k c₁.shared = some (s, new) →
      motive ⟨s, Function.update c₁.stack t (new ++ rest)⟩) : motive c' := by
  induction run with
  | refl => exact start
  | tail reached last inductionHypothesis =>
      obtain ⟨t, e, allowed, fired⟩ := last
      obtain ⟨k, rest, s, new, stack, ran, rfl⟩ := program.fire_eq_some_iff.mp fired
      exact step _ t e k rest s new reached inductionHypothesis allowed stack ran

theorem Reaches.mono (run : program.Reaches When c c')
    (weaker : ∀ c t e, When c t e = true → When' c t e = true) :
    program.Reaches When' c c' := by
  induction run with
  | refl => exact .refl
  | tail _ last inductionHypothesis =>
      obtain ⟨t, e, allowed, fired⟩ := last
      exact inductionHypothesis.tail ⟨t, e, weaker _ t e allowed, fired⟩

/-- Follow a schedule as long as `When` allows its steps. -/
def play (program : Program Thread Ext Cmd Shared)
    (When : Config Thread Cmd Shared → Thread → Ext → Bool) :
    List (Thread × Ext) → Config Thread Cmd Shared → Option (Config Thread Cmd Shared)
  | [], c => some c
  | (t, e) :: rest, c =>
      if When c t e then (program.fire t e c).bind (play program When rest) else none

theorem reaches_of_play {schedule : List (Thread × Ext)}
    (played : program.play When schedule c = some c') : program.Reaches When c c' := by
  induction schedule generalizing c with
  | nil =>
      simp only [play, Option.some.injEq] at played
      subst c'
      exact .refl
  | cons head rest inductionHypothesis =>
      obtain ⟨t, e⟩ := head
      simp only [play] at played
      split at played
      next allowed =>
        obtain ⟨middle, fired, played⟩ := Option.bind_eq_some_iff.mp played
        exact .head ⟨t, e, allowed, fired⟩ (inductionHypothesis played)
      next => simp at played

/-- A schedule that ends where `check` holds is a run to such a state. -/
theorem exists_reaches_of_play (program : Program Thread Ext Cmd Shared)
    (When : Config Thread Cmd Shared → Thread → Ext → Bool) (schedule : List (Thread × Ext))
    (c : Config Thread Cmd Shared) (check : Config Thread Cmd Shared → Bool)
    (played : (program.play When schedule c).map check = some true) :
    ∃ c', program.Reaches When c c' ∧ check c' = true := by
  obtain ⟨c', reached, checked⟩ := Option.map_eq_some_iff.mp played
  exact ⟨c', reaches_of_play reached, checked⟩

end Program

/-! ## The work of one thread -/

section Work

variable {Thread Ext Cmd Shared : Type u} [DecidableEq Thread]
  {program : Program Thread Ext Cmd Shared} {t : Thread} {rest : List Cmd} {k : Cmd}
  {c : Config Thread Cmd Shared} {ran : List (Ext × Cmd × Shared)}

/-- The thread works off what it has above `rest`, while the others go on as they like.  The
commands that it runs meanwhile are listed with the states in which they ran. -/
inductive Program.WorksOff (program : Program Thread Ext Cmd Shared) (t : Thread)
    (rest : List Cmd) : Config Thread Cmd Shared → List (Ext × Cmd × Shared) → Prop where
  | done {c : Config Thread Cmd Shared} : c.stack t = rest → WorksOff program t rest c []
  | own {c c' : Config Thread Cmd Shared} {e : Ext} {k : Cmd} {above : List Cmd}
      {ran : List (Ext × Cmd × Shared)} : c.stack t = k :: (above ++ rest) →
      program.fire t e c = some c' → WorksOff program t rest c' ran →
      WorksOff program t rest c ((e, k, c.shared) :: ran)
  | other {c c' : Config Thread Cmd Shared} {t' : Thread} {e : Ext}
      {ran : List (Ext × Cmd × Shared)} : t' ≠ t → program.fire t' e c = some c' →
      WorksOff program t rest c' ran → WorksOff program t rest c ran

namespace Program.WorksOff

theorem stack_of_other {c' : Config Thread Cmd Shared} {t' : Thread} {e : Ext} (apart : t' ≠ t)
    (fired : program.fire t' e c = some c') : c'.stack t = c.stack t := by
  obtain ⟨k, rest, s, new, -, -, rfl⟩ := program.fire_eq_some_iff.mp fired
  exact Function.update_of_ne apart.symm ..

/-- The next command runs where the other threads have got by then. -/
theorem head (above : List Cmd) (works : program.WorksOff t rest c ran)
    (stack : c.stack t = k :: (above ++ rest)) :
    ∃ c₁ e s new later, program.Reaches always c c₁ ∧ c₁.stack t = c.stack t ∧
      program.exec t e k c₁.shared = some (s, new) ∧ ran = (e, k, c₁.shared) :: later ∧
      program.WorksOff t rest ⟨s, Function.update c₁.stack t (new ++ (above ++ rest))⟩ later := by
  induction works with
  | done empty =>
      have length := congrArg List.length (empty.symm.trans stack)
      simp only [List.length_cons, List.length_append] at length
      omega
  | @own c c' e k' above' later stack' fired works _ =>
      obtain ⟨rfl, below⟩ := List.cons.inj (stack'.symm.trans stack)
      obtain ⟨k', rest', s, new, stack'', ran, rfl⟩ := program.fire_eq_some_iff.mp fired
      obtain ⟨rfl, rfl⟩ := List.cons.inj (stack''.symm.trans stack)
      exact ⟨c, e, s, new, later, .refl, rfl, ran, rfl, works⟩
  | @other c c' t' e later apart fired _ inductionHypothesis =>
      have same := stack_of_other apart fired
      obtain ⟨c₁, e₁, s, new, later, reached, stack₁, ran, rfl, works⟩ :=
        inductionHypothesis (same.trans stack)
      exact ⟨c₁, e₁, s, new, later, .head ⟨t', e, rfl, fired⟩ reached, stack₁.trans same, ran, rfl,
        works⟩

/-- Nothing runs once the work is done. -/
theorem nil (works : program.WorksOff t rest c ran) (stack : c.stack t = rest) : ran = [] := by
  induction works with
  | done _ => rfl
  | own stack' _ _ _ =>
      have length := congrArg List.length (stack.symm.trans stack')
      simp only [List.length_cons, List.length_append] at length
      omega
  | other apart fired _ inductionHypothesis =>
      exact inductionHypothesis ((stack_of_other apart fired).trans stack)

/-- The thread runs a command. -/
theorem cons (above : List Cmd) {e : Ext} {s : Shared} {new : List Cmd}
    (stack : c.stack t = k :: (above ++ rest))
    (exec : program.exec t e k c.shared = some (s, new))
    (works : program.WorksOff t rest
      ⟨s, Function.update c.stack t (new ++ (above ++ rest))⟩ ran) :
    program.WorksOff t rest c ((e, k, c.shared) :: ran) := by
  refine .own stack ?_ works
  exact program.fire_eq_some_iff.mpr ⟨k, above ++ rest, s, new, stack, exec, rfl⟩

end Program.WorksOff

end Work

/-! ## Proof outlines -/

section Outlines

variable {Thread Ext Cmd Shared : Type u}

/-- Every command respects `Above`, which says which command may wait above which in
one stack: it leaves a list in that order, and what it leaves may wait above whatever
it may wait above itself. -/
def Program.Respects (program : Program Thread Ext Cmd Shared) (Above : Cmd → Cmd → Prop) :
    Prop :=
  ∀ t e k s s' new, program.exec t e k s = some (s', new) →
    new.Pairwise Above ∧ ∀ n ∈ new, ∀ lower, Above k lower → Above n lower

/-- A command that is pending while `k` runs: another thread's, or one below `k`. -/
def Waits (Above : Cmd → Cmd → Prop) (t : Thread) (k : Cmd) (rest : List Cmd)
    (t' : Thread) (k' : Cmd) : Prop :=
  t' ≠ t ∨ (k' ∈ rest ∧ Above k k')

/-- A proof outline holds of a configuration: the invariant of the shared state, the
order of the stacks, and the assertion at every pending command. -/
structure Outlined (Above : Cmd → Cmd → Prop) (Inv : Shared → Prop)
    (At : Thread → Cmd → Shared → Prop) (c : Config Thread Cmd Shared) : Prop where
  inv : Inv c.shared
  ordered : ∀ t, (c.stack t).Pairwise Above
  pending : ∀ t, ∀ k ∈ c.stack t, At t k c.shared

variable {program : Program Thread Ext Cmd Shared} {Above : Cmd → Cmd → Prop}
  {When : Config Thread Cmd Shared → Thread → Ext → Bool}
  {Inv : Shared → Prop} {At : Thread → Cmd → Shared → Prop}

theorem ordered_step (respects : program.Respects Above) {t : Thread} {e : Ext} {k : Cmd}
    {rest new : List Cmd} {s s' : Shared} (ordered : (k :: rest).Pairwise Above)
    (ran : program.exec t e k s = some (s', new)) : (new ++ rest).Pairwise Above := by
  obtain ⟨above, below⟩ := List.pairwise_cons.mp ordered
  obtain ⟨fresh, inherits⟩ := respects t e k s s' new ran
  apply List.pairwise_append.mpr
  refine ⟨fresh, below, ?_⟩
  intro n membership lower waiting
  exact inherits n membership lower (above lower waiting)

variable [DecidableEq Thread]

/-- The rule for proof outlines.  `own`: the command that runs keeps the invariant and
establishes the assertions of what it leaves to be run.  `other`: it keeps the
assertions of everything that waits meanwhile. -/
theorem Outlined.step (respects : program.Respects Above)
    {c : Config Thread Cmd Shared} {t : Thread} {e : Ext} {k : Cmd} {rest new : List Cmd}
    {s : Shared} (outlined : Outlined Above Inv At c) (stack : c.stack t = k :: rest)
    (ran : program.exec t e k c.shared = some (s, new))
    (own : Inv s ∧ ∀ n ∈ new, At t n s)
    (other : ∀ t' k', k' ∈ c.stack t' → Waits Above t k rest t' k' → At t' k' c.shared →
      At t' k' s) :
    Outlined Above Inv At ⟨s, Function.update c.stack t (new ++ rest)⟩ := by
  have ordered : (k :: rest).Pairwise Above := stack ▸ outlined.ordered t
  refine ⟨own.1, ?_, ?_⟩
  · intro t'
    by_cases same : t' = t
    · subst t'
      simpa using ordered_step respects ordered ran
    · simpa [same] using outlined.ordered t'
  · intro t' k' waiting
    by_cases same : t' = t
    · subst same
      rcases List.mem_append.mp (by simpa using waiting) with fresh | below
      · exact own.2 k' fresh
      · have pending : k' ∈ c.stack t' := by simp [stack, below]
        apply other t' k' pending
        · exact .inr ⟨below, (List.pairwise_cons.mp ordered).1 k' below⟩
        · exact outlined.pending t' k' pending
    · have pending : k' ∈ c.stack t' := by simpa [same] using waiting
      exact other t' k' pending (.inl same) (outlined.pending t' k' pending)

theorem Program.Reaches.outlined (respects : program.Respects Above)
    {c c' : Config Thread Cmd Shared}
    (run : program.Reaches When c c') (start : Outlined Above Inv At c)
    (own : ∀ c₁ t e k rest s new, program.Reaches When c c₁ → Outlined Above Inv At c₁ →
      When c₁ t e = true → c₁.stack t = k :: rest →
      program.exec t e k c₁.shared = some (s, new) → Inv s ∧ ∀ n ∈ new, At t n s)
    (other : ∀ c₁ t e k rest s new, program.Reaches When c c₁ → Outlined Above Inv At c₁ →
      When c₁ t e = true → c₁.stack t = k :: rest →
      program.exec t e k c₁.shared = some (s, new) →
      ∀ t' k', k' ∈ c₁.stack t' → Waits Above t k rest t' k' → At t' k' c₁.shared →
        At t' k' s) :
    Outlined Above Inv At c' :=
  run.invariant start fun c₁ t e k rest s new reached outlined allowed stack ran =>
    outlined.step respects stack ran (own c₁ t e k rest s new reached outlined allowed stack ran)
      (other c₁ t e k rest s new reached outlined allowed stack ran)

end Outlines

/-! ## Ownership -/

section Ownership

variable {Thread Ext Cmd Shared Item : Type u}

/-- No two threads have pending commands that own the same thing. -/
def Exclusive (Owns : Cmd → Item → Prop) (c : Config Thread Cmd Shared) : Prop :=
  ∀ t t', t ≠ t' → ∀ k ∈ c.stack t, ∀ k' ∈ c.stack t', ∀ x, Owns k x → ¬ Owns k' x

variable {Owns : Cmd → Item → Prop} [DecidableEq Thread]

/-- What a command leaves to be run owns what the command owned, or what no other thread
does. -/
theorem Exclusive.step {c : Config Thread Cmd Shared} {t : Thread} {k : Cmd}
    {rest new : List Cmd} {s : Shared} (exclusive : Exclusive Owns c)
    (stack : c.stack t = k :: rest)
    (inherits : ∀ n ∈ new, ∀ x, Owns n x → Owns k x ∨
      ∀ t', t' ≠ t → ∀ k' ∈ c.stack t', ¬ Owns k' x) :
    Exclusive Owns ⟨s, Function.update c.stack t (new ++ rest)⟩ := by
  have others (k₁ : Cmd) (pending : k₁ ∈ new ++ rest) (x : Item) (owns : Owns k₁ x)
      (t' : Thread) (other : t' ≠ t) (k' : Cmd) (there : k' ∈ c.stack t') : ¬ Owns k' x := by
    rcases List.mem_append.mp pending with fresh | below
    · rcases inherits k₁ fresh x owns with inherited | nobody
      · exact exclusive t t' (Ne.symm other) k (by simp [stack]) k' there x inherited
      · exact nobody t' other k' there
    · exact exclusive t t' (Ne.symm other) k₁ (by simp [stack, below]) k' there x owns
  intro t₁ t₂ apart k₁ pending₁ k₂ pending₂ x owns₁ owns₂
  dsimp only at pending₁ pending₂
  by_cases first : t₁ = t
  · subst first
    rw [Function.update_self] at pending₁
    rw [Function.update_of_ne apart.symm] at pending₂
    exact others k₁ pending₁ x owns₁ t₂ apart.symm k₂ pending₂ owns₂
  · rw [Function.update_of_ne first] at pending₁
    by_cases second : t₂ = t
    · subst second
      rw [Function.update_self] at pending₂
      exact others k₂ pending₂ x owns₂ t₁ apart k₁ pending₁ owns₁
    · rw [Function.update_of_ne second] at pending₂
      exact exclusive t₁ t₂ apart k₁ pending₁ k₂ pending₂ x owns₁ owns₂

end Ownership

end OnlineChat.Library
