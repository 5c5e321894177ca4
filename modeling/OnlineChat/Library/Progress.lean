import Mathlib.Data.Prod.Lex
import Mathlib.Logic.Hydra
import Mathlib.Order.Filter.AtTopBot.Basic
import OnlineChat.Library.Threads

/-!
# Loops that come round

Some steps of a thread start a round of its loop.  Any other step puts lower commands in the
place of the one that was run, or takes something off a measure that no other thread raises.
Such a thread cannot go on forever without a new round: what it still has to do decreases in
the order of multisets.
-/

namespace OnlineChat.Library

open Relation Filter

universe u

variable {Thread Ext Cmd Shared : Type u}

/-! ## Stacks -/

/-- Lower commands stand in the place of the first one. -/
theorem cutExpand_stack {Lower : Cmd → Cmd → Prop} {k : Cmd} {new rest : List Cmd}
    (lower : ∀ n ∈ new, Lower n k) :
    CutExpand Lower (new ++ rest : List Cmd) (k :: rest : List Cmd) := by
  refine ⟨(new : Multiset Cmd), k, lower, ?_⟩
  rw [← Multiset.coe_add, ← Multiset.cons_coe, ← Multiset.singleton_add]
  rw [add_comm, add_assoc, add_comm (new : Multiset Cmd)]

/-- The measure, and what is still to be run. -/
def Outstanding (measure : Shared → ℕ) (t : Thread) (c : Config Thread Cmd Shared) :
    ℕ × Multiset Cmd := (measure c.shared, (c.stack t : Multiset Cmd))

/-- Less is outstanding. -/
abbrev LessOutstanding (Lower : Cmd → Cmd → Prop) : ℕ × Multiset Cmd → ℕ × Multiset Cmd → Prop :=
  Prod.Lex (· < ·) (CutExpand Lower)

theorem wellFounded_lessOutstanding {Lower : Cmd → Cmd → Prop} (wf : WellFounded Lower) :
    WellFounded (LessOutstanding Lower) := WellFounded.prod_lex wellFounded_lt wf.cutExpand

/-! ## Programs that wind down -/

variable [DecidableEq Thread] {program : Program Thread Ext Cmd Shared}

/-- Each step of `t` starts a round, lowers the measure, or leaves lower commands; no other
thread raises the measure. -/
structure Program.WindsDown (program : Program Thread Ext Cmd Shared) (t : Thread)
    (Lower : Cmd → Cmd → Prop) (measure : Shared → ℕ) (Round : Cmd → List Cmd → Prop) : Prop where
  own : ∀ e k s s' new, program.exec t e k s = some (s', new) →
    Round k new ∨ measure s' < measure s ∨ (measure s' ≤ measure s ∧ ∀ n ∈ new, Lower n k)
  other : ∀ t' e k s s' new, t' ≠ t → program.exec t' e k s = some (s', new) →
    measure s' ≤ measure s

/-- An infinite run; `who` takes the steps. -/
structure Program.RunsForever (program : Program Thread Ext Cmd Shared)
    (run : ℕ → Config Thread Cmd Shared) (who : ℕ → Thread) : Prop where
  step : ∀ n, ∃ e, program.fire (who n) e (run n) = some (run (n + 1))

/-- From states that each allow a step to the next there is an infinite run. -/
theorem Program.exists_runsForever {Good : ℕ → Config Thread Cmd Shared → Prop}
    {who : ℕ → Thread} {c : Config Thread Cmd Shared} (first : Good 0 c)
    (next : ∀ n c, Good n c → ∃ e c', program.fire (who n) e c = some c' ∧ Good (n + 1) c') :
    ∃ run, run 0 = c ∧ program.RunsForever run who ∧ ∀ n, Good n (run n) := by
  choose ext after fired good using next
  let states (n : ℕ) : { c // Good n c } :=
    n.rec ⟨c, first⟩ fun n here => ⟨after n here.1 here.2, good n here.1 here.2⟩
  refine ⟨fun n => (states n).1, rfl, ⟨fun n => ?_⟩, fun n => (states n).2⟩
  exact ⟨ext n _ (states n).2, fired n _ (states n).2⟩

/-- `t` takes the step at `n`, and it starts a round. -/
def StartsRound (Round : Cmd → List Cmd → Prop) (run : ℕ → Config Thread Cmd Shared)
    (who : ℕ → Thread) (t : Thread) (n : ℕ) : Prop :=
  who n = t ∧ ∃ k rest new, (run n).stack t = k :: rest ∧ (run (n + 1)).stack t = new ++ rest ∧
    Round k new

variable {t : Thread} {Lower : Cmd → Cmd → Prop} {measure : Shared → ℕ}
  {Round : Cmd → List Cmd → Prop} {run : ℕ → Config Thread Cmd Shared} {who : ℕ → Thread} {n : ℕ}

/-- A step of `t` inside a round leaves less outstanding. -/
theorem Program.WindsDown.own_step (winds : program.WindsDown t Lower measure Round)
    (forever : program.RunsForever run who) (mine : who n = t)
    (inside : ¬ StartsRound Round run who t n) :
    LessOutstanding Lower (Outstanding measure t (run (n + 1))) (Outstanding measure t (run n)) := by
  obtain ⟨e, fired⟩ := forever.step n
  obtain ⟨k, rest, s, new, stack, ran, after⟩ := program.fire_eq_some_iff.mp fired
  rw [mine] at stack ran after
  have left : (run (n + 1)).stack t = new ++ rest := by
    rw [after]
    exact Function.update_self ..
  have shared : (run (n + 1)).shared = s := by rw [after]
  unfold Outstanding
  rw [stack, left, shared]
  rcases winds.own e k _ s new ran with round | less | ⟨most, lower⟩
  · exact absurd ⟨mine, k, rest, new, stack, left, round⟩ inside
  · exact .left _ _ less
  · rcases Nat.lt_or_eq_of_le most with less | same
    · exact .left _ _ less
    · rw [same]
      exact .right _ (cutExpand_stack lower)

/-- A step of another thread leaves less outstanding, or the same. -/
theorem Program.WindsDown.other_step (winds : program.WindsDown t Lower measure Round)
    (forever : program.RunsForever run who) (other : who n ≠ t) :
    LessOutstanding Lower (Outstanding measure t (run (n + 1))) (Outstanding measure t (run n)) ∨
      Outstanding measure t (run (n + 1)) = Outstanding measure t (run n) := by
  obtain ⟨e, fired⟩ := forever.step n
  obtain ⟨k, rest, s, new, -, ran, after⟩ := program.fire_eq_some_iff.mp fired
  have left : (run (n + 1)).stack t = (run n).stack t := by
    rw [after]
    exact Function.update_of_ne other.symm ..
  have shared : (run (n + 1)).shared = s := by rw [after]
  unfold Outstanding
  rw [left, shared]
  rcases Nat.lt_or_eq_of_le (winds.other _ e k _ s new other ran) with less | same
  · exact .inl (.left _ _ less)
  · exact .inr (by rw [same])

/-- A thread that acts again and again starts a round again and again. -/
theorem Program.WindsDown.frequently_startsRound
    (winds : program.WindsDown t Lower measure Round) (wf : WellFounded Lower)
    (forever : program.RunsForever run who) (acts : ∃ᶠ n in atTop, who n = t) :
    ∃ᶠ n in atTop, StartsRound Round run who t n := by
  rw [frequently_atTop] at acts ⊢
  intro first
  by_contra rounds
  have inside (n : ℕ) (late : first ≤ n) : ¬ StartsRound Round run who t n := by
    intro round
    exact rounds ⟨n, late, round⟩
  let later := {x | ∃ n, first ≤ n ∧ Outstanding measure t (run n) = x}
  -- the least that is ever outstanding
  obtain ⟨x, ⟨least, late, rfl⟩, minimal⟩ :=
    (wellFounded_lessOutstanding wf).has_min later ⟨_, first, Nat.le_refl first, rfl⟩
  have never (n : ℕ) (after : first ≤ n) : ¬ LessOutstanding Lower (Outstanding measure t (run n))
      (Outstanding measure t (run least)) := minimal _ ⟨n, after, rfl⟩
  have stays (n : ℕ) (after : least ≤ n) :
      Outstanding measure t (run n) = Outstanding measure t (run least) := by
    induction n, after using Nat.le_induction with
    | base => rfl
    | succ n after inductionHypothesis =>
        have below := never (n + 1) (by omega)
        rw [← inductionHypothesis] at below
        by_cases mine : who n = t
        · exact absurd (winds.own_step forever mine (inside n (by omega))) below
        · rcases winds.other_step forever mine with less | same
          · exact absurd less below
          · rw [same, inductionHypothesis]
  obtain ⟨n, after, mine⟩ := acts least
  have less := winds.own_step forever mine (inside n (by omega))
  rw [stays n after] at less
  exact never (n + 1) (by omega) less

end OnlineChat.Library
