import OnlineChat.Library.Threads

/-!
# One thread on its own

A run in which one thread moves, with the answers that it gets in order.  Only the stack of
that thread matters.
-/

namespace OnlineChat.Library

universe u

variable {Thread Ext Cmd Shared : Type u}

/-- `t` takes a step with each answer, from the first stack and state to the last ones. -/
inductive Program.Alone (program : Program Thread Ext Cmd Shared) (t : Thread) :
    List Ext → List Cmd → Shared → List Cmd → Shared → Prop where
  | done (stack : List Cmd) (s : Shared) : Alone program t [] stack s stack s
  | step {e : Ext} {answers : List Ext} {k : Cmd} {rest new stack : List Cmd} {s s' s'' : Shared} :
      program.exec t e k s = some (s', new) → Alone program t answers (new ++ rest) s' stack s'' →
      Alone program t (e :: answers) (k :: rest) s stack s''

namespace Program.Alone

variable {program : Program Thread Ext Cmd Shared} {t : Thread} {answers answers' : List Ext}
  {stack stack' stack'' : List Cmd} {s s' s'' : Shared} {e : Ext} {k : Cmd} {new rest : List Cmd}

/-- A single command. -/
theorem single (ran : program.exec t e k s = some (s', new)) :
    program.Alone t [e] (k :: rest) s (new ++ rest) s' := .step ran (.done _ _)

theorem trans (first : program.Alone t answers stack s stack' s')
    (second : program.Alone t answers' stack' s' stack'' s'') :
    program.Alone t (answers ++ answers') stack s stack'' s'' := by
  induction first with
  | done => exact second
  | step ran _ inductionHypothesis => exact .step ran (inductionHypothesis second)

/-- The other threads have not moved. -/
theorem reaches [DecidableEq Thread] {c : Config Thread Cmd Shared}
    (alone : program.Alone t answers (c.stack t) c.shared stack s) :
    program.Reaches always c ⟨s, Function.update c.stack t stack⟩ := by
  generalize first : c.stack t = top, before : c.shared = now at alone
  induction alone generalizing c with
  | done =>
      subst first before
      rw [Function.update_eq_self]
      exact .refl
  | @step e answers k rest new stack s s' s'' ran later inductionHypothesis =>
      have fired : program.fire t e c = some ⟨s', Function.update c.stack t (new ++ rest)⟩ :=
        program.fire_eq_some_iff.mpr ⟨k, rest, s', new, first, before ▸ ran, rfl⟩
      have onward := @inductionHypothesis ⟨s', Function.update c.stack t (new ++ rest)⟩
        (Function.update_self ..) rfl
      rw [Function.update_idem] at onward
      exact .head ⟨t, e, rfl, fired⟩ onward

end Program.Alone

end OnlineChat.Library
