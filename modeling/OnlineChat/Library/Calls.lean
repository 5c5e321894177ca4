import Mathlib.Data.List.Induction

/-!
# Sequences of calls

An object is called again and again.  A call changes its state and leaves notes of what it
did; no call reads the notes.
-/

namespace OnlineChat.Library

universe u v w

variable {State : Type u} {Call : Type v} {Note : Type w}

/-- The notes of the calls in their order, and the state after the last one. -/
def runCalls (step : State → Call → List Note × State) (s : State) (calls : List Call) :
    List Note × State :=
  calls.foldl (fun r call => (r.1 ++ (step r.2 call).1, (step r.2 call).2)) ([], s)

variable {step : State → Call → List Note × State} {s : State} {calls : List Call}

@[simp]
theorem runCalls_nil : runCalls step s [] = ([], s) := rfl

theorem runCalls_concat (call : Call) :
    runCalls step s (calls ++ [call]) =
      ((runCalls step s calls).1 ++ (step (runCalls step s calls).2 call).1,
        (step (runCalls step s calls).2 call).2) := by
  simp [runCalls]

/-- What every call keeps holds after every sequence of calls. -/
theorem runCalls_invariant {motive : List Call → List Note → State → Prop}
    (start : motive [] [] s)
    (keeps : ∀ calls call past s, motive calls past s →
      motive (calls ++ [call]) (past ++ (step s call).1) (step s call).2)
    (calls : List Call) :
    motive calls (runCalls step s calls).1 (runCalls step s calls).2 := by
  induction calls using List.reverseRecOn with
  | nil => exact start
  | append_singleton calls call inductionHypothesis =>
      rw [runCalls_concat]
      exact keeps calls call _ _ inductionHypothesis

end OnlineChat.Library
