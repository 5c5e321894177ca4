import OnlineChat.Library.Threads

/-!
# Histories

A history is a list of notes beside the shared state.  Each step appends what there is to
note of it, and no step reads the notes, so that a run with notes is a run.
-/

namespace OnlineChat.Library

universe u

variable {Thread Ext Cmd Shared Note : Type u}

/-- The configuration without its notes. -/
def Config.plain (c : Config Thread Cmd (Shared × List Note)) : Config Thread Cmd Shared :=
  ⟨c.shared.1, c.stack⟩

/-- The configuration with notes. -/
def Config.noted (c : Config Thread Cmd Shared) (notes : List Note) :
    Config Thread Cmd (Shared × List Note) :=
  ⟨(c.shared, notes), c.stack⟩

namespace Program

/-- The program that keeps a history; `note` looks at the state before a step. -/
def recording (program : Program Thread Ext Cmd Shared)
    (note : Thread → Ext → Cmd → Shared → List Note) :
    Program Thread Ext Cmd (Shared × List Note) where
  exec t e k s := (program.exec t e k s.1).map fun r => ((r.1, s.2 ++ note t e k s.1), r.2)

variable {program : Program Thread Ext Cmd Shared}
  {note : Thread → Ext → Cmd → Shared → List Note} {t : Thread} {e : Ext} {k : Cmd}
  {s s' : Shared × List Note} {new : List Cmd}

theorem exec_recording : (program.recording note).exec t e k s = some (s', new) ↔
    program.exec t e k s.1 = some (s'.1, new) ∧ s'.2 = s.2 ++ note t e k s.1 := by
  obtain ⟨shared', notes'⟩ := s'
  simp only [recording, Option.map_eq_some_iff, Prod.mk.injEq, Prod.exists]
  constructor
  · rintro ⟨_, _, ran, ⟨rfl, rfl⟩, rfl⟩
    exact ⟨ran, rfl⟩
  · rintro ⟨ran, rfl⟩
    exact ⟨shared', new, ran, ⟨rfl, rfl⟩, rfl⟩

theorem Respects.recording {Above : Cmd → Cmd → Prop} (respects : program.Respects Above) :
    (program.recording note).Respects Above := by
  intro t e k s s' new ran
  exact respects t e k s.1 s'.1 new (exec_recording.mp ran).1

variable [DecidableEq Thread] {When : Config Thread Cmd Shared → Thread → Ext → Bool}
  {c c' : Config Thread Cmd (Shared × List Note)}

/-- A step with notes is a step. -/
theorem fire_recording : (program.recording note).fire t e c = some c' →
    program.fire t e c.plain = some c'.plain := by
  intro fired
  obtain ⟨k, rest, s, new, stack, ran, rfl⟩ := fire_eq_some_iff _ |>.mp fired
  exact (fire_eq_some_iff _).mpr ⟨k, rest, s.1, new, stack, (exec_recording.mp ran).1, rfl⟩

/-- A run with notes is a run. -/
theorem Reaches.plain
    (run : (program.recording note).Reaches (fun c t e => When c.plain t e) c c') :
    program.Reaches When c.plain c'.plain := by
  induction run with
  | refl => exact .refl
  | tail _ last inductionHypothesis =>
      obtain ⟨t, e, allowed, fired⟩ := last
      exact inductionHypothesis.tail ⟨t, e, allowed, fire_recording fired⟩

/-- Every step is one with notes. -/
theorem fire_recorded {c c' : Config Thread Cmd Shared}
    (note : Thread → Ext → Cmd → Shared → List Note) (notes : List Note)
    (fired : program.fire t e c = some c') :
    ∃ notes', (program.recording note).fire t e (c.noted notes) = some (c'.noted notes') := by
  obtain ⟨k, rest, s, new, stack, ran, rfl⟩ := fire_eq_some_iff _ |>.mp fired
  refine ⟨notes ++ note t e k c.shared, (fire_eq_some_iff _).mpr ?_⟩
  exact ⟨k, rest, (s, notes ++ note t e k c.shared), new, stack, exec_recording.mpr ⟨ran, rfl⟩, rfl⟩

/-- Every run is one with notes. -/
theorem Reaches.recorded {c c' : Config Thread Cmd Shared} (run : program.Reaches When c c')
    (note : Thread → Ext → Cmd → Shared → List Note) (notes : List Note) :
    ∃ notes', (program.recording note).Reaches
      (fun c t e => When c.plain t e) (c.noted notes) (c'.noted notes') := by
  induction run with
  | refl => exact ⟨notes, .refl⟩
  | tail _ step inductionHypothesis =>
      obtain ⟨notes', reached⟩ := inductionHypothesis
      obtain ⟨t, e, allowed, fired⟩ := step
      obtain ⟨notes'', fired⟩ := fire_recorded note notes' fired
      exact ⟨notes'', reached.tail ⟨t, e, allowed, fired⟩⟩

end Program

end OnlineChat.Library
