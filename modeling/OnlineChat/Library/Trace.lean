import Mathlib.Data.List.Nodup

/-!
# Traces

A law says which event may follow which past.  A trace is lawful when each of its
events obeys the law.
-/

namespace OnlineChat.Library

universe u

variable {Event : Type u} {Legal : List Event → Event → Prop} {trace events : List Event}

/-- Each event of the trace is legal after the events before it. -/
def Lawful (Legal : List Event → Event → Prop) (trace : List Event) : Prop :=
  ∀ past x later, trace = past ++ x :: later → Legal past x

@[simp]
theorem lawful_nil : Lawful Legal [] := by
  intro past x later split
  simp at split

/-- An event of a longer trace is an old one or one of the new ones. -/
theorem append_eq_append_cons {past later : List Event} {x : Event}
    (split : trace ++ events = past ++ x :: later) :
    (∃ later', trace = past ++ x :: later' ∧ later = later' ++ events) ∨
      ∃ past', past = trace ++ past' ∧ events = past' ++ x :: later := by
  rcases List.append_eq_append_iff.mp split with ⟨mid, old, new⟩ | ⟨mid, old, new⟩
  · exact .inr ⟨mid, old, new⟩
  · cases mid with
    | nil => exact .inr ⟨[], by simpa using old.symm, new.symm⟩
    | cons head mid =>
        obtain ⟨rfl, rfl⟩ := List.cons.inj new
        exact .inl ⟨mid, old, rfl⟩

theorem Lawful.append (lawful : Lawful Legal trace)
    (fresh : ∀ past x later, events = past ++ x :: later → Legal (trace ++ past) x) :
    Lawful Legal (trace ++ events) := by
  intro past x later split
  rcases append_eq_append_cons split with ⟨later', old, -⟩ | ⟨past', rfl, new⟩
  · exact lawful past x later' old
  · exact fresh past' x later new

theorem Lawful.concat {x : Event} (lawful : Lawful Legal trace) (legal : Legal trace x) :
    Lawful Legal (trace ++ [x]) := by
  apply lawful.append
  intro past y later split
  cases past with
  | nil =>
      obtain ⟨rfl, -⟩ := List.cons.inj split
      simpa using legal
  | cons head past => simp at split

/-- Events that are legal after any past change nothing. -/
theorem Lawful.append_of_forall (lawful : Lawful Legal trace)
    (legal : ∀ x ∈ events, ∀ past, Legal past x) : Lawful Legal (trace ++ events) := by
  apply lawful.append
  intro past x later split
  apply legal
  simp [split]

/-- What is read off a trace stays without repetition when at most one new item comes, and
it is new. -/
theorem nodup_filterMap_append {Item : Type u} {read : Event → Option Item}
    (old : (trace.filterMap read).Nodup)
    (short : (∀ x ∈ events, read x = none) ∨ events.length ≤ 1)
    (fresh : ∀ x ∈ events, ∀ item, read x = some item → item ∉ trace.filterMap read) :
    ((trace ++ events).filterMap read).Nodup := by
  rw [List.filterMap_append]
  rcases short with none | short
  · rw [List.filterMap_eq_nil_iff.mpr none, List.append_nil]
    exact old
  · match events, short with
    | [], _ => simpa using old
    | [x], _ =>
        cases result : read x with
        | none => simpa [result] using old
        | some item =>
            have unread := fresh x (by simp) item result
            simp only [List.filterMap_cons, result, List.filterMap_nil]
            rw [List.nodup_append_comm]
            exact List.nodup_cons.mpr ⟨unread, old⟩

/-! ## The latest -/

variable {Item : Type u} {read : Event → Option Item}

/-- The last item that is read off a trace. -/
def latest (read : Event → Option Item) (trace : List Event) : Option Item :=
  (trace.filterMap read).getLast?

theorem latest_append : latest read (trace ++ events) = (latest read events).or
    (latest read trace) := by
  unfold latest
  rw [List.filterMap_append, List.getLast?_append]

theorem latest_append_of_none (silent : ∀ x ∈ events, read x = none) :
    latest read (trace ++ events) = latest read trace := by
  have none : latest read events = none := by
    rw [latest, List.filterMap_eq_nil_iff.mpr silent]
    rfl
  rw [latest_append, none, Option.none_or]

theorem latest_concat {x : Event} {item : Item} (reads : read x = some item) :
    latest read (trace ++ [x]) = some item := by
  have one : latest read [x] = some item := by simp [latest, reads]
  rw [latest_append, one, Option.some_or]

theorem mem_of_latest {item : Item} (last : latest read trace = some item) :
    ∃ x ∈ trace, read x = some item :=
  List.mem_filterMap.mp (List.mem_of_getLast? last)

end OnlineChat.Library
