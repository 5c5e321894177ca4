import OnlineChat.RoomRouter

/-!
# The mirror over a sequence of calls

Whatever is called, the members of the rooms and the rooms of the users say the same, and a
call concerns its own user only.
-/

namespace OnlineChat.RoomRouter

open Library

/-! ## Calls -/

inductive Call where
  | create (name owner : Bytes) (dbId createdAt : Int)
  | join (user room : Bytes)
  | leave (user : Bytes)

/-- No name is empty. -/
def Call.Named : Call → Prop
  | .create name owner _ _ => name ≠ [] ∧ owner ≠ []
  | .join user room => user ≠ [] ∧ room ≠ []
  | .leave user => user ≠ []

instance (k : Call) : Decidable k.Named := by
  cases k <;> unfold Call.Named <;> infer_instance

/-- The user whom the call concerns. -/
def Call.user : Call → Option Bytes
  | .create _ _ _ _ => none
  | .join user _ | .leave user => some user

def call (r : RoomRouter) : Call → RoomRouter
  | .create name owner dbId createdAt => (r.create name owner dbId createdAt).2
  | .join user room => (r.join user room).2
  | .leave user => (r.leave user).2

/-- The table after these calls. -/
def after (calls : List Call) : RoomRouter := calls.foldl call {}

/-- What the two maps say of each other, and what the next call reports and leaves alone. -/
structure Mirrors (r : RoomRouter) : Prop where
  mirrored : r.Mirrored
  exists_room : ∀ user room, r.userRooms.find? user = some room → r.exists room = true
  unique : ∀ user room room', user ∈ r.members room → user ∈ r.members room' → room = room'
  missing : ∀ user room, r.exists room = false → r.join user room = (none, r)
  existing : ∀ name owner dbId createdAt, r.exists name = true →
    r.create name owner dbId createdAt = (false, r)
  /-- An empty name stands for no room. -/
  previous : ∀ user room, r.exists room = true → ∃ prev, (r.join user room).1 = some prev ∧
    (prev = [] ↔ ∀ room', user ∉ r.members room') ∧
    ∀ room', room' ≠ [] → (prev = room' ↔ user ∈ r.members room')
  frame : ∀ k user room, k.user ≠ some user →
    (user ∈ (r.call k).members room ↔ user ∈ r.members room)

/-! ## One call -/

variable {r : RoomRouter} {user room room' : Bytes}

/-- The mirror, and every room has a name. -/
structure Kept (r : RoomRouter) : Prop where
  mirrored : r.Mirrored
  named : r.exists [] = false

theorem exists_create {name owner : Bytes} {dbId createdAt : Int} :
    (r.create name owner dbId createdAt).2.exists room = true ↔
      room = name ∨ r.exists room = true := by
  unfold create «exists»
  split
  next there =>
    constructor
    · exact .inr
    · rintro (rfl | old)
      · exact there
      · exact old
  next => simp only [SortedMap.contains_iff, SortedMap.mem_keys_insert]

theorem exists_join : (r.join user room).2.exists room' = r.exists room' := by
  unfold join «exists»
  split
  · split
    · split
      · rfl
      · exact contains_modifyMembers.trans contains_modifyMembers
    · exact contains_modifyMembers
  · rfl

theorem exists_leave : (r.leave user).2.exists room = r.exists room := by
  unfold leave «exists»
  split
  · rfl
  · exact contains_modifyMembers

theorem mirrored_call (mirrored : r.Mirrored) (k : Call) : (r.call k).Mirrored := by
  cases k with
  | create name owner dbId createdAt => exact mirrored_create mirrored name owner dbId createdAt
  | join user room => exact mirrored_join mirrored user room
  | leave user => exact mirrored_leave mirrored user

theorem Kept.call (kept : Kept r) {k : Call} (named : k.Named) : Kept (r.call k) := by
  refine ⟨mirrored_call kept.mirrored k, ?_⟩
  rw [← kept.named]
  cases k with
  | create name owner dbId createdAt =>
      have apart : ¬ [] = name := fun empty => named.1 empty.symm
      exact Bool.eq_iff_iff.mpr (exists_create.trans (or_iff_right apart))
  | join user room => exact exists_join
  | leave user => exact exists_leave

theorem exists_of_mem (member : user ∈ r.members room) : r.exists room = true := by
  unfold members at member
  split at member
  next info found => simp [«exists», SortedMap.contains, found]
  next => cases member

/-- Where a call leaves the other users. -/
theorem find?_call {k : Call} (other : k.user ≠ some user) :
    (r.call k).userRooms.find? user = r.userRooms.find? user := by
  cases k with
  | create name owner dbId createdAt =>
      unfold RoomRouter.call create
      dsimp only
      split <;> rfl
  | join user' room =>
      have apart : user ≠ user' := fun same => other (congrArg some same.symm)
      cases joined : (r.join user' room).1 with
      | none => rw [RoomRouter.call, join_eq_none joined]
      | some prev => rw [RoomRouter.call, find?_join joined, if_neg apart]
  | leave user' =>
      have apart : user ≠ user' := fun same => other (congrArg some same.symm)
      rw [RoomRouter.call, find?_leave, if_neg apart]

/-- A join reports the room that the user is in. -/
theorem join_fst (there : r.exists room = true) :
    (r.join user room).1 = some (r.userRoom user) := by
  unfold «exists» at there
  unfold join userRoom
  rw [if_pos there]
  cases was : r.userRooms.find? user with
  | none => rfl
  | some prev =>
      dsimp only
      split <;> rfl

/-! ## Sequences of calls -/

theorem kept_after {calls : List Call} (named : ∀ k ∈ calls, k.Named) : Kept (after calls) :=
  List.foldlRecOn calls call ⟨mirrored_empty, rfl⟩
    fun _ kept k there => Kept.call kept (named k there)

/-- After any calls with names the two maps mirror each other. -/
theorem mirrors_after {calls : List Call} (named : ∀ k ∈ calls, k.Named) :
    Mirrors (after calls) := by
  have kept := kept_after named
  generalize after calls = r at kept
  obtain ⟨mirrored, nameless⟩ := kept
  refine ⟨mirrored, ?_, ?_, ?_, ?_, ?_, ?_⟩
  · intro user room found
    exact exists_of_mem ((mirrored user room).mpr found)
  · intro user room room' member member'
    have same := ((mirrored user room).mp member).symm.trans ((mirrored user room').mp member')
    exact Option.some.inj same
  · intro user room missing
    have absent : ¬ r.rooms.contains room = true := by simpa [«exists»] using missing
    rw [join, if_neg absent]
  · intro name owner dbId createdAt there
    exact if_pos there
  · intro user room there
    refine ⟨r.userRoom user, join_fst there, ?_, ?_⟩
    · unfold userRoom
      cases was : r.userRooms.find? user with
      | none =>
          have out (room' : Bytes) : user ∉ r.members room' := fun member => by
            cases was.symm.trans ((mirrored user room').mp member)
          simpa using out
      | some current =>
          have member : user ∈ r.members current := (mirrored user current).mpr was
          have named : current ≠ [] := by
            rintro rfl
            cases nameless.symm.trans (exists_of_mem member)
          exact iff_of_false named fun out => out current member
    · intro room' named
      rw [mirrored user room']
      unfold userRoom
      cases was : r.userRooms.find? user with
      | none => simpa [eq_comm] using named
      | some current => simp
  · intro k user room other
    rw [mirrored_call mirrored k user room, mirrored user room, find?_call other]

/-- Alice goes from one room to another. -/
theorem mirrors_after_move :
    Mirrors (after [.create (bytes "lobby") (bytes "SERVER") 1 0, .create (bytes "den") (bytes "bob") 2 5,
      .join (bytes "alice") (bytes "lobby"), .join (bytes "alice") (bytes "den")]) :=
  mirrors_after (by decide)

end OnlineChat.RoomRouter
