import OnlineChat.Bytes
import OnlineChat.Library.SortedMap

/-!
# The room routing table

Two maps that mirror each other: the members of every room and the room of every
user.
-/

namespace OnlineChat

open Library

structure RoomInfo where
  dbId : Int
  name : Bytes
  owner : Bytes
  createdAt : Int
  members : SortedMap Bytes Unit := ∅

structure RoomRouter where
  rooms : SortedMap Bytes RoomInfo := ∅
  userRooms : SortedMap Bytes Bytes := ∅

namespace RoomRouter

/-- `false` when the room exists already. -/
def create (r : RoomRouter) (name owner : Bytes) (dbId createdAt : Int) : Bool × RoomRouter :=
  if r.rooms.contains name then (false, r)
  else (true, { r with rooms := r.rooms.insert name { dbId, name, owner, createdAt } })

def «exists» (r : RoomRouter) (name : Bytes) : Bool := r.rooms.contains name

/-- Change the members of a room, if there is that room. -/
def modifyMembers (rooms : SortedMap Bytes RoomInfo) (room : Bytes)
    (f : SortedMap Bytes Unit → SortedMap Bytes Unit) : SortedMap Bytes RoomInfo :=
  match rooms.find? room with
  | some info => rooms.insert room { info with members := f info.members }
  | none => rooms

/-- `none` when there is no such room, else the room the user was in before (empty
when in none). -/
def join (r : RoomRouter) (user room : Bytes) : Option Bytes × RoomRouter :=
  if r.rooms.contains room then
    match r.userRooms.find? user with
    | some prev =>
        if prev = room then (some prev, r)
        else
          let rooms := modifyMembers r.rooms prev (·.erase user)
          (some prev,
            { rooms := modifyMembers rooms room (·.insert user ()),
              userRooms := r.userRooms.insert user room })
    | none =>
        (some [],
          { rooms := modifyMembers r.rooms room (·.insert user ()),
            userRooms := r.userRooms.insert user room })
  else (none, r)

/-- The room that was left, empty when the user was in none. -/
def leave (r : RoomRouter) (user : Bytes) : Bytes × RoomRouter :=
  match r.userRooms.find? user with
  | none => ([], r)
  | some room =>
      (room, { rooms := modifyMembers r.rooms room (·.erase user),
               userRooms := r.userRooms.erase user })

def userRoom (r : RoomRouter) (user : Bytes) : Bytes := (r.userRooms.find? user).getD []

def members (r : RoomRouter) (room : Bytes) : List Bytes :=
  match r.rooms.find? room with
  | some info => info.members.keys
  | none => []

def dbId (r : RoomRouter) (room : Bytes) : Int :=
  match r.rooms.find? room with
  | some info => info.dbId
  | none => 0

def list (r : RoomRouter) : List RoomInfo := r.rooms.entries.map Prod.snd

/-! ## The mirror -/

/-- A user is a member of a room exactly when that room is the user's. -/
def Mirrored (r : RoomRouter) : Prop :=
  ∀ user room, user ∈ r.members room ↔ r.userRooms.find? user = some room

theorem nodup_members (r : RoomRouter) (room : Bytes) : (r.members room).Nodup := by
  unfold members
  split
  · exact SortedMap.nodup_keys _
  · exact List.nodup_nil

theorem members_modifyMembers (rooms : SortedMap Bytes RoomInfo)
    (users users' : SortedMap Bytes Bytes) (room room' : Bytes)
    (f : SortedMap Bytes Unit → SortedMap Bytes Unit) :
    members ⟨modifyMembers rooms room f, users⟩ room' =
      match rooms.find? room with
      | some info =>
          if room' = room then (f info.members).keys else members ⟨rooms, users'⟩ room'
      | none => members ⟨rooms, users'⟩ room' := by
  unfold modifyMembers members
  cases found : rooms.find? room with
  | none => rfl
  | some info =>
      dsimp only
      rw [SortedMap.find?_insert]
      by_cases same : room' = room <;> simp [same]

theorem mem_members_erase {rooms : SortedMap Bytes RoomInfo} {users : SortedMap Bytes Bytes}
    (users' : SortedMap Bytes Bytes) {room room' user user' : Bytes} :
    user' ∈ members ⟨modifyMembers rooms room (·.erase user), users⟩ room' ↔
      user' ∈ members ⟨rooms, users'⟩ room' ∧ ¬ (room' = room ∧ user' = user) := by
  rw [members_modifyMembers rooms users users']
  cases found : rooms.find? room with
  | none =>
      simp only [iff_self_and]
      rintro membership ⟨rfl, -⟩
      simp [members, found] at membership
  | some info =>
      by_cases same : room' = room
      · subst same
        simp [members, found, SortedMap.mem_keys_erase, and_comm]
      · simp [same]

theorem mem_members_insert {rooms : SortedMap Bytes RoomInfo} {users : SortedMap Bytes Bytes}
    (users' : SortedMap Bytes Bytes) {room room' user user' : Bytes}
    (there : rooms.contains room = true) :
    user' ∈ members ⟨modifyMembers rooms room (·.insert user ()), users⟩ room' ↔
      user' ∈ members ⟨rooms, users'⟩ room' ∨ (room' = room ∧ user' = user) := by
  rw [members_modifyMembers rooms users users']
  obtain ⟨info, found⟩ := Option.isSome_iff_exists.mp there
  by_cases same : room' = room
  · subst same
    simp [members, found, SortedMap.mem_keys_insert, or_comm]
  · simp [found, same]

theorem contains_modifyMembers {rooms : SortedMap Bytes RoomInfo} {room room' : Bytes}
    {f : SortedMap Bytes Unit → SortedMap Bytes Unit} :
    (modifyMembers rooms room f).contains room' = rooms.contains room' := by
  unfold modifyMembers
  cases found : rooms.find? room with
  | none => rfl
  | some info =>
      by_cases same : room' = room <;> simp [SortedMap.contains, SortedMap.find?_insert, same, found]

/-- Where a successful `join` leaves every user. -/
theorem find?_join {r : RoomRouter} {user room prev : Bytes}
    (joined : (r.join user room).1 = some prev) (user' : Bytes) :
    (r.join user room).2.userRooms.find? user' =
      if user' = user then some room else r.userRooms.find? user' := by
  unfold join at joined ⊢
  by_cases there : r.rooms.contains room = true
  · simp only [there, if_true] at joined ⊢
    cases was : r.userRooms.find? user with
    | none => simp [SortedMap.find?_insert]
    | some prev =>
        by_cases same : prev = room
        · subst same
          by_cases self : user' = user <;> simp [self, was]
        · simp [same, SortedMap.find?_insert]
  · simp [there] at joined

theorem join_eq_none {r : RoomRouter} {user room : Bytes} (missing : (r.join user room).1 = none) :
    (r.join user room).2 = r := by
  unfold join at missing ⊢
  by_cases there : r.rooms.contains room = true
  · simp only [there, if_true] at missing
    cases was : r.userRooms.find? user with
    | none => simp [was] at missing
    | some prev => by_cases same : prev = room <;> simp [was, same] at missing
  · simp [there]

/-- Where `leave` leaves every user. -/
theorem find?_leave (r : RoomRouter) (user user' : Bytes) :
    (r.leave user).2.userRooms.find? user' =
      if user' = user then none else r.userRooms.find? user' := by
  unfold leave
  cases was : r.userRooms.find? user with
  | none => by_cases self : user' = user <;> simp [self, was]
  | some room => simp [SortedMap.find?_erase]

theorem leave_fst (r : RoomRouter) (user : Bytes) : (r.leave user).1 = r.userRoom user := by
  unfold leave userRoom
  cases r.userRooms.find? user <;> rfl

/-! ## The database ids -/

theorem dbId_modifyMembers (rooms : SortedMap Bytes RoomInfo) (users users' : SortedMap Bytes Bytes)
    (room room' : Bytes) (f : SortedMap Bytes Unit → SortedMap Bytes Unit) :
    dbId ⟨modifyMembers rooms room f, users⟩ room' = dbId ⟨rooms, users'⟩ room' := by
  unfold modifyMembers dbId
  cases found : rooms.find? room with
  | none => rfl
  | some info =>
      dsimp only
      rw [SortedMap.find?_insert]
      by_cases same : room' = room
      · simp [same, found]
      · simp [same]

theorem dbId_join (r : RoomRouter) (user room room' : Bytes) :
    (r.join user room).2.dbId room' = r.dbId room' := by
  unfold join
  split
  · split
    · split
      · rfl
      · exact (dbId_modifyMembers _ _ r.userRooms _ _ _).trans (dbId_modifyMembers _ _ _ _ _ _)
    · exact dbId_modifyMembers _ _ _ _ _ _
  · rfl

theorem dbId_leave (r : RoomRouter) (user room : Bytes) :
    (r.leave user).2.dbId room = r.dbId room := by
  unfold leave
  split
  · rfl
  · exact dbId_modifyMembers _ _ _ _ _ _

/-- A room that is created gets its id, and the others keep theirs. -/
theorem dbId_create (r : RoomRouter) (name owner : Bytes) (id createdAt : Int) (room : Bytes) :
    (r.create name owner id createdAt).2.dbId room = r.dbId room ∨
      (room = name ∧ (r.create name owner id createdAt).2.dbId room = id) := by
  unfold create
  split
  · exact .inl rfl
  · by_cases same : room = name
    · right
      simp [dbId, same]
    · left
      simp [dbId, SortedMap.find?_insert, same]

/-! ## The mirror is kept -/

theorem mirrored_empty : Mirrored {} := fun _ _ => by simp [members]

theorem mirrored_create {r : RoomRouter} (mirrored : r.Mirrored) (name owner : Bytes)
    (dbId createdAt : Int) : (r.create name owner dbId createdAt).2.Mirrored := by
  unfold create
  split
  next => exact mirrored
  next fresh =>
    intro user room
    rw [← mirrored user room]
    have absent : r.rooms.find? name = none := by simpa [SortedMap.contains] using fresh
    by_cases same : room = name
    · subst same
      simp [members, absent, SortedMap.keys, EmptyCollection.emptyCollection, SortedMap.empty]
    · simp [members, SortedMap.find?_insert, same]

theorem mirrored_join {r : RoomRouter} (mirrored : r.Mirrored) (user room : Bytes) :
    (r.join user room).2.Mirrored := by
  unfold join
  by_cases there : r.rooms.contains room = true
  · simp only [there, if_true]
    cases was : r.userRooms.find? user with
    | none =>
        intro user' room'
        rw [mem_members_insert r.userRooms there, mirrored user' room',
          SortedMap.find?_insert]
        by_cases self : user' = user
        · simp [self, was, eq_comm]
        · simp [self]
    | some prev =>
        by_cases same : prev = room
        · simpa [same] using mirrored
        · simp only [same, if_false]
          intro user' room'
          rw [mem_members_insert r.userRooms
              (contains_modifyMembers.trans there),
            mem_members_erase r.userRooms, mirrored user' room',
            SortedMap.find?_insert]
          by_cases self : user' = user
          · subst self
            simp only [was, Option.some.injEq, and_true, if_true]
            grind
          · simp [self]
  · simpa [there] using mirrored

theorem mirrored_leave {r : RoomRouter} (mirrored : r.Mirrored) (user : Bytes) :
    (r.leave user).2.Mirrored := by
  unfold leave
  cases was : r.userRooms.find? user with
  | none => exact mirrored
  | some room =>
      intro user' room'
      rw [mem_members_erase r.userRooms, mirrored user' room', SortedMap.find?_erase]
      by_cases self : user' = user
      · subst self
        simp [was, eq_comm]
      · simp [self]

end RoomRouter

end OnlineChat
