import OnlineChat.Server.Sessions

/-!
# Who is in a room

The members of the rooms are online, as long as a JOIN is carried out only while its user
is online.
-/

namespace OnlineChat

open Library ChatServer

variable {st : Startup} {s : ChatServer} {c : ConnId} {e : Ext} {w w' : World} {t : Thread}
  {k : Cmd} {new : List Cmd} {File : Type} {file : Database File} {b : BootExt}
  {cfg : Config Thread Cmd World}

/-! ## One section of the router -/

/-- A section of the router joins, leaves or creates a room, or only looks. -/
theorem runRouter_cases (s : ChatServer) (c : ConnId) (e : Ext) (k : RouterCmd) :
    (runRouter s c e k).state = s.router ∨
    (∃ room, k = .joinRoom room ∧
      (runRouter s c e k).state = (s.router.join (s.sess.username c) room).2) ∨
    (runRouter s c e k).state = (s.router.leave (s.sess.username c)).2 ∨
    ∃ name owner dbId ts,
      (runRouter s c e k).state = (s.router.create name owner dbId ts).2 := by
  cases k with
  | joinRoom room =>
      refine .inr (.inl ⟨room, rfl, ?_⟩)
      simp only [runRouter, joinRoom]
      split <;> simp_all
  | doLeave => exact .inr (.inr (.inl rfl))
  | createRoom room dbId ts => exact .inr (.inr (.inr ⟨_, _, _, _, rfl⟩))
  | _ => exact .inl rfl

theorem RoomRouter.userRooms_create (r : RoomRouter) (name owner : Bytes) (dbId ts : Int) :
    (r.create name owner dbId ts).2.userRooms = r.userRooms := by
  unfold RoomRouter.create
  split <;> rfl

/-! ## The members are online -/

/-- A JOIN is carried out only while its user is online. -/
def joinsOnline (cfg : Config Thread Cmd World) (t : Thread) (_ : Ext) : Bool :=
  match cfg.stack t with
  | .router (.joinRoom _) :: _ =>
      (cfg.shared.server.sess.online (cfg.shared.server.sess.username t.conn)).isSome
  | _ => true

/-- Every member of a room is online, and a user who is not has no room and is in none. -/
structure NoGhostMembers (s : ChatServer) : Prop where
  online : ∀ room, ∀ user ∈ s.router.members room, ∃ c, s.sess.online user = some c
  offline : ∀ user, s.sess.online user = none →
    s.router.userRoom user = [] ∧ ∀ room, user ∉ s.router.members room

/-- The user side of the table: who has a room is online, and the room has a name. -/
structure Housed (s : ChatServer) : Prop where
  mirrored : s.router.Mirrored
  named : ∀ user room, s.router.userRooms.find? user = some room → room ≠ []
  online : ∀ user room, s.router.userRooms.find? user = some room →
    ∃ c, s.sess.online user = some c

theorem noGhostMembers_of_housed (housed : Housed s) : NoGhostMembers s := by
  constructor
  · intro room user member
    exact housed.online user room ((housed.mirrored user room).mp member)
  · intro user offline
    have homeless (room : Bytes) : s.router.userRooms.find? user ≠ some room := by
      intro house
      obtain ⟨c, online⟩ := housed.online user room house
      simp [offline] at online
    constructor
    · rw [RoomRouter.userRoom, Option.eq_none_iff_forall_ne_some.mpr homeless]
      rfl
    · intro room member
      exact homeless room ((housed.mirrored user room).mp member)

/-- Nobody loses a room by being online on another connection. -/
theorem Housed.congr {s' : ChatServer} (housed : Housed s) (router : s'.router = s.router)
    (stays : ∀ user c, s.sess.online user = some c → ∃ c', s'.sess.online user = some c') :
    Housed s' := by
  refine ⟨?_, ?_, ?_⟩
  · rw [router]
    exact housed.mirrored
  · rw [router]
    exact housed.named
  · rw [router]
    intro user room house
    obtain ⟨c, online⟩ := housed.online user room house
    exact stays user c online

theorem Housed.leave (housed : Housed s) (user : Bytes) :
    Housed { s with router := (s.router.leave user).2 } := by
  have stays (user' room : Bytes)
      (house : (s.router.leave user).2.userRooms.find? user' = some room) :
      s.router.userRooms.find? user' = some room := by
    rw [RoomRouter.find?_leave] at house
    split at house
    · cases house
    · exact house
  refine ⟨RoomRouter.mirrored_leave housed.mirrored user, ?_, ?_⟩
  · intro user' room house
    exact housed.named user' room (stays user' room house)
  · intro user' room house
    exact housed.online user' room (stays user' room house)

theorem Housed.join (housed : Housed s) {user room : Bytes} (valid : room ≠ []) {c : ConnId}
    (online : s.sess.online user = some c) :
    Housed { s with router := (s.router.join user room).2 } := by
  cases joined : (s.router.join user room).1 with
  | none =>
      rw [RoomRouter.join_eq_none joined]
      exact housed
  | some prev =>
      have found := RoomRouter.find?_join joined
      refine ⟨RoomRouter.mirrored_join housed.mirrored user room, ?_, ?_⟩
      · intro user' room' house
        rw [found] at house
        split at house
        · cases house
          exact valid
        · exact housed.named user' room' house
      · intro user' room' house
        rw [found] at house
        split at house
        next same =>
          subst same
          exact ⟨c, online⟩
        · exact housed.online user' room' house

/-- A user who goes offline leaves his room in the same section. -/
theorem Housed.without (housed : Housed s) (sound : s.sess.Sound) (v : ConnId) :
    Housed { s with sess := s.sess.without v, router := s.roomsWithout v } := by
  have left : s.sess.online (s.sess.username v) = some v →
      (s.roomsWithout v).userRooms.find? (s.sess.username v) = none := by
    intro online
    have authed := (sound.held _ v online).1
    by_cases room : s.router.userRoom (s.sess.username v) = []
    · simp only [roomsWithout, authed, online, room, ne_eq, not_true_eq_false, and_false, if_false]
      cases house : s.router.userRooms.find? (s.sess.username v) with
      | none => rfl
      | some room' =>
          have empty : room' = [] := by simpa [RoomRouter.userRoom, house] using room
          exact absurd empty (housed.named _ room' house)
    · simp [roomsWithout, authed, online, room, RoomRouter.find?_leave]
  have rooms : Housed { s with router := s.roomsWithout v } := by
    unfold roomsWithout
    split
    · exact housed.leave _
    · exact housed
  refine ⟨rooms.mirrored, rooms.named, ?_⟩
  intro user room house
  obtain ⟨c, online⟩ := rooms.online user room house
  dsimp only at house online ⊢
  rw [Sessions.online_without sound]
  split
  next mine =>
    obtain rfl := (sound.held user v mine).2
    rw [left mine] at house
    cases house
  next => exact ⟨c, online⟩

/-! ## The invariant of a run -/

/-- A JOIN on its way is to a room with a name. -/
def JoinNamed (_ : Thread) (k : Cmd) (_ : World) : Prop :=
  ∀ room, k = .router (.joinRoom room) → room ≠ []

theorem housed_run (sound : w.server.sess.Sound) (housed : Housed w.server)
    (named : JoinNamed t k w)
    (joins : ∀ room, k = .router (.joinRoom room) →
      (w.server.sess.online (w.server.sess.username t.conn)).isSome = true)
    (ran : w.run st t.conn e k = some (w', new)) : Housed w'.server := by
  cases k with
  | sess k =>
      obtain ⟨rfl, -⟩ := Prod.mk.inj (Option.some.inj ran)
      have installed (name : Bytes) :
          Housed { w.server with sess := install w.server t.conn name } := by
        refine housed.congr ?_ ?_
        · rfl
        intro user c online
        by_cases same : user = name
        · exact ⟨t.conn, by simp [install, same]⟩
        · exact ⟨c, by simp [install, same, online]⟩
      rcases runSess_cases st w.server t.conn e k with ⟨state, -⟩ |
        ⟨ip, port, arrival, rfl, state, -⟩ | ⟨name, token, exp, rfl, state, -⟩ |
        ⟨name, rfl, state, -⟩ | ⟨v, n, rfl, -, state, -⟩
      · simp only [state]
        exact housed
      · simp only [state]
        refine housed.congr ?_ ?_
        · rfl
        · exact fun user c online => ⟨c, online⟩
      · simp only [state]
        exact installed name
      · simp only [state]
        exact installed name
      · simp only [state]
        exact housed.without sound v
  | router k =>
      obtain ⟨rfl, -⟩ := Prod.mk.inj (Option.some.inj ran)
      rcases runRouter_cases w.server t.conn e k with state | ⟨room, rfl, state⟩ | state |
        ⟨name, owner, dbId, ts, state⟩
      · simp only [state]
        exact housed
      · simp only [state]
        obtain ⟨c, online⟩ := Option.isSome_iff_exists.mp (joins room rfl)
        exact housed.join (named room rfl) online
      · simp only [state]
        exact housed.leave _
      · simp only [state]
        have users := RoomRouter.userRooms_create w.server.router name owner dbId ts
        refine ⟨RoomRouter.mirrored_create housed.mirrored _ _ _ _, ?_, ?_⟩
        · intro user room house
          exact housed.named user room (users ▸ house)
        · intro user room house
          exact housed.online user room (users ▸ house)
  | _ =>
      refine housed.congr (router_run ran (by simp) (by simp)) ?_
      intro user c online
      exact ⟨c, by rw [sess_run ran (by simp), online]⟩

theorem housed_boot (st : Startup) (file : Database File) (b : BootExt) :
    Housed (boot st file b) := by
  -- the rooms of the file, and the lobby, are created without members
  have created (r : RoomRouter) (rows : List (Int × RoomRow)) (mirrored : r.Mirrored)
      (empty : r.userRooms = ∅) :
      let r' := rows.foldl (fun (router : RoomRouter) row =>
        (router.create row.2.name row.2.owner row.1 row.2.createdAt).2) r
      r'.Mirrored ∧ r'.userRooms = ∅ := by
    induction rows generalizing r with
    | nil => exact ⟨mirrored, empty⟩
    | cons row rows inductionHypothesis =>
        apply inductionHypothesis
        · exact RoomRouter.mirrored_create mirrored _ _ _ _
        · rw [RoomRouter.userRooms_create, empty]
  obtain ⟨mirrored, empty⟩ := created {} ((file.reopen : Database Origin).listRooms b.lists)
    RoomRouter.mirrored_empty rfl
  have loaded : (boot st file b).router.Mirrored ∧ (boot st file b).router.userRooms = ∅ := by
    unfold boot loadOrCreateLobby
    dsimp only
    split
    · exact ⟨mirrored, empty⟩
    · split
      · exact ⟨mirrored, empty⟩
      · exact ⟨RoomRouter.mirrored_create mirrored _ _ _ _,
          by rw [RoomRouter.userRooms_create, empty]⟩
  refine ⟨loaded.1, ?_, ?_⟩
  · intro user room house
    rw [loaded.2] at house
    cases house
  · intro user room house
    rw [loaded.2] at house
    cases house

/-- No ghost room members, in every run whose JOINs are carried out while their user is
online. -/
theorem noGhostMembers_of_run (run : (server st).Reaches joinsOnline (start st file b) cfg) :
    NoGhostMembers cfg.shared.server := by
  have outlined : Outlined Above (fun w => Housed w.server) JoinNamed cfg := by
    refine run.outlined (respects st) ?_ ?_ ?_
    · refine ⟨housed_boot st file b, ?_, ?_⟩
      · intro t
        cases t <;> simp [start]
      · intro t k waiting room
        cases t <;> simp_all [start]
    · intro cfg t e k rest w new reached outlined allowed stack ran
      obtain ⟨-, ran⟩ := exec_eq_some_iff.mp ran
      constructor
      · refine housed_run (sound_of_run reached).inv outlined.inv
          (outlined.pending t k (by simp [stack])) ?_ ran
        rintro room rfl
        simpa [joinsOnline, stack] using allowed
      · rintro n membership room rfl
        obtain ⟨obj, -, valid⟩ := calledBy_run ran _ membership
        exact ne_nil_of_validName valid
    · intro cfg t e k rest w new _ _ _ _ _ t' k' _ _ named
      exact named
  exact noGhostMembers_of_housed outlined.inv

/-! ## Runs on fixed schedules -/

theorem noGhostMembers_of_run_join :
    ∃ cfg, (server Demo.startup).Reaches joinsOnline (start Demo.startup Demo.file {}) cfg ∧
      NoGhostMembers cfg.shared.server ∧
      cfg.shared.server.router.members (bytes "lobby") = [bytes "alice"] := by
  obtain ⟨cfg, run, member⟩ := Program.exists_reaches_of_play (server Demo.startup) joinsOnline
    (Demo.joining ++ Demo.steps (.client 1) 1) (start Demo.startup Demo.file {})
    (fun cfg => cfg.shared.server.router.members (bytes "lobby") = [bytes "alice"])
    (by decide +kernel)
  exact ⟨cfg, run, noGhostMembers_of_run run, by simpa using member⟩

/-- The heartbeat drops connection 1 before the JOIN is carried out: once all handlers are
done, alice is offline and in the lobby. -/
theorem ghost_member :
    ∃ cfg, (server Demo.startup).Reaches Program.always (start Demo.startup Demo.file {}) cfg ∧
      cfg.stack (.client 1) = [] ∧ ¬ NoGhostMembers cfg.shared.server := by
  obtain ⟨cfg, run, ghost⟩ := Program.exists_reaches_of_play (server Demo.startup)
    Program.always (Demo.joining ++ [(.monitor, { clock := fun _ => 30001 })] ++
      Demo.steps .monitor 1 ++ Demo.steps (.client 1) 12)
    (start Demo.startup Demo.file {})
    (fun cfg => (cfg.stack (.client 1)).isEmpty ∧
      bytes "alice" ∈ cfg.shared.server.router.members (bytes "lobby") ∧
      cfg.shared.server.sess.online (bytes "alice") = none) (by decide +kernel)
  obtain ⟨done, member, offline⟩ := of_decide_eq_true ghost
  exact ⟨cfg, run, List.isEmpty_iff.mp done, fun sound =>
    (sound.offline _ offline).2 _ member⟩

end OnlineChat
