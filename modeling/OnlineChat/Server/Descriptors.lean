import OnlineChat.Server.Outgoing
import OnlineChat.Server.Rounds
import OnlineChat.Server.Sessions

/-!
# The descriptor of a connection

`closeConn` runs once for each connection, in the thread that receives from it, and as the
last thing that this thread does.  From then on nobody finds the connection, and its send
side is as it was left.
-/

namespace OnlineChat

open Library ChatServer

variable {st : Startup} {s : ChatServer} {c v : ConnId} {e : Ext} {w w' : World} {t : Thread}
  {k : Cmd} {rest new : List Cmd}

/-! ## The send side -/

namespace SendSide

/-- Behind `closeConn` a section fails, or has nothing to do, and hands nothing over. -/
theorem run_closed {side : SendSide} (closed : side.isOpen = false) (op : Op) (username : Bytes)
    (ts : Int) (results : List WriteResult) :
    (side.run op username ts results).side = side ∧
      (side.run op username ts results).writes = [] := by
  have shut : ¬ side.isOpen = true := by simp [closed]
  cases op with
  | sendFrame obj =>
      change (side.sendFrame obj username ts results).side = side ∧
        (side.sendFrame obj username ts results).writes = []
      unfold sendFrame
      rw [if_pos shut]
      exact ⟨rfl, rfl⟩
  | sendRelay obj originSeq =>
      change (side.sendRelay obj originSeq username ts results).side = side ∧
        (side.sendRelay obj originSeq username ts results).writes = []
      unfold sendRelay
      rw [if_pos shut]
      exact ⟨rfl, rfl⟩
  | drainSlow =>
      have drained : (side.drainOutLocked results).1.side = side ∧
          (side.drainOutLocked results).1.writes = [] := by
        unfold drainOutLocked
        split
        · exact ⟨rfl, rfl⟩
        · exact ⟨rfl, rfl⟩
      change (side.drainSlow username ts results).side = side ∧
        (side.drainSlow username ts results).writes = []
      unfold drainSlow
      dsimp only
      split
      · exact drained
      · rw [drained.1, drained.2, notifyOverpressure]
        dsimp only
        rw [if_neg shut]
        exact ⟨rfl, rfl⟩
  | close =>
      refine ⟨?_, rfl⟩
      change { side with isOpen := false } = side
      rw [← closed]

theorem isOpen_drainTls (rounds : Nat) (side : SendSide) (results : List WriteResult) :
    (drainTls rounds side results).1.side.isOpen = side.isOpen := by
  induction rounds generalizing side results with
  | zero => rfl
  | succ rounds inductionHypothesis =>
      unfold drainTls
      dsimp only
      repeat' split
      · rfl
      · rfl
      · rfl
      · exact inductionHypothesis { side with outbuf := side.outbuf.drop _ } _

theorem isOpen_drainOutLocked (side : SendSide) (results : List WriteResult) :
    (side.drainOutLocked results).1.side.isOpen = side.isOpen := by
  unfold drainOutLocked
  dsimp only
  repeat' split
  · rfl
  · rfl
  · exact isOpen_drainTls _ side results
  · rfl

theorem isOpen_sendLocked (side : SendSide) (body username : Bytes) (ts : Int)
    (results : List WriteResult) :
    (side.sendLocked body username ts results).side.isOpen = side.isOpen := by
  unfold sendLocked
  dsimp only
  repeat' split
  · rfl
  · rfl
  · rfl
  · exact isOpen_drainOutLocked { side with outbuf := _ } results

/-- Only `closeConn` closes. -/
theorem isOpen_run (side : SendSide) {op : Op} (keeps : op ≠ .close) (username : Bytes) (ts : Int)
    (results : List WriteResult) : (side.run op username ts results).side.isOpen = side.isOpen := by
  cases op with
  | sendFrame obj =>
      change (side.sendFrame obj username ts results).side.isOpen = _
      unfold sendFrame
      dsimp only
      repeat' split
      · rfl
      · rfl
      · exact isOpen_sendLocked { side with sendSeq := side.sendSeq + 1 } _ username ts results
  | sendRelay obj originSeq =>
      change (side.sendRelay obj originSeq username ts results).side.isOpen = _
      unfold sendRelay
      repeat' split
      · rfl
      · rfl
      · exact isOpen_sendLocked side _ username ts results
  | drainSlow =>
      change (side.drainSlow username ts results).side.isOpen = _
      unfold drainSlow
      dsimp only
      split <;> exact isOpen_drainOutLocked side results
  | close => exact absurd rfl keeps

end SendSide

/-! ## What a command leaves -/

/-- The life of a connection: its handshake, its loops and its end. -/
def Cmd.isBase : Cmd → Bool
  | .io .handleClient | .own .recvLoop | .own .frames | .io (.closeConn _) => true
  | _ => false

theorem level_awake (k : Cmd) : k.awake.level = k.level := by
  cases k with
  | db k => cases k <;> rfl
  | _ => rfl

/-- A handler leaves handlers. -/
theorem level_run (ran : w.run st c e k = some (w', new)) (handler : k.level < 14) :
    ∀ n ∈ new, n.level < 14 := by
  have other : k ≠ .own .frames := by
    rintro rfl
    exact absurd handler (by decide)
  intro n there
  rcases winds_run ran other with (loop | ⟨again, rfl, same⟩) | lower
  · unfold Cmd.isLoop at loop
    split at loop
    · exact absurd handler (by decide)
    · exact absurd handler (by decide)
    · exact absurd handler (by decide)
    · cases loop
  · obtain rfl := List.mem_singleton.mp there
    rw [← level_awake n, same, level_awake]
    exact handler
  · rcases lower n there with less | ⟨same, -⟩
    · exact Nat.lt_trans less handler
    · rwa [same]

theorem not_isBase_of_level (low : k.level < 14) : k.isBase = false := by
  unfold Cmd.isBase
  split
  · exact absurd low (by decide)
  · exact absurd low (by decide)
  · exact absurd low (by decide)
  · exact absurd low (Nat.lt_irrefl 14)
  · rfl

/-- A connection that is ended is dropped first. -/
def ending (c : ConnId) : List Cmd := [.sess (.dropConn c true), .io (.closeConn c)]

/-- What a thread still has to do for its connection ends with one of these. -/
inductive Bottom (c : ConnId) : List Cmd → Prop where
  | loops {upper : List Cmd} {k : Cmd} : (∀ n ∈ upper, n.isBase = false) →
      k = .own .recvLoop ∨ k = .own .frames → Bottom c (upper ++ [k])
  | quits {upper : List Cmd} : (∀ n ∈ upper, n.isBase = false) → Bottom c (upper ++ ending c)

/-- None of them is part of the life of the connection. -/
def AllPlain (r : List Cmd × Bool) : Prop := (r.1.all fun n => !n.isBase) = true

theorem allPlain_handleBody (body : Bytes) : AllPlain (handleBody s c e body) := by
  unfold handleBody
  cases MiniJson.parse body with
  | error => rfl
  | ok obj =>
      dsimp only
      repeat' (apply iteInduction <;> intro _)
      all_goals rfl

/-- The loops over the bytes and the frames go on, or end the connection. -/
theorem bottom_runOwn {k : OwnCmd} (loop : k = .recvLoop ∨ k = .frames) :
    Bottom c (runOwn st s c e k).next := by
  have again (k : Cmd) (loop : k = .own .recvLoop ∨ k = .own .frames) : Bottom c [k] :=
    .loops (List.forall_mem_nil _) loop
  have quit : Bottom c (ending c) := .quits (List.forall_mem_nil _)
  rcases loop with rfl | rfl
  · simp only [runOwn, recvLoop]
    repeat' split
    · exact quit
    · exact again _ (.inr rfl)
    · exact again _ (.inl rfl)
    · exact quit
    · exact quit
  · simp only [runOwn, frames]
    split
    next body reader taken =>
      have handlers : ∀ n ∈ (handleBody s c e body).1, n.isBase = false := by
        intro n there
        have plain := List.all_eq_true.mp (@allPlain_handleBody s c e body) n there
        rwa [Bool.not_eq_true'] at plain
      split
      · exact .quits handlers
      · exact .loops handlers (.inr rfl)
    next reader none =>
      split
      · exact quit
      · exact again _ (.inl rfl)

/-- The accept loop and the scan leave nothing of the life of a connection. -/
theorem plain_of_runsOn (ran : w.run st c e k = some (w', new)) (plain : k.isBase = false) :
    ∀ n ∈ new, n.isBase = false := by
  by_cases handler : decide (k.level < 14) = true
  · intro n there
    exact not_isBase_of_level (level_run ran (of_decide_eq_true handler) n there)
  cases k with
  | limit k =>
      obtain ⟨-, rfl⟩ := Prod.mk.inj (Option.some.inj ran)
      cases k with
      | acceptLoop =>
          simp only [runLimit, acceptLoop]
          repeat' split
          all_goals exact List.forall_mem_singleton.mpr rfl
      | doRegisterHello obj | doLoginHello obj | doMessage obj => exact absurd rfl handler
  | sess k =>
      obtain ⟨-, rfl⟩ := Prod.mk.inj (Option.some.inj ran)
      cases k with
      | acceptInstall ip port => exact List.forall_mem_singleton.mpr rfl
      | monitorLoop | monitorDrain =>
          refine List.forall_mem_append.mpr ⟨?_, List.forall_mem_singleton.mpr rfl⟩
          intro n there
          obtain ⟨v, -, rfl⟩ := List.mem_map.mp there
          rfl
      | _ => exact absurd rfl handler
  | own k =>
      cases k with
      | recvLoop | frames => cases plain
      | _ => exact absurd rfl handler
  | io k =>
      cases k with
      | handleClient | closeConn v => cases plain
      | _ => exact absurd rfl handler
  | token k | router k | db k => cases k <;> exact absurd rfl handler
  | checkAndAdd m => exact absurd rfl handler

/-! ## The connection -/

theorem op_ne_close {k : IoCmd} {op : SendSide.Op} {ts : Int} (keeps : k ≠ .closeConn v)
    (works : sideOp s c e k = some (v, op, ts)) : op ≠ .close := by
  rintro rfl
  cases k with
  | closeConn v' =>
      obtain ⟨rfl, -⟩ := Prod.mk.inj (Option.some.inj works)
      exact keeps rfl
  | handleClient => cases works
  | pushRows name rows => cases rows <;> cases works
  | relayEach m room targets => cases targets <;> cases works
  | _ => cases works

/-- A descriptor is closed by its own `closeConn` only. -/
theorem isOpen_of_run (ran : w.run st c e k = some (w', new)) (keeps : k ≠ .io (.closeConn v)) :
    (w'.server.sides v).isOpen = (w.server.sides v).isOpen := by
  cases k with
  | io k =>
      obtain ⟨r, step, result⟩ := Option.map_eq_some_iff.mp ran
      obtain ⟨rfl, -⟩ := Prod.mk.inj result
      dsimp only
      cases works : sideOp w.server c e k with
      | some work =>
          obtain ⟨v', op, ts⟩ := work
          rw [state_runIo step works]
          by_cases here : v = v'
          · subst here
            rw [Function.update_self]
            refine SendSide.isOpen_run _ (op_ne_close ?_ works) _ _ _
            rintro rfl
            exact keeps rfl
          · rw [Function.update_of_ne here]
      | none =>
          cases k with
          | handleClient =>
              obtain ⟨-, -, tls, rfl | rfl⟩ := starts_handleClient step
              · by_cases here : v = c
                · subst here
                  dsimp only
                  rw [Function.update_self]
                · dsimp only
                  rw [Function.update_of_ne here]
              · rfl
          | pushRows name rows =>
              cases rows with
              | nil => exact Option.some.inj step ▸ rfl
              | cons row rest => cases works
          | relayEach m room targets =>
              cases targets with
              | nil => exact Option.some.inj step ▸ rfl
              | cons v' rest => cases works
          | _ => cases works
  | db k =>
      obtain ⟨r, -, result⟩ := Option.map_eq_some_iff.mp ran
      rw [← (Prod.mk.inj result).1]
  | _ => rw [← (Prod.mk.inj (Option.some.inj ran)).1]

/-- The connection was accepted, and nobody finds it any more. -/
structure Dropped (s : ChatServer) (c : ConnId) : Prop where
  accepted : c ≤ s.sess.nextId
  unknown : c ∉ s.sess.conns

theorem Dropped.run (dropped : Dropped w.server v) (ran : w.run st c e k = some (w', new)) :
    Dropped w'.server v := by
  refine ⟨Nat.le_trans dropped.accepted (nextId_le_run ran), ?_⟩
  by_cases sess : ∃ k', k = .sess k'
  · obtain ⟨k, rfl⟩ := sess
    obtain ⟨rfl, -⟩ := Prod.mk.inj (Option.some.inj ran)
    dsimp only
    rcases runSess_cases st w.server c e k with ⟨same, -⟩ | ⟨ip, port, arrival, -, same, -⟩ |
      ⟨name, token, exp, -, same, -⟩ | ⟨name, -, same, -⟩ | ⟨v', notifyRoom, -, -, same, -⟩
    · rw [same]
      exact dropped.unknown
    · rw [same]
      simp only [List.mem_append, List.mem_singleton, not_or]
      exact ⟨dropped.unknown, Nat.ne_of_lt (Nat.lt_succ_of_le dropped.accepted)⟩
    · rw [same]
      exact dropped.unknown
    · rw [same]
      exact dropped.unknown
    · rw [same]
      intro there
      exact dropped.unknown (List.mem_of_mem_filter there)
  · rw [sess_run ran (fun k' same => sess ⟨k', same⟩)]
    exact dropped.unknown

/-- Nobody finds a connection that has been dropped. -/
theorem dropped_dropConn {notifyRoom : Bool} (accepted : v ≤ w.server.sess.nextId)
    (ran : w.run st c e (.sess (.dropConn v notifyRoom)) = some (w', new)) :
    Dropped w'.server v := by
  refine ⟨Nat.le_trans accepted (nextId_le_run ran), ?_⟩
  obtain ⟨rfl, -⟩ := Prod.mk.inj (Option.some.inj ran)
  simp only [runSess, dropConn]
  split
  next absent => exact absent
  next => split <;> simp

/-- What the thread of a connection still has to do, and whether the descriptor is open. -/
inductive Phase (s : ChatServer) (c : ConnId) : List Cmd → Prop where
  | fresh : (s.sides c).isOpen = true → Phase s c [.io .handleClient]
  | loops {upper : List Cmd} {k : Cmd} : (s.sides c).isOpen = true →
      (∀ n ∈ upper, n.isBase = false) → k = .own .recvLoop ∨ k = .own .frames →
      Phase s c (upper ++ [k])
  | ends {upper : List Cmd} : (s.sides c).isOpen = true → (∀ n ∈ upper, n.isBase = false) →
      .sess (.dropConn c true) ∈ upper ∨ Dropped s c → Phase s c (upper ++ [.io (.closeConn c)])
  | gone : (s.sides c).isOpen = false → Dropped s c → Phase s c []

variable {s' : ChatServer}

/-- Nothing else matters for the life of a connection. -/
theorem Phase.congr {stack : List Cmd} (phase : Phase s c stack)
    (same : (s'.sides c).isOpen = (s.sides c).isOpen) (dropped : Dropped s c → Dropped s' c) :
    Phase s' c stack := by
  cases phase with
  | fresh isOpen => exact .fresh (same.trans isOpen)
  | loops isOpen plain loop => exact .loops (same.trans isOpen) plain loop
  | ends isOpen plain drops => exact .ends (same.trans isOpen) plain (drops.imp_right dropped)
  | gone closed gone => exact .gone (same.trans closed) (dropped gone)

theorem Bottom.phase {stack : List Cmd} (bottom : Bottom c stack)
    (isOpen : (s.sides c).isOpen = true) : Phase s c stack := by
  cases bottom with
  | loops plain loop => exact .loops isOpen plain loop
  | @quits upper plain =>
      have split : upper ++ ending c =
          (upper ++ [.sess (.dropConn c true)]) ++ [.io (.closeConn c)] := by
        rw [List.append_assoc]
        rfl
      rw [split]
      refine .ends isOpen ?_ (.inl (by simp))
      exact List.forall_mem_append.mpr ⟨plain, List.forall_mem_singleton.mpr rfl⟩

/-- A connection is closed by its own thread only. -/
theorem Phase.closes {stack : List Cmd} (phase : Phase s c stack)
    (there : .io (.closeConn v) ∈ stack) : v = c := by
  cases phase with
  | fresh _ => cases List.mem_singleton.mp there
  | loops _ plain loop =>
      rcases List.mem_append.mp there with upper | last
      · cases plain _ upper
      · obtain rfl := List.mem_singleton.mp last
        rcases loop with same | same <;> cases same
  | ends _ plain _ =>
      rcases List.mem_append.mp there with upper | last
      · cases plain _ upper
      · cases List.mem_singleton.mp last
        rfl
  | gone _ _ => cases there

/-- A step of its own thread. -/
theorem Phase.step (phase : Phase w.server c (k :: rest)) (accepted : k = .io .handleClient ∨
    c ≤ w.server.sess.nextId) (ran : w.run st c e k = some (w', new)) :
    Phase w'.server c (new ++ rest) := by
  generalize whole : k :: rest = stack at phase
  cases phase with
  | fresh isOpen =>
      obtain ⟨rfl, rfl⟩ := List.cons.inj whole
      have still := (isOpen_of_run (v := c) ran (by rintro ⟨⟩)).trans isOpen
      obtain ⟨r, step, result⟩ := Option.map_eq_some_iff.mp ran
      obtain ⟨-, rfl⟩ := Prod.mk.inj result
      rw [List.append_nil]
      obtain ⟨-, -, tls, rfl | rfl⟩ := starts_handleClient step
      · exact .loops still (List.forall_mem_nil _) (.inl rfl)
      · exact Bottom.phase (.quits (List.forall_mem_nil _)) still
  | @loops upper last isOpen plain loop =>
      cases upper with
      | nil =>
          obtain ⟨rfl, rfl⟩ := List.cons.inj whole
          have still : (w'.server.sides c).isOpen = true := by
            refine (isOpen_of_run ran ?_).trans isOpen
            rcases loop with rfl | rfl <;> rintro ⟨⟩
          rw [List.append_nil]
          rcases loop with rfl | rfl
          · obtain ⟨-, rfl⟩ := Prod.mk.inj (Option.some.inj ran)
            exact (bottom_runOwn (.inl rfl)).phase still
          · obtain ⟨-, rfl⟩ := Prod.mk.inj (Option.some.inj ran)
            exact (bottom_runOwn (.inr rfl)).phase still
      | cons head upper =>
          obtain ⟨rfl, rfl⟩ := List.cons.inj whole
          have inner := plain k List.mem_cons_self
          have left := plain_of_runsOn ran inner
          change Phase _ _ (new ++ (upper ++ [last]))
          rw [← List.append_assoc]
          refine .loops ((isOpen_of_run ran ?_).trans isOpen) ?_ loop
          · rintro rfl
            cases inner
          · exact List.forall_mem_append.mpr ⟨left, (List.forall_mem_cons.mp plain).2⟩
  | @ends upper isOpen plain drops =>
      cases upper with
      | nil =>
          obtain ⟨rfl, rfl⟩ := List.cons.inj whole
          have dropped : Dropped w'.server c := (drops.resolve_left List.not_mem_nil).run ran
          obtain ⟨rfl, rfl⟩ := Prod.mk.inj (Option.some.inj ran)
          refine .gone ?_ dropped
          simp only [sendSection, Function.update_self]
          rfl
      | cons head upper =>
          obtain ⟨rfl, rfl⟩ := List.cons.inj whole
          have inner := plain k List.mem_cons_self
          have left := plain_of_runsOn ran inner
          change Phase _ _ (new ++ (upper ++ [.io (.closeConn c)]))
          rw [← List.append_assoc]
          refine .ends ((isOpen_of_run ran ?_).trans isOpen) ?_ ?_
          · rintro rfl
            cases inner
          · exact List.forall_mem_append.mpr ⟨left, (List.forall_mem_cons.mp plain).2⟩
          · rcases drops with waits | dropped
            · rcases List.mem_cons.mp waits with rfl | below
              · refine .inr (dropped_dropConn (accepted.resolve_left ?_) ran)
                rintro ⟨⟩
              · exact .inl (List.mem_append_right _ below)
            · exact .inr (dropped.run ran)
  | gone _ _ => cases whole

/-! ## The program -/

variable {File : Type} {file : Database File} {b : BootExt}
  {When : Config Thread Cmd World → Thread → Ext → Bool} {cfg cfg' : Config Thread Cmd World}

/-- Every connection is in some place of its life. -/
def Living (cfg : Config Thread Cmd World) : Prop :=
  ∀ c, Phase cfg.shared.server c (cfg.stack (.client c))

theorem living_step (living : Living cfg) (started : Started cfg)
    (stack : cfg.stack t = k :: rest)
    (ran : (server st).exec t e k cfg.shared = some (w', new)) :
    Living ⟨w', Function.update cfg.stack t (new ++ rest)⟩ := by
  obtain ⟨here, ran⟩ := exec_eq_some_iff.mp ran
  intro c
  have phase := living c
  dsimp only
  by_cases own : Thread.client c = t
  · subst own
    rw [Function.update_self]
    rw [stack] at phase
    refine phase.step ?_ ran
    exact (started c k (by rw [stack]; exact List.mem_cons_self)).imp_right And.right
  · rw [Function.update_of_ne own]
    refine phase.congr (isOpen_of_run ran ?_) fun dropped => dropped.run ran
    rintro rfl
    -- another thread closes its own connection
    cases t with
    | client v =>
        have mine := (living v).closes (by rw [stack]; exact List.mem_cons_self)
        exact own (congrArg Thread.client mine)
    | accept | monitor => cases here

theorem living_of_run (run : (server st).Reaches When (start st file b) cfg) : Living cfg := by
  refine run.invariant ?_ ?_
  · exact fun _ => .fresh rfl
  · intro cfg t e k rest w new reached living _ stack ran
    exact living_step living (started_of_run reached) stack ran

/-- A connection whose thread has ended is left alone. -/
structure Released (c : ConnId) (side : SendSide) (cfg : Config Thread Cmd World) : Prop where
  gone : cfg.stack (.client c) = []
  same : cfg.shared.server.sides c = side

/-- A section on a closed descriptor leaves it as it is. -/
theorem side_of_closed (ran : w.run st t.conn e k = some (w', new))
    (closed : (w.server.sides c).isOpen = false) (other : t ≠ .client c) (here : k.runsOn t = true) :
    w'.server.sides c = w.server.sides c := by
  cases k with
  | io k =>
      obtain ⟨r, step, result⟩ := Option.map_eq_some_iff.mp ran
      obtain ⟨rfl, -⟩ := Prod.mk.inj result
      dsimp only
      cases works : sideOp w.server t.conn e k with
      | some work =>
          obtain ⟨v, op, ts⟩ := work
          rw [state_runIo step works]
          by_cases same : c = v
          · subst same
            rw [Function.update_self]
            exact (SendSide.run_closed closed op _ ts e.writes).1
          · rw [Function.update_of_ne same]
      | none =>
          cases k with
          | handleClient =>
              have apart : c ≠ t.conn := by
                cases t with
                | client v =>
                    rintro rfl
                    exact other rfl
                | accept | monitor => cases here
              obtain ⟨-, -, tls, rfl | rfl⟩ := starts_handleClient step
              · exact Function.update_of_ne apart ..
              · rfl
          | pushRows name rows =>
              cases rows with
              | nil => exact Option.some.inj step ▸ rfl
              | cons row rest => cases works
          | relayEach m room targets =>
              cases targets with
              | nil => exact Option.some.inj step ▸ rfl
              | cons v rest => cases works
          | _ => cases works
  | db k =>
      obtain ⟨r, -, result⟩ := Option.map_eq_some_iff.mp ran
      rw [← (Prod.mk.inj result).1]
  | _ => rw [← (Prod.mk.inj (Option.some.inj ran)).1]

theorem released_of_run {side : SendSide} (closed : side.isOpen = false)
    (released : Released c side cfg) (run : (server st).Reaches When cfg cfg') :
    Released c side cfg' := by
  refine run.invariant released ?_
  intro cfg t e k rest w new _ released _ stack ran
  obtain ⟨here, ran⟩ := exec_eq_some_iff.mp ran
  have other : t ≠ .client c := by
    rintro rfl
    cases released.gone.symm.trans stack
  constructor
  · exact (Function.update_of_ne other.symm ..).trans released.gone
  · refine (side_of_closed ran ?_ other here).trans released.same
    rw [released.same]
    exact closed

/-- What is promised about the descriptor of a connection. -/
structure Disposed (When : Config Thread Cmd World → Thread → Ext → Bool) (st : Startup)
    (cfg : Config Thread Cmd World) (c : ConnId) : Prop where
  /-- It is open as long as its thread has not ended, and no longer. -/
  closed_iff : (cfg.shared.server.sides c).isOpen = false ↔ cfg.stack (.client c) = []
  /-- Before it is closed, the connection is taken out of the table. -/
  unknown : (cfg.shared.server.sides c).isOpen = false → c ∉ cfg.shared.server.sess.conns
  /-- Nothing is queued for it, written to it or closed again in any later step. -/
  final : (cfg.shared.server.sides c).isOpen = false →
    ∀ cfg', (server st).Reaches When cfg cfg' →
      Released c (cfg.shared.server.sides c) cfg'

/-- In every run, of every connection: the descriptor is closed exactly when the thread of the
connection has ended.  By then the connection is in no table, and in no later step does its send
side change again, whichever thread still holds it as a target. -/
theorem disposed_of_run (run : (server st).Reaches When (start st file b) cfg) (c : ConnId) :
    Disposed When st cfg c := by
  have phase := living_of_run run c
  have ends : (cfg.shared.server.sides c).isOpen = false →
      cfg.stack (.client c) = [] ∧ Dropped cfg.shared.server c := by
    intro closed
    generalize cfg.stack (.client c) = stack at phase
    cases phase with
    | fresh isOpen | loops isOpen | ends isOpen =>
        rw [closed] at isOpen
        cases isOpen
    | gone _ dropped => exact ⟨rfl, dropped⟩
  refine ⟨⟨fun closed => (ends closed).1, ?_⟩, fun closed => (ends closed).2.unknown, ?_⟩
  · intro gone
    rw [gone] at phase
    generalize empty : ([] : List Cmd) = stack at phase
    cases phase with
    | gone closed _ => exact closed
    | fresh _ => cases empty
    | loops _ _ _ | ends _ _ _ => exact absurd empty (by simp)
  · intro closed cfg' later
    exact released_of_run closed ⟨(ends closed).1, rfl⟩ later

/-- The first client connects and hangs up. -/
theorem disposed_of_run_closed :
    ∃ cfg, (server Demo.startup).Reaches Program.always (start Demo.startup Demo.file {}) cfg ∧
      (cfg.shared.server.sides 1).isOpen = false ∧ Disposed Program.always Demo.startup cfg 1 := by
  obtain ⟨cfg, run, closed⟩ := Program.exists_reaches_of_play (server Demo.startup) Program.always
    (Demo.connects 1 ++ Demo.steps (.client 1) 3) (start Demo.startup Demo.file {})
    (fun cfg => !(cfg.shared.server.sides 1).isOpen) (by decide +kernel)
  rw [Bool.not_eq_true'] at closed
  exact ⟨cfg, run, closed, disposed_of_run run 1⟩

end OnlineChat
