import OnlineChat.Client.Pending
import OnlineChat.Library.Progress

/-!
# The loops of the client come round

The thread of the connection connects or receives, the heartbeat thread scans, and a caller
makes its next call.  Every other command leaves commands of lower levels only, whatever is in
the queue and whichever call of the socket fails.
-/

namespace OnlineChat.Client

open Library Filter ChatSession

/-- Every command but the heads of the loops leaves commands of lower levels. -/
def Cmd.level : Cmd → ℕ
  | .add _ | .update _ | .endFetch | .dropSocket | .remove _ => 0
  | .trySendItem _ => 1
  | .retryItem _ _ | .flushItem _ | .failItem _ | .resend _ _ => 2
  | .send _ _ | .retryFailed _ | .flushPending | .failSending => 3
  | .idle | .heartbeatLoop | .connLoop | .recvFrame _ => 4
  | .retransmit _ | .connLost | .authFailed => 5
  | .checkDead _ | .recvLoop _ => 6
  | .setConnected _ => 7
  | .sendRequest _ _ => 8
  | .request _ => 9
  | .startFetch _ _ _ | .authenticate _ => 10
  | .fetch _ _ _ | .install => 11
  | .restoreRoom _ => 12

/-- Of a lower level. -/
def Cmd.Lower (n k : Cmd) : Prop := n.level < k.level

theorem wellFounded_lower : WellFounded Cmd.Lower := InvImage.wf Cmd.level wellFounded_lt

/-- The heads of the loops: `recv_frame` and `create_connection`, the scan of the heartbeat
thread, and the next call of a caller. -/
def Cmd.isLoop : Cmd → Bool
  | .idle | .heartbeatLoop | .connLoop | .recvFrame _ => true
  | _ => false

/-- All of them are of lower levels. -/
def Cmd.below (k : Cmd) (new : List Cmd) : Bool := new.all fun n => n.level < k.level

variable {st : Settings} {e : Ext} {s : ChatSession} {k : Cmd} {t : Thread}

theorem below_map {f : Int → Cmd} {new : List Cmd} (items : List Int)
    (each : ∀ seq, (f seq).level < k.level) (rest : k.below new = true) :
    k.below (items.map f ++ new) = true := by
  induction items with
  | nil => exact rest
  | cons seq items inductionHypothesis =>
      unfold Cmd.below at inductionHypothesis ⊢
      rw [List.map_cons, List.cons_append, List.all_cons, inductionHypothesis, Bool.and_true]
      exact decide_eq_true (each seq)

theorem below_snapshot {f : Int → Cmd} (items : List Int)
    (each : ∀ seq, (f seq).level < k.level) : k.below (items.map f) = true := by
  rw [← List.append_nil (items.map f)]
  exact below_map items each rfl

/-- Between two heads of loops the levels go down. -/
theorem below_run (inside : k.isLoop = false) : k.below (run st e s k).2 = true := by
  cases k with
  | idle | heartbeatLoop | connLoop | recvFrame sock => cases inside
  | trySendItem seq =>
      simp only [run, ChatSession.trySendItem]
      repeat' split
      all_goals rfl
  | retryFailed wanted => exact below_snapshot _ fun _ => Nat.lt_succ_self 2
  | retryItem wanted seq =>
      simp only [run, ChatSession.retryItem]
      repeat' split
      all_goals rfl
  | fetch page cursor position =>
      simp only [run, ChatSession.fetch]
      split <;> rfl
  | sendRequest r seq =>
      simp only [run, ChatSession.sendRequest]
      split <;> cases r <;> rfl
  | checkDead now =>
      simp only [run, ChatSession.checkDead]
      split <;> rfl
  | retransmit now => exact below_map _ (fun _ => (by decide : 2 < 5)) rfl
  | resend now seq =>
      simp only [run, ChatSession.resend]
      repeat' split
      all_goals rfl
  | authenticate sock =>
      simp only [run, ChatSession.authenticate]
      repeat' split
      all_goals rfl
  | recvLoop sock =>
      simp only [run, ChatSession.recvLoop]
      split <;> rfl
  | connLost =>
      simp only [run, ChatSession.connLost]
      split <;> rfl
  | flushPending => exact below_snapshot _ fun _ => Nat.lt_succ_self 2
  | flushItem seq =>
      simp only [run, ChatSession.flushItem]
      split <;> rfl
  | failSending => exact below_snapshot _ fun _ => Nat.lt_succ_self 2
  | failItem seq =>
      simp only [run, ChatSession.failItem]
      split <;> rfl
  | restoreRoom room =>
      simp only [run, ChatSession.restoreRoom]
      split <;> rfl
  | _ => rfl

theorem windsDown (st : Settings) (t : Thread) :
    (client st).WindsDown t Cmd.Lower (fun _ => 0) fun k _ => k.isLoop = true where
  own e k s s' new ran := by
    obtain rfl : (run st e s k).2 = new := congrArg Prod.snd (Option.some.inj ran)
    by_cases head : k.isLoop = true
    · exact .inl head
    · have below := List.all_eq_true.mp (@below_run st e s k (Bool.eq_false_iff.mpr head))
      refine .inr (.inr ⟨Nat.le_refl 0, ?_⟩)
      intro n there
      have less := below n there
      exact of_decide_eq_true (p := n.level < k.level) less
  other _ _ _ _ _ _ _ _ := Nat.le_refl 0

/-- In every infinite run of a session, from any state, whatever the server sends, which calls
of the socket fail, and however many messages are queued: a thread of the client that acts
again and again comes back to the head of its loop infinitely often. -/
theorem loops_of_run {run : ℕ → Config Thread Cmd ChatSession} {who : ℕ → Thread}
    (forever : (client st).RunsForever run who) (acts : ∃ᶠ n in atTop, who n = t) :
    ∃ᶠ n in atTop, StartsRound (fun k _ => k.isLoop = true) run who t n :=
  (windsDown st t).frequently_startsRound wellFounded_lower forever acts

namespace Demo

/-- The commands of a round in which the first frame cannot be sent. -/
inductive Turn : ℕ → Cmd → Prop where
  | connects : Turn 0 .connLoop
  | installs : Turn 1 .install
  | logsIn (sock : Socket) : Turn 2 (.authenticate sock)
  | numbers (r : Request) : r.failed = [.authFailed] → Turn 3 (.request r)
  | sends (r : Request) (seq : Int) : r.failed = [.authFailed] → Turn 4 (.sendRequest r seq)
  | fails : Turn 5 .authFailed

/-- The connection is established and breaks at once. -/
def breaks : Ext := { sends := .osError }

theorem sendFrame_breaks (s : ChatSession) (m : Msg) :
    (s.sendFrame breaks m).1 = false ∧ (s.sendFrame breaks m).2.running = s.running ∧
      (s.sendFrame breaks m).2.tokens = s.tokens := by
  unfold sendFrame
  cases s.sock with
  | none => exact ⟨rfl, rfl, rfl⟩
  | some sock => exact ⟨rfl, rfl, rfl⟩

/-- One step of such a round. -/
theorem Turn.step {p : ℕ} {k : Cmd} (turn : Turn p k) {s : ChatSession} (running : s.running = true)
    (valid : s.tokens = token) : ∃ k', (Client.run alice breaks s k).2 = [k'] ∧
      Turn ((p + 1) % 6) k' ∧ (Client.run alice breaks s k).1.running = true ∧
      (Client.run alice breaks s k).1.tokens = token := by
  cases turn with
  | connects =>
      refine ⟨.install, ?_, .installs, running, valid⟩
      simp [Client.run, connLoop, running, breaks]
  | installs => exact ⟨_, rfl, .logsIn _, running, valid⟩
  | logsIn sock =>
      have signed : s.tokens.valid (breaks.clock 0) = true := by
        rw [valid]
        decide +kernel
      refine ⟨_, ?_, .numbers (.auth sock s.tokens.token) rfl, running, valid⟩
      simp [Client.run, authenticate, signed]
  | numbers r fails => exact ⟨_, rfl, .sends r _ fails, running, valid⟩
  | sends r seq fails =>
      obtain ⟨lost, runs, tokens⟩ := sendFrame_breaks s (requestMsg alice breaks seq r)
      refine ⟨.authFailed, ?_, .fails, runs.trans running, tokens.trans valid⟩
      simp [Client.run, sendRequest, lost, fails]
  | fails => exact ⟨.connLoop, rfl, .connects, running, valid⟩

/-- The thread of the connection is at that command of the round. -/
def Turning (n : ℕ) (c : Config Thread Cmd ChatSession) : Prop :=
  c.shared.running = true ∧ c.shared.tokens = token ∧
    ∃ k, c.stack .conn = [k] ∧ Turn (n % 6) k

theorem Turning.next (n : ℕ) (c : Config Thread Cmd ChatSession) (turning : Turning n c) :
    ∃ e c', (client alice).fire .conn e c = some c' ∧ Turning (n + 1) c' := by
  obtain ⟨running, valid, k, stack, turn⟩ := turning
  obtain ⟨k', goesOn, turn', running', valid'⟩ := turn.step running valid
  refine ⟨breaks, _, (client alice).fire_eq_some_iff.mpr ⟨k, [], _, _, stack, rfl, rfl⟩, running',
    valid', k', ?_, ?_⟩
  · show Function.update c.stack .conn ((Client.run alice breaks c.shared k).2 ++ []) .conn = [k']
    rw [Function.update_self, goesOn]
    rfl
  · rwa [Nat.mod_add_mod] at turn'

/-- A client whose connections break tries again and again: between two attempts it installs
the socket, asks for a number, fails to send and drops the socket. -/
theorem loops_of_run_breaking :
    ∃ run, (client alice).RunsForever run (fun _ => .conn) ∧ run 0 = start noItems token ∧
      (∀ n, n % 6 = 5 → (run n).stack .conn = [.authFailed]) ∧
      ∃ᶠ n in atTop, StartsRound (fun k _ => k.isLoop = true) run (fun _ => .conn) .conn n := by
  have begins : Turning 0 (start noItems token) := ⟨rfl, rfl, .connLoop, rfl, .connects⟩
  obtain ⟨run, first, forever, turning⟩ :
      ∃ run, run 0 = start noItems token ∧ (client alice).RunsForever run (fun _ => .conn) ∧
        ∀ n, Turning n (run n) :=
    Program.exists_runsForever begins Turning.next
  refine ⟨run, forever, first, ?_, loops_of_run forever (Frequently.of_forall fun _ => rfl)⟩
  intro n last
  obtain ⟨-, -, k, stack, turn⟩ := turning n
  rw [last] at turn
  cases turn
  exact stack

end Demo

end OnlineChat.Client
