import OnlineChat.EndToEnd
import OnlineChat.Server.Downstream

/-!
# Byte streams both ways

A session and a server that share nothing but the bytes on their sockets.  What the session
takes for an ACK is then a packet of the server, so that no message is lost between them.
-/

namespace OnlineChat

open Library MiniJson
open Client (FloatText Settings Socket PendingFile TokenStore sentOn readableSteps)

variable {settings : Settings} {st : Startup} {floats : FloatText} {c v : ConnId}
  {queue : PendingFile} {tokens : TokenStore} {File : Type} {file : Database File} {b : BootExt}
  {a : Config Client.Thread Client.Cmd Client.ChatSession} {w : World} {t : Thread} {e : Ext}
  {k : Cmd} {body : Bytes}
  {cfg : Config Thread Cmd ((World × List Traffic) × List Shipment)}

/-! ## What was queued was sent -/

theorem sent_of_called (called : body ∈ callsOn v (shipments t e k w)) :
    .sent v body ∈ traffic t e k w := by
  cases k with
  | io k =>
      cases works : ChatServer.sideOp w.server t.conn e k with
      | none => simp [shipments, works, callsOn] at called
      | some work =>
          obtain ⟨v', op, ts⟩ := work
          by_cases own : v' = v
          · subst own
            have passed : op.body (w.server.sides v') = some body := by
              simpa [shipments, works, callsOn] using called
            simp [traffic, works, passed]
          · simp [shipments, works, callsOn, own] at called
  | _ => simp [shipments, callsOn] at called

theorem sent_of_run
    {When : Config Thread Cmd ((World × List Traffic) × List Shipment) → Thread → Ext → Bool}
    (run : (shipping st).Reaches When (((start st file b).noted []).noted []) cfg) :
    ∀ v, ∀ body ∈ callsOn v cfg.shared.2, body ∈ sentTo v cfg.shared.1.2 := by
  apply run.invariant
  · exact fun _ => List.forall_mem_nil _
  · rintro ⟨⟨⟨w, traffic⟩, notes⟩, stack⟩ t e k rest ⟨⟨w', traffic'⟩, notes'⟩ new
      - sent - - ran v body called
    obtain ⟨ran, rfl⟩ := Program.exec_recording.mp ran
    obtain ⟨-, rfl⟩ := Program.exec_recording.mp ran
    rw [mem_sentTo]
    dsimp only at sent called ⊢
    rw [callsOn_append] at called
    rcases List.mem_append.mp called with old | now
    · exact List.mem_append_left _ (mem_sentTo.mp (sent v body old))
    · exact List.mem_append_right _ (sent_of_called now)

/-! ## Both ways -/

/-- The sockets of a session carry its frames to connections of the server, and the ACKs that
it receives come out of the bytes that were handed to the sockets of these connections. -/
structure Wired (floats : FloatText) (conn : Socket → Option ConnId) (trace : List Client.Event)
    (traffic : List Traffic) (notes : List Shipment) : Prop where
  there : ∀ sock c, conn sock = some c → ∃ frames : List Bytes,
    (sentOn sock trace).mapM (fun m => Client.sendFrame floats m.dict) = .ok frames ∧
      streamOf c traffic <+: frames.flatten
  back : ∀ sock (f : Client.Frame), .received sock f ∈ trace → f.kind = .ack →
    ∃ c, conn sock = some c ∧ ∃ segments : List Bytes,
      segments.flatten <+: Write.handed (writesOn c notes) ∧
        .dict f ∈ (recvAll (Client.loads floats) segments).1

def shipsHonestly (st : Startup)
    (cfg : Config Thread Cmd ((World × List Traffic) × List Shipment)) (t : Thread) (e : Ext) :
    Bool :=
  servesHonestly cfg.plain t e && writesSoundly st cfg t e

theorem mem_of_receives {Value : Type} {loads : Bytes → Option Value} {segments : List Bytes}
    {frames : List WireFrame} {value : Value} (receives : Receives loads segments frames)
    (there : value ∈ (recvAll loads segments).1) :
    ∃ frame ∈ frames, loads frame.body = some value := by
  have among : some value ∈ (recvAll loads segments).1.map some := List.mem_map_of_mem there
  rw [receives.values] at among
  exact List.mem_map.mp ((List.takeWhile_sublist _).subset among)

/-- A notice is no ACK. -/
theorem not_ack_of_notice {f : Client.Frame} {username : Bytes} {ts : Int}
    (read : Client.loads floats (serialize (overpressureFrame username ts)) = some (.dict f)) :
    f.kind ≠ .ack := by
  have plain : PlainFrame (overpressureFrame username ts) := .err ..
  have frame := Client.eq_of_loads_serialize (Client.distinct_serverFrame (.plain plain)) read
  obtain rfl : f = Client.asFrame (overpressureFrame username ts) := Client.PyValue.dict.inj frame
  exact Client.kind_plainFrame plain

/-- In a run whose writes are sound, every ACK that the session receives was sent. -/
theorem Wired.joined {conn : Socket → Option ConnId} {trace : List Client.Event}
    (run : (shipping st).Reaches (writesSoundly st) (((start st file b).noted []).noted []) cfg)
    (wired : Wired floats conn trace cfg.shared.1.2 cfg.shared.2) :
    Joined floats conn trace cfg.shared.1.2 := by
  refine ⟨wired.there, ?_⟩
  intro sock f received ack
  obtain ⟨c, socket, segments, arrived, there⟩ := wired.back sock f received ack
  obtain ⟨frames, good, packets, receives, -⟩ :=
    (streams_of_run run c).receives (Client.loads floats) arrived
  obtain ⟨frame, among, read⟩ := mem_of_receives receives there
  refine ⟨c, socket, frame.body, ?_, read⟩
  cases frame with
  | packet body =>
      have queued : body ∈ WireFrame.packets frames := List.mem_filterMap.mpr ⟨_, among, rfl⟩
      exact sent_of_run run c body (packets.subset queued)
  | notice body =>
      obtain ⟨-, username, ts, rfl⟩ := good _ among
      exact absurd ack (not_ack_of_notice read)

/-- No message is lost between a session and a server that are joined by byte streams: it is in
the queue of the session, or its number was acknowledged and a row of that user and number is on
disk, with its receiver and its content behind the word filter if it came from the session. -/
theorem stored_of_streams {conn : Socket → Option ConnId}
    (token : tokens.token.readable = true) (positive : queue.Positive)
    (session : (Client.client settings).Reaches readableSteps (Client.start queue tokens) a)
    (fits : a.shared.store.nextSeq ≤ 2 ^ 63)
    (serving : (shipping st).Reaches (shipsHonestly st)
      (((start st file b).noted []).noted []) cfg)
    (wired : Wired floats conn a.shared.trace cfg.shared.1.2 cfg.shared.2) :
    ∀ seq, .added seq ∈ a.shared.trace → seq ∈ a.shared.store.items ∨
      ∃ sock c user, conn sock = some c ∧ .io (.acked c user seq) ∈ cfg.shared.1.1.trace ∧
        ∃ row ∈ cfg.shared.1.1.server.db.stored.rows, ∃ v, row.2.origin = some ⟨v, user, seq⟩ ∧
          ∀ sock', conn sock' = some v → HeldAs st v seq (a.shared.objects seq) row.2 := by
  have sound : (shipping st).Reaches (writesSoundly st) (((start st file b).noted []).noted [])
      cfg := serving.mono fun _ _ _ allowed => (Bool.and_eq_true_iff.mp allowed).2
  have honest : (shipping st).Reaches (fun cfg t e => servesHonestly cfg.plain t e)
      (((start st file b).noted []).noted []) cfg :=
    serving.mono fun _ _ _ allowed => (Bool.and_eq_true_iff.mp allowed).1
  have taken : (taking st).Reaches servesHonestly ((start st file b).noted []) cfg.plain :=
    Program.Reaches.plain honest
  have joined := wired.joined sound
  intro seq added
  rcases Client.mem_or_acked queue tokens (session.mono fun _ _ _ _ => rfl) added with there | acked
  · exact .inl there
  · obtain ⟨sock, c, user, socket, acked⟩ := @acked_of_heard floats a cfg.plain conn seq joined
      (documented_reached taken) (heard_of_acked session seq acked)
    exact .inr ⟨sock, c, user, socket, acked,
      row_of_acked token positive session fits taken joined acked⟩

/-! ## A message of alice -/

/-- The bodies do not depend on how they are decoded. -/
theorem values_of_bodies {Value : Type} (loads : Bytes → Option Value) (segments : List Bytes) :
    (recvAll loads segments).1.map some =
      ((recvAll some segments).1.map loads).takeWhile Option.isSome := by
  obtain ⟨bodies, r, drains⟩ := FrameReader.exists_drains { buf := segments.flatten }
  have decoded := (recvFrames_of_drains loads drains rfl rfl rfl (Nat.lt_succ_self _)).1
  have taken := (recvFrames_of_drains some drains rfl rfl rfl (Nat.lt_succ_self _)).1
  have all : (bodies.map some).takeWhile Option.isSome = bodies.map some := by
    refine List.takeWhile_eq_self_iff.mpr ?_
    intro body there
    obtain ⟨body, -, rfl⟩ := List.mem_map.mp there
    rfl
  have same : (recvAll some segments).1 = bodies :=
    List.map_injective_iff.mpr (Option.some_injective _) (taken.trans all)
  rw [same]
  exact decoded

namespace Demo

/-- The frames have arrived, and the ACK is among the bodies that were handed over, all of
which can be decoded. -/
def returns (cfg : Config Thread Cmd ((World × List Traffic) × List Shipment)) : Bool :=
  let bodies := (recvAll some [Write.handed (writesOn 1 cfg.shared.2)]).1
  streamOf 1 cfg.shared.1.2 = wireFrames.flatten &&
    bodies.any (fun body => body = serialize ackObject) &&
    bodies.all fun body => (Client.loads Client.Demo.noFloats body).isSome

theorem ack_of_returns {cfg : Config Thread Cmd ((World × List Traffic) × List Shipment)}
    (returned : returns cfg = true) : .dict (Client.asFrame ackObject) ∈
      (recvAll (Client.loads Client.Demo.noFloats) [Write.handed (writesOn 1 cfg.shared.2)]).1 := by
  simp only [returns, Bool.and_eq_true] at returned
  obtain ⟨⟨-, acked⟩, decodable⟩ := returned
  obtain ⟨body, there, same⟩ := List.any_eq_true.mp acked
  obtain rfl := of_decide_eq_true same
  have values := values_of_bodies (Client.loads Client.Demo.noFloats)
    [Write.handed (writesOn 1 cfg.shared.2)]
  rw [List.takeWhile_eq_self_iff.mpr] at values
  · have among := List.mem_map_of_mem (f := Client.loads Client.Demo.noFloats) there
    rw [← values, loads_ackObject] at among
    obtain ⟨value, received, same⟩ := List.mem_map.mp among
    exact Option.some.inj same ▸ received
  · intro value among
    obtain ⟨body, there, rfl⟩ := List.mem_map.mp among
    exact List.all_eq_true.mp decodable body there

/-- The message that has left the queue is on disk. -/
theorem stored_of_streams_hi : ∃ a cfg,
    (Client.client device).Reaches readableSteps (Client.start Client.Demo.noItems {}) a ∧
    .added 3 ∈ a.shared.trace ∧ a.shared.store.items = [] ∧
    (shipping startup).Reaches (shipsHonestly startup)
      (((start startup Demo.file {}).noted []).noted []) cfg ∧
    ∃ row ∈ cfg.shared.1.1.server.db.stored.rows, ∃ v user, row.2.origin = some ⟨v, user, 3⟩ := by
  obtain ⟨a, _, meets⟩ := meets
  obtain ⟨cfg, serving, returned⟩ := Program.exists_reaches_of_play (shipping startup)
    (shipsHonestly startup) serverSteps (((start startup Demo.file {}).noted []).noted []) returns
    (by decide +kernel)
  have ack := ack_of_returns returned
  simp only [returns, Bool.and_eq_true, decide_eq_true_eq] at returned
  obtain ⟨⟨arrived, -⟩, -⟩ := returned
  have wired : Wired Client.Demo.noFloats conn a.shared.trace cfg.shared.1.2 cfg.shared.2 := by
    constructor
    · exact fun sock c => there_of_arrived meets.sent arrived
    · intro sock f received isAck
      obtain ⟨rfl, -, rfl⟩ := meets.back sock f received isAck
      refine ⟨1, rfl, [Write.handed (writesOn 1 cfg.shared.2)], ?_, ack⟩
      exact ⟨[], (List.append_nil _).trans List.flatten_singleton⟩
  have positive : Client.Demo.noItems.Positive := ⟨by decide, List.forall_mem_nil _⟩
  rcases stored_of_streams rfl positive meets.session meets.fits serving wired 3 meets.added with
    there | ⟨sock, c, user, -, -, row, stored, v, origin, -⟩
  · rw [meets.taken] at there
    cases there
  · exact ⟨a, cfg, meets.session, meets.added, meets.taken, serving, row, stored, v, user, origin⟩

end Demo

end OnlineChat
