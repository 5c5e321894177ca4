import OnlineChat.Server.Capacity
import OnlineChat.Server.Copies
import OnlineChat.Server.History

/-!
# Which history requests are answered

A HIST or INBOX gets one reply, an ERR or a page.  `sendFrame` refuses a page that is too
long, and nobody looks at its result.
-/

namespace OnlineChat

open Library MiniJson Database ChatServer SendSide

/-! ## The length of a page -/

section Lengths

variable {Call : Type} (kind receiver room : Bytes) (rows : List (Int × Message Call)) (more : Bool)
  (ts seq : Int)

/-- The length of the item of a row. -/
def itemSize (row : Int × Message Call) : Nat :=
  54 + (toDecimal row.1).length + (escapeString row.2.sender).length +
    (escapeString row.2.receiver).length + (escapeString row.2.content).length +
    (toDecimal row.2.ts).length + (escapeString row.2.type).length

/-- The cursor of a page. -/
def pageCursor : Bytes :=
  match rows.getLast? with
  | some row => formatCursor row.2.ts row.1
  | none => []

/-- The length of the packet of a page. -/
def pageSize : Nat :=
  103 + (escapeString kind).length + (escapeString receiver).length + (escapeString room).length +
    max 1 (rows.map fun row => itemSize row + 1).sum + (escapeString (pageCursor rows)).length +
    (toDecimal ts).length + (toDecimal seq).length

theorem length_historyItem (row : Int × Message Call) :
    (serializeValue (.obj (historyItem row).fields)).length = itemSize row := by
  have fields : (historyItem row).fields =
      [(bytes "id", .num row.1), (bytes "from", .str row.2.sender), (bytes "to", .str row.2.receiver),
        (bytes "content", .str row.2.content), (bytes "ts", .num row.2.ts),
        (bytes "type", .str row.2.type)] := by
    unfold historyItem
    simp [Object.setStr, Object.setNum, Object.set]
    rfl
  have keys : (quote (bytes "id")).length = 4 ∧ (quote (bytes "from")).length = 6 ∧
      (quote (bytes "to")).length = 4 ∧ (quote (bytes "content")).length = 9 ∧
      (quote (bytes "ts")).length = 4 ∧ (quote (bytes "type")).length = 6 := by decide +kernel
  have length := length_serialize_eq (o := historyItem row) (by rw [fields]; simp)
  unfold serialize at length
  rw [length]
  simp only [Object.size, fields, List.map_cons, List.map_nil, List.sum_cons, List.sum_nil,
    fieldSize_str, fieldSize_num, keys, itemSize]
  omega

theorem length_serializeItems (items : List Value) :
    (serializeItems items).length + 1 =
      max 1 (items.map fun item => (serializeValue item).length + 1).sum := by
  induction items with
  | nil => simp [serializeItems]
  | cons item items inductionHypothesis =>
      cases items with
      | nil => simp [serializeItems]
      | cons next items =>
          simp only [serializeItems, List.length_append, List.length_cons, List.map_cons,
            List.sum_cons] at inductionHypothesis ⊢
          omega

/-- The content of a page. -/
theorem length_items : (serializeValue (.list
    (rows.reverse.map fun row => .obj (historyItem row).fields))).length =
      1 + max 1 (rows.map fun row => itemSize row + 1).sum := by
  have sizes : ((rows.reverse.map fun row => Value.obj (historyItem row).fields).map
      fun item => (serializeValue item).length + 1).sum =
        (rows.map fun row => itemSize row + 1).sum := by
    simp only [List.map_map, Function.comp_def, length_historyItem, List.map_reverse,
      List.sum_reverse]
  have items := length_serializeItems (rows.reverse.map fun row => .obj (historyItem row).fields)
  rw [sizes] at items
  simp only [serializeValue, List.length_cons, List.length_append, List.length_nil]
  omega

theorem fields_header (type sender receiver room : Bytes) :
    (header type sender receiver room).fields = [(bytes "ver", .num 1), (bytes "type", .str type),
      (bytes "from", .str sender), (bytes "to", .str receiver), (bytes "room", .str room)] := by
  unfold header
  simp [Object.setStr, Object.setNum, Object.set]
  rfl

theorem size_header (type sender receiver room : Bytes) :
    (header type sender receiver room).size = 46 + (escapeString type).length +
      (escapeString sender).length + (escapeString receiver).length +
      (escapeString room).length := by
  have keys : (quote (bytes "ver")).length = 5 ∧ (quote (bytes "type")).length = 6 ∧
      (quote (bytes "from")).length = 6 ∧ (quote (bytes "to")).length = 4 ∧
      (quote (bytes "room")).length = 6 := by decide +kernel
  have version : (toDecimal 1).length = 1 := by decide +kernel
  simp only [Object.size, fields_header, List.map_cons, List.map_nil, List.sum_cons,
    List.sum_nil, fieldSize_str, fieldSize_num, keys, version]
  omega

theorem length_serverName : (escapeString serverName).length = 6 := by decide +kernel

theorem length_page : (makeWireFrame (serialize ((pageFrame kind receiver room rows more ts).setNum
    (bytes "seq") seq))).length = pageSize kind receiver room rows ts seq := by
  have keys : (quote (bytes "content")).length = 9 ∧ (quote (bytes "cursor")).length = 8 ∧
      (quote (bytes "more")).length = 6 ∧ (quote (bytes "ts")).length = 4 := by decide +kernel
  have flag : (toDecimal (if more then 1 else 0)).length = 1 := by cases more <;> decide +kernel
  have head := size_header kind serverName receiver room
  rw [length_serverName] at head
  have content : fieldSize (bytes "content", .list
      (rows.reverse.map fun row => .obj (historyItem row).fields)) =
        12 + max 1 (rows.map fun row => itemSize row + 1).sum := by
    unfold fieldSize
    rw [length_items, keys.1]
    omega
  have size : (pageFrame kind receiver room rows more ts).size =
      (header kind serverName receiver room).size + (fieldSize (bytes "content", .list
        (rows.reverse.map fun row => .obj (historyItem row).fields)) +
        (fieldSize (bytes "cursor", .str (pageCursor rows)) + (fieldSize (bytes "more",
          .num (if more then 1 else 0)) + (fieldSize (bytes "ts", .num ts) + 0)))) := by
    unfold Object.size
    rw [fields_pageFrame, List.map_append, List.sum_append]
    rfl
  rw [length_packet, size, head, content, fieldSize_str, fieldSize_num, fieldSize_num, flag]
  · simp only [keys, pageSize]
    omega
  · rw [fields_pageFrame, fields_header]
    simp only [List.cons_append, List.nil_append, List.map_cons, List.map_nil]
    decide +kernel

/-! ## The length of an error -/

theorem length_errFrame (code : ErrorCode) (text : Bytes) :
    (makeWireFrame (serialize ((errFrame receiver code text ts).setNum (bytes "seq") seq))).length =
      94 + (escapeString receiver).length + (toDecimal code.value).length +
        (escapeString text).length + (toDecimal ts).length + (toDecimal seq).length := by
  have keys : (quote (bytes "code")).length = 6 ∧ (quote (bytes "content")).length = 9 ∧
      (quote (bytes "ts")).length = 4 := by decide +kernel
  have fields : (errFrame receiver code text ts).fields =
      (header (bytes "ERR") serverName receiver []).fields ++ [(bytes "code", .num code.value),
        (bytes "content", .str text), (bytes "ts", .num ts)] := by
    unfold errFrame
    simp [header, Object.setStr, Object.setNum, Object.set]
    rfl
  have head := size_header (bytes "ERR") serverName receiver []
  have type : (escapeString (bytes "ERR")).length = 3 ∧ (escapeString []).length = 0 := by
    decide +kernel
  rw [length_serverName, type.1, type.2] at head
  have size : (errFrame receiver code text ts).size =
      (header (bytes "ERR") serverName receiver []).size + (fieldSize (bytes "code", .num code.value) +
        (fieldSize (bytes "content", .str text) + (fieldSize (bytes "ts", .num ts) + 0))) := by
    unfold Object.size
    rw [fields, List.map_append, List.sum_append]
    rfl
  rw [length_packet, size, head, fieldSize_num, fieldSize_str, fieldSize_num]
  · simp only [keys]
    omega
  · rw [fields, fields_header]
    simp only [List.cons_append, List.nil_append, List.map_cons, List.map_nil]
    decide +kernel

end Lengths

/-! ## The sections of a request -/

/-- How many sections a history request runs at most before it replies. -/
def Cmd.sections : Cmd → Nat
  | .router (.doHist _) => 3
  | .router (.histRoomId _ _) => 2
  | .db (.historyPage _ _ _) | .db (.doInbox _) => 1
  | _ => 0

/-- The handlers of HIST and INBOX. -/
def Cmd.asksHistory : Cmd → Bool
  | .router (.doHist _) | .db (.doInbox _) => true
  | _ => false

variable {st : Startup} {s : ChatServer} {c : ConnId} {e : Ext} {w : World} {k : Cmd}
  {rest : List Cmd}

/-- The reply of a section: an ERR, or the page that it has read. -/
inductive Replies (w : World) (c : ConnId) (e : Ext) (k : Cmd) : Object → Prop where
  | err (code : ErrorCode) (text : Bytes) : text.length ≤ 100 →
      (∀ k', k = .db k' → pageOf w.server c e k' = none) →
      Replies w c e k (errFrame (w.server.sess.username c) code text (e.nowTs 0))
  | page (k' : DbCmd) (kind room : Bytes) (rows : List (Int × Message Origin)) (more : Bool) :
      k = .db k' → pageOf w.server c e k' = some (kind, room, rows) →
      Replies w c e k (pageFrame kind (w.server.sess.username c) room rows more (e.nowTs 0))

/-- A request whose cursor is not one gets an ERR. -/
theorem next_doInbox_of_none {obj : Object} (none : s.inboxRows c e obj = none) :
    (doInbox s c e obj).next =
      [s.sendErr c .badCursor "收件箱游标非法（应为 ts:id）" (e.nowTs 0)] := by
  unfold inboxRows at none
  unfold doInbox
  dsimp only at none ⊢
  split at none
  · cases none
  next before =>
    have bad := Option.map_eq_none_iff.mp none
    rw [if_neg before, bad]

/-- A section of the database that only reads. -/
theorem run_reading {k : DbCmd} {next : List Cmd}
    (reads : runDb st w.server c e k = some { state := w.server.db, next }) :
    w.run st c e (.db k) = some (w, next) := by
  simp [World.run, reads]

/-- A section of a request leaves the world alone, and either another section or the
reply. -/
theorem history_run (pages : k.sections ≠ 0) : ∃ n, w.run st c e k = some (w, [n]) ∧
    ((n.sections ≠ 0 ∧ n.sections < k.sections ∧ ∀ k', k ≠ .db k') ∨
      ∃ reply, n = .io (.sendFrame c reply) ∧ Replies w c e k reply) := by
  have error (code : ErrorCode) (text : String) (short : (bytes text).length ≤ 100)
      (none : ∀ k', k = .db k' → pageOf w.server c e k' = none) :
      ∃ reply, w.server.sendErr c code text (e.nowTs 0) = .io (.sendFrame c reply) ∧
        Replies w c e k reply := ⟨_, rfl, .err code (bytes text) short none⟩
  have onward {n : Cmd} (left : n.sections ≠ 0) (fewer : n.sections < k.sections)
      (router : ∀ k', k ≠ .db k') :
      (n.sections ≠ 0 ∧ n.sections < k.sections ∧ ∀ k', k ≠ .db k') ∨
        ∃ reply, n = .io (.sendFrame c reply) ∧ Replies w c e k reply :=
    .inl ⟨left, fewer, router⟩
  have noQuery (k' : RouterCmd) (k'' : DbCmd) : Cmd.router k' ≠ .db k'' := by rintro ⟨⟩
  unfold Cmd.sections at pages
  split at pages
  next obj =>
    by_cases outside : w.server.router.userRoom (w.server.sess.username c) = []
    · refine ⟨_, congrArg (fun next => some (w, next)) (if_pos outside), .inr ?_⟩
      exact error _ _ (by decide +kernel) fun k'' query => absurd query (noQuery _ k'')
    · refine ⟨_, congrArg (fun next => some (w, next)) (if_neg outside), ?_⟩
      exact onward (by simp [Cmd.sections]) (by simp [Cmd.sections]) (noQuery _)
  next room cur =>
    have next : w.run st c e (.router (.histRoomId room cur)) =
      some (w, (histRoomId w.server c e room cur).next) := rfl
    rw [next]
    simp only [histRoomId]
    split
    · exact ⟨_, rfl, .inr (error _ _ (by decide +kernel) fun k'' query => absurd query (noQuery _ k''))⟩
    · split
      · exact ⟨_, rfl, onward (by simp [Cmd.sections]) (by simp [Cmd.sections]) (noQuery _)⟩
      · split
        · exact ⟨_, rfl, .inr (error _ _ (by decide +kernel) fun k'' query => absurd query (noQuery _ k''))⟩
        · exact ⟨_, rfl, onward (by simp [Cmd.sections]) (by simp [Cmd.sections]) (noQuery _)⟩
  next room roomId cursor =>
    exact ⟨_, run_reading rfl, .inr ⟨_, rfl, .page _ _ _ _ _ rfl rfl⟩⟩
  next obj =>
    have next : w.run st c e (.db (.doInbox obj)) =
      some (w, (doInbox w.server c e obj).next) := run_reading rfl
    rw [next]
    cases read : w.server.inboxRows c e obj with
    | none =>
        rw [next_doInbox_of_none read]
        refine ⟨_, rfl, .inr (error _ _ (by decide +kernel) ?_)⟩
        rintro k' ⟨⟩
        exact Option.map_eq_none_iff.mpr read
    | some rows =>
        obtain ⟨more, page⟩ := next_doInbox read
        rw [page]
        refine ⟨_, rfl, .inr ⟨_, rfl, .page _ _ _ _ more rfl ?_⟩⟩
        exact Option.map_eq_some_iff.mpr ⟨rows, read, rfl⟩
  · exact absurd rfl pages

/-! ## The reply goes out -/

section Sending

variable {side : SendSide} {reply : Object} {user : Bytes} {ts : Int} {results : List WriteResult}

/-- `sendFrame` succeeds, and nothing stays in the queue. -/
def SentWhole (side : SendSide) (reply : Object) (user : Bytes) (ts : Int)
    (results : List WriteResult) : Prop :=
  (side.sendFrame reply user ts results).ok = true ∧
    (side.sendFrame reply user ts results).side.outbuf = []

/-- To a reader that keeps up a frame goes out when its packet fits into the queue, and only
then. -/
theorem sentWhole_iff (up : KeepsUp side results) : SentWhole side reply user ts results ↔
    (makeWireFrame (serialize (reply.setNum (bytes "seq") (side.sendSeq + 1)))).length ≤
      kSendQueueCap := by
  have length := length_makeWireFrame (serialize (reply.setNum (bytes "seq") (side.sendSeq + 1)))
  have up' : KeepsUp { side with sendSeq := side.sendSeq + 1 } results :=
    ⟨up.isOpen, up.idle, up.takes⟩
  unfold SentWhole sendFrame bodyOf
  rw [if_neg (by simp [up.isOpen])]
  dsimp only
  by_cases long : kMaxFrame < (serialize (reply.setNum (bytes "seq") (side.sendSeq + 1))).length
  · simp only [if_pos long, Bool.false_eq_true, false_and, false_iff, not_le]
    simp only [kMaxFrame, kSendQueueCap] at long ⊢
    omega
  · simp only [if_neg long]
    by_cases fits : (makeWireFrame (serialize (reply.setNum (bytes "seq")
        (side.sendSeq + 1)))).length ≤ kSendQueueCap
    · rw [sendLocked_all up' fits]
      exact iff_of_true ⟨rfl, rfl⟩ fits
    · refine iff_of_false ?_ fits
      rintro ⟨sent, -⟩
      unfold sendLocked at sent
      rw [if_neg (by simp [up.isOpen])] at sent
      simp only [up.idle, List.nil_append] at sent
      rw [if_pos (Nat.lt_of_not_le fits)] at sent
      cases sent

/-- A `long long`. -/
def LongLong (n : Int) : Prop := -2 ^ 63 ≤ n ∧ n < 2 ^ 63

instance (n : Int) : Decidable (LongLong n) :=
  inferInstanceAs (Decidable (-2 ^ 63 ≤ n ∧ n < 2 ^ 63))

/-- An ERR to a user fits. -/
theorem err_fits {receiver text : Bytes} {code : ErrorCode} {seq : Int}
    (valid : validUsername receiver = true) (short : text.length ≤ 100) (tsRange : LongLong ts)
    (seqRange : LongLong seq) :
    (makeWireFrame (serialize ((errFrame receiver code text ts).setNum (bytes "seq") seq))).length ≤
      kSendQueueCap := by
  have name := length_quote_le receiver
  have content := length_quote_le text
  have clock := length_toDecimal_le tsRange.1 tsRange.2
  have counter := length_toDecimal_le seqRange.1 seqRange.2
  have number : (toDecimal code.value).length ≤ 21 := by
    apply length_toDecimal_le <;> cases code <;> decide
  have user : receiver.length ≤ 32 := by
    simp only [validUsername, validName, Bool.and_eq_true, decide_eq_true_eq] at valid
    exact valid.1.1.1.2
  simp only [quote, List.length_cons, List.length_append, List.length_nil] at name content
  rw [length_errFrame]
  unfold kSendQueueCap
  omega

end Sending

/-! ## Runs -/

variable {File : Type} {file : Database File} {b : BootExt} {cfg : Config Thread Cmd World}
  {ran : List (Ext × Cmd × World)}

/-- The thread of a connection has run the sections of a request, and then its one reply,
which the last section has left. -/
structure AnsweredOnce (c : ConnId) (ran past : List (Ext × Cmd × World)) (e : Ext) (w : World)
    (reply : Object) : Prop where
  ran : ran = past ++ [(e, .io (.sendFrame c reply), w)]
  sections : ∀ x ∈ past, x.2.1.sections ≠ 0
  last : ∃ before asked, past = before ++ [asked] ∧
    (∀ x ∈ before, ∀ k', x.2.1 ≠ .db k') ∧ Replies asked.2.2 c asked.1 asked.2.1 reply ∧
    validUsername (asked.2.2.server.sess.username c) = true

theorem facts_of_sections (pages : k.sections ≠ 0) :
    k.runsOn (.client c) = true ∧ k.opens c = false := by
  unfold Cmd.sections at pages
  split at pages
  all_goals first
    | exact ⟨rfl, rfl⟩
    | exact absurd rfl pages

/-- A reply leaves nothing to be run. -/
theorem sendFrame_run (v : ConnId) (reply : Object) :
    ∃ w', w.run st c e (.io (.sendFrame v reply)) = some (w', []) := by
  simp only [World.run, runIo, sendSection, Option.map_some, ite_self]
  exact ⟨_, rfl⟩

/-- What a section leaves is run in place of it. -/
theorem exec_history (pages : k.sections ≠ 0) : ∃ n,
    (server st).exec (.client c) e k w = some (w, [n]) ∧
    ((n.sections ≠ 0 ∧ n.sections < k.sections ∧ ∀ k', k ≠ .db k') ∨
      ∃ reply, n = .io (.sendFrame c reply) ∧ Replies w c e k reply) := by
  obtain ⟨n, ran, leaves⟩ := @history_run st c e w k pages
  exact ⟨n, exec_eq_some_iff.mpr ⟨(facts_of_sections pages).1, ran⟩, leaves⟩

/-- The thread can work off a request, also without any step of another thread. -/
theorem exists_worksOff (e : Ext) (bound : ℕ) (pages : k.sections ≠ 0) (few : k.sections ≤ bound)
    (stack : cfg.stack (.client c) = k :: rest) :
    ∃ ran, (server st).WorksOff (.client c) rest cfg ran ∧
      ∀ x ∈ ran, x.1 = e ∧ x.2.2 = cfg.shared := by
  induction bound generalizing k cfg with
  | zero => exact absurd (Nat.le_zero.mp few) pages
  | succ bound inductionHypothesis =>
      obtain ⟨n, exec, leaves⟩ := @exec_history st c e cfg.shared k pages
      have replaced : (⟨cfg.shared, Function.update cfg.stack (.client c) ([n] ++ ([] ++ rest))⟩ :
          Config Thread Cmd World).stack (.client c) = n :: rest := Function.update_self ..
      rcases leaves with ⟨more, fewer, -⟩ | ⟨reply, rfl, -⟩
      · obtain ⟨ran, works, here⟩ := inductionHypothesis more (by omega) replaced
        exact ⟨_, .cons [] stack exec works, List.forall_mem_cons.mpr ⟨⟨rfl, rfl⟩, here⟩⟩
      · obtain ⟨w', sent⟩ := @sendFrame_run st c e cfg.shared c reply
        have works := Program.WorksOff.cons [] replaced
          (exec_eq_some_iff.mpr ⟨rfl, sent⟩) (.done (Function.update_self ..))
        exact ⟨_, .cons [] stack exec works, by simp⟩

theorem answeredOnce_of_worksOff (bound : ℕ)
    (run : (server st).Reaches Program.always (start st file b) cfg) (pages : k.sections ≠ 0)
    (few : k.sections ≤ bound) (stack : cfg.stack (.client c) = k :: rest)
    (works : (server st).WorksOff (.client c) rest cfg ran) :
    ∃ past e w reply, AnsweredOnce c ran past e w reply := by
  induction bound generalizing k cfg ran with
  | zero => exact absurd (Nat.le_zero.mp few) pages
  | succ bound inductionHypothesis =>
      obtain ⟨cfg₁, e, w, new, later, reached, stack₁, exec, rfl, works⟩ :=
        works.head [] stack
      have run₁ := run.trans reached
      have waiting : k ∈ cfg₁.stack (.client c) := by simp [stack₁, stack]
      have valid := valid_of_plain run₁ waiting (facts_of_sections pages).2
      obtain ⟨n, exec', leaves⟩ := @exec_history st c e cfg₁.shared k pages
      obtain ⟨rfl, rfl⟩ := Prod.mk.inj (Option.some.inj (exec.symm.trans exec'))
      have replaced : (⟨cfg₁.shared, Function.update cfg₁.stack (.client c)
          ([n] ++ ([] ++ rest))⟩ : Config Thread Cmd World).stack (.client c) = n :: rest :=
        Function.update_self ..
      rcases leaves with ⟨more, fewer, router⟩ | ⟨reply, rfl, replies⟩
      · have step : (server st).Step Program.always cfg₁ _ := ⟨.client c, e, rfl,
          (Program.fire_eq_some_iff _).mpr ⟨k, rest, _, _, stack₁.trans stack, exec, rfl⟩⟩
        obtain ⟨past, e', w', reply, ran, sections, before, asked, rfl, silent, replies⟩ :=
          inductionHypothesis (run₁.tail step) more (by omega) replaced works
        refine ⟨(e, k, cfg₁.shared) :: (before ++ [asked]), e', w', reply, ?_, ?_,
          (e, k, cfg₁.shared) :: before, asked, rfl, ?_, replies⟩
        · rw [ran]
          rfl
        · exact List.forall_mem_cons.mpr ⟨pages, sections⟩
        · exact List.forall_mem_cons.mpr ⟨router, silent⟩
      · obtain ⟨cfg₂, e', w', new, later, -, -, exec', rfl, works⟩ :=
          works.head [] replaced
        obtain ⟨w'', sent⟩ := @sendFrame_run st c e' cfg₂.shared c reply
        obtain ⟨-, rfl⟩ := Prod.mk.inj
          (Option.some.inj ((exec_eq_some_iff.mp exec').2.symm.trans sent))
        have done := works.nil (Function.update_self ..)
        refine ⟨[(e, k, cfg₁.shared)], e', cfg₂.shared, reply, ?_, ?_, [], (e, k, cfg₁.shared), rfl,
          List.forall_mem_nil _, replies, valid⟩
        · rw [done]
          rfl
        · exact List.forall_mem_singleton.mpr pages

/-- The packet of the page that has been read for a request fits into an empty queue. -/
def PageFits (c : ConnId) (seq : Int) (past : List (Ext × Cmd × World)) : Prop :=
  ∀ e k w, (e, .db k, w) ∈ past → ∀ kind room rows, pageOf w.server c e k = some (kind, room, rows) →
    pageSize kind (w.server.sess.username c) room rows (e.nowTs 0) seq ≤ kSendQueueCap

/-- The reply to a request fits when its page does; an ERR always does. -/
theorem AnsweredOnce.fits_iff {past : List (Ext × Cmd × World)} {reply : Object} {seq : Int}
    (answered : AnsweredOnce c ran past e w reply) (clock : ∀ x ∈ past, LongLong (x.1.nowTs 0))
    (counter : LongLong seq) :
    (makeWireFrame (serialize (reply.setNum (bytes "seq") seq))).length ≤ kSendQueueCap ↔
      PageFits c seq past := by
  obtain ⟨before, ⟨e', k', w'⟩, rfl, silent, replies, valid⟩ := answered.last
  have here : (e', k', w') ∈ before ++ [(e', k', w')] := by simp
  -- no section before the last one has read a page
  have only {e₁ : Ext} {k₁ : DbCmd} {w₁ : World}
      (there : (e₁, Cmd.db k₁, w₁) ∈ before ++ [(e', k', w')]) :
      (e₁, Cmd.db k₁, w₁) = (e', k', w') := by
    rcases List.mem_append.mp there with earlier | last
    · exact absurd rfl (silent _ earlier k₁)
    · exact List.mem_singleton.mp last
  dsimp only at replies valid
  cases replies with
  | err code text short none =>
      refine iff_of_true (err_fits valid short (clock _ here) counter) ?_
      intro e₁ k₁ w₁ there kind room rows page
      cases only there
      cases (none k₁ rfl).symm.trans page
  | page k₂ kind room rows more same page =>
      subst same
      rw [length_page]
      constructor
      · intro fits e₁ k₁ w₁ there kind' room' rows' page'
        cases only there
        cases page.symm.trans page'
        exact fits
      · intro fits
        exact fits e' k₂ w' here kind room rows page

theorem Replies.type {reply : Object} (replies : Replies w c e k reply) :
    reply.getStr (bytes "type") ∈ [bytes "HISTORY", bytes "INBOX", bytes "ERR"] := by
  cases replies with
  | err code text short none =>
      have type : (errFrame (w.server.sess.username c) code text (e.nowTs 0)).getStr
          (bytes "type") = bytes "ERR" := rfl
      simp [type]
  | page k' kind room rows more same page =>
      have type : (pageFrame kind (w.server.sess.username c) room rows more (e.nowTs 0)).getStr
          (bytes "type") = kind := rfl
      rw [type]
      unfold pageOf at page
      split at page
      · cases page
        simp
      · obtain ⟨rows', -, same⟩ := Option.map_eq_some_iff.mp page
        cases same
        simp
      · cases page

/-- The thread of a connection works off a history request, and however the other threads
interleave, it sends one reply.  To a reader that keeps up the reply goes out as a whole if
and only if the packet of its page fits into the queue. -/
def AnswersIfFits (st : Startup) (c : ConnId) (rest : List Cmd) (cfg : Config Thread Cmd World) :
    Prop :=
  (∃ ran, (server st).WorksOff (.client c) rest cfg ran) ∧
    ∀ ran, (server st).WorksOff (.client c) rest cfg ran → ∃ past e w reply,
      AnsweredOnce c ran past e w reply ∧
      reply.getStr (bytes "type") ∈ [bytes "HISTORY", bytes "INBOX", bytes "ERR"] ∧
      ((∀ x ∈ past, LongLong (x.1.nowTs 0)) → LongLong ((w.server.sides c).sendSeq + 1) →
        KeepsUp (w.server.sides c) e.writes →
        (SentWhole (w.server.sides c) reply (w.server.sess.username c) (e.nowTs 0) e.writes ↔
          PageFits c ((w.server.sides c).sendSeq + 1) past))

/-- A history request is answered in every run, and the answer goes out when its page fits. -/
theorem answersIfFits_of_run (run : (server st).Reaches Program.always (start st file b) cfg)
    (stack : cfg.stack (.client c) = k :: rest) (asks : k.asksHistory = true) :
    AnswersIfFits st c rest cfg := by
  have pages : k.sections ≠ 0 := by
    unfold Cmd.asksHistory at asks
    split at asks
    · exact nofun
    · exact nofun
    · cases asks
  obtain ⟨ran, works, -⟩ := exists_worksOff {} k.sections pages le_rfl stack
  refine ⟨⟨ran, works⟩, ?_⟩
  intro ran works
  obtain ⟨past, e, w, reply, answered⟩ :=
    answeredOnce_of_worksOff k.sections run pages le_rfl stack works
  refine ⟨past, e, w, reply, answered, ?_, ?_⟩
  · obtain ⟨before, asked, -, -, replies, -⟩ := answered.last
    exact replies.type
  · intro clock counter up
    rw [sentWhole_iff up]
    exact answered.fits_iff clock counter

/-! ## Alice reads her inbox -/

namespace Demo

/-- A file with a message of alice to herself. -/
def memoFile (content : Bytes) : Database Unit :=
  let memo := privateMessage (bytes "alice") (bytes "alice") content 1 none
  { Demo.file with messages := Table.insert ∅ memo }

/-- Alice logs in and asks for her inbox, up to its handler. -/
def readsInbox : Schedule :=
  connects 1 ++ hello 1 1 ++ proves 1 1 ++ enters 1 1 ++ steps (.client 1) 6 ++
    receives 1 (request "INBOX" [("content", .str [])])

/-- Her inbox is asked for on connection 1, whose queue is empty. -/
def asked (cfg : Config Thread Cmd World) : Bool :=
  (match cfg.stack (.client 1) with
    | .db (.doInbox obj) :: _ => obj.getStr (bytes "content") = []
    | _ => false) && (cfg.shared.server.sides 1).isOpen &&
    (cfg.shared.server.sides 1).outbuf.isEmpty && (cfg.shared.server.sides 1).sendSeq = 2 &&
    cfg.shared.server.sess.username 1 = bytes "alice" &&
    cfg.shared.server.db.messages.rows.length = 1

end Demo

/-- What alice's request meets when its handler starts. -/
structure Asked (cfg : Config Thread Cmd World) (obj : Object) (rest : List Cmd) : Prop where
  stack : cfg.stack (.client 1) = .db (.doInbox obj) :: rest
  latest : obj.getStr (bytes "content") = []
  isOpen : (cfg.shared.server.sides 1).isOpen = true
  idle : (cfg.shared.server.sides 1).outbuf = []
  counter : (cfg.shared.server.sides 1).sendSeq = 2
  user : cfg.shared.server.sess.username 1 = bytes "alice"
  one : ∃ row, cfg.shared.server.db.messages.rows = [row]

theorem asked_of_demo {cfg : Config Thread Cmd World} (asked : Demo.asked cfg = true) :
    ∃ obj rest, Asked cfg obj rest := by
  simp only [Demo.asked, Bool.and_eq_true, decide_eq_true_eq, List.isEmpty_iff,
    List.length_eq_one_iff] at asked
  obtain ⟨⟨⟨⟨⟨top, isOpen⟩, idle⟩, counter⟩, user⟩, one⟩ := asked
  split at top
  next obj rest stack =>
    exact ⟨obj, rest, stack, of_decide_eq_true top, isOpen, idle, counter, user, one⟩
  next => cases top

/-- Alice has logged in on a file with that memo, and its row has stayed as it was. -/
theorem exists_asked (content : Bytes)
    (played : ((copied Demo.startup).play Program.always Demo.readsInbox
      ((start Demo.startup (Demo.memoFile content) {}).noted [])).map
        (fun cfg => Demo.asked cfg.plain && cfg.shared.2.isEmpty) = some true) :
    ∃ cfg obj rest row, (server Demo.startup).Reaches Program.always
        (start Demo.startup (Demo.memoFile content) {}) cfg ∧ Asked cfg obj rest ∧
      cfg.shared.server.db.messages.rows = [row] ∧ row.2.receiver = cStr (bytes "alice") ∧
      row.2.content = cStr content := by
  obtain ⟨cfg, run, checked⟩ := Program.exists_reaches_of_play (copied Demo.startup)
    Program.always Demo.readsInbox ((start Demo.startup (Demo.memoFile content) {}).noted [])
    (fun cfg => Demo.asked cfg.plain && cfg.shared.2.isEmpty) played
  rw [Bool.and_eq_true, List.isEmpty_iff] at checked
  obtain ⟨asked, silent⟩ := checked
  obtain ⟨obj, rest, asked⟩ := asked_of_demo asked
  obtain ⟨row, one⟩ := asked.one
  have plain : (server Demo.startup).Reaches Program.always
      ((start Demo.startup (Demo.memoFile content) {}).noted []).plain cfg.plain :=
    Program.Reaches.plain run
  have archived := (preserved_of_run run preserved_boot).inv.archived
  have rows : cfg.shared.1.server.db.messages.rows = [row] := one
  have filed := archived.messages row (.inl (by simp [rows]))
  rw [silent] at filed
  obtain ⟨x, there, same⟩ : ∃ x, (row.1, x) ∈ (Demo.memoFile content).stored.rows ∧
    bareRow (row.1, x) = bareRow row := filed
  obtain ⟨-, rfl⟩ := Prod.mk.inj (List.mem_singleton.mp there)
  refine ⟨cfg.plain, obj, rest, row, plain, asked, one, ?_, ?_⟩
  · exact (congrArg (fun row => row.2.receiver) same).symm
  · exact (congrArg (fun row => row.2.content) same).symm

/-- A page with one row is longer than its content. -/
theorem length_lt_pageSize {kind receiver room : Bytes} {ts seq : Int}
    (row : Int × Message Origin) :
    (escapeString row.2.content).length < pageSize kind receiver room [row] ts seq := by
  simp only [pageSize, itemSize, List.map_cons, List.map_nil, List.sum_cons, List.sum_nil]
  omega

/-- The inbox with one row. -/
theorem inboxRows_one {obj : Object} {row : Int × Message Origin}
    (prepares : e.sql.prepares = true) (whole : e.sql.fetches = none)
    (latest : obj.getStr (bytes "content") = []) (one : s.db.messages.rows = [row])
    (mine : row.2.receiver = cStr (s.sess.username c)) :
    s.inboxRows c e obj = some [row] := by
  simp [inboxRows, latest, inboxLatest, page, fetched, prepares, whole, one, mine, kHistPageSize]

/-- The reader of the request below takes all that is offered. -/
def Demo.keepsUp : Ext := { writes := [.accepted (kMaxFrame + 4)] }

/-- A request of alice on an empty file is answered. -/
theorem answersIfFits_of_run_alice : ∃ cfg obj rest, (server Demo.startup).Reaches Program.always
      (start Demo.startup (Demo.memoFile (bytes "hi")) {}) cfg ∧ Asked cfg obj rest ∧
    AnswersIfFits Demo.startup 1 rest cfg := by
  obtain ⟨cfg, obj, rest, row, run, asked, -⟩ := exists_asked (bytes "hi") (by decide +kernel)
  exact ⟨cfg, obj, rest, run, asked, answersIfFits_of_run run asked.stack rfl⟩

/-- A text of 256 KiB. -/
def Demo.longText : Bytes := List.replicate kSendQueueCap 97

theorem length_longText : (escapeString Demo.longText).length = kSendQueueCap := by
  rw [Demo.longText, escapeString_replicate, List.length_replicate]

theorem cStr_longText : cStr Demo.longText = Demo.longText := by
  apply cStr_eq_self
  intro b there
  rw [List.eq_of_mem_replicate there]
  decide

theorem short_longText :
    (serialize (frameTo (bytes "alice") Demo.longText)).length ≤ kMaxFrame / 2 := by
  have alice : (escapeString (bytes "alice")).length = 5 := by decide +kernel
  rw [length_frameTo, length_longText, alice]
  decide

/-- A message of alice to herself of 256 KiB comes in a frame far below the limit.  Once it
is in the table, her inbox is not answered: `sendFrame` fails although the socket takes
everything. -/
theorem inbox_unanswered : ∃ content body,
    (body.length ≤ kMaxFrame / 2 ∧
      Accepted Demo.startup body (messageTo (bytes "alice") content)) ∧
    ∃ cfg obj rest ran past e w reply,
      (server Demo.startup).Reaches Program.always
        (start Demo.startup (Demo.memoFile content) {}) cfg ∧ Asked cfg obj rest ∧
      (server Demo.startup).WorksOff (.client 1) rest cfg ran ∧
      AnsweredOnce 1 ran past e w reply ∧ KeepsUp (w.server.sides 1) e.writes ∧
      ¬ SentWhole (w.server.sides 1) reply (w.server.sess.username 1) (e.nowTs 0) e.writes := by
  have small := Nat.le_trans short_longText (by decide : kMaxFrame / 2 ≤ kMaxFrame)
  refine ⟨Demo.longText, _, ⟨short_longText, accepted_frameTo (by decide) _ small⟩, ?_⟩
  obtain ⟨cfg, obj, rest, row, run, asked, one, mine, content⟩ :=
    exists_asked Demo.longText (by decide +kernel)
  obtain ⟨ran, works, here⟩ := exists_worksOff Demo.keepsUp 1 (by nofun) le_rfl asked.stack
  obtain ⟨past, e, w, reply, answered⟩ :=
    answeredOnce_of_worksOff 1 run (by nofun) le_rfl asked.stack works
  -- the request has been handled at once
  have now : e = Demo.keepsUp ∧ w = cfg.shared := by
    apply here (e, .io (.sendFrame 1 reply), w)
    rw [answered.ran]
    simp
  obtain ⟨rfl, rfl⟩ := now
  have up : KeepsUp (cfg.shared.server.sides 1) Demo.keepsUp.writes :=
    ⟨asked.isOpen, asked.idle, _, _, rfl, le_rfl⟩
  refine ⟨cfg, obj, rest, ran, past, Demo.keepsUp, cfg.shared, reply, run, asked, works, answered,
    up, ?_⟩
  have counter : LongLong ((cfg.shared.server.sides 1).sendSeq + 1) := by
    rw [asked.counter]
    decide
  have clock : ∀ x ∈ past, LongLong (x.1.nowTs 0) := by
    intro x there
    have first := (here x (by rw [answered.ran]; exact List.mem_append_left _ there)).1
    rw [first]
    decide
  rw [sentWhole_iff up, answered.fits_iff clock counter]
  intro fits
  obtain ⟨cfg₁, e₁, s, new, later, -, -, -, first, -⟩ := works.head [] asked.stack
  have reads : (e₁, .db (.doInbox obj), cfg₁.shared) ∈ past := by
    obtain ⟨before, last, rfl, -⟩ := answered.last
    have split := first.symm.trans answered.ran
    cases before with
    | nil =>
        obtain ⟨same, -⟩ := List.cons.inj split
        exact same ▸ List.mem_singleton_self _
    | cons head before =>
        obtain ⟨same, -⟩ := List.cons.inj split
        exact same ▸ List.mem_cons_self
  obtain ⟨rfl, state⟩ : e₁ = Demo.keepsUp ∧ cfg₁.shared = cfg.shared := by
    apply here (e₁, .db (.doInbox obj), cfg₁.shared)
    rw [first]
    exact List.mem_cons_self
  rw [state] at reads
  rw [← asked.user] at mine
  have page : pageOf cfg.shared.server 1 Demo.keepsUp (.doInbox obj) =
      some (bytes "INBOX", [], [row]) := by
    have rows := inboxRows_one (c := 1) (e := Demo.keepsUp) rfl rfl asked.latest one mine
    simp [pageOf, rows, kHistPageSize]
  have size := fits _ _ _ reads _ _ _ page
  have longer := (length_lt_pageSize row).trans_le size
  rw [content, cStr_longText, length_longText] at longer
  exact absurd longer (Nat.lt_irrefl kSendQueueCap)

end OnlineChat
