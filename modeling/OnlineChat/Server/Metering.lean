import OnlineChat.BucketWindows
import OnlineChat.Server.Fates

/-!
# The message rate of a user

`doMessage` asks one limiter for all messages, under the name of the user.  A user is
answered as by a bucket of their own, over all their connections, and no window of time
lets more of their messages through than the bucket grants.
-/

namespace OnlineChat

open Library MiniJson ChatServer TokenBucket KeyedRateLimiter

variable {st : Startup} {c : ConnId} {e : Ext} {w w' : World} {t : Thread} {k : Cmd}
  {new : List Cmd} {File : Type} {file : Database File} {b : BootExt} {bucket : TokenBucket}
  {l : KeyedRateLimiter} {calls : List (Bytes × Rat)} {key user : Bytes}
  {rate burst now first last : Rat}

/-! ## Charges -/

/-- A message for which the limiter is asked. -/
structure Charge where
  user : Bytes
  time : Rat
  /-- The answer of the limiter. -/
  ok : Bool
  /-- The message goes on to the check of its slot. -/
  passes : Bool

def Charge.call (charge : Charge) : Bytes × Rat := (charge.user, charge.time)

def charges (st : Startup) (t : Thread) (e : Ext) (k : Cmd) (w : World) : List Charge :=
  match k with
  | .limit (.doMessage obj) =>
      if obj.getNum (bytes "seq") ≤ 0 ∨ ¬ 0 < st.cfg.msgRate then []
      else
        [{ user := w.server.sess.username t.conn
           time := e.nowSec 1
           ok := (w.server.msgLimit.allow (w.server.sess.username t.conn) (e.nowSec 1)).1
           passes := (doMessage st w.server t.conn e obj).next.any Cmd.delivers }]
  | _ => []

/-- The server with the history of its charges. -/
abbrev charging (st : Startup) : Program Thread Ext Cmd (World × List Charge) :=
  (server st).recording (charges st)

/-- A step charges at a positive time that is not before the last one, and whenever the
limiter collects garbage, dropping the idle users is enough. -/
def paced (st : Startup) (cfg : Config Thread Cmd (World × List Charge)) (t : Thread)
    (e : Ext) : Bool :=
  (cfg.stack t).head?.all fun k => (charges st t e k cfg.shared.1).all fun charge =>
    0 < charge.time && clockOf (cfg.shared.2.map Charge.call) ≤ charge.time &&
      cfg.shared.1.server.msgLimit.IdleSuffices charge.user charge.time

/-! ## One charge -/

theorem passes_of_doMessage {s : ChatServer} {obj : Object}
    (positive : 0 < obj.getNum (bytes "seq")) (rated : 0 < st.cfg.msgRate) :
    (doMessage st s c e obj).state.2 = (s.msgLimit.allow (s.sess.username c) (e.nowSec 1)).2 ∧
      ((doMessage st s c e obj).next.any Cmd.delivers = true →
        (s.msgLimit.allow (s.sess.username c) (e.nowSec 1)).1 = true) := by
  unfold doMessage
  dsimp only
  rw [if_neg (not_le.mpr positive), if_pos rated]
  dsimp only
  refine ⟨rfl, ?_⟩
  intro passes
  by_contra refused
  rw [if_pos refused] at passes
  cases passes

/-- A charge is a call of the limiter, and nothing else changes it. -/
theorem msgLimit_run (ran : w.run st t.conn e k = some (w', new)) :
    (charges st t e k w = [] ∧ w'.server.msgLimit = w.server.msgLimit) ∨
      ∃ charge, charges st t e k w = [charge] ∧
        charge.ok = (w.server.msgLimit.allow charge.user charge.time).1 ∧
        (charge.passes = true → charge.ok = true) ∧
        w'.server.msgLimit = (w.server.msgLimit.allow charge.user charge.time).2 := by
  cases k with
  | limit k =>
      obtain ⟨rfl, -⟩ := Prod.mk.inj (Option.some.inj ran)
      cases k with
      | doMessage obj =>
          by_cases charged : obj.getNum (bytes "seq") ≤ 0 ∨ ¬ 0 < st.cfg.msgRate
          · refine .inl ⟨if_pos charged, ?_⟩
            dsimp only [runLimit, doMessage]
            rcases charged with low | unrated
            · rw [if_pos low]
            · rw [if_neg unrated]
              split <;> rfl
          · right
            refine ⟨_, if_neg charged, rfl, ?_⟩
            simp only [not_or, not_le, not_not] at charged
            obtain ⟨limit, passes⟩ := passes_of_doMessage (c := t.conn) (e := e)
              (s := w.server) charged.1 charged.2
            exact ⟨passes, limit⟩
      | acceptLoop =>
          refine .inl ⟨rfl, ?_⟩
          dsimp only [runLimit, acceptLoop]
          split <;> rfl
      | doRegisterHello obj | doLoginHello obj =>
          refine .inl ⟨rfl, ?_⟩
          dsimp only [runLimit, doRegisterHello, doLoginHello, doHello]
          split <;> rfl
  | own k | token k | sess k | router k | checkAndAdd m =>
      obtain ⟨rfl, -⟩ := Prod.mk.inj (Option.some.inj ran)
      exact .inl ⟨rfl, rfl⟩
  | db k | io k =>
      obtain ⟨r, -, result⟩ := Option.map_eq_some_iff.mp ran
      obtain ⟨rfl, -⟩ := Prod.mk.inj result
      exact .inl ⟨rfl, rfl⟩

/-! ## Runs -/

theorem le_clockOf (ordered : calls.Pairwise fun call later => call.2 ≤ later.2) :
    ∀ call ∈ calls, call.2 ≤ clockOf calls := by
  induction calls using List.reverseRecOn with
  | nil => exact List.forall_mem_nil _
  | append_singleton calls last _ =>
      intro call there
      have ends : clockOf (calls ++ [last]) = last.2 := by simp [clockOf]
      rw [ends]
      rcases List.mem_append.mp there with before | same
      · exact (List.pairwise_append.mp ordered).2.2 call before last List.mem_cons_self
      · rw [List.mem_singleton.mp same]

/-- An element of a list with one more is the new one, or splits the list before. -/
theorem split_concat {α : Type} {xs before rest : List α} {x y : α}
    (split : xs ++ [x] = before ++ y :: rest) :
    (before = xs ∧ y = x) ∨ ∃ rest', xs = before ++ y :: rest' := by
  rcases List.eq_nil_or_concat rest with rfl | ⟨rest', final, rfl⟩
  · obtain ⟨rfl, same⟩ := List.append_inj' split rfl
    exact .inl ⟨rfl, (List.cons.inj same).1.symm⟩
  · have longer : xs ++ [x] = (before ++ y :: rest') ++ [final] := by
      rw [split, List.concat_eq_append, List.append_assoc, List.cons_append]
    exact .inr ⟨rest', (List.append_inj' longer rfl).1⟩

/-- One more call at a time that is not before the last one. -/
theorem paced_concat (paced : l.Paced calls) (positive : 0 < now) (later : clockOf calls ≤ now)
    (collects : (l.after calls).IdleSuffices key now) : l.Paced (calls ++ [(key, now)]) := by
  constructor
  · intro call there
    rcases List.mem_append.mp there with before | same
    · exact paced.positive call before
    · rw [List.mem_singleton.mp same]
      exact positive
  · refine List.pairwise_append.mpr ⟨paced.ordered, List.pairwise_singleton .., ?_⟩
    intro call before call' same
    rw [List.mem_singleton.mp same]
    exact (le_clockOf paced.ordered call before).trans later
  · intro before key' now' rest split
    rcases split_concat split with ⟨rfl, same⟩ | ⟨rest', shorter⟩
    · obtain ⟨rfl, rfl⟩ := Prod.mk.inj same
      exact collects
    · exact paced.collects before key' now' rest' shorter

/-- What is known of the limiter from the charges so far. -/
structure Metered (st : Startup) (x : World × List Charge) : Prop where
  limiter : x.1.server.msgLimit =
    (limiterOf st.cfg.msgRate st.cfg.msgBurst).after (x.2.map Charge.call)
  paced : (limiterOf st.cfg.msgRate st.cfg.msgBurst).Paced (x.2.map Charge.call)
  answered : ∀ before charge later, x.2 = before ++ charge :: later →
    charge.ok = (((limiterOf st.cfg.msgRate st.cfg.msgBurst).after
      (before.map Charge.call)).allow charge.user charge.time).1 ∧
    (charge.passes = true → charge.ok = true)

theorem Metered.concat {notes : List Charge} {charge : Charge} (metered : Metered st (w, notes))
    (answer : charge.ok = (w.server.msgLimit.allow charge.user charge.time).1)
    (passes : charge.passes = true → charge.ok = true)
    (limit : w'.server.msgLimit = (w.server.msgLimit.allow charge.user charge.time).2)
    (positive : 0 < charge.time) (later : clockOf (notes.map Charge.call) ≤ charge.time)
    (collects : w.server.msgLimit.IdleSuffices charge.user charge.time) :
    Metered st (w', notes ++ [charge]) := by
  obtain ⟨limiter, paced, answered⟩ := metered
  dsimp only at limiter paced answered
  rw [limiter] at answer limit collects
  constructor
  · rw [limit, List.map_append]
    exact (KeyedRateLimiter.after_concat ..).symm
  · rw [List.map_append]
    exact paced_concat paced positive later collects
  · intro before charge' rest split
    rcases split_concat split with ⟨rfl, rfl⟩ | ⟨rest', shorter⟩
    · exact ⟨answer, passes⟩
    · exact answered before charge' rest' shorter

variable {cfg : Config Thread Cmd (World × List Charge)}

theorem metered_of_run (run : (charging st).Reaches (paced st) ((start st file b).noted []) cfg) :
    Metered st cfg.shared := by
  apply run.invariant
  · refine ⟨rfl, ⟨List.forall_mem_nil _, List.Pairwise.nil, ?_⟩, ?_⟩
    · intro before key now later split
      simp [Config.noted] at split
    · intro before charge later split
      simp [Config.noted] at split
  · rintro ⟨⟨w, notes⟩, stack⟩ t e k rest ⟨w', notes'⟩ new - metered allowed top ran
    obtain ⟨ran, rfl⟩ := Program.exec_recording.mp ran
    obtain ⟨-, ran⟩ := exec_eq_some_iff.mp ran
    dsimp only at metered top ran ⊢
    rcases msgLimit_run ran with ⟨none, same⟩ | ⟨charge, one, answer, passes, limit⟩
    · rw [none, List.append_nil]
      obtain ⟨limiter, paced, answered⟩ := metered
      exact ⟨same.trans limiter, paced, answered⟩
    · simp only [paced, top, List.head?_cons, Option.all_some, one, List.all_cons, List.all_nil,
        Bool.and_true, Bool.and_eq_true, decide_eq_true_eq] at allowed
      obtain ⟨⟨positive, later⟩, collects⟩ := allowed
      rw [one]
      exact metered.concat answer passes limit positive later collects

/-! ## Windows of time -/

theorem lastRefill_after_le (times : List Rat) (filled : bucket.lastRefill ≤ last)
    (bounded : ∀ time ∈ times, time ≤ last) : (bucket.after times).lastRefill ≤ last := by
  induction times generalizing bucket with
  | nil => exact filled
  | cons time times inductionHypothesis =>
      obtain ⟨here, rest⟩ := List.forall_mem_cons.mp bounded
      refine inductionHypothesis ?_ rest
      rw [(bucket.tokens_tryConsume time).2]
      unfold TokenBucket.refill
      split
      · exact filled
      · exact here

/-- Between two times, a bucket grants no more than the burst and what comes in. -/
theorem granted_between (balanced : bucket.Balanced rate burst) (fills : 0 ≤ rate)
    (room : 0 ≤ burst) (filled : bucket.lastRefill ≤ last) (order : first ≤ last)
    (times : List Rat) (between : ∀ time ∈ times, first ≤ time ∧ time ≤ last) :
    (bucket.granted times : Rat) ≤ burst + rate * (last - first) + 1 / 1000000000 := by
  cases times with
  | nil =>
      have gains : 0 ≤ rate * (last - first) := mul_nonneg fills (by linarith)
      simp only [granted, Nat.cast_zero]
      linarith
  | cons time times =>
      obtain ⟨⟨begins, -⟩, -⟩ := List.forall_mem_cons.mp between
      have consumed := balanced.tryConsume fills room time
      have later := granted_add_tokens_le consumed fills room times
      have owes := (consumed.after fills room times).owes
      have holds := (balanced.refill fills room time).holds
      obtain ⟨taken, same⟩ := bucket.tokens_tryConsume time
      have ends : ((bucket.tryConsume time 1).2.after times).lastRefill ≤ last :=
        lastRefill_after_le (time :: times) filled fun time there => (between time there).2
      have start := (bucket.lastRefill_le_refill time).2
      rw [same] at later
      have gains : rate * (((bucket.tryConsume time 1).2.after times).lastRefill -
          (bucket.refill time).lastRefill) ≤ rate * (last - first) :=
        mul_le_mul_of_nonneg_left (by linarith) fills
      rw [granted_cons]
      linarith

/-- The answers of a stretch of charges are those of the bucket of the user. -/
theorem length_oks {before part later : List Charge} (user : Bytes)
    (answered : ∀ before' charge later', before ++ part ++ later = before' ++ charge :: later' →
      charge.ok = ((alone rate burst charge.user (before'.map Charge.call)).tryConsume
        charge.time 1).1) :
    (part.filter fun charge => charge.user = user ∧ charge.ok = true).length =
      (alone rate burst user (before.map Charge.call)).granted
        (timesOf user (part.map Charge.call)) := by
  induction part generalizing before with
  | nil => rfl
  | cons charge part inductionHypothesis =>
      have answer := answered before charge (part ++ later) (by simp)
      have rest := @inductionHypothesis (before ++ [charge]) (by simpa using answered)
      rw [List.map_append, List.map_singleton] at rest
      by_cases own : charge.user = user
      · subst own
        have head : timesOf charge.user ((charge :: part).map Charge.call) =
            charge.time :: timesOf charge.user (part.map Charge.call) := by
          simp [timesOf, Charge.call]
        rw [head, granted, ← answer]
        rw [show Charge.call charge = (charge.user, charge.time) from rfl,
          alone_concat_self] at rest
        rw [← rest]
        cases ok : charge.ok with
        | true => simp [ok, Nat.add_comm]
        | false => simp [ok]
      · have head : timesOf user ((charge :: part).map Charge.call) =
            timesOf user (part.map Charge.call) := by
          simp [timesOf, Charge.call, own]
        rw [show Charge.call charge = (charge.user, charge.time) from rfl,
          alone_concat_of_ne (Ne.symm own)] at rest
        rw [head, ← rest]
        simp [own]

/-- Where a property holds up to some element and then no more, a list falls in two parts. -/
theorem split_of_closed {α : Type} {p : α → Prop} {xs : List α}
    (closed : xs.Pairwise fun x y => p y → p x) :
    ∃ front back, xs = front ++ back ∧ (∀ x ∈ front, p x) ∧ ∀ x ∈ back, ¬ p x := by
  induction xs with
  | nil => exact ⟨[], [], rfl, List.forall_mem_nil _, List.forall_mem_nil _⟩
  | cons x xs inductionHypothesis =>
      obtain ⟨head, tail⟩ := List.pairwise_cons.mp closed
      by_cases holds : p x
      · obtain ⟨front, back, rfl, inside, outside⟩ := inductionHypothesis tail
        exact ⟨x :: front, back, rfl, List.forall_mem_cons.mpr ⟨holds, inside⟩, outside⟩
      · refine ⟨[], x :: xs, rfl, List.forall_mem_nil _, ?_⟩
        refine List.forall_mem_cons.mpr ⟨holds, ?_⟩
        exact fun y there held => holds (head y there held)

/-- The charges in a window are a stretch of all charges. -/
theorem stretch_of_window {notes : List Charge} (first last : Rat)
    (ordered : notes.Pairwise fun charge later => charge.time ≤ later.time) :
    ∃ before part later, notes = before ++ part ++ later ∧
      (∀ charge ∈ before, charge.time < first) ∧
      (∀ charge ∈ part, first ≤ charge.time ∧ charge.time ≤ last) ∧
      ∀ charge ∈ later, last < charge.time := by
  obtain ⟨before, rest, rfl, early, late⟩ := split_of_closed
    (p := fun charge => charge.time < first) (ordered.imp fun order => order.trans_lt)
  obtain ⟨part, later, rfl, inside, outside⟩ := split_of_closed
    (p := fun charge => charge.time ≤ last)
    ((List.pairwise_append.mp ordered).2.1.imp fun order => order.trans)
  refine ⟨before, part, later, (List.append_assoc ..).symm, early, ?_, ?_⟩
  · intro charge there
    exact ⟨not_lt.mp (late charge (List.mem_append_left _ there)), inside charge there⟩
  · exact fun charge there => not_le.mp (outside charge there)

/-- The messages of a user that pass at a time in a window. -/
def Charge.inWindow (user : Bytes) (first last : Rat) (charge : Charge) : Bool :=
  charge.user = user ∧ charge.passes = true ∧ first ≤ charge.time ∧ charge.time ≤ last

theorem limiterOf_eq (rated : 0 < rate) (room : 0 < burst) :
    limiterOf rate burst = { rate, burst, maxKeys := 10000, idleGcSec := 30 } := by
  simp [limiterOf, rated, room]

theorem Metered.answered_alone {x : World × List Charge} (metered : Metered st x)
    (rated : 0 < st.cfg.msgRate) (room : 0 < st.cfg.msgBurst)
    (long : st.cfg.msgBurst + 1 ≤ st.cfg.msgRate * 30) {before later : List Charge}
    {charge : Charge} (here : x.2 = before ++ charge :: later) :
    charge.ok = ((alone st.cfg.msgRate st.cfg.msgBurst charge.user
      (before.map Charge.call)).tryConsume charge.time 1).1 := by
  obtain ⟨-, paced, answered⟩ := metered
  have answer := (answered before charge later here).1
  rw [limiterOf_eq rated room] at paced answer
  have split : x.2.map Charge.call =
      before.map Charge.call ++ (charge.user, charge.time) :: later.map Charge.call := by
    rw [here, List.map_append, List.map_cons]
    rfl
  rw [split] at paced
  have positive : 0 < charge.time := paced.positive (charge.user, charge.time) (by simp)
  have knows := knows_after rated room.le long paced
  rw [answer]
  exact (knows.allow rated room.le long positive (clockOf_le positive paced.ordered)
    (paced.collects _ _ _ _ rfl)).1

theorem mem_timesOf {notes : List Charge} {time : Rat}
    (there : time ∈ timesOf user (notes.map Charge.call)) :
    ∃ charge ∈ notes, charge.time = time := by
  simp only [timesOf, List.mem_map, List.mem_filter] at there
  obtain ⟨call, ⟨⟨charge, among, rfl⟩, -⟩, rfl⟩ := there
  exact ⟨charge, among, rfl⟩

/-- A message of the user that passes in the window is one of the stretch that was granted. -/
theorem Metered.countP_inWindow_le {x : World × List Charge} (metered : Metered st x)
    (user : Bytes) {before part later : List Charge} (notes : x.2 = before ++ part ++ later)
    (early : ∀ charge ∈ before, charge.time < first)
    (late : ∀ charge ∈ later, last < charge.time) :
    x.2.countP (Charge.inWindow user first last) ≤
      (part.filter fun charge => charge.user = user ∧ charge.ok = true).length := by
  have none : before.countP (Charge.inWindow user first last) = 0 := by
    refine List.countP_eq_zero.mpr ?_
    intro charge there within
    have soon := early charge there
    simp only [Charge.inWindow, decide_eq_true_eq] at within
    linarith [within.2.2.1]
  have none' : later.countP (Charge.inWindow user first last) = 0 := by
    refine List.countP_eq_zero.mpr ?_
    intro charge there within
    have gone := late charge there
    simp only [Charge.inWindow, decide_eq_true_eq] at within
    linarith [within.2.2.2]
  rw [notes, List.countP_append, List.countP_append, none, none', Nat.zero_add, Nat.add_zero,
    ← List.countP_eq_length_filter]
  refine List.countP_mono_left ?_
  intro charge there within
  obtain ⟨front, back, split⟩ := List.append_of_mem there
  have here : x.2 = (before ++ front) ++ charge :: (back ++ later) := by
    rw [notes, split]
    simp
  simp only [Charge.inWindow, decide_eq_true_eq] at within
  exact decide_eq_true ⟨within.1, (metered.answered _ _ _ here).2 within.2.1⟩

/-- What the bucket of a user grants for a stretch of charges. -/
theorem granted_stretch (user : Bytes) (rated : 0 < rate) (room : 0 < burst)
    (order : first ≤ last) {before part : List Charge}
    (early : ∀ charge ∈ before, charge.time < first)
    (inside : ∀ charge ∈ part, first ≤ charge.time ∧ charge.time ≤ last)
    (start : (ofRate rate burst).lastRefill ≤ last) :
    ((alone rate burst user (before.map Charge.call)).granted
        (timesOf user (part.map Charge.call)) : Rat) ≤
      burst + rate * (last - first) + 1 / 1000000000 := by
  have balanced : (alone rate burst user (before.map Charge.call)).Balanced rate burst :=
    (balanced_ofRate room.le).after rated.le room.le (timesOf user (before.map Charge.call))
  have filled : (alone rate burst user (before.map Charge.call)).lastRefill ≤ last := by
    refine lastRefill_after_le _ start ?_
    intro time there
    obtain ⟨charge, among, rfl⟩ := mem_timesOf there
    exact (early charge among).le.trans order
  refine granted_between balanced rated.le room.le filled order _ ?_
  intro time there
  obtain ⟨charge, among, rfl⟩ := mem_timesOf there
  exact inside charge among

/-- In every run, each charge is answered as by the bucket of its user alone; and in every
window of time no more messages of a user pass than that bucket grants. -/
theorem passes_le_of_run
    (run : (charging st).Reaches (paced st) ((start st file b).noted []) cfg)
    (rated : 0 < st.cfg.msgRate) (room : 0 < st.cfg.msgBurst)
    (long : st.cfg.msgBurst + 1 ≤ st.cfg.msgRate * 30) :
    (∀ before charge later, cfg.shared.2 = before ++ charge :: later →
      charge.ok = ((alone st.cfg.msgRate st.cfg.msgBurst charge.user
        (before.map Charge.call)).tryConsume charge.time 1).1 ∧
      (charge.passes = true → charge.ok = true)) ∧
    ∀ user first last, first ≤ last →
      ((cfg.shared.2.countP (Charge.inWindow user first last) : Nat) : Rat) ≤
        st.cfg.msgBurst + st.cfg.msgRate * (last - first) + 1 / 1000000000 := by
  have metered := metered_of_run run
  refine ⟨?_, ?_⟩
  · intro before charge later here
    exact ⟨metered.answered_alone rated room long here, (metered.answered _ _ _ here).2⟩
  · intro user first last order
    have ordered : cfg.shared.2.Pairwise fun charge later => charge.time ≤ later.time := by
      have calls := metered.paced.ordered
      rwa [List.pairwise_map] at calls
    obtain ⟨before, part, later, notes, early, inside, late⟩ :=
      stretch_of_window first last ordered
    have counted := metered.countP_inWindow_le user notes early late
    cases part with
    | nil =>
        have gains : 0 ≤ st.cfg.msgRate * (last - first) :=
          mul_nonneg rated.le (by linarith)
        have nothing : cfg.shared.2.countP (Charge.inWindow user first last) = 0 :=
          Nat.le_zero.mp counted
        rw [nothing, Nat.cast_zero]
        linarith
    | cons charge part =>
        -- a charge at a positive time lies before the end of the window
        have positive : 0 < charge.time := metered.paced.positive charge.call
          (List.mem_map_of_mem (by simp [notes]))
        have start : (ofRate st.cfg.msgRate st.cfg.msgBurst).lastRefill ≤ last :=
          positive.le.trans (inside charge List.mem_cons_self).2
        have granted := granted_stretch user rated room order early inside start
        have oks := length_oks user fun before' charge' later'
            (split : before ++ (charge :: part) ++ later = before' ++ charge' :: later') =>
          metered.answered_alone rated room long (notes.trans split)
        rw [oks] at counted
        exact (Nat.cast_le.mpr counted).trans granted

/-! ## A message within the rate -/

namespace Demo

/-- The default rate of messages. -/
def rated : Startup := { startup with cfg := { connRate := 0 } }

/-- Alice speaks at second 100. -/
def speaksRated : Schedule :=
  joining ++ steps (.client 1) 10 ++
    receives 1 (request "MESSAGE" [("to", .str (bytes "ALL")), ("content", .str (bytes "hi")),
      ("seq", .num 1)]) ++ [(.client 1, { clock := fun _ => 100000 })]

end Demo

theorem passes_le_of_run_once : ∃ cfg,
    (charging Demo.rated).Reaches (paced Demo.rated)
      ((start Demo.rated Demo.file {}).noted []) cfg ∧
    cfg.shared.2.countP (Charge.inWindow (bytes "alice") 99 101) = 1 ∧
    (1 : Rat) ≤ 40 + 20 * (101 - 99) + 1 / 1000000000 := by
  obtain ⟨cfg, run, once⟩ := Program.exists_reaches_of_play (charging Demo.rated)
    (paced Demo.rated) Demo.speaksRated ((start Demo.rated Demo.file {}).noted [])
    (fun cfg => cfg.shared.2.countP (Charge.inWindow (bytes "alice") 99 101) = 1)
    (by decide +kernel)
  have one := of_decide_eq_true once
  have bound := (passes_le_of_run run (by decide) (by decide) (by norm_num [Demo.rated])).2
    (bytes "alice") 99 101 (by norm_num)
  rw [one] at bound
  exact ⟨cfg, run, one, by simpa [Demo.rated] using bound⟩

end OnlineChat
