import OnlineChat.Server.Sessions

/-!
# Handlers that run on their own

The handler of a frame runs above the loop that took the frame.  Where no other thread
moves meanwhile, what a handler has looked up stays true until it ends.
-/

namespace OnlineChat

open Library MiniJson ChatServer

variable {st : Startup} {s : ChatServer} {c : ConnId} {e : Ext} {w w' : World} {t t' : Thread}
  {k k' : Cmd} {rest new : List Cmd} {File : Type} {file : Database File} {b : BootExt}
  {When : Config Thread Cmd World → Thread → Ext → Bool} {cfg : Config Thread Cmd World}

/-! ## Atomic handlers -/

def Cmd.isFrames : Cmd → Bool
  | .own .frames => true
  | _ => false

/-- A frame is being handled: the loop over the frames waits below. -/
def handling (stack : List Cmd) : Bool := stack.tail.any Cmd.isFrames

/-- A thread moves only while no other connection handles a frame. -/
def atomic (cfg : Config Thread Cmd World) (t : Thread) (_ : Ext) : Bool :=
  allOthers cfg t fun v => !handling (cfg.stack (.client v))

/-- The layers of what belongs to the handler of a frame only. -/
def Layer.inner : Layer → Bool
  | handler | chain => true
  | loop | service => false

/-- What belongs to a handler is on the stack of a client thread that handles a frame. -/
def Framed (t : Thread) (stack : List Cmd) : Prop :=
  ∀ k ∈ stack, k.layer.inner = true → t.isClient = true ∧ handling stack = true

theorem handling_cons : handling (k :: rest) = rest.any Cmd.isFrames := rfl

/-- The loop over the frames stays below the handler that it starts. -/
theorem handling_frames {n : Cmd} (called : n ∈ (frames s c e).next)
    (inner : n.layer.inner = true) : handling (frames s c e).next = true := by
  unfold frames at called ⊢
  dsimp only at called ⊢
  split at called
  next body reader taken =>
    rcases @starts_handleBody s c e _ _ taken with none | ⟨n', one, -, quits, -⟩
    · rw [none] at called
      dsimp only [List.nil_append] at called
      split at called <;> simp at called <;> rcases called with rfl | rfl <;> cases inner
    · rw [one] at called ⊢
      split at called
      next ends =>
        -- LOGOUT leaves the loop, and is no handler of that kind
        simp only [List.cons_append, List.nil_append, List.mem_cons, List.not_mem_nil,
          or_false] at called
        rcases called with rfl | rfl | rfl
        · rw [quits ends] at inner
          cases inner
        · cases inner
        · cases inner
      next stays => simp [stays, handling, Cmd.isFrames]
  next => split at called <;> simp at called <;> rcases called with rfl | rfl <;> cases inner

/-- The other loops start no handler. -/
theorem not_inner_of_loop (ran : w.run st c e k = some (w', new)) (loop : k.layer = .loop)
    (other : k ≠ .own .frames) : ∀ n ∈ new, n.layer.inner = false := by
  cases k with
  | own k =>
      obtain ⟨-, rfl⟩ := Prod.mk.inj (Option.some.inj ran)
      cases k with
      | frames => exact absurd rfl other
      | recvLoop =>
          simp only [runOwn, recvLoop]
          repeat' split
          all_goals simp [Cmd.layer, Layer.inner]
      | _ => cases loop
  | limit k =>
      obtain ⟨-, rfl⟩ := Prod.mk.inj (Option.some.inj ran)
      cases k with
      | acceptLoop =>
          simp only [runLimit, acceptLoop]
          repeat' split
          all_goals simp [Cmd.layer, Layer.inner]
      | _ => cases loop
  | sess k =>
      obtain ⟨-, rfl⟩ := Prod.mk.inj (Option.some.inj ran)
      cases k with
      | acceptInstall ip port => simp [runSess, acceptInstall, Cmd.layer, Layer.inner]
      | monitorLoop | monitorDrain =>
          intro n called
          rcases List.mem_append.mp called with service | again
          · obtain ⟨v, -, rfl⟩ := List.mem_map.mp service
            rfl
          · obtain rfl := List.mem_singleton.mp again
            rfl
      | _ => cases loop
  | io k =>
      obtain ⟨r, step, result⟩ := Option.map_eq_some_iff.mp ran
      obtain ⟨-, rfl⟩ := Prod.mk.inj result
      cases k with
      | handleClient =>
          obtain ⟨-, -, tls, rfl | rfl⟩ := starts_handleClient step
          · simp [Cmd.layer, Layer.inner]
          · simp [Cmd.layer, Layer.inner]
      | _ => cases loop
  | token k | router k | db k => cases k <;> cases loop
  | checkAndAdd m => cases loop

theorem Layer.not_inner_of_above (l : Layer) (above : l.above .handler = true) :
    l.inner = false := by
  cases l
  · cases above
  · cases above
  · cases above
  · rfl

/-- A handler is called by its handler, or by the loop over the frames, which stays below. -/
theorem inner_run (ran : w.run st c e k = some (w', new)) {n : Cmd} (called : n ∈ new)
    (inner : n.layer.inner = true) :
    k.layer.inner = true ∨ (k = .own .frames ∧ handling new = true) := by
  cases layer : k.layer with
  | handler | chain => exact .inl rfl
  | service =>
      -- whatever may wait below a service may wait below what it calls
      have below : Above k (.router .doRooms) := by
        unfold Above
        rw [layer]
        rfl
      have above : Above n (.router .doRooms) := (ordered_run ran).pairwise.2 n called _ below
      cases inner.symm.trans (n.layer.not_inner_of_above above)
  | loop =>
      right
      by_cases loops : k = .own .frames
      · subst loops
        obtain ⟨-, rfl⟩ := Prod.mk.inj (Option.some.inj ran)
        exact ⟨rfl, handling_frames called inner⟩
      · cases inner.symm.trans (not_inner_of_loop ran layer loops n called)

theorem handling_append (handles : handling new = true) : handling (new ++ rest) = true := by
  cases new with
  | nil => cases handles
  | cons n new =>
      rw [List.cons_append, handling_cons, List.any_append]
      rw [handling_cons] at handles
      rw [handles, Bool.true_or]

/-- As long as a handler is left, the loop over the frames stays below. -/
theorem handling_stays (ordered : rest.Pairwise Above) (handles : handling (k :: rest) = true)
    {n : Cmd} (left : n ∈ new ++ rest) (inner : n.layer.inner = true) :
    handling (new ++ rest) = true := by
  rw [handling_cons] at handles
  cases new with
  | cons n new => rw [List.cons_append, handling_cons, List.any_append, handles, Bool.or_true]
  | nil =>
      cases rest with
      | nil => cases handles
      | cons head rest =>
          rw [List.any_cons] at handles
          rw [List.nil_append, handling_cons]
          cases loop : head.isFrames with
          | false => simpa [loop] using handles
          | true =>
              -- nothing waits below the loop
              obtain rfl : head = .own .frames := by
                unfold Cmd.isFrames at loop
                split at loop
                · rfl
                · cases loop
              rcases List.mem_cons.mp left with rfl | below
              · cases inner
              · cases (List.pairwise_cons.mp ordered).1 n below

/-- A step keeps the threads framed. -/
theorem Framed.step (framed : Framed t (k :: rest)) (ordered : rest.Pairwise Above)
    (here : k.runsOn t = true) (ran : w.run st t.conn e k = some (w', new)) :
    Framed t (new ++ rest) := by
  intro n left inner
  rcases List.mem_append.mp left with called | below
  · rcases inner_run ran called inner with inner' | ⟨rfl, handles⟩
    · obtain ⟨client, handles⟩ := framed k List.mem_cons_self inner'
      exact ⟨client, handling_stays ordered handles left inner⟩
    · exact ⟨here, handling_append handles⟩
  · obtain ⟨client, handles⟩ := framed n (List.mem_cons_of_mem _ below) inner
    exact ⟨client, handling_stays ordered handles left inner⟩

theorem framed_of_run (run : (server st).Reaches When (start st file b) cfg) :
    ∀ t, Framed t (cfg.stack t) := by
  apply run.invariant
  · intro t k waiting inner
    cases t <;> obtain rfl := List.mem_singleton.mp waiting <;> cases inner
  · intro cfg t e k rest w new reached framed _ stack ran t'
    obtain ⟨here, ran⟩ := exec_eq_some_iff.mp ran
    dsimp only
    by_cases own : t' = t
    · subst own
      rw [Function.update_self]
      have ordered := (sound_of_run reached).ordered t'
      rw [stack] at ordered
      exact (stack ▸ framed t' : Framed t' (k :: rest)).step (List.pairwise_cons.mp ordered).2
        here ran
    · rw [Function.update_of_ne own]
      exact framed t'

/-- While a handler has commands left, no other thread moves. -/
theorem eq_of_inner (run : (server st).Reaches When (start st file b) cfg)
    (allowed : atomic cfg t e = true) (waiting : k ∈ cfg.stack t') (inner : k.layer.inner = true) :
    t' = t := by
  obtain ⟨client, handles⟩ := framed_of_run run t' k waiting inner
  by_contra other
  cases t' with
  | accept | monitor => cases client
  | client v =>
      rcases started_of_run run v k waiting with rfl | ⟨positive, accepted⟩
      · cases inner
      · have apart : v ≠ t.conn := by
          intro same
          cases t with
          | accept | monitor => exact positive same
          | client c => exact other (congrArg Thread.client same)
        have quiet := of_allOthers allowed accepted apart
        rw [handles] at quiet
        cases quiet

end OnlineChat
