import OnlineChat.Client.Steps
import OnlineChat.Library.SortedMap

/-!
# The file of a queue

The file of a `PendingStore` names its user.  `_load` leaves the file of another user alone;
`_save` replaces it.
-/

namespace OnlineChat.Client

open Library

/-! ## Stores and their file -/

/-- What `_save` writes, and what `json.load` returns. -/
structure StoreData where
  username : Option Bytes := none
  nextSeq : Int := 1
  items : List PendingItem := []

/-- `data.get("username")` is missing or the user. -/
def StoreData.isOwn (data : StoreData) (username : Bytes) : Bool :=
  data.username = none ∨ data.username = some username

/-- A `PendingStore` with its user and its items. -/
@[ext]
structure UserStore where
  username : Bytes
  nextSeq : Int := 1
  items : SortedMap Int PendingItem := ∅
  keyed : ∀ entry ∈ items.entries, entry.2.seq = entry.1

namespace UserStore

variable (store : UserStore) (item : PendingItem) (seq : Int)

def empty (username : Bytes) : UserStore where
  username := username
  keyed := List.forall_mem_nil _

/-- `self.items[item.seq] = item` -/
def put : UserStore :=
  { store with
    items := store.items.insert item.seq item
    keyed := by
      intro entry there
      rcases SortedMap.mem_insertIn there with rfl | old
      · rfl
      · exact store.keyed entry old }

/-- `_load`.  A file that cannot be read is none. -/
def load (username : Bytes) : Option StoreData → UserStore
  | none => empty username
  | some data =>
      if data.isOwn username then
        data.items.foldl put { empty username with nextSeq := data.nextSeq }
      else empty username

/-- What `_save` writes: the items by their numbers. -/
def data : StoreData where
  username := some store.username
  nextSeq := store.nextSeq
  items := store.items.entries.map Prod.snd

def allocSeq (now : Rat) : UserStore :=
  let floor := pyTrunc (now * 1000)
  let seq := if store.nextSeq ≤ floor then floor + 1 else store.nextSeq
  { store with nextSeq := seq + 1 }

def remove : UserStore :=
  { store with
    items := store.items.erase seq
    keyed := fun entry there => store.keyed entry (List.mem_of_mem_filter there) }

/-- A caller changes an item: the store sees it when it holds the item. -/
def change : UserStore := if store.items.contains item.seq then store.put item else store

end UserStore

/-- What is done with a store. -/
inductive Action where
  | load (username : Bytes)
  | allocSeq (now : Rat)
  | add (item : PendingItem)
  | update (item : PendingItem)
  | remove (seq : Int)
  | change (item : PendingItem)

namespace Action

/-- The action ends with `_save`. -/
def saves : Action → Bool
  | load _ | change _ => false
  | _ => true

def apply (file : Option StoreData) (store : UserStore) : Action → UserStore
  | load username => .load username file
  | allocSeq now => store.allocSeq now
  | add item | update item => store.put item
  | remove seq => store.remove seq
  | change item => store.change item

end Action

/-- An action on the store with a number.  The file is replaced unless `_save` runs into an
`OSError`. -/
structure StoreOp where
  number : Nat
  action : Action
  written : Bool := true

/-- The operation replaces the file. -/
def StoreOp.saves (op : StoreOp) : Bool := op.action.saves && op.written

/-- A path, and the stores that work on it. -/
structure Disk where
  file : Option StoreData
  stores : Nat → UserStore

namespace Disk

variable (disk : Disk)

def exec (op : StoreOp) : Disk :=
  let store := op.action.apply disk.file (disk.stores op.number)
  { file := if op.saves then some store.data else disk.file
    stores := Function.update disk.stores op.number store }

def run (ops : List StoreOp) : Disk := ops.foldl exec disk

end Disk

/-! ## A file and its user -/

section Own

variable {store : UserStore} {data : StoreData} {user : Bytes}

@[simp]
theorem UserStore.isOwn_data : store.data.isOwn user = true ↔ store.username = user := by
  simp [StoreData.isOwn, UserStore.data]

theorem UserStore.load_of_foreign (foreign : data.isOwn user = false) :
    load user (some data) = empty user := by
  simp [load, foreign]

theorem UserStore.entries_foldl_put (entries : List (Int × PendingItem)) (store : UserStore)
    (keyed : ∀ entry ∈ entries, entry.2.seq = entry.1)
    (sorted : (store.items.entries ++ entries).Pairwise SortedMap.Below) :
    ((entries.map Prod.snd).foldl put store).items.entries = store.items.entries ++ entries := by
  induction entries generalizing store with
  | nil => simp
  | cons entry rest inductionHypothesis =>
      obtain ⟨seq, item⟩ := entry
      obtain ⟨same, later⟩ := List.forall_mem_cons.mp keyed
      change item.seq = seq at same
      subst same
      have appended : (store.put item).items.entries =
          store.items.entries ++ [(item.seq, item)] := by
        apply SortedMap.insertIn_of_above
        intro entry there
        exact (List.pairwise_append.mp sorted).2.2 entry there _ (List.mem_cons_self ..)
      have split : store.items.entries ++ (item.seq, item) :: rest =
          (store.put item).items.entries ++ rest := by
        simp [appended]
      rw [List.map_cons, List.foldl_cons, inductionHypothesis _ later (split ▸ sorted), split]

theorem UserStore.foldl_put (items : List PendingItem) (store : UserStore) :
    (items.foldl put store).username = store.username ∧
      (items.foldl put store).nextSeq = store.nextSeq := by
  induction items generalizing store with
  | nil => exact ⟨rfl, rfl⟩
  | cons item rest inductionHypothesis => exact inductionHypothesis (store.put item)

theorem UserStore.isSome_find?_put {item : PendingItem} {seq : Int} :
    ((store.put item).items.find? seq).isSome ↔
      item.seq = seq ∨ (store.items.find? seq).isSome := by
  rw [SortedMap.find?_isSome_iff, SortedMap.find?_isSome_iff]
  exact SortedMap.mem_keys_insert.trans (or_congr_left eq_comm)

theorem UserStore.find?_foldl_put (items : List PendingItem) (store : UserStore) (seq : Int) :
    ((items.foldl put store).items.find? seq).isSome ↔
      (store.items.find? seq).isSome ∨ ∃ item ∈ items, item.seq = seq := by
  induction items generalizing store with
  | nil => simp
  | cons item rest inductionHypothesis =>
      rw [List.foldl_cons, inductionHypothesis, isSome_find?_put]
      simp only [List.mem_cons, exists_eq_or_imp]
      rw [or_comm (a := item.seq = seq), or_assoc]

/-- What is saved is loaded again. -/
theorem UserStore.load_data (store : UserStore) : load store.username (some store.data) = store := by
  have own : store.data.isOwn store.username = true := isOwn_data.mpr rfl
  simp only [load, own, if_true]
  apply UserStore.ext
  · rw [(foldl_put _ _).1]
    rfl
  · rw [(foldl_put _ _).2]
    rfl
  · apply SortedMap.ext
    exact entries_foldl_put store.items.entries _ store.keyed store.items.sorted

end Own

/-! ## What other users do to a file -/

/-- The store has all that another one had. -/
structure UserStore.Has (store past : UserStore) : Prop where
  items : ∀ seq item, past.items.find? seq = some item → store.items.find? seq = some item
  nextSeq : past.nextSeq ≤ store.nextSeq

/-- No store belongs to the user. -/
def Disk.Others (disk : Disk) (user : Bytes) : Prop := ∀ n, (disk.stores n).username ≠ user

/-- The operation opens no store of the user. -/
def StoreOp.Other (user : Bytes) (op : StoreOp) : Prop := op.action ≠ .load user

section Others

variable {disk : Disk} {op : StoreOp} {ops : List StoreOp} {user : Bytes} {data : StoreData}

theorem Action.username_apply (action : Action) (file : Option StoreData) (store : UserStore) :
    (action.apply file store).username = store.username ∨
      action = .load (action.apply file store).username := by
  cases action with
  | load username =>
      refine .inr ?_
      cases file with
      | none => rfl
      | some data =>
          simp only [apply, UserStore.load]
          split
          · rw [(UserStore.foldl_put _ _).1]
            rfl
          · rfl
  | change item =>
      refine .inl ?_
      simp only [apply, UserStore.change]
      split <;> rfl
  | _ => exact .inl rfl

theorem Disk.Others.exec (others : disk.Others user) (other : op.Other user) :
    (disk.exec op).Others user := by
  intro n
  by_cases own : n = op.number
  · subst own
    simp only [Disk.exec, Function.update_self]
    rcases op.action.username_apply disk.file (disk.stores op.number) with same | loads
    · rw [same]
      exact others _
    · intro same
      exact other (same ▸ loads)
  · simp only [Disk.exec, Function.update_of_ne own]
    exact others n

theorem Disk.Others.run (others : disk.Others user) (other : ∀ op ∈ ops, op.Other user) :
    (disk.run ops).Others user := by
  induction ops generalizing disk with
  | nil => exact others
  | cons op rest inductionHypothesis =>
      obtain ⟨first, later⟩ := List.forall_mem_cons.mp other
      exact inductionHypothesis (others.exec first) later

theorem Disk.file_run_of_unsaved (unsaved : ∀ op ∈ ops, op.saves = false) :
    (disk.run ops).file = disk.file := by
  induction ops generalizing disk with
  | nil => rfl
  | cons op rest inductionHypothesis =>
      obtain ⟨first, later⟩ := List.forall_mem_cons.mp unsaved
      have kept : (disk.exec op).file = disk.file := by simp [Disk.exec, first]
      exact (inductionHypothesis later).trans kept

/-- The last one that replaces the file leaves its own. -/
theorem Disk.file_run_of_saved (others : disk.Others user) (other : ∀ op ∈ ops, op.Other user)
    (saved : ∃ op ∈ ops, op.saves = true) :
    ∃ data, (disk.run ops).file = some data ∧ data.isOwn user = false := by
  induction ops using List.reverseRecOn with
  | nil => simp at saved
  | append_singleton rest op inductionHypothesis =>
      obtain ⟨earlier, last⟩ := List.forall_mem_append.mp other
      have reached := others.run earlier
      have whole : disk.run (rest ++ [op]) = (disk.run rest).exec op := by simp [Disk.run]
      rw [whole]
      cases saves : op.saves with
      | true =>
          have foreign := reached.exec (List.forall_mem_singleton.mp last) op.number
          refine ⟨((disk.run rest).exec op |>.stores op.number).data, ?_, ?_⟩
          · simp [Disk.exec, saves]
          · simpa [← Bool.not_eq_true] using foreign
      | false =>
          have kept : ((disk.run rest).exec op).file = (disk.run rest).file := by
            simp [Disk.exec, saves]
          rw [kept]
          apply inductionHypothesis earlier
          obtain ⟨op', there, saves'⟩ := saved
          rcases List.mem_append.mp there with before | same
          · exact ⟨op', before, saves'⟩
          · rw [List.mem_singleton.mp same, saves] at saves'
            cases saves'

/-- Nothing is lost with the file exactly when there is nothing in it. -/
theorem UserStore.has_empty_iff (own : data.isOwn user = true) :
    (empty user).Has (load user (some data)) ↔ data.items = [] ∧ data.nextSeq ≤ 1 := by
  have loaded : load user (some data) =
      data.items.foldl put { empty user with nextSeq := data.nextSeq } := by
    simp [load, own]
  rw [loaded]
  constructor
  · rintro ⟨items, nextSeq⟩
    rw [(foldl_put _ _).2] at nextSeq
    refine ⟨List.eq_nil_iff_forall_not_mem.mpr ?_, nextSeq⟩
    intro item there
    obtain ⟨held, found⟩ := Option.isSome_iff_exists.mp
      ((find?_foldl_put data.items { empty user with nextSeq := data.nextSeq } item.seq).mpr
        (.inr ⟨item, there, rfl⟩))
    cases items _ held found
  · rintro ⟨none, bounded⟩
    rw [none]
    exact ⟨fun _ _ found => found, bounded⟩

/-- A file that names its user keeps the items and the counter exactly when no operation of
another user replaces it, or when there is nothing in it. -/
theorem has_iff (others : disk.Others user) (other : ∀ op ∈ ops, op.Other user)
    (file : disk.file = some data) (own : data.isOwn user = true) :
    (UserStore.load user (disk.run ops).file).Has (.load user disk.file) ↔
      (∀ op ∈ ops, op.saves = false) ∨ (data.items = [] ∧ data.nextSeq ≤ 1) := by
  by_cases unsaved : ∀ op ∈ ops, op.saves = false
  · rw [Disk.file_run_of_unsaved unsaved]
    exact iff_of_true ⟨fun _ _ found => found, le_refl _⟩ (.inl unsaved)
  · have saved : ∃ op ∈ ops, op.saves = true := by simpa using unsaved
    obtain ⟨theirs, replaced, foreign⟩ := Disk.file_run_of_saved others other saved
    rw [replaced, file, UserStore.load_of_foreign foreign, UserStore.has_empty_iff own,
      or_iff_right unsaved]

end Others

/-! ## The operations of a session -/

/-- The session knows the counter and the numbers of the items. -/
structure Indexes (store : UserStore) (index : PendingStore) : Prop where
  nextSeq : store.nextSeq = index.nextSeq
  items : ∀ seq, (store.items.find? seq).isSome ↔ seq ∈ index.items

/-- What a command does with the store. -/
def Cmd.action (e : Ext) (s : ChatSession) : Cmd → Option Action
  | .send _ _ | .request _ => some (.allocSeq (e.clock 0))
  | .add seq => some (.add { s.objects seq with seq })
  | .update seq => some (.update { s.objects seq with seq })
  | .remove seq => some (.remove seq)
  | _ => none

section Session

variable {st : Settings} {e : Ext} {s : ChatSession} {k : Cmd} {store : UserStore}
  {file : PendingFile} {tokens : TokenStore} {c : Config Thread Cmd ChatSession}
  {When : Config Thread Cmd ChatSession → Thread → Ext → Bool}

theorem indexes_run (same : Indexes store s.store) :
    Indexes ((k.action e s).elim store (Action.apply none store)) (run st e s k).1.store := by
  obtain ⟨nextSeq, items⟩ := same
  refine ⟨?_, ?_⟩
  · cases k with
    | send _ _ | request _ =>
        simp [Cmd.action, Action.apply, UserStore.allocSeq, run, ChatSession.send,
          ChatSession.request, PendingStore.allocSeq, nextSeq]
    | add _ | update _ | remove _ | dropSocket | install | authFailed | connLost => exact nextSeq
    | _ => exact nextSeq.trans (congrArg PendingStore.nextSeq (grown_run _ rfl).store.symm)
  · intro seq
    rw [mem_items_run, ← items seq]
    cases k with
    | add _ | update _ => simp [Cmd.action, Action.apply, UserStore.isSome_find?_put]
    | remove seq' =>
        by_cases removed : seq = seq'
        · simp [Cmd.action, Action.apply, UserStore.remove, removed]
        · simp [Cmd.action, Action.apply, UserStore.remove, SortedMap.find?_erase, removed,
            Ne.symm removed]
    | _ => simp [Cmd.action, Action.apply, UserStore.allocSeq]

/-- A session does with its store what its commands do, in some order. -/
theorem exists_actions_of_reaches (run : (client st).Reaches When (start file tokens) c)
    (opened : Indexes store (ChatSession.load file tokens).store) :
    ∃ actions : List Action, (∀ action ∈ actions, ∀ username, action ≠ .load username) ∧
      Indexes (actions.foldl (Action.apply none) store) c.shared.store := by
  refine run.invariant (motive := fun c => ∃ actions : List Action,
    (∀ action ∈ actions, ∀ username, action ≠ .load username) ∧
      Indexes (actions.foldl (Action.apply none) store) c.shared.store) ?_ ?_
  · exact ⟨[], List.forall_mem_nil _, opened⟩
  · intro c t e k rest s new _ done _ _ ran
    obtain ⟨actions, unloaded, same⟩ := done
    obtain ⟨rfl, rfl⟩ := run_of_exec ran
    refine ⟨actions ++ (k.action e c.shared).toList, ?_, ?_⟩
    · refine List.forall_mem_append.mpr ⟨unloaded, ?_⟩
      intro action there username
      rintro rfl
      cases k <;> simp [Cmd.action] at there
    · have step := @indexes_run st e _ k _ same
      rw [List.foldl_append]
      cases taken : k.action e c.shared with
      | none => simpa [taken] using step
      | some action => simpa [taken] using step

theorem Disk.stores_run {disk : Disk} {ops : List StoreOp} {n : Nat}
    (own : ∀ op ∈ ops, op.number = n)
    (unloaded : ∀ op ∈ ops, ∀ username, op.action ≠ .load username) :
    (disk.run ops).stores n = (ops.map StoreOp.action).foldl (Action.apply none) (disk.stores n) := by
  induction ops generalizing disk with
  | nil => rfl
  | cons op rest inductionHypothesis =>
      obtain ⟨rfl, ownLater⟩ := List.forall_mem_cons.mp own
      obtain ⟨first, later⟩ := List.forall_mem_cons.mp unloaded
      have same : (disk.exec op).stores op.number =
          op.action.apply none (disk.stores op.number) := by
        simp only [Disk.exec, Function.update_self]
        cases action : op.action with
        | load username => exact absurd action (first username)
        | _ => rfl
      rw [List.map_cons, List.foldl_cons, ← same]
      exact inductionHypothesis ownLater later

/-- A session on the path opens its store and goes on with operations on that store, however
the writes of the file end. -/
theorem exists_ops_of_reaches (disk : Disk) (n : Nat)
    (run : (client st).Reaches When (start file tokens) c)
    (opened : Indexes (.load st.username disk.file) (ChatSession.load file tokens).store) :
    ∃ actions : List Action, (∀ action ∈ actions, ∀ username, action ≠ .load username) ∧
      ∀ ops : List StoreOp, (∀ op ∈ ops, op.number = n) →
        ops.map StoreOp.action = .load st.username :: actions →
        Indexes ((disk.run ops).stores n) c.shared.store := by
  obtain ⟨actions, unloaded, same⟩ := exists_actions_of_reaches run opened
  refine ⟨actions, unloaded, ?_⟩
  intro ops own names
  cases ops with
  | nil => cases names
  | cons op rest =>
      obtain ⟨loads, later⟩ := List.cons.inj names
      obtain ⟨rfl, ownLater⟩ := List.forall_mem_cons.mp own
      have loaded : (disk.exec op).stores op.number = .load st.username disk.file := by
        simp only [Disk.exec, Function.update_self, loads]
        rfl
      change Indexes (((disk.exec op).run rest).stores op.number) _
      rw [Disk.stores_run ownLater, loaded, later]
      · exact same
      · intro op' there
        exact unloaded _ (later ▸ List.mem_map_of_mem there)

end Session

/-! ## Two users and one path -/

namespace Demo

/-- What alice has not sent yet. -/
def unsent : StoreData where
  username := some (bytes "alice")
  nextSeq := 6
  items := [{ seq := 5, receiver := bytes "carol", content := bytes "hi", ts := 0 }]

/-- The path is also the one of bob. -/
def sharedPath : Disk where
  file := some unsent
  stores := fun _ => .empty (bytes "bob")

def opens : StoreOp := ⟨0, .load (bytes "bob"), true⟩

theorem others_sharedPath : sharedPath.Others (bytes "alice") := by
  intro n same
  cases same

theorem other_opens : opens.Other (bytes "alice") := by
  intro same
  cases same

/-- As long as bob has not been given a number, nothing is lost. -/
theorem has_iff_opens :
    (UserStore.load (bytes "alice") (sharedPath.run [opens]).file).Has
      (.load (bytes "alice") sharedPath.file) :=
  (has_iff others_sharedPath (List.forall_mem_singleton.mpr other_opens) rfl rfl).mpr
    (.inl (List.forall_mem_singleton.mpr rfl))

/-- The first frame of the session of bob takes a number, and the item of alice is gone. -/
theorem queue_replaced :
    ¬ ∀ (user : Bytes) (disk : Disk) (ops : List StoreOp) (data : StoreData),
      disk.Others user → (∀ op ∈ ops, op.Other user) → disk.file = some data →
      data.isOwn user = true →
      (UserStore.load user (disk.run ops).file).Has (.load user disk.file) := by
  intro law
  have kept := law (bytes "alice") sharedPath [opens, ⟨0, .allocSeq 0, true⟩] unsent
    others_sharedPath ?_ rfl rfl
  · cases kept.items 5 _ rfl
  · refine List.forall_mem_cons.mpr ⟨other_opens, List.forall_mem_singleton.mpr ?_⟩
    intro same
    cases same

end Demo

end OnlineChat.Client
