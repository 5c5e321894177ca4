import OnlineChat.Library.Calls
import OnlineChat.SeqDeduper

/-!
# The window over a sequence of calls

The window is the set of the pairs that were let through since it was emptied last, by
`clear` or because it was full.
-/

namespace OnlineChat.SeqDeduper

open Library

/-! ## Calls -/

inductive Call where
  | checkAndAdd (user : Bytes) (seq : Int)
  | seen (user : Bytes) (seq : Int)
  | clear

/-- What there is to see of a call. -/
inductive Happening where
  /-- `check_and_add` has returned `true`. -/
  | admitted (user : Bytes) (seq : Int)
  | cleared
  /-- `check_and_add` has removed an entry. -/
  | evicted

/-- An entry of the table is gone. -/
def loses (d d' : SeqDeduper) : Bool := d.table.keys.any fun k => !d'.table.contains k

def call (d : SeqDeduper) : Call → List Happening × SeqDeduper
  | .checkAndAdd user seq =>
      let (first, d') := d.checkAndAdd user seq
      ((if d.loses d' then [.evicted] else []) ++ if first then [.admitted user seq] else [], d')
  | .seen _ _ => ([], d)
  | .clear => ([.cleared], d.clear)

/-- The pairs that were let through since the window was emptied last. -/
def live (past : List Happening) : List (Bytes × Int) :=
  past.foldl (fun pairs happening =>
    match happening with
    | .admitted user seq => pairs ++ [(user, seq)]
    | .cleared | .evicted => []) []

/-- What the window is for. -/
structure Window (maxEntries : Nat) (past : List Happening) (d : SeqDeduper) : Prop where
  admits_iff : ∀ user seq, (d.checkAndAdd user seq).1 = true ↔ (user, seq) ∉ live past
  seen_iff : ∀ user seq, d.seen user seq = true ↔ (user, seq) ∈ live past
  /-- Each pair has an entry of its own. -/
  apart : (live past).Nodup ∧ d.table.size = (live past).length
  bounded : d.table.size ≤ maxEntries
  evicts_iff : ∀ k, .evicted ∈ (d.call k).1 ↔
    ∃ user seq, k = .checkAndAdd user seq ∧ (user, seq) ∉ live past ∧ d.table.size = maxEntries

variable {d : SeqDeduper} {pairs : List (Bytes × Int)} {past : List Happening} {user : Bytes}
  {seq : Int} {maxEntries : Nat}

/-! ## One call -/

/-- The table stands for these pairs. -/
structure Holds (d : SeqDeduper) (pairs : List (Bytes × Int)) : Prop where
  seen_iff : ∀ user seq, d.seen user seq = true ↔ (user, seq) ∈ pairs
  nodup : pairs.Nodup
  size_eq : d.table.size = pairs.length
  bounded : d.table.size ≤ d.maxEntries

theorem holds_empty : Holds ⟨maxEntries, ∅⟩ [] := by
  refine ⟨fun user seq => ?_, List.nodup_nil, rfl, Nat.zero_le _⟩
  simp [seen, SortedMap.contains]

/-- The three ways of `check_and_add`. -/
theorem checkAndAdd_cases (d : SeqDeduper) (user : Bytes) (seq : Int) :
    (d.seen user seq = true ∧ d.checkAndAdd user seq = (false, d)) ∨
    (d.seen user seq = false ∧ d.table.size < d.maxEntries ∧
      d.checkAndAdd user seq = (true, { d with table := d.table.insert (key user seq) seq })) ∨
    (d.seen user seq = false ∧ d.maxEntries ≤ d.table.size ∧
      d.checkAndAdd user seq =
        (true, { d with table := (∅ : SortedMap Bytes Int).insert (key user seq) seq })) := by
  unfold checkAndAdd seen
  cases known : d.table.contains (key user seq) with
  | true => simp [known]
  | false =>
      by_cases full : d.maxEntries ≤ d.table.size
      · simp [known, full]
      · simp [known, full, Nat.lt_of_not_le full]

theorem seen_insert {table : SortedMap Bytes Int} (user' : Bytes) (seq' : Int) :
    seen ⟨maxEntries, table.insert (key user seq) seq⟩ user' seq' = true ↔
      (user' = user ∧ seq' = seq) ∨ seen ⟨maxEntries, table⟩ user' seq' = true := by
  have other : key user' seq' = key user seq ↔ user' = user ∧ seq' = seq := key_inj
  simp only [seen, SortedMap.contains, SortedMap.find?_insert, other]
  by_cases same : user' = user ∧ seq' = seq
  · simp [same]
  · simp [same]

/-- A new pair is added to the others. -/
theorem Holds.insert (holds : Holds d pairs) (fresh : (user, seq) ∉ pairs)
    (room : d.table.size < d.maxEntries) :
    Holds { d with table := d.table.insert (key user seq) seq } (pairs ++ [(user, seq)]) := by
  have absent : d.table.find? (key user seq) = none := by
    have unseen : d.seen user seq ≠ true := fun seen => fresh ((holds.seen_iff user seq).mp seen)
    simpa [seen, SortedMap.contains] using unseen
  refine ⟨?_, ?_, ?_, ?_⟩
  · intro user' seq'
    rw [seen_insert, List.mem_append, ← holds.seen_iff, List.mem_singleton, Prod.mk.injEq]
    exact or_comm
  · exact List.nodup_append_comm.mp (List.nodup_cons.mpr ⟨fresh, holds.nodup⟩)
  · simp [SortedMap.size_insert absent, holds.size_eq]
  · simpa [SortedMap.size_insert absent] using room

/-- Nothing is lost unless the table is emptied. -/
theorem loses_insert {k : Bytes} : d.loses { d with table := d.table.insert k seq } = false := by
  unfold loses
  rw [List.any_eq_false]
  intro k' there
  have kept : (d.table.insert k seq).contains k' = true :=
    SortedMap.contains_iff.mpr (SortedMap.mem_keys_insert.mpr (.inr there))
  simp [kept]

theorem loses_self : d.loses d = false := by
  unfold loses
  rw [List.any_eq_false]
  intro k there
  simp [SortedMap.contains_iff.mpr there]

/-- A full table is emptied for a new pair. -/
theorem loses_evict (holds : Holds d pairs) (fresh : (user, seq) ∉ pairs)
    (nonempty : 0 < d.table.size) :
    d.loses { d with table := (∅ : SortedMap Bytes Int).insert (key user seq) seq } = true := by
  have some : d.table.keys ≠ [] := by
    intro none
    simp [SortedMap.keys, List.map_eq_nil_iff] at none
    simp [SortedMap.size, none] at nonempty
  obtain ⟨k, there⟩ := List.exists_mem_of_ne_nil _ some
  refine List.any_eq_true.mpr ⟨k, there, ?_⟩
  have differs : k ≠ key user seq := by
    rintro rfl
    exact fresh ((holds.seen_iff user seq).mp (SortedMap.contains_iff.mpr there))
  simp [SortedMap.contains, SortedMap.find?_insert, differs]

theorem live_append (past more : List Happening) :
    live (past ++ more) = more.foldl (fun pairs happening =>
      match happening with
      | .admitted user seq => pairs ++ [(user, seq)]
      | .cleared | .evicted => []) (live past) := by
  simp [live]

/-- What a call of `check_and_add` does. -/
theorem call_checkAndAdd (holds : Holds d pairs) (positive : 1 ≤ d.maxEntries) (user : Bytes)
    (seq : Int) :
    ((user, seq) ∈ pairs ∧ d.call (.checkAndAdd user seq) = ([], d)) ∨
    ((user, seq) ∉ pairs ∧ d.table.size < d.maxEntries ∧
      d.call (.checkAndAdd user seq) = ([.admitted user seq],
        { d with table := d.table.insert (key user seq) seq })) ∨
    ((user, seq) ∉ pairs ∧ d.table.size = d.maxEntries ∧
      d.call (.checkAndAdd user seq) = ([.evicted, .admitted user seq],
        { d with table := (∅ : SortedMap Bytes Int).insert (key user seq) seq })) := by
  have known_iff := holds.seen_iff user seq
  unfold call
  rcases d.checkAndAdd_cases user seq with
    ⟨seen, step⟩ | ⟨unseen, room, step⟩ | ⟨unseen, full, step⟩
  · refine .inl ⟨known_iff.mp seen, ?_⟩
    simp [step, loses_self]
  · have fresh : (user, seq) ∉ pairs := fun there => by simp [known_iff.mpr there] at unseen
    refine .inr (.inl ⟨fresh, room, ?_⟩)
    simp [step, loses_insert]
  · have fresh : (user, seq) ∉ pairs := fun there => by simp [known_iff.mpr there] at unseen
    refine .inr (.inr ⟨fresh, holds.bounded.antisymm full, ?_⟩)
    simp [step, loses_evict holds fresh (by omega)]

theorem Holds.call (holds : Holds d (live past)) (positive : 1 ≤ d.maxEntries) (k : Call) :
    Holds (d.call k).2 (live (past ++ (d.call k).1)) ∧ (d.call k).2.maxEntries = d.maxEntries := by
  cases k with
  | checkAndAdd user seq =>
      rcases call_checkAndAdd holds positive user seq with
        ⟨-, step⟩ | ⟨fresh, room, step⟩ | ⟨-, full, step⟩
      · simpa [step] using holds
      · simpa [step, live_append] using holds.insert fresh room
      · have emptied : Holds ⟨d.maxEntries, ∅⟩ [] := holds_empty
        simpa [step, live_append] using emptied.insert (List.not_mem_nil) positive
  | seen user seq => simpa [SeqDeduper.call] using holds
  | clear => simpa [SeqDeduper.call, clear, live_append] using holds_empty

/-- Only a new pair that comes to a full table has it emptied. -/
theorem Holds.evicts_iff (holds : Holds d (live past)) (positive : 1 ≤ d.maxEntries) (k : Call) :
    .evicted ∈ (d.call k).1 ↔ ∃ user seq, k = .checkAndAdd user seq ∧
      (user, seq) ∉ live past ∧ d.table.size = d.maxEntries := by
  cases k with
  | checkAndAdd user seq =>
      rcases call_checkAndAdd holds positive user seq with
        ⟨there, step⟩ | ⟨fresh, room, step⟩ | ⟨fresh, full, step⟩
      · simp [step, there]
      · simp [step, room.ne]
      · simpa [step, full] using fresh
  | seen user seq | clear => simp [SeqDeduper.call]

/-! ## Sequences of calls -/

theorem holds_run (positive : 1 ≤ maxEntries) (calls : List Call) :
    Holds (runCalls call { maxEntries } calls).2 (live (runCalls call { maxEntries } calls).1) ∧
      (runCalls call { maxEntries } calls).2.maxEntries = maxEntries := by
  refine runCalls_invariant
    (motive := fun _ past d => Holds d (live past) ∧ d.maxEntries = maxEntries) ?_ ?_ calls
  · exact ⟨holds_empty, rfl⟩
  · rintro _ call past d ⟨holds, rfl⟩
    exact holds.call positive call

/-- After any sequence of calls the window is the set of the pairs that were let through
since it was emptied last, and it is emptied by `clear` or for a new pair when it is full. -/
theorem window_runCalls (positive : 1 ≤ maxEntries) (calls : List Call) :
    Window maxEntries (runCalls call { maxEntries } calls).1
      (runCalls call { maxEntries } calls).2 := by
  obtain ⟨holds, same⟩ := holds_run positive calls
  refine ⟨?_, holds.seen_iff, ⟨holds.nodup, holds.size_eq⟩, holds.bounded.trans_eq same, ?_⟩
  · intro user seq
    rw [checkAndAdd_fst, ← holds.seen_iff]
    simp
  · intro k
    rw [holds.evicts_iff (same.symm ▸ positive), same]

/-- A window for one pair, and two users whose names and numbers read alike. -/
theorem window_runCalls_pair :
    Window 1 [.admitted (bytes "a:1") 2, .evicted, .admitted (bytes "a") 12, .cleared]
      (⟨1, ∅⟩ : SeqDeduper) :=
  window_runCalls (le_refl 1)
    [.checkAndAdd (bytes "a:1") 2, .checkAndAdd (bytes "a:1") 2, .checkAndAdd (bytes "a") 12, .clear]

end OnlineChat.SeqDeduper
