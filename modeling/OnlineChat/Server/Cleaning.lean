import OnlineChat.Scan
import OnlineChat.Server.Copies

/-!
# No listed word in what is stored and relayed

A server that masks lets a text through only when no listed word occurs in it.  What it
stores and relays has a listed word only where a text of the opened file has one.
-/

namespace OnlineChat

open Library MiniJson Database ChatServer

variable {st : Startup} {s : ChatServer} {c : ConnId} {e : Ext} {w w' : World} {t : Thread}
  {k n : Cmd} {new : List Cmd} {File : Type} {file : Database File} {b : BootExt} {m : ChatMsg}
  {words : List Bytes} {notes : List Copy} {cfg : Config Thread Cmd (World × List Copy)}

/-! ## The law -/

/-- The contents of all rows on the disk. -/
def Database.contents {Call : Type} (db : Database Call) : List Bytes :=
  db.stored.rows.map (fun row => row.2.content) ++ db.offline.rows.map fun row => row.2.content

/-- No listed word occurs in the text. -/
def Clean (words : List Bytes) (text : Bytes) : Prop :=
  (WordFilter.ofWords words).contains text = none

/-- No listed word occurs in the text, or it comes from the file. -/
def Cleaned (words : List Bytes) (file : Database File) (text : Bytes) : Prop :=
  Clean words text ∨ text ∈ file.contents

/-- Messages and their relays are clean.  What is read from the tables may come from the
file. -/
def Copy.Cleaned (words : List Bytes) (file : Database File) : Copy → Prop
  | .stored _ m | .parked _ m => Clean words m.content
  | .relayed _ frame => Clean words (frame.getStr (bytes "content"))
  | .shown _ item => OnlineChat.Cleaned words file (item.getStr (bytes "content"))
  | .pushed _ frame => OnlineChat.Cleaned words file (frame.getStr (bytes "content"))

/-- What is in the tables, and all that was handed out. -/
structure Masked (words : List Bytes) (file : Database File) (x : World × List Copy) : Prop where
  messages : ∀ row, row ∈ x.1.server.db.messages.rows ∨ row ∈ x.1.server.db.saved.rows →
    Cleaned words file row.2.content
  offline : ∀ row ∈ x.1.server.db.offline.rows, Cleaned words file row.2.content
  copies : ∀ note ∈ x.2, note.Cleaned words file

/-! ## Rows -/

theorem clean_cStr {text : Bytes} (clean : Clean words text) : Clean words (cStr text) :=
  WordFilter.contains_prefix (List.takeWhile_prefix _) clean

theorem RowFrom.cleaned {row : Int × Message Empty} (rowFrom : RowFrom file notes row)
    (clean : ∀ note ∈ notes, note.Cleaned words file) : Cleaned words file row.2.content := by
  unfold RowFrom at rowFrom
  cases known : latest (Copy.storedUnder row.1) notes with
  | none =>
      rw [known] at rowFrom
      obtain ⟨x, there, same⟩ := rowFrom
      right
      rw [← same]
      exact List.mem_append_left _ (List.mem_map.mpr ⟨_, there, rfl⟩)
  | some m =>
      rw [known] at rowFrom
      obtain ⟨note, there, reads⟩ := mem_of_latest known
      left
      rw [rowFrom.content]
      apply clean_cStr
      cases note with
      | stored id m' =>
          obtain ⟨-, same⟩ := Option.ite_none_right_eq_some.mp reads
          obtain rfl := Option.some.inj same
          exact clean _ there
      | _ => cases reads

theorem OffRowFrom.cleaned {receiver : Bytes} {row : OffRow}
    (rowFrom : OffRowFrom file notes receiver row)
    (clean : ∀ note ∈ notes, note.Cleaned words file) : Cleaned words file row.content := by
  unfold OffRowFrom at rowFrom
  cases known : latest (Copy.parkedUnder row.id) notes with
  | none =>
      rw [known] at rowFrom
      obtain ⟨x, there, -, same⟩ := rowFrom
      right
      rw [← same]
      exact List.mem_append_right _ (List.mem_map.mpr ⟨_, there, rfl⟩)
  | some m =>
      rw [known] at rowFrom
      obtain ⟨note, there, reads⟩ := mem_of_latest known
      left
      rw [rowFrom.content]
      apply clean_cStr
      cases note with
      | parked id m' =>
          obtain ⟨-, same⟩ := Option.ite_none_right_eq_some.mp reads
          obtain rfl := Option.some.inj same
          exact clean _ there
      | _ => cases reads

/-! ## Messages on their way -/

/-- A message that `doMessage` lets through is clean. -/
theorem clean_doMessage {obj : Object} (listed : st.words = .ofWords words)
    (plain : ∀ word ∈ words, 42 ∉ word) (masks : st.cfg.filterReject = false)
    (called : n ∈ (doMessage st s c e obj).next) (about : n.about = some m) :
    Clean words m.content := by
  unfold doMessage at called
  rw [listed, masks] at called
  extract_lets sender seq ts content proceed at called
  have proceeds {text : Bytes} (clean : Clean words text) (called : n ∈ proceed text) :
      Clean words m.content := by
    obtain rfl := List.mem_singleton.mp called
    obtain rfl := Option.some.inj about
    exact clean
  split at called
  · obtain rfl := List.mem_singleton.mp called
    cases about
  · generalize (if 0 < st.cfg.msgRate then s.msgLimit.allow sender (e.nowSec 1)
      else (true, s.msgLimit)) = limited at called
    dsimp only at called
    split at called
    · obtain rfl := List.mem_singleton.mp called
      cases about
    · split at called
      next empty => exact proceeds (WordFilter.contains_of_isEmpty empty _) called
      next =>
        split at called
        next silent => exact proceeds silent called
        next => exact proceeds (WordFilter.contains_filter plain _) called

/-- The message of a command is clean. -/
def Passes (words : List Bytes) (k : Cmd) : Prop := ∀ m, k.about = some m → Clean words m.content

theorem passes_own (listed : st.words = .ofWords words) (plain : ∀ word ∈ words, 42 ∉ word)
    (masks : st.cfg.filterReject = false) (passes : Passes words k)
    (ran : w.run st c e k = some (w', new)) : ∀ n ∈ new, Passes words n := by
  intro n called m about
  rcases about_called (calledBy_run ran n called) about with ⟨obj, rfl, -⟩ | before
  · obtain ⟨-, rfl⟩ := Prod.mk.inj (Option.some.inj ran)
    exact clean_doMessage listed plain masks called about
  · exact passes m before

/-! ## What is handed out -/

theorem cleaned_copies {x : World × List Copy} (archived : Archived file x.1.server.db x.2)
    (copying : Copying file k x) (passes : Passes words k)
    (clean : ∀ note ∈ x.2, note.Cleaned words file) :
    ∀ note ∈ copies st x.1.server c e k, note.Cleaned words file := by
  intro note there
  unfold copies at there
  split at there
  next k =>
    rcases List.mem_append.mp there with written | shown
    · obtain ⟨passage, deposited, copy⟩ := List.mem_filterMap.mp written
      unfold deposits at deposited
      split at deposited
      next m r about _ =>
        rcases List.mem_append.mp deposited with stored | parked
        · obtain ⟨row, -, rfl⟩ := List.mem_map.mp stored
          obtain rfl := Option.some.inj copy
          exact passes m about
        · obtain ⟨row, -, rfl⟩ := List.mem_map.mp parked
          obtain rfl := Option.some.inj copy
          exact passes m about
      next => cases deposited
    · obtain ⟨row, read, rfl⟩ := List.mem_map.mp shown
      obtain ⟨filled, -⟩ := mem_pageRows st read
      exact (archived.messages row (.inl filled)).cleaned clean
  next m v =>
    obtain rfl := List.mem_singleton.mp there
    exact passes m rfl
  next m room v targets =>
    obtain rfl := List.mem_singleton.mp there
    exact passes m rfl
  next name row rows =>
    obtain rfl := List.mem_singleton.mp there
    obtain ⟨-, known⟩ := copying.pushes name (row :: rows) rfl row List.mem_cons_self
    exact known.cleaned clean
  next => cases there

/-! ## Runs -/

theorem cleaned_of_run (listed : st.words = .ofWords words) (plain : ∀ word ∈ words, 42 ∉ word)
    (masks : st.cfg.filterReject = false)
    (run : (copied st).Reaches Program.always ((start st file b).noted []) cfg) :
    Outlined Above (fun x => ∀ note ∈ x.2, note.Cleaned words file)
      (fun _ k _ => Passes words k) cfg := by
  refine run.outlined (respects st).recording ?_ ?_ ?_
  · refine ⟨nofun, ?_, ?_⟩
    · intro t
      cases t <;> exact List.pairwise_singleton ..
    · intro t k waiting m about
      cases t <;> obtain rfl := List.mem_singleton.mp waiting <;> cases about
  · rintro cfg₁ t e k rest ⟨w, notes⟩ new reached outlined - stack ran
    have waiting : k ∈ cfg₁.stack t := by
      rw [stack]
      exact List.mem_cons_self
    obtain ⟨⟨archived, -⟩, -, copying⟩ := preserved_of_run reached preserved_boot
    obtain ⟨ran, rfl⟩ := Program.exec_recording.mp ran
    have passes := outlined.pending t k waiting
    refine ⟨?_, passes_own listed plain masks passes (exec_eq_some_iff.mp ran).2⟩
    exact List.forall_mem_append.mpr
      ⟨outlined.inv, cleaned_copies archived (copying t k waiting) passes outlined.inv⟩
  · exact fun _ _ _ _ _ _ _ _ _ _ _ _ _ _ _ _ passes => passes

/-- A masked text has no listed word and is not changed again.  A server that masks stores
and relays none; what it relays and shows are the copies of `made_of_copies`. -/
theorem masked_of_run (words : List Bytes) (plain : ∀ word ∈ words, 42 ∉ word) :
    (∀ text, (WordFilter.ofWords words).contains ((WordFilter.ofWords words).filter text 42) = none ∧
      (WordFilter.ofWords words).filter ((WordFilter.ofWords words).filter text 42) 42 =
        (WordFilter.ofWords words).filter text 42) ∧
    ∀ (File : Type) (file : Database File) (st : Startup) (b : BootExt)
      (cfg : Config Thread Cmd (World × List Copy)),
      st.words = .ofWords words → st.cfg.filterReject = false →
      (copied st).Reaches Program.always ((start st file b).noted []) cfg →
      Masked words file cfg.shared := by
  constructor
  · intro text
    have clean := WordFilter.contains_filter plain text
    exact ⟨clean, WordFilter.filter_of_contains clean⟩
  · intro File file st b cfg listed masks run
    obtain ⟨archived, -⟩ := (preserved_of_run run preserved_boot).inv
    have clean := (cleaned_of_run listed plain masks run).inv
    refine ⟨?_, ?_, clean⟩
    · exact fun row there => (archived.messages row there).cleaned clean
    · exact fun row there => (archived.offline row there).cleaned clean

/-- A server on which one word is listed. -/
def Demo.masking : Startup := { Demo.startup with words := .ofWords [bytes "hi"] }

/-- Alice sends `xHI`: what is stored, relayed and shown is `x**`. -/
theorem masked_of_run_hi : ∃ cfg,
    (copied Demo.masking).Reaches Program.always ((start Demo.masking Demo.file {}).noted []) cfg ∧
      Masked [bytes "hi"] Demo.file cfg.shared ∧
      Demo.recalled (bytes "x**") (bytes "x**") cfg.shared.2 = true := by
  obtain ⟨cfg, run, recalled⟩ := Program.exists_reaches_of_play (copied Demo.masking)
    Program.always (Demo.recalls (bytes "xHI")) ((start Demo.masking Demo.file {}).noted [])
    (fun cfg => Demo.recalled (bytes "x**") (bytes "x**") cfg.shared.2) (by decide +kernel)
  have plain : ∀ word ∈ [bytes "hi"], 42 ∉ word := by decide +kernel
  exact ⟨cfg, run, (masked_of_run [bytes "hi"] plain).2 _ Demo.file Demo.masking {} cfg rfl rfl run,
    recalled⟩

end OnlineChat
