import CalcShell.Evaluation.Echo
import CalcShell.Proofs.Editing.History
import CalcShell.Proofs.Session.Runs
import CalcShell.Proofs.Session.Typing
import Mathlib.Data.List.Infix

/-! Browsing the history. A line that was typed is kept while entries of the history are shown and
edited in its place, and comes back as soon as the motions through the history lead back to it. -/
namespace CalcShell
open History (Motion)

/-- The history, the line being edited, and whether the line is one of the history. -/
structure Place where
  history : History
  line : InputLine
  turn : Turn

namespace Place

/-- The history in which a motion begins: one that begins to browse puts the line aside. -/
def begun (p : Place) : History :=
  if p.turn = .browsing then p.history else p.history.beginEdit p.line.text

def browse (p : Place) (motion : Motion) : Place where
  history := (motion.lead p.begun).2
  line := p.line.set (motion.lead p.begun).1
  turn := if (motion.lead p.begun).2.isBrowsing then .browsing else .editing

def edit (p : Place) (line : InputLine) : Place :=
  { p with
    line, turn := if p.turn == .browsing && p.history.isBrowsing then .browsing else .editing }

/-- What holds of the place while the history is browsed and its lines are edited: the session says
that it browses just when the position is one in the history. -/
structure IsAmong (p : Place) (kept : List Bytes) : Prop where
  entries : p.history.entries = kept
  within : p.history.position ≤ kept.length
  browsing : p.turn = .browsing ↔ p.history.position ≠ 0
  running : p.turn ≠ .exiting

lemma isBrowsing_iff (h : History) : h.isBrowsing = true ↔ h.position ≠ 0 := by
  unfold History.isBrowsing
  exact bne_iff_ne

lemma turn_eq_browsing_iff (isBrowsing : Bool) :
    (if isBrowsing then Turn.browsing else Turn.editing) = .browsing ↔ isBrowsing = true := by
  cases isBrowsing <;> decide

lemma turn_ne_exiting (isBrowsing : Bool) :
    (if isBrowsing then Turn.browsing else Turn.editing) ≠ .exiting := by
  cases isBrowsing <;> decide

variable {p : Place} {kept : List Bytes}

lemma entries_begun (p : Place) : p.begun.entries = p.history.entries := by
  unfold begun
  split <;> rfl

/-- A motion is one through the entries, wherever it begins. -/
lemma leads_browse (within : p.turn = .browsing → p.history.position ≤ p.history.entries.length)
    (motion : Motion) : p.begun.Leads ((p.browse motion).line.text, (p.browse motion).history) := by
  have inside : p.begun.position ≤ p.begun.entries.length := by
    rw [entries_begun]
    unfold begun
    split
    · rename_i browsing
      exact within browsing
    · exact Nat.zero_le _
  have text : (p.browse motion).line.text = (motion.lead p.begun).1 := InputLine.text_set _ _
  rw [text]
  exact motion.leads inside

lemma isAmong_browse (within : p.turn = .browsing → p.history.position ≤ p.history.entries.length)
    (motion : Motion) : (p.browse motion).IsAmong p.history.entries := by
  have leads := leads_browse within motion
  constructor
  · exact leads.entries.trans (entries_begun p)
  · rw [← entries_begun]
    exact leads.within
  · exact (turn_eq_browsing_iff _).trans (isBrowsing_iff _)
  · exact turn_ne_exiting _

namespace IsAmong

lemma begins (among : p.IsAmong kept) :
    p.turn = .browsing → p.history.position ≤ p.history.entries.length := by
  intro _
  rw [among.entries]
  exact among.within

/-- An edit leaves the session browsing if it was. -/
lemma edit (among : p.IsAmong kept) (line : InputLine) : (p.edit line).IsAmong kept where
  entries := among.entries
  within := among.within
  browsing := by
    refine (turn_eq_browsing_iff _).trans ?_
    rw [Bool.and_eq_true, beq_iff_eq, isBrowsing_iff, among.browsing, and_self]
    rfl
  running := turn_ne_exiting _

lemma browse (among : p.IsAmong kept) (motion : Motion) :
    (p.browse motion).IsAmong kept := by
  rw [← among.entries]
  exact isAmong_browse among.begins motion

/-- The draft is put aside anew only when none of the entries is shown. -/
lemma begun_eq (among : p.IsAmong kept) (away : p.history.position ≠ 0) :
    p.begun = p.history := by
  unfold begun
  rw [if_pos (among.browsing.2 away)]

lemma draft_browse (among : p.IsAmong kept) (away : p.history.position ≠ 0) (motion : Motion) :
    (p.browse motion).history.draft = p.history.draft := by
  rw [← among.begun_eq away]
  exact (leads_browse among.begins motion).draft

end IsAmong
end Place

namespace Session

variable {ε : Type}

def place (s : Session ε) : Place := { history := s.history, line := s.line, turn := s.turn }

/-! ### Motions and edits -/

def motionOf? : Action → Option Motion
  | .historyBack => some .back
  | .historyForward => some .forward
  | .historyFirst => some .first
  | .historyLast => some .last
  | _ => none

/-- The motion through the history that an event asks for. -/
def motion? (s : Session ε) (e : Event) : Option Motion := (s.action? e).bind motionOf?

/-- An action that edits the line, and does not end the session. -/
def isEdit (s : Session ε) : Action → Bool
  | .backspace | .clearWord | .clearLine | .cutToBuffer | .yank | .cursorLeft | .cursorRight
  | .home | .finish => true
  | .deleteForward => !s.line.isEmpty
  | _ => false

/-- An event that puts text into the line. -/
def inserts (s : Session ε) : Event → Bool
  | .text _ => true
  | .key key =>
    s.savePath.isNone && s.config.keys.lookup key == .ignore && Key.isPrintable key
  | _ => false

/-- An event that edits the line. -/
def edits (s : Session ε) (e : Event) : Bool := s.inserts e || (s.action? e).any s.isEdit

def browsesOrEdits (s : Session ε) (e : Event) : Bool := (s.motion? e).isSome || s.edits e

/-! ### The place after an event -/

@[simp] lemma place_draw (s : Session ε) : s.draw.place = s.place := rfl

@[simp] lemma place_noteKey (s : Session ε) (now : Int) : (s.noteKey now).place = s.place := rfl

@[simp] lemma place_listCandidates (s : Session ε) : s.listCandidates.place = s.place := by
  unfold listCandidates
  split <;> rfl

lemma place_edited (s : Session ε) (line : InputLine) :
    (s.edited line).place = s.place.edit line := by
  unfold edited
  dsimp only
  rw [place_draw]
  split
  · rfl
  · rw [place_listCandidates]
    rfl

lemma place_browse (s : Session ε) (motion : Motion) :
    (s.browse motion.lead).place = s.place.browse motion := rfl

variable [Evaluator ε] {s : Session ε} {e : Event}

lemma perform_of_motion {action : Action} {motion : Motion} (moves : motionOf? action = some motion)
    (s : Session ε) (now : Int) : s.perform action now = s.browse motion.lead := by
  cases action with
  | historyBack | historyForward | historyFirst | historyLast =>
    obtain rfl := Option.some.inj moves
    rfl
  | _ => cases moves

lemma perform_of_isEdit {action : Action} (edits : s.isEdit action) (now : Int) :
    ∃ line, s.perform action now = s.edited line := by
  cases action with
  | deleteForward =>
    have some : s.line.isEmpty = false := by simpa [isEdit] using edits
    refine ⟨s.line.deleteForward, ?_⟩
    unfold perform
    dsimp only
    rw [some]
    exact if_neg Bool.false_ne_true
  | backspace | clearWord | clearLine | cutToBuffer | yank | cursorLeft | cursorRight | home
  | finish => exact ⟨_, rfl⟩
  | _ => cases edits

lemma place_handle_of_motion {motion : Motion} (moves : s.motion? e = some motion)
    (running : s.isExiting = false) (now : Int) :
    (s.handle e now).place = s.place.browse motion := by
  obtain ⟨action, asked, led⟩ := Option.bind_eq_some_iff.1 moves
  have named : action ≠ .ignore := by
    rintro rfl
    cases led
  obtain ⟨noted, rfl | rfl, handled⟩ := handle_eq_perform asked named running now
  · rw [handled, perform_of_motion led, place_browse]
  · rw [handled, perform_of_motion led, place_browse, place_noteKey]

lemma place_handle_of_edits (edits : s.edits e) (running : s.isExiting = false) (now : Int) :
    ∃ line, (s.handle e now).place = s.place.edit line := by
  rcases Bool.or_eq_true_iff.1 edits with inserted | edited
  · cases e with
    | text text => exact ⟨_, place_edited s (s.line.insert text)⟩
    | key key =>
      obtain ⟨free, printable⟩ := Bool.and_eq_true_iff.1 inserted
      obtain ⟨unasked, free⟩ := Bool.and_eq_true_iff.1 free
      refine ⟨s.line.insert key, ?_⟩
      change (s.handleKey key now).place = _
      rw [handleKey_of_printable running (Option.isNone_iff_eq_none.1 unasked) (beq_iff_eq.1 free)
        printable]
      exact place_edited (s.noteKey now) (s.line.insert key)
    | _ => cases inserted
  · obtain ⟨action, asked, edits⟩ := (Option.any_eq_true _ _).1 edited
    have named : action ≠ .ignore := by
      rintro rfl
      cases edits
    obtain ⟨noted, rfl | rfl, handled⟩ := handle_eq_perform asked named running now
    · obtain ⟨line, performed⟩ := perform_of_isEdit edits now
      exact ⟨line, by rw [handled, performed, place_edited]⟩
    · have edits : (s.noteKey now).isEdit action := edits
      obtain ⟨line, performed⟩ := perform_of_isEdit edits now
      exact ⟨line, by rw [handled, performed, place_edited, place_noteKey]⟩

/-- While the history is browsed and its lines are edited, an event is a motion or an edit. -/
lemma place_event_cases (allowed : s.browsesOrEdits e) (running : s.isExiting = false) (now : Int) :
    (∃ motion, s.motion? e = some motion ∧
      (s.happen (.event e now)).place = s.place.browse motion) ∨
    ∃ line, (s.happen (.event e now)).place = s.place.edit line := by
  rw [happen, if_neg (by simp [running])]
  rcases Bool.or_eq_true_iff.1 allowed with moves | edits
  · obtain ⟨motion, moves⟩ := Option.isSome_iff_exists.1 moves
    exact .inl ⟨motion, moves, place_handle_of_motion (s := { s with isStuck := false }) moves running now⟩
  · exact .inr (place_handle_of_edits (s := { s with isStuck := false }) edits running now)

/-! ### Runs -/

omit [Evaluator ε] in
lemma running_of_turn (h : s.turn ≠ .exiting) : s.isExiting = false := beq_eq_false_iff_ne.2 h

variable {kept : List Bytes} {run : List Happening}

lemma isAmong_event (among : s.place.IsAmong kept) (allowed : s.browsesOrEdits e) (now : Int) :
    (s.happen (.event e now)).place.IsAmong kept := by
  rcases place_event_cases allowed (running_of_turn among.running) now with
    ⟨motion, -, moved⟩ | ⟨line, edited⟩
  · rw [moved]
    exact among.browse motion
  · rw [edited]
    exact among.edit line

lemma draft_event (among : s.place.IsAmong kept) (away : s.history.position ≠ 0)
    (allowed : s.browsesOrEdits e) (now : Int) :
    (s.happen (.event e now)).place.history.draft = s.place.history.draft := by
  rcases place_event_cases allowed (running_of_turn among.running) now with
    ⟨motion, -, moved⟩ | ⟨line, edited⟩
  · rw [moved]
    exact among.draft_browse away motion
  · rw [edited]
    rfl

/-- Motions and edits lead from one entry to another, or out of the history. -/
theorem isAmong_after (among : s.place.IsAmong kept)
    (allowed : Throughout (fun s e => s.browsesOrEdits e) s run) :
    (s.after run).place.IsAmong kept := by
  induction run generalizing s with
  | nil => exact among
  | cons happening run ih =>
    cases happening with
    | event e now => exact ih (isAmong_event among allowed.1 now) allowed.2
    | meanwhile patience files lineSources redraws => exact ih among allowed

/-- The draft stays the same as long as one of the entries is shown. -/
theorem draft_after (among : s.place.IsAmong kept)
    (allowed : Throughout (fun s e => s.browsesOrEdits e) s run)
    (away : ∀ front, front <+: run → (s.after front).history.position ≠ 0) :
    (s.after run).history.draft = s.history.draft := by
  induction run generalizing s with
  | nil => rfl
  | cons happening run ih =>
    obtain ⟨here, later⟩ := forall_prefix_cons.1 away
    cases happening with
    | event e now =>
      exact (ih (isAmong_event among allowed.1 now) allowed.2 later).trans
        (draft_event among here allowed.1 now)
    | meanwhile patience files lineSources redraws => exact ih among allowed later

lemma place_event_of_motion {motion : Motion} (moves : s.motion? e = some motion)
    (running : s.turn ≠ .exiting) (now : Int) :
    (s.happen (.event e now)).place = s.place.browse motion := by
  rw [happen, if_neg (by simp [running_of_turn running])]
  exact place_handle_of_motion (s := { s with isStuck := false }) moves (running_of_turn running) now

/-- What one motion shows: the entry at the position that it leads to, or the draft. -/
lemma shown_event {motion : Motion}
    (within : s.turn = .browsing → s.history.position ≤ s.history.entries.length)
    (running : s.turn ≠ .exiting) (moves : s.motion? e = some motion) (now : Int) :
    let t := s.happen (.event e now)
    (t.history.position ≠ 0 →
      t.history.position ≤ s.history.entries.length ∧
        s.history.entries[s.history.entries.length - t.history.position]? = some t.line.text) ∧
    (t.history.position = 0 → t.line.text = s.place.begun.draft ∧ t.turn = .editing) := by
  have moved := place_event_of_motion moves running now
  have leads := Place.leads_browse (p := s.place) within motion
  have turn : (s.place.browse motion).turn =
      if (s.place.browse motion).history.isBrowsing then .browsing else .editing := rfl
  rw [← moved] at leads turn
  have same : s.place.begun.entries = s.history.entries := Place.entries_begun s.place
  constructor
  · intro away
    rw [← same]
    exact ⟨leads.within, leads.entry away⟩
  · intro home
    refine ⟨leads.home home, turn.trans (if_neg ?_)⟩
    rw [Place.isBrowsing_iff]
    exact not_not.2 home

/-- The draft comes back with the first motion that leaves the entries. -/
lemma shown_after {past : List Happening} {motion : Motion} (among : s.place.IsAmong kept)
    (allowed : Throughout (fun s e => s.browsesOrEdits e) s past)
    (moves : (s.after past).motion? e = some motion) (now : Int) :
    let t := (s.after past).happen (.event e now)
    (t.history.position ≠ 0 →
      t.history.position ≤ kept.length ∧
        kept[kept.length - t.history.position]? = some t.line.text) ∧
    ((∀ front, front <+: past → (s.after front).history.position ≠ 0) →
      t.history.position = 0 → t.line.text = s.history.draft ∧ t.turn = .editing) := by
  have here := isAmong_after among allowed
  have entries : (s.after past).history.entries = kept := here.entries
  have shown := shown_event here.begins here.running moves now
  rw [entries] at shown
  refine ⟨shown.1, fun away home => ?_⟩
  have back := shown.2 home
  rw [here.begun_eq (away past List.prefix_rfl)] at back
  exact ⟨back.1.trans (draft_after among allowed away), back.2⟩

/-- A session that neither browses nor ends is given motions through its history and edits, a motion
first. The entries stay as they are. Every motion shows the entry at the position that it leads to, and
the first one that leads back to position zero shows the line that was there before the first motion,
whatever became of the entries that were shown in between. -/
theorem draft_returns_from_browsing (calm : s.turn ≠ .browsing) (running : s.turn ≠ .exiting)
    {first : Event} {start : Int} {rest : List Happening} (begins : (s.motion? first).isSome)
    (allowed : Throughout (fun s e => s.browsesOrEdits e) s (.event first start :: rest)) :
    (∀ front, front <+: .event first start :: rest →
      (s.after front).history.entries = s.history.entries) ∧
    ∀ past e now, past ++ [.event e now] <+: .event first start :: rest →
      ((s.after past).motion? e).isSome →
      let t := s.after (past ++ [.event e now])
      (t.history.position ≠ 0 →
        t.history.position ≤ s.history.entries.length ∧
          s.history.entries[s.history.entries.length - t.history.position]? = some t.line.text) ∧
      ((∀ front, front <+: past → front ≠ [] → (s.after front).history.position ≠ 0) →
        t.history.position = 0 → t.line.text = s.line.text ∧ t.turn = .editing) := by
  obtain ⟨motion, begins⟩ := Option.isSome_iff_exists.1 begins
  have begun : s.place.begun = s.history.beginEdit s.line.text := if_neg calm
  have moved := place_event_of_motion begins running start
  have calmly : s.place.turn = .browsing → s.place.history.position ≤ s.place.history.entries.length :=
    fun browsing => absurd browsing calm
  have among : (s.happen (.event first start)).place.IsAmong s.history.entries := by
    rw [moved]
    exact Place.isAmong_browse calmly motion
  have draft : (s.happen (.event first start)).place.history.draft = s.line.text := by
    rw [moved, (Place.leads_browse calmly motion).draft, begun]
    rfl
  constructor
  · intro front within
    rcases List.prefix_cons_iff.1 within with rfl | ⟨front, rfl, behind⟩
    · rfl
    · exact (isAmong_after among (allowed.2.front behind)).entries
  · intro past e now within moves
    obtain ⟨motion, moves⟩ := Option.isSome_iff_exists.1 moves
    rw [after_append]
    cases past with
    | nil =>
      have shown := shown_event calmly running moves now
      rw [begun] at shown
      exact ⟨shown.1, fun _ => shown.2⟩
    | cons happening past =>
      obtain ⟨rfl, behind⟩ := List.cons_prefix_cons.1 within
      have shown := shown_after among
        (allowed.2.front ((List.prefix_append past _).trans behind)) moves now
      refine ⟨shown.1, fun away home => ?_⟩
      rw [← draft]
      refine shown.2 ?_ home
      intro front within
      exact away (.event first start :: front) (List.cons_prefix_cons.2 ⟨rfl, within⟩)
        (List.cons_ne_nil _ _)

theorem draft_returns_from_edited_entry :
    let s : Session Echo :=
      { Session.new {} {} (fun _ _ => none) (fun _ => [])
          { entries := [bytes "1", bytes "2"] } {} with
        line := { before := bytes "3+" }, turn := .editing }
    let past : List Happening := [.event (.key (bytes "KEY_UP")) 0, .event (.text (bytes "0")) 1]
    (s.after past).line.text = bytes "20" ∧
      (s.after (past ++ [.event (.action .historyForward) 2])).line.text = bytes "3+" ∧
      (s.after (past ++ [.event (.action .historyForward) 2])).turn = .editing := by
  intro s past
  have begins : (s.motion? (.key (bytes "KEY_UP"))).isSome := by decide +kernel
  have allowed : Throughout (fun s e => s.browsesOrEdits e) s
      (past ++ [.event (.action .historyForward) 2]) := by decide +kernel
  have away : ∀ front ∈ past.inits, front ≠ [] → (s.after front).history.position ≠ 0 := by
    decide +kernel
  have returns := draft_returns_from_browsing (by decide) (by decide) begins allowed
  have last := returns.2 past (.action .historyForward) 2 List.prefix_rfl (by decide +kernel)
  refine ⟨by decide +kernel, last.2 ?_ (by decide +kernel)⟩
  intro front within
  exact away front ((List.mem_inits front past).2 within)

end Session
end CalcShell
