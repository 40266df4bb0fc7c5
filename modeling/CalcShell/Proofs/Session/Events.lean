import CalcShell.Proofs.Session.Page

/-! What an event makes of the core of a session and of its page: it submits lines, gives one up,
clears the transcript, ends the session, takes lines back, or leaves both alone. -/
namespace CalcShell.Session

variable {ε : Type}

/-- How many lines an action takes back. -/
def takes? (s : Session ε) : Action → Option Nat
  | .undo => if s.evaluated = [] then none else some 1
  | .interrupt => if s.buffer = [] then none else some s.buffer.length
  | _ => none

/-- The action that an event asks for. -/
def action? (s : Session ε) : Event → Option Action
  | .key key => if s.savePath.isSome then none else some (s.config.keys.lookup key)
  | .action action => some action
  | _ => none

/-- How many lines an event takes back. -/
def takenBack? (s : Session ε) (e : Event) : Option Nat :=
  if s.isExiting then none else (s.action? e).bind s.takes?

lemma takenBack?_of_running {s : Session ε} (running : s.isExiting = false) (e : Event) :
    s.takenBack? e = (s.action? e).bind s.takes? := by
  rw [takenBack?, running, if_neg Bool.false_ne_true]

lemma running_of_takenBack? {s : Session ε} {e : Event} {n : Nat} (h : s.takenBack? e = some n) :
    s.isExiting = false := by
  unfold takenBack? at h
  split at h
  · cases h
  · rename_i running
    exact Bool.eq_false_iff.2 running

/-- Lines are taken back by undoing the last one, or by cancelling a statement. -/
lemma takes?_cases {s : Session ε} {action : Action} {n : Nat} (h : s.takes? action = some n) :
    (action = .undo ∧ s.evaluated ≠ [] ∧ n = 1) ∨
      (action = .interrupt ∧ s.buffer ≠ [] ∧ n = s.buffer.length) := by
  cases action with
  | undo =>
    rw [takes?, Option.ite_none_left_eq_some] at h
    exact .inl ⟨rfl, h.1, (Option.some.inj h.2).symm⟩
  | interrupt =>
    rw [takes?, Option.ite_none_left_eq_some] at h
    exact .inr ⟨rfl, h.1, (Option.some.inj h.2).symm⟩
  | _ => cases h

lemma takenBack?_cases {s : Session ε} {e : Event} {n : Nat} (h : s.takenBack? e = some n) :
    (s.action? e = some .undo ∧ s.evaluated ≠ [] ∧ n = 1) ∨
      (s.action? e = some .interrupt ∧ s.buffer ≠ [] ∧ n = s.buffer.length) := by
  rw [takenBack?_of_running (running_of_takenBack? h), Option.bind_eq_some_iff] at h
  obtain ⟨action, asked, takes⟩ := h
  rw [asked, Option.some.injEq, Option.some.injEq]
  exact takes?_cases takes

variable [Evaluator ε]

/-- What holds of a session that has ended, and further on whatever is done to one that takes no lines
back. -/
structure Lasting (I : Core ε → Page → Prop) : Prop where
  ended : ∀ {c : Core ε} {p : Page}, c.isExiting → I c p
  clear : ∀ {c : Core ε} {p : Page}, c.isExiting = false → I c p → I c p.clear
  abandon : ∀ {c : Core ε} {p : Page} {text : Bytes} {lines : List TranscriptLine},
    c.isExiting = false → c.buffer = [] → IsEntry text lines → I c p →
      I c ((p.add lines).turn false)
  take : ∀ {c : Core ε} {p : Page} {lines : List TranscriptLine} (patience : Patience)
    (line : Evaluated), c.isExiting = false → line.mark = p.transcript.mark →
      IsEntry line.text lines → I c p →
      I (c.take line (c.submit patience line.text))
        (p.take lines (!c.buffer.isEmpty) (c.submit patience line.text).outcome)

/-- What holds of the core of a session that has ended, and further on when a line is submitted. -/
structure Core.Lasting (I : Core ε → Prop) : Prop where
  ended : ∀ {c : Core ε}, c.isExiting → I c
  take : ∀ {c : Core ε} (patience : Patience) (line : Evaluated), c.isExiting = false → I c →
    I (c.take line (c.submit patience line.text))

lemma Core.Lasting.lift {I : Core ε → Prop} (lasting : Core.Lasting I) :
    Session.Lasting fun (c : Core ε) _ => I c where
  ended := lasting.ended
  clear _ h := h
  abandon _ _ _ h := h
  take patience line running _ _ h := lasting.take patience line running h

/-- It is enough to look at sessions that have not ended, and at the two ways in which one goes on after
a line. -/
lemma lasting_of_running {P : Core ε → Page → Prop}
    (clear : ∀ {c : Core ε} {p : Page}, P c p → P c p.clear)
    (abandon : ∀ {c : Core ε} {p : Page} {text : Bytes} {lines : List TranscriptLine}, P c p →
      c.buffer = [] → IsEntry text lines → P c ((p.add lines).turn false))
    (taken : ∀ {c : Core ε} {p : Page} {lines : List TranscriptLine} {patience : Patience}
      {line : Evaluated}, P c p → line.mark = p.transcript.mark → IsEntry line.text lines →
      (c.submit patience line.text).outcome ≠ .interrupted →
      (c.submit patience line.text).outcome ≠ .exit →
      P (c.take line (c.submit patience line.text))
        (p.take lines (!c.buffer.isEmpty) (c.submit patience line.text).outcome))
    (interrupted : ∀ {c : Core ε} {p : Page} {lines : List TranscriptLine} {patience : Patience}
      {line : Evaluated}, P c p → IsEntry line.text lines →
      (c.submit patience line.text).outcome = .interrupted →
      P (c.take line (c.submit patience line.text))
        (p.take lines (!c.buffer.isEmpty) (c.submit patience line.text).outcome)) :
    Lasting fun c p => c.isExiting = true ∨ P c p where
  ended exiting := .inl exiting
  clear running h := .inr (clear (h.resolve_left (by simp [running])))
  abandon running none entry h :=
    .inr (abandon (h.resolve_left (by simp [running])) none entry)
  take {c p lines} patience line running number entry h := by
    have h : P c p := h.resolve_left (by simp [running])
    by_cases cut : (c.submit patience line.text).outcome = .interrupted
    · exact .inr (interrupted h entry cut)
    · by_cases exit : (c.submit patience line.text).outcome = .exit
      · left
        rw [Core.take, exit]
      · exact .inr (taken h number entry cut exit)

/-- It is enough to look at the two ways in which a session goes on after a line. -/
lemma Core.lasting_of_running {P : Core ε → Prop}
    (taken : ∀ {c : Core ε} {patience : Patience} {line : Evaluated}, P c →
      (c.submit patience line.text).outcome ≠ .interrupted →
      (c.submit patience line.text).outcome ≠ .exit →
      P (c.take line (c.submit patience line.text)))
    (interrupted : ∀ {c : Core ε} {patience : Patience} {line : Evaluated}, P c →
      (c.submit patience line.text).outcome = .interrupted →
      P (c.take line (c.submit patience line.text))) :
    Core.Lasting fun c => c.isExiting = true ∨ P c where
  ended exiting := .inl exiting
  take {c} patience line running h := by
    have h : P c := h.resolve_left (by simp [running])
    by_cases cut : (c.submit patience line.text).outcome = .interrupted
    · exact .inr (interrupted h cut)
    · by_cases exit : (c.submit patience line.text).outcome = .exit
      · left
        rw [Core.take, exit]
      · exact .inr (taken h cut exit)

variable {I : Core ε → Page → Prop} (lasting : Lasting I) {s : Session ε}
include lasting

/-! ### Submissions -/

lemma Lasting.submit (running : s.isExiting = false) (h : I s.core s.page) (now : Int) :
    I (s.submit now).core (s.submit now).page := by
  obtain ⟨lines, entry, page⟩ := page_submit s now
  rw [core_submit, page]
  exact lasting.take s.surroundings.patience.clear s.record running rfl entry h

lemma Lasting.submitText (h : I s.core s.page) (text : Bytes) (now : Int) :
    I (s.submitText text now).core (s.submitText text now).page := by
  unfold Session.submitText
  split
  · exact h
  · rename_i running
    exact lasting.submit (s := { s with line := s.line.set text }) (Bool.eq_false_iff.2 running) h now

lemma Lasting.submitLines (h : I s.core s.page) (lines : List Bytes) (now : Int) :
    I (s.submitLines lines now).core (s.submitLines lines now).page := by
  unfold Session.submitLines
  induction lines generalizing s with
  | nil => exact h
  | cons line lines ih =>
    rw [List.foldl_cons]
    apply ih
    split
    · exact h
    · exact lasting.submitText h line now

lemma Lasting.submitSources (h : I s.core s.page) (waiting done : List LineSource) (now : Int) :
    I (submitSources now waiting done s).core (submitSources now waiting done s).page := by
  induction waiting generalizing done s with
  | nil => exact h
  | cons source waiting ih =>
    have h := lasting.submitLines h source.take.1 now
    unfold Session.submitSources
    dsimp only
    split
    · exact h
    · exact ih h _

lemma Lasting.idle (h : I s.core s.page) (now : Int) : I (s.idle now).core (s.idle now).page := by
  unfold Session.idle
  split
  · exact h
  · apply lasting.submitSources
    simpa using h

/-! ### Actions -/

theorem Lasting.perform {action : Action} (none : s.takes? action = none)
    (running : s.isExiting = false) (h : I s.core s.page) (now : Int) :
    I (s.perform action now).core (s.perform action now).page := by
  have edited (line : InputLine) : I (s.edited line).core (s.edited line).page := by
    rw [core_edited running, page_edited]
    exact h
  have browse (motion : History → Bytes × History) :
      I (s.browse motion).core (s.browse motion).page := by
    rw [core_browse running, page_browse]
    exact h
  have complete (back : Bool) : I (s.complete back).core (s.complete back).page := by
    rw [core_complete running, page_complete]
    exact h
  cases action with
  | ignore => exact h
  | backspace | clearWord | clearLine | cutToBuffer | yank | cursorLeft | cursorRight | home
  | finish => exact edited _
  | deleteForward =>
    unfold Session.perform
    dsimp only
    split
    · exact lasting.ended rfl
    · exact edited _
  | historyBack | historyForward | historyFirst | historyLast => exact browse _
  | complete | completeBack => exact complete _
  | submit => exact lasting.submit running h now
  | clearScreen =>
    have page : (s.perform .clearScreen now).page = s.page.clear := page_draw _
    rw [page]
    exact lasting.clear running h
  | exit => exact lasting.ended rfl
  | escape =>
    have page : (s.perform .escape now).page = s.page := page_draw _
    rw [page]
    exact h
  | saveTranscript =>
    have page : (s.perform .saveTranscript now).page = s.page := page_askPath s []
    rw [page]
    exact h
  | undo =>
    have empty : s.evaluated = [] := by simpa [takes?] using none
    change I (s.undo now).core (s.undo now).page
    rw [core_undo_nil empty, page_undo_nil empty]
    exact h
  | interrupt =>
    have empty : s.buffer = [] := by simpa [takes?] using none
    have same : { s.core with isExiting := false } = s.core := by
      rw [← running]
      rfl
    change I (s.cancel now).core (s.cancel now).page
    rw [core_cancel_nil empty, same, page_cancel]
    exact lasting.abandon running empty s.isEntry_cancelled h

omit lasting in
/-- An event that asks for an action has it carried out; of a key the time is noted before. -/
lemma handle_eq_perform {e : Event} {action : Action} (asked : s.action? e = some action)
    (named : action ≠ .ignore) (running : s.isExiting = false) (now : Int) :
    ∃ noted, (noted = s ∨ noted = s.noteKey now) ∧ s.handle e now = noted.perform action now := by
  cases e with
  | key key =>
    refine ⟨s.noteKey now, .inr rfl, ?_⟩
    rw [action?, Option.ite_none_left_eq_some, Option.some.injEq] at asked
    obtain ⟨noPath, bound⟩ := asked
    have noPath : s.savePath = none := by simpa using noPath
    have noPath : (s.noteKey now).savePath = none := noPath
    have bound : (s.noteKey now).config.keys.lookup key = action := bound
    change s.handleKey key now = _
    unfold handleKey
    rw [if_neg (by simp [running])]
    dsimp only
    rw [noPath, bound]
    cases action with
    | ignore => exact absurd rfl named
    | _ => rfl
  | action asks =>
    refine ⟨s, .inl rfl, ?_⟩
    obtain rfl : asks = action := Option.some.inj asked
    change s.handleAction asks now = _
    unfold handleAction
    rw [if_neg (by simp [running])]
  | _ => cases asked

/-- An event that takes no lines back. -/
theorem Lasting.handle {e : Event} (none : s.takenBack? e = none)
    (running : s.isExiting = false) (h : I s.core s.page) (now : Int) :
    I (s.handle e now).core (s.handle e now).page := by
  cases e with
  | key key =>
    change I (s.handleKey key now).core (s.handleKey key now).page
    unfold Session.handleKey
    rw [if_neg (by simp [running])]
    dsimp only
    split
    · rw [core_typePath, page_typePath]
      exact h
    · rename_i noPath
      have path : s.savePath = .none := noPath
      rw [takenBack?_of_running running, action?, path] at none
      split
      · split
        · have running : (s.noteKey now).isExiting = false := running
          change I ((s.noteKey now).edited _).core ((s.noteKey now).edited _).page
          rw [core_edited running, page_edited]
          exact h
        · exact h
      · exact lasting.perform (s := s.noteKey now) none running h now
  | action action =>
    change I (s.handleAction action now).core (s.handleAction action now).page
    unfold Session.handleAction
    rw [takenBack?_of_running running] at none
    rw [if_neg (by simp [running])]
    exact lasting.perform none running h now
  | text text =>
    change I (s.edited _).core (s.edited _).page
    rw [core_edited running, page_edited]
    exact h
  | line text => exact lasting.submitText h text now
  | tick => exact lasting.idle h now
  | save path =>
    change I (s.save path now).2.core (s.save path now).2.page
    rw [core_save, page_save]
    exact h
  | message text =>
    change I (s.showMessage text now).core (s.showMessage text now).page
    rw [core_showMessage, page_showMessage]
    exact h
  | resize | source => exact h

/-! ### Taking back -/

omit lasting

/-- The core after an event took lines back. Undoing goes on with the statement that the replay leaves
unfinished; cancelling goes on with none. -/
def takeBack (s : Session ε) (e : Event) (n : Nat) : Core ε :=
  { s.core.back n (s.replayed n) with
    buffer := if s.action? e = some .undo then (s.replayed n).buffer else [] }

theorem core_handle_of_takenBack? {e : Event} {n : Nat} (taken : s.takenBack? e = some n)
    (now : Int) : (s.handle e now).core = s.takeBack e n := by
  have running := running_of_takenBack? taken
  unfold takeBack
  rcases takenBack?_cases taken with ⟨asks, full, rfl⟩ | ⟨asks, full, rfl⟩
  · obtain ⟨noted, rfl | rfl, performed⟩ := handle_eq_perform asks (by simp) running now
    all_goals
      rw [performed, asks, if_pos rfl]
      exact core_undo (by exact full) now
  · obtain ⟨noted, rfl | rfl, performed⟩ := handle_eq_perform asks (by simp) running now
    all_goals
      rw [performed, asks, if_neg (by simp)]
      exact core_cancel (by exact full) now

/-- Undoing rewinds the page to the line that is taken back. -/
theorem page_handle_of_undo {e : Event} (asks : s.action? e = some .undo)
    (running : s.isExiting = false) {line : Evaluated} (last : s.evaluated.getLast? = some line)
    (now : Int) : (s.handle e now).page =
      (s.page.rewind line.mark).turn (!(s.replayed 1).buffer.isEmpty) := by
  obtain ⟨noted, rfl | rfl, performed⟩ := handle_eq_perform asks (by simp) running now
  all_goals
    rw [performed]
    exact page_undo (by exact last) now

/-- Cancelling leaves the line that was edited in the transcript and begins a new statement. -/
theorem page_handle_of_cancel {e : Event} (asks : s.action? e = some .interrupt)
    (running : s.isExiting = false) (now : Int) : ∃ text lines, IsEntry text lines ∧
      (s.handle e now).page = (s.page.add lines).turn false := by
  refine ⟨s.line.text, s.cancelled, s.isEntry_cancelled, ?_⟩
  obtain ⟨noted, rfl | rfl, performed⟩ := handle_eq_perform asks (by simp) running now
  all_goals
    rw [performed]
    exact page_cancel _ now

end CalcShell.Session
