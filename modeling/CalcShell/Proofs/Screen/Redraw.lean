import CalcShell.Proofs.Screen.Drawing

/-! Whatever a renderer was asked for before, a frame looks the same on its screen as if everything
were drawn again on an empty one. -/
namespace CalcShell

/-- What a renderer can be asked for. -/
inductive Call where
  | setGeometry (geometry : Geometry)
  | invalidate
  | beginInput (isContinuation : Bool)
  | commitInput (text : Bytes) (isContinuation : Bool)
  | appendOutput (text : Bytes) (isError : Bool)
  | clearScreen
  | rewind (mark : Nat)
  | setStatus (text : Bytes)
  | setSyntax (showsTokens : Bool)
  | render (frame : Frame)
  | redraw
deriving Repr

namespace Renderer

/-- The same renderer above an empty screen. -/
def afresh (r : Renderer) : Renderer := { r.invalidate with isPopupShown := false }

lemma scanLines_afresh (r : Renderer) (opening close : UInt8) (depth n : Nat) :
    r.afresh.scanLines opening close depth n = r.scanLines opening close depth n := by
  induction n generalizing depth with
  | zero => rfl
  | succ n ih =>
    simp only [scanLines, ih]
    rfl

lemma matchParen_afresh (r : Renderer) (frame : Frame) (live : StyledLine) :
    r.afresh.matchParen frame live = r.matchParen frame live := by
  simp only [matchParen, scanLines_afresh]
  rfl

lemma prepare_afresh (r : Renderer) (frame : Frame) :
    r.afresh.prepare frame = ((r.prepare frame).1.afresh, (r.prepare frame).2) := by
  have live : r.afresh.liveLine frame = r.liveLine frame := by
    simp only [liveLine, matchParen_afresh]
    rfl
  unfold prepare
  rw [live]
  split <;> rfl

/-- What is drawn already makes no difference to what a frame looks like. -/
lemma picture_afresh (r : Renderer) (frame : Frame) : r.afresh.picture frame = r.picture frame := by
  have prepared : ({ r.afresh with lastFrame := frame } : Renderer).prepare frame = _ :=
    prepare_afresh { r with lastFrame := frame } frame
  rw [picture, prepared]
  rfl

lemma holds_afresh (r : Renderer) : r.afresh.Holds {} := by
  have cleared : r.invalidate.Holds {} := holds_invalidate fun _ => rfl
  exact ⟨cleared.rows, cleared.length, cleared.status, fun _ => rfl⟩

end Renderer

/-- A renderer and the screen that it draws on. -/
structure Display where
  renderer : Renderer
  screen : Record := {}

namespace Display

def new (tokenize : Bytes → StyledLine) (geometry : Geometry) : Display :=
  { renderer := .new tokenize geometry }

def render (d : Display) (frame : Frame) : Display :=
  { renderer := (d.renderer.render frame).2
    screen := d.screen.drawAll (d.renderer.render frame).1 }

def perform (d : Display) : Call → Display
  | .setGeometry geometry => { d with renderer := d.renderer.setGeometry geometry }
  | .invalidate => { d with renderer := d.renderer.invalidate }
  | .beginInput isContinuation => { d with renderer := d.renderer.beginInput isContinuation }
  | .commitInput text isContinuation =>
    { d with renderer := d.renderer.commitInput text isContinuation }
  | .appendOutput text isError => { d with renderer := d.renderer.appendOutput text isError }
  | .clearScreen => { d with renderer := d.renderer.clearScreen }
  | .rewind mark => { d with renderer := d.renderer.rewind mark }
  | .setStatus text => { d with renderer := d.renderer.setStatus text }
  | .setSyntax showsTokens => { d with renderer := { d.renderer with showsTokens } }
  | .render frame => d.render frame
  | .redraw => d.render d.renderer.lastFrame

def run (d : Display) (calls : List Call) : Display := calls.foldl perform d

/-- The same renderer with an empty screen, on which nothing counts as drawn. -/
def afresh (d : Display) : Display := { renderer := d.renderer.afresh }

/-- The screen holds what the renderer takes it to hold, and nothing while it has no size. -/
structure Sound (d : Display) : Prop where
  holds : d.renderer.Holds d.screen
  blank : d.renderer.geometry.isDegenerate = true → d.screen = {}

variable {d : Display}

lemma sound_new (tokenize : Bytes → StyledLine) (geometry : Geometry) :
    (new tokenize geometry).Sound := by
  refine ⟨?_, fun _ => rfl⟩
  rw [new, Renderer.new, Renderer.setGeometry]
  split
  · -- The size is ignored, and that of a renderer without one is degenerate.
    exact ⟨nofun, nofun, nofun, fun _ => rfl⟩
  · exact Renderer.holds_invalidate fun _ => rfl

lemma Sound.render (sound : d.Sound) (frame : Frame) : (d.render frame).Sound where
  holds := sound.holds.render frame
  blank blind := by
    cases usable : d.renderer.geometry.isDegenerate with
    | true =>
      rw [Display.render, Renderer.render_of_degenerate usable]
      exact sound.blank usable
    | false =>
      obtain ⟨paren, drawn⟩ := Renderer.render_of_usable usable frame
      rw [Display.render, drawn] at blind
      change d.renderer.geometry.isDegenerate = true at blind
      rw [usable] at blind
      cases blind

/-- Calls that change nothing of what is known of the screen. -/
lemma Sound.of_unseen (sound : d.Sound) {r : Renderer} (geometry : r.geometry = d.renderer.geometry)
    (drawn : r.drawn = d.renderer.drawn) (status : r.status = d.renderer.status)
    (dirty : r.isStatusDirty = d.renderer.isStatusDirty)
    (popup : r.isPopupShown = d.renderer.isPopupShown) : Sound { d with renderer := r } := by
  obtain ⟨⟨rows, length, shown, hidden⟩, blank⟩ := sound
  refine ⟨⟨?_, ?_, ?_, ?_⟩, ?_⟩
  · rw [drawn]
    exact rows
  · rw [Renderer.paneRows, geometry, drawn]
    exact length
  · rw [Renderer.statusLine, geometry, status, dirty]
    exact shown
  · rw [popup]
    exact hidden
  · rw [geometry]
    exact blank

lemma Sound.perform (sound : d.Sound) (call : Call) : (d.perform call).Sound := by
  cases call with
  | setGeometry geometry =>
    rw [Display.perform, Renderer.setGeometry]
    split
    · exact sound
    · rename_i usable
      exact ⟨Renderer.holds_invalidate sound.holds.popup, fun blind => absurd blind usable⟩
  | invalidate => exact ⟨Renderer.holds_invalidate sound.holds.popup, sound.blank⟩
  | beginInput _ => exact sound.of_unseen rfl rfl rfl rfl rfl
  | commitInput _ _ => exact sound.of_unseen rfl rfl rfl rfl rfl
  | appendOutput _ _ => exact sound.of_unseen rfl rfl rfl rfl rfl
  | clearScreen => exact ⟨Renderer.holds_invalidate sound.holds.popup, sound.blank⟩
  | rewind mark =>
    rw [Display.perform, Renderer.rewind]
    split
    · exact sound
    · exact sound.of_unseen rfl rfl rfl rfl rfl
  | setStatus text =>
    rw [Display.perform, Renderer.setStatus]
    split
    · exact sound
    · exact ⟨⟨sound.holds.rows, sound.holds.length, nofun, sound.holds.popup⟩, sound.blank⟩
  | setSyntax _ => exact sound.of_unseen rfl rfl rfl rfl rfl
  | render frame => exact sound.render frame
  | redraw => exact sound.render d.renderer.lastFrame

lemma Sound.run (sound : d.Sound) (calls : List Call) : (d.run calls).Sound := by
  induction calls generalizing d with
  | nil => exact sound
  | cons call calls ih => exact ih (sound.perform call)

/-- After any calls, drawing a frame leaves the rows of the pane, the status and the popup as drawing
it afresh on an empty screen does. On a screen of any size that is the picture of the frame: every row of
the pane is there, and so are the status and the popup, if one is wanted. -/
theorem render_eq_render_afresh (tokenize : Bytes → StyledLine) (geometry : Geometry)
    (calls : List Call) (frame : Frame) :
    let d := (new tokenize geometry).run calls
    let shown := (d.perform (.render frame)).screen
    let again := (d.afresh.perform (.render frame)).screen
    (∀ row < d.renderer.paneRows, shown.row? row = again.row? row) ∧
      shown.status = again.status ∧ shown.popup = again.popup ∧
      (d.renderer.geometry.isDegenerate = false →
        (d.renderer.picture frame).rows.length = d.renderer.paneRows ∧
          shown.Shows (d.renderer.picture frame)) := by
  intro d shown again
  have sound : d.Sound := (sound_new tokenize geometry).run calls
  cases usable : d.renderer.geometry.isDegenerate with
  | true =>
    have same : shown = again := by
      have blind : d.renderer.afresh.geometry.isDegenerate = true := usable
      change d.screen.drawAll (d.renderer.render frame).1 =
        Record.drawAll {} (d.renderer.afresh.render frame).1
      rw [Renderer.render_of_degenerate usable, Renderer.render_of_degenerate blind,
        sound.blank usable]
    exact ⟨fun row _ => by rw [same], by rw [same], by rw [same], nofun⟩
  | false =>
    obtain ⟨rows, status, popup⟩ := sound.holds.shows_render usable frame
    obtain ⟨rowsAgain, statusAgain, popupAgain⟩ :=
      d.renderer.holds_afresh.shows_render usable frame
    rw [Renderer.picture_afresh] at statusAgain popupAgain
    simp only [Renderer.picture_afresh] at rowsAgain
    refine ⟨fun row inside => ?_, status.trans statusAgain.symm, popup.trans popupAgain.symm,
      fun _ => ⟨Renderer.length_rows_picture d.renderer frame, rows, status, popup⟩⟩
    rw [← Renderer.length_rows_picture d.renderer frame] at inside
    exact (rows row inside).trans (rowsAgain row inside).symm

end Display
end CalcShell
