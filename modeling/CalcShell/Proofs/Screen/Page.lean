import CalcShell.Proofs.Screen.Transcript

/-! What a renderer was given: the transcript, and where in it the statement being entered begins.
Drawing leaves both alone. -/
namespace CalcShell

structure Page where
  transcript : Transcript
  /-- Number of the first line of the statement being entered. -/
  start : Nat

namespace Page

def add (p : Page) (lines : List TranscriptLine) : Page :=
  { p with transcript := p.transcript.pushAll lines }

lemma add_add (p : Page) (front back : List TranscriptLine) :
    (p.add front).add back = p.add (front ++ back) := by
  simp only [add, Transcript.pushAll, List.foldl_append]

/-- A turn begins; it goes on with the statement or begins a new one. -/
def turn (p : Page) (goesOn : Bool) : Page :=
  { p with start := if goesOn then p.start else p.transcript.mark }

@[simp] lemma transcript_turn (p : Page) (goesOn : Bool) :
    (p.turn goesOn).transcript = p.transcript := rfl

def clear (p : Page) : Page := { p with transcript := p.transcript.clear }

def rewind (p : Page) (mark : Nat) : Page :=
  let mark := max mark p.transcript.first
  if p.transcript.mark ≤ mark then p
  else { transcript := p.transcript.rewind mark, start := min p.start mark }

lemma transcript_rewind_eq (p : Page) (mark : Nat) :
    (p.rewind mark).transcript = p.transcript.rewind (max mark p.transcript.first) := by
  unfold rewind
  dsimp only
  split
  · rename_i reached
    exact (Transcript.rewind_of_mark_le reached).symm
  · rfl

/-- Rewinding takes back what was added, as long as no old line had to go for it. -/
lemma transcript_rewind {p : Page} {t : Transcript} (h : t.Extends p.transcript)
    (first : p.transcript.first = t.first) : (p.rewind t.mark).transcript = t := by
  have above : max t.mark p.transcript.first = t.mark := by
    unfold Transcript.mark
    omega
  rw [transcript_rewind_eq, above, h.rewind_mark first]

end Page

namespace Renderer

def page (r : Renderer) : Page := { transcript := r.transcript, start := r.statementStart }

@[simp] lemma page_render (r : Renderer) (frame : Frame) : (r.render frame).2.page = r.page := by
  unfold render
  dsimp only
  split
  · rfl
  · unfold prepare
    split <;> rfl

@[simp] lemma page_setStatus (r : Renderer) (text : Bytes) : (r.setStatus text).page = r.page := by
  unfold setStatus
  split <;> rfl

@[simp] lemma page_setGeometry (r : Renderer) (g : Geometry) : (r.setGeometry g).page = r.page := by
  unfold setGeometry
  split <;> rfl

lemma plain_highlight (r : Renderer) (text : Bytes) : (r.highlight text).plain = text := by
  unfold highlight
  split
  · rename_i faithful
    rw [Bool.and_eq_true, beq_iff_eq] at faithful
    exact faithful.2
  · exact StyledLine.plain_ofText text .default

lemma page_rewind (r : Renderer) (mark : Nat) : (r.rewind mark).page = r.page.rewind mark := by
  unfold rewind
  dsimp only
  rw [apply_ite page]
  rfl

lemma transcript_rewind {r : Renderer} {t : Transcript} (h : t.Extends r.transcript)
    (first : r.transcript.first = t.first) : (r.rewind t.mark).transcript = t := by
  change (r.rewind t.mark).page.transcript = t
  rw [page_rewind]
  exact Page.transcript_rewind h first

end Renderer
end CalcShell
