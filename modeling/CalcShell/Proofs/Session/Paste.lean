import CalcShell.Proofs.Calc.Continuation
import CalcShell.Proofs.Keyboard.Bindings
import CalcShell.Proofs.Session.Runs
import CalcShell.Proofs.Session.Typing

/-! Pasted text comes to the evaluator as it is. A session to which keys come quickly is followed
against somebody who only writes keys down and hands every line over: whatever is evaluated in between,
and whatever it asks for, the session does the same. -/
namespace CalcShell
open CalcShell.Calc (Calculator)

/-! ### Lines one after the other -/

section

variable {ε : Type} [Evaluator ε] (env : Environment)

/-- What comes of a line that nobody interrupts. -/
def Evaluator.take (e : ε) (line : Bytes) : Submission ε := Evaluator.submit e env {} line

def Evaluator.exits (e : ε) (line : Bytes) : Bool := (Evaluator.take env e line).outcome == .exit

/-- The lines of a list up to the first one that exits. -/
def Evaluator.untilExit : ε → List Bytes → List Bytes
  | _, [] => []
  | e, line :: lines =>
    line :: if Evaluator.exits env e line then []
      else Evaluator.untilExit (Evaluator.take env e line).next lines

/-- Whether one of the lines exits. -/
def Evaluator.exitsIn : ε → List Bytes → Bool
  | _, [] => false
  | e, line :: lines =>
    Evaluator.exits env e line || Evaluator.exitsIn (Evaluator.take env e line).next lines

def Evaluator.feed (e : ε) (lines : List Bytes) : ε :=
  lines.foldl (fun e line => (Evaluator.take env e line).next) e

/-- Evaluators that nobody interrupts never say so. -/
structure Evaluator.IsCalm (Good : ε → Prop) : Prop where
  outcome : ∀ {env e} line, Good e → (Evaluator.take env e line).outcome ≠ .interrupted
  patience : ∀ {env e} line, Good e → (Evaluator.take env e line).patience = {}
  next : ∀ {env e} line, Good e → Good (Evaluator.take env e line).next

end

/-- An evaluator that notes what comes to it. -/
structure Spy (ε : Type) where
  inner : ε
  heard : List Bytes := []

instance {ε : Type} [Evaluator ε] : Evaluator (Spy ε) where
  submit e env patience text :=
    let sub := Evaluator.submit e.inner env patience text
    { outcome := sub.outcome, pieces := sub.pieces, patience := sub.patience
      next := { inner := sub.next, heard := e.heard ++ [text] } }
  reset e := { e with inner := Evaluator.reset e.inner }

/-! ### Somebody who writes keys down -/

structure Typist (ε : Type) where
  evaluator : ε
  text : Bytes := []
  isOver : Bool := false

namespace Typist

variable {ε : Type} [Evaluator ε] (env : Environment)

/-- ENTER hands a line over, unless a line has ended everything. Every other key is written down. -/
def press (p : Typist ε) (key : Bytes) : Typist ε :=
  if p.isOver then p
  else if key = bytes "ENTER" then
    { evaluator := (Evaluator.take env p.evaluator p.text).next
      isOver := Evaluator.exits env p.evaluator p.text }
  else { p with text := p.text ++ key }

variable {env}

lemma good_press {Good : ε → Prop} (calm : Evaluator.IsCalm Good) {p : Typist ε}
    (good : Good p.evaluator) (key : Bytes) : Good (p.press env key).evaluator := by
  rw [press]
  split
  · exact good
  · split
    · exact calm.next p.text good
    · exact good

variable {e : ε}

/-- What is written is the line, and then the end of it hands it over. -/
lemma foldl_press_line {keys : List Bytes} (plain : ∀ key ∈ keys, key ≠ bytes "ENTER") (text : Bytes) :
    keys.foldl (press env) { evaluator := e, text } =
      { evaluator := e, text := text ++ keys.flatten } := by
  induction keys generalizing text with
  | nil => simp
  | cons key keys ih =>
    obtain ⟨other, others⟩ := List.forall_mem_cons.1 plain
    have written : press env { evaluator := e, text } key = { evaluator := e, text := text ++ key } :=
      if_neg other
    rw [List.foldl_cons, written, ih others, List.flatten_cons, List.append_assoc]

lemma foldl_press_of_isOver {p : Typist ε} (ended : p.isOver) (keys : List Bytes) :
    keys.foldl (press env) p = p := by
  induction keys with
  | nil => rfl
  | cons key keys ih => rw [List.foldl_cons, press, if_pos ended, ih]

/-- The lines are handed over as they are, up to the first one that exits, and what follows the last
of them stays. -/
theorem foldl_press {lines : List (List Bytes)} (plain : ∀ line ∈ lines, ∀ key ∈ line, key ≠ bytes "ENTER")
    {last : List Bytes} (plainLast : ∀ key ∈ last, key ≠ bytes "ENTER") :
    (lines.flatMap (· ++ [bytes "ENTER"]) ++ last).foldl (press env) { evaluator := e } =
      { evaluator := Evaluator.feed env e (Evaluator.untilExit env e (lines.map List.flatten))
        text := if Evaluator.exitsIn env e (lines.map List.flatten) then [] else last.flatten
        isOver := Evaluator.exitsIn env e (lines.map List.flatten) } := by
  induction lines generalizing e with
  | nil => exact foldl_press_line plainLast []
  | cons line lines ih =>
    obtain ⟨first, others⟩ := List.forall_mem_cons.1 plain
    rw [List.flatMap_cons, List.append_assoc, List.append_assoc, List.foldl_append, foldl_press_line first,
      List.nil_append, List.singleton_append, List.foldl_cons, press, if_neg Bool.false_ne_true, if_pos rfl]
    dsimp only
    rw [List.map_cons, Evaluator.untilExit, Evaluator.exitsIn]
    cases exits : Evaluator.exits env e line.flatten with
    | true =>
      rw [foldl_press_of_isOver rfl]
      rfl
    | false =>
      rw [ih others]
      rfl

end Typist

namespace Session

variable {ε : Type}

/-- Keys that come one after the other, each close to the one before it, and in between ticks and what
others do to the files. Nobody interrupts, and no lines come from elsewhere. -/
inductive IsTyped (config : Config) : Option Int → List Bytes → List Happening → Prop where
  | done {last : Option Int} : IsTyped config last [] []
  | key {last : Option Int} {key : Bytes} {keys : List Bytes} {run : List Happening} (now : Int)
    (close : ∀ t ∈ last, config.isPaste (now - t)) (rest : IsTyped config (some now) keys run) :
    IsTyped config last (key :: keys) (.event (.key key) now :: run)
  | tick {last : Option Int} {keys : List Bytes} {run : List Happening} (now : Int)
    (rest : IsTyped config last keys run) : IsTyped config last keys (.event .tick now :: run)
  | meanwhile {last : Option Int} {keys : List Bytes} {run : List Happening} (files : FileTree)
    (redraws : Bool) (rest : IsTyped config last keys run) :
    IsTyped config last keys (.meanwhile {} files [] redraws :: run)

variable [Evaluator ε] {config : Config} {env : Environment}

/-- A session that stands where a typist does. -/
structure Attends (config : Config) (env : Environment) (s : Session ε) (last : Option Int)
    (p : Typist ε) : Prop where
  evaluator : s.evaluator = p.evaluator
  isOver : s.isExiting = p.isOver
  env : s.surroundings.env = env
  typing : p.isOver = false → ∃ line isPasting lastKey,
    s.typing = { config, line, lineSources := [], isPasting, lastKey, savePath := none, patience := {} } ∧
      line.before = p.text ∧ line.after = [] ∧ ∀ t ∈ last, lastKey = some t

variable {s : Session ε} {last : Option Int} {p : Typist ε}

omit [Evaluator ε] in
lemma Attends.of_core {s' : Session ε} (at' : Attends config env s last p) (core : s'.core = s.core)
    (typing : p.isOver = false → ∃ isPasting, s'.typing = { s.typing with isPasting }) :
    Attends config env s' last p where
  evaluator := (congrArg Core.evaluator core).trans at'.evaluator
  isOver := (congrArg Core.isExiting core).trans at'.isOver
  env := (congrArg Core.env core).trans at'.env
  typing running := by
    obtain ⟨isPasting, typed⟩ := typing running
    obtain ⟨line, _, lastKey, view, text⟩ := at'.typing running
    exact ⟨line, isPasting, lastKey, by rw [typed, view], text⟩

lemma Attends.tick (at' : Attends config env s last p) (now : Int) :
    Attends config env (s.happen (.event .tick now)) last p := by
  rw [happen]
  split
  · exact at'
  · rename_i running
    have running : p.isOver = false := at'.isOver ▸ Bool.eq_false_iff.2 running
    obtain ⟨line, _, lastKey, view, -⟩ := at'.typing running
    have noSources : s.lineSources = [] := congrArg Typing.lineSources view
    obtain ⟨core, isPasting, typed⟩ := idle_of_noSources (s := { s with isStuck := false }) noSources now
    exact at'.of_core core fun _ => ⟨isPasting, typed⟩

lemma Attends.meanwhile (at' : Attends config env s last p) (files : FileTree) (redraws : Bool) :
    Attends config env (s.happen (.meanwhile {} files [] redraws)) last p where
  evaluator := at'.evaluator
  isOver := at'.isOver
  env := at'.env
  typing running := by
    obtain ⟨line, isPasting, lastKey, view, text⟩ := at'.typing running
    refine ⟨line, isPasting, lastKey, ?_, text⟩
    have same : (s.happen (.meanwhile {} files [] redraws)).typing =
      { s.typing with lineSources := [], patience := {} } := rfl
    rw [same, view]

omit [Evaluator ε] in
lemma Attends.noteKey (at' : Attends config env s last p) (now : Int) :
    Attends config env (s.noteKey now) (some now) p where
  evaluator := at'.evaluator
  isOver := at'.isOver
  env := at'.env
  typing running := by
    obtain ⟨line, _, lastKey, view, before, after, -⟩ := at'.typing running
    refine ⟨line, (s.noteKey now).isPasting, some now, ?_, before, after, fun t same => same⟩
    have noted : (s.noteKey now).typing =
      { s.typing with isPasting := (s.noteKey now).isPasting, lastKey := some now } := rfl
    rw [noted, view]

lemma Attends.insertText (at' : Attends config env s last p) (running : p.isOver = false)
    {key : Bytes} (other : key ≠ bytes "ENTER") :
    Attends config env (s.insertText key) last (p.press env key) := by
  have stays : s.isExiting = false := at'.isOver.trans running
  have core : (s.insertText key).core = s.core := core_edited stays (s.line.insert key)
  rw [Typist.press, if_neg (by simp [running]), if_neg other]
  refine ⟨(congrArg Core.evaluator core).trans at'.evaluator,
    (congrArg Core.isExiting core).trans at'.isOver, (congrArg Core.env core).trans at'.env,
    fun _ => ?_⟩
  obtain ⟨line, isPasting, lastKey, view, before, after, noted⟩ := at'.typing running
  have same : s.line = line := congrArg Typing.line view
  refine ⟨line.insert key, isPasting, lastKey, ?_, by rw [InputLine.insert, before], after, noted⟩
  rw [Session.insertText, typing_edited, view, same]

/-- A line that is handed over ends the session or leaves an empty one, whatever is evaluated, if
nobody indents it. -/
lemma Attends.submit (at' : Attends config env s last p) (running : p.isOver = false)
    (outcome : (Evaluator.take env p.evaluator p.text).outcome ≠ .interrupted)
    (patience : (Evaluator.take env p.evaluator p.text).patience = {})
    (plain : (Evaluator.take env p.evaluator p.text).outcome.asksMore = false ∨ s.isPasting)
    (now : Int) : Attends config env (s.submit now) last (p.press env (bytes "ENTER")) := by
  obtain ⟨line, isPasting, lastKey, view, before, after, noted⟩ := at'.typing running
  have text : s.line.text = p.text := by
    rw [show s.line = line from congrArg Typing.line view, InputLine.text, before, after,
      List.append_nil]
  have quiet : s.surroundings.patience = {} := congrArg Typing.patience view
  have came : s.submission = Evaluator.take env p.evaluator p.text := by
    rw [submission, Core.submit, quiet, text, ← at'.env, ← at'.evaluator]
    rfl
  have core := core_submit s now
  rw [Typist.press, if_neg (by simp [running]), if_pos rfl, Evaluator.exits]
  rw [← came] at outcome patience plain ⊢
  by_cases exit : s.submission.outcome = .exit
  · have ended : (s.submission.outcome == .exit) = true := beq_iff_eq.2 exit
    rw [Core.take, exit] at core
    rw [ended]
    exact ⟨congrArg Core.evaluator core, congrArg Core.isExiting core,
      (congrArg Core.env core).trans at'.env, fun running => Bool.noConfusion running⟩
  · have goes : (s.submission.outcome == .exit) = false := beq_eq_false_iff_ne.2 exit
    rw [Core.take_of_taken _ _ outcome exit] at core
    rw [goes]
    refine ⟨congrArg Core.evaluator core, congrArg Core.isExiting core,
      (congrArg Core.env core).trans at'.env, fun _ => ?_⟩
    refine ⟨line.clear, isPasting, lastKey, ?_, rfl, rfl, noted⟩
    rw [typing_submit_of_taken outcome exit plain, view, patience,
      show s.line = line from congrArg Typing.line view]
    rfl

/-! ### A whole paste -/

/-- The keys of a pasted text under the bindings of a configuration. -/
def IsPasted (config : Config) (key : Bytes) : Prop :=
  key = bytes "ENTER" ∧ config.keys.lookup key = .submit ∨
    key ≠ bytes "ENTER" ∧ Key.isPrintable key ∧ config.keys.lookup key = .ignore

lemma ne_enter_of_isPrintable {key : Bytes} (printable : Key.isPrintable key) :
    key ≠ bytes "ENTER" := by
  rintro rfl
  exact absurd printable (by decide)

/-- The keys of some lines, with ENTER behind each but the last one. -/
def pasteKeys (lines : List (List Bytes)) (last : List Bytes) : List Bytes :=
  lines.flatMap (· ++ [bytes "ENTER"]) ++ last

lemma isPasted_of_mem_pasteKeys (built : config.keys.IsBuilt)
    (enter : config.keys.lookup (bytes "ENTER") = .submit) {lines : List (List Bytes)}
    {last : List Bytes} (printable : ∀ line ∈ last :: lines, ∀ key ∈ line, Key.isPrintable key) :
    ∀ key ∈ pasteKeys lines last, IsPasted config key := by
  intro key mem
  obtain rfl | ⟨line, mem, held⟩ : key = bytes "ENTER" ∨ ∃ line ∈ last :: lines, key ∈ line := by
    simp only [pasteKeys, List.mem_append, List.mem_flatMap, List.mem_singleton] at mem
    obtain ⟨line, mem, held | ends⟩ | held := mem
    · exact .inr ⟨line, List.mem_cons_of_mem _ mem, held⟩
    · exact .inl ends
    · exact .inr ⟨last, List.mem_cons_self, held⟩
  · exact .inl ⟨rfl, enter⟩
  · have printable := printable line mem key held
    exact .inr ⟨ne_enter_of_isPrintable printable, printable, built.lookup_of_printable printable⟩

variable {Good : ε → Prop}

lemma Attends.key (calm : Evaluator.IsCalm Good) (at' : Attends config env s last p)
    (good : Good p.evaluator) {key : Bytes} (pasted : IsPasted config key)
    (first : last = none → (Evaluator.take env p.evaluator p.text).outcome.asksMore = false)
    {now : Int} (close : ∀ t ∈ last, config.isPaste (now - t)) :
    Attends config env (s.happen (.event (.key key) now)) (some now) (p.press env key) := by
  rw [happen]
  split
  · rename_i ended
    have ended : p.isOver = true := at'.isOver.symm.trans ended
    rw [Typist.press, if_pos ended]
    exact ⟨at'.evaluator, at'.isOver, at'.env, fun running => absurd running (by simp [ended])⟩
  · rename_i running
    have running : p.isOver = false := at'.isOver ▸ Bool.eq_false_iff.2 running
    obtain ⟨line, _, lastKey, view, -, -, noted⟩ := at'.typing running
    have bindings : s.config = config := congrArg Typing.config view
    have unasked : s.savePath = none := congrArg Typing.savePath view
    have at' : Attends config env { s with isStuck := false } last p := at'.of_core rfl fun _ => ⟨_, rfl⟩
    have stays : { s with isStuck := false }.isExiting = false := at'.isOver.trans running
    rw [handle]
    obtain ⟨rfl, bound⟩ | ⟨other, printable, free⟩ := pasted
    · rw [handleKey_of_submit stays unasked (by rwa [bindings])]
      refine (at'.noteKey now).submit running (calm.outcome _ good) (calm.patience _ good) ?_ now
      cases last with
      | none => exact .inl (first rfl)
      | some t =>
        right
        refine isPasting_noteKey ?_ (bindings ▸ close t rfl)
        exact (congrArg Typing.lastKey view).trans (noted t rfl)
    · rw [handleKey_of_printable stays unasked (by rwa [bindings]) printable]
      exact (at'.noteKey now).insertText running other

/-- The session stands where the typist does after every paste. -/
theorem attends_after (calm : Evaluator.IsCalm Good) {keys : List Bytes} {run : List Happening}
    (typed : IsTyped config last keys run) (pasted : ∀ key ∈ keys, IsPasted config key)
    (at' : Attends config env s last p) (good : Good p.evaluator)
    (first : last = none → (Evaluator.take env p.evaluator p.text).outcome.asksMore = false) :
    ∃ last, Attends config env (s.after run) last (keys.foldl (Typist.press env) p) := by
  induction typed generalizing s p with
  | done => exact ⟨_, at'⟩
  | key now close rest ih =>
    obtain ⟨first', others⟩ := List.forall_mem_cons.1 pasted
    exact ih others (at'.key calm good first' first close) (Typist.good_press calm good _) nofun
  | tick now rest ih => exact ih pasted (at'.tick now) good first
  | meanwhile files redraws rest ih => exact ih pasted (at'.meanwhile files redraws) good first

/-- A session with its evaluator under watch. -/
def spied (s : Session ε) : Session (Spy ε) :=
  { s with evaluator := { inner := s.evaluator }, symbols := fun spy => s.symbols spy.inner }

end Session

/-! ### Evaluators under watch -/

namespace Evaluator

variable {ε : Type} [Evaluator ε] {env : Environment}

lemma IsCalm.spy {Good : ε → Prop} (calm : IsCalm Good) : IsCalm fun spy : Spy ε => Good spy.inner where
  outcome line good := calm.outcome line good
  patience line good := calm.patience line good
  next line good := calm.next line good

lemma untilExit_spy (spy : Spy ε) (lines : List Bytes) :
    untilExit env spy lines = untilExit env spy.inner lines := by
  induction lines generalizing spy with
  | nil => rfl
  | cons line lines ih =>
    rw [untilExit, untilExit, ih]
    rfl

/-- A spy hears just the lines that it is fed. -/
lemma feed_spy (spy : Spy ε) (lines : List Bytes) :
    feed env spy lines = { inner := feed env spy.inner lines, heard := spy.heard ++ lines } := by
  induction lines generalizing spy with
  | nil => exact congrArg (Spy.mk _) (List.append_nil _).symm
  | cons line lines ih =>
    refine (ih (take env spy line).next).trans ?_
    exact congrArg (Spy.mk _) (List.append_assoc _ _ _)

lemma untilExit_of_stays {e : ε} {lines : List Bytes} (stays : exitsIn env e lines = false) :
    untilExit env e lines = lines := by
  induction lines generalizing e with
  | nil => rfl
  | cons line lines ih =>
    rw [exitsIn, Bool.or_eq_false_iff] at stays
    rw [untilExit, stays.1, ih stays.2]
    rfl

end Evaluator

/-! ### Pastes for a calculator -/

namespace Calc.Calculator

lemma isCalm : Evaluator.IsCalm WellFormed where
  outcome line formed := (calm_submit _ line formed).1
  patience line formed := (calm_submit _ line formed).2
  next line formed := wellFormed_next _ _ line formed

/-- An empty line asks for nothing if no statement is unfinished. -/
lemma asksMore_nil {c : Calculator} (idle : c.isUnfinished = false) (env : Environment)
    (p : Patience) : (c.submit env p []).outcome.asksMore = false := by
  obtain ⟨none, block⟩ := isUnfinished_eq_false.1 idle
  have asks : ({ c with pending := [] }.submit env p []).outcome.asksMore = true ↔ GoesOn [[]] :=
    asksMore_submit_iff block none (by decide +kernel) (by decide +kernel)
  have same : { c with pending := [] } = c := by rw [← none]
  rw [same] at asks
  rw [Bool.eq_false_iff, Ne, asks]
  rintro (deep | ⟨line, mem, ends⟩)
  · exact absurd deep (by decide +kernel)
  · cases mem
    exact absurd ends (by decide)

end Calc.Calculator

namespace Session

/-- A session in which nothing is begun: no line, no statement, no question for a path, nothing that
brings lines and no interrupt. -/
structure IsIdle (s : Session Calculator) : Prop where
  turn : s.turn = .empty
  line : s.line.text = []
  finished : s.evaluator.isUnfinished = false
  unasked : s.savePath = none
  noSources : s.lineSources = []
  quiet : s.surroundings.patience = {}

lemma IsIdle.attends {s : Session Calculator} (idle : s.IsIdle) :
    Attends s.config s.surroundings.env s none { evaluator := s.evaluator } := by
  obtain ⟨unwritten, unread⟩ : s.line.before = [] ∧ s.line.after = [] :=
    List.append_eq_nil_iff.1 idle.line
  have running : s.isExiting = false := by
    rw [isExiting, idle.turn]
    rfl
  refine ⟨rfl, running, rfl, fun _ => ⟨s.line, s.isPasting, s.lastKey, ?_, unwritten, unread, nofun⟩⟩
  rw [typing, idle.noSources, idle.unasked, idle.quiet]

lemma Attends.spied {ε : Type} {s : Session ε} {config : Config} {env : Environment}
    {last : Option Int} {p : Typist ε} (at' : Attends config env s last p) :
    Attends config env s.spied last
      { evaluator := { inner := p.evaluator }, text := p.text, isOver := p.isOver } :=
  ⟨congrArg (Spy.mk · []) at'.evaluator, at'.isOver, at'.env, at'.typing⟩

/-- The lines of a paste come to the calculator as they are, up to the first one that exits, and what
follows the last of them is the line being edited. -/
theorem heard_of_paste {s : Session Calculator} (idle : s.IsIdle) (built : s.config.keys.IsBuilt)
    (enter : s.config.keys.lookup (bytes "ENTER") = .submit) {lines : List (List Bytes)}
    {last : List Bytes} (printable : ∀ line ∈ last :: lines, ∀ key ∈ line, Key.isPrintable key)
    {run : List Happening} (typed : IsTyped s.config none (pasteKeys lines last) run) :
    let texts := lines.map List.flatten
    let heard := Evaluator.untilExit s.surroundings.env s.evaluator texts
    let exits := Evaluator.exitsIn s.surroundings.env s.evaluator texts
    (s.spied.after run).evaluator = { inner := (s.after run).evaluator, heard } ∧
      (s.after run).evaluator = Evaluator.feed s.surroundings.env s.evaluator heard ∧
      (s.after run).isExiting = exits ∧
      (exits = false → heard = texts ∧ (s.after run).line.text = last.flatten) := by
  intro texts heard exits
  have formed : s.evaluator.WellFormed := fun _ =>
    (Calculator.isUnfinished_eq_false.1 idle.finished).1
  have pasted := isPasted_of_mem_pasteKeys built enter printable
  have first : (Evaluator.take s.surroundings.env s.evaluator []).outcome.asksMore = false :=
    Calculator.asksMore_nil idle.finished _ _
  obtain ⟨_, at'⟩ := attends_after Calculator.isCalm typed pasted idle.attends formed fun _ => first
  obtain ⟨_, watched⟩ :=
    attends_after Calculator.isCalm.spy typed pasted idle.attends.spied formed fun _ => first
  obtain ⟨plainLast, plain⟩ := List.forall_mem_cons.1 fun line mem key held =>
    ne_enter_of_isPrintable (printable line mem key held)
  rw [pasteKeys, Typist.foldl_press plain plainLast] at at' watched
  refine ⟨?_, at'.evaluator, at'.isOver, fun stays => ⟨Evaluator.untilExit_of_stays stays, ?_⟩⟩
  · rw [watched.evaluator, at'.evaluator, Evaluator.untilExit_spy, Evaluator.feed_spy]
    rfl
  · obtain ⟨line, _, _, view, before, after, -⟩ := at'.typing stays
    rw [show (s.after run).line = line from congrArg Typing.line view, InputLine.text, before, after,
      List.append_nil]
    exact if_neg (Bool.eq_false_iff.1 stays)

/-- Keys that come at equal distances. -/
def evenly (gap : Int) : Int → List Bytes → List Happening
  | _, [] => []
  | now, key :: keys => .event (.key key) now :: evenly gap (now + gap) keys

lemma isTyped_evenly {config : Config} {gap : Int} (close : config.isPaste gap) (keys : List Bytes)
    {now : Int} {last : Option Int} (first : ∀ t ∈ last, now - t = gap) :
    IsTyped config last keys (evenly gap now keys) := by
  induction keys generalizing now last with
  | nil => exact .done
  | cons key keys ih =>
    refine .key now (fun t mem => by rwa [first t mem]) (ih fun t mem => ?_)
    cases mem
    omega

/-- Lines of a statement and of a block, which asks for indentation, and the beginning of a name that
could be completed. -/
theorem heard_of_pasted_block :
    let s := Shell.start {} {} none {}
    let keys (text : String) : List Bytes := (bytes text).map ([·])
    let lines := [keys "print(", keys "1)", keys "repeat 2:", keys "print(2)"]
    let run := evenly 1000000 0 (pasteKeys lines (keys "pri"))
    (s.spied.after run).evaluator.heard =
        [bytes "print(", bytes "1)", bytes "repeat 2:", bytes "print(2)"] ∧
      (s.after run).line.text = bytes "pri" := by
  intro s keys lines run
  have idle : s.IsIdle := ⟨by decide +kernel, by decide +kernel, by decide +kernel, by decide +kernel,
    by decide +kernel, by decide +kernel⟩
  have typed : IsTyped s.config none (pasteKeys lines (keys "pri")) run :=
    isTyped_evenly (by decide +kernel) _ nofun
  obtain ⟨heard, -, -, line⟩ := heard_of_paste idle .defaults (by decide +kernel)
    (by decide +kernel) typed
  obtain ⟨texts, line⟩ := line (by decide +kernel)
  rw [heard, line]
  exact ⟨texts, rfl⟩

end Session
end CalcShell
