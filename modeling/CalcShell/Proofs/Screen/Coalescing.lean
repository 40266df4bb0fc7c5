import CalcShell.Screen.Throttle
import Mathlib.Algebra.Group.Int.Defs
import Mathlib.Data.List.DropRight
import Mathlib.Tactic.Lemma

/-! No output is lost when redraws are coalesced. Output that is not drawn when it arrives waits for the
timer, which is armed then, and the timer draws it. What the throttle remembers is read off a log of what
has happened. -/
namespace CalcShell.Throttle

/-- What a throttle hears. Times are in nanoseconds, the interval in milliseconds. -/
inductive Event where
  | output (now : Int)
  | tick (now : Int)
  | setInterval (interval : Int)
deriving DecidableEq, Repr

namespace Event

def time? : Event → Option Int
  | .output now | .tick now => some now
  | .setInterval _ => none

def isOutput : Event → Bool
  | .output _ => true
  | _ => false

end Event

/-- Also tells whether something is drawn. -/
def handle (t : Throttle) : Event → Bool × Throttle
  | .output now => t.output now
  | .tick now => t.tick now
  | .setInterval interval => (false, { t with interval })

def after (t : Throttle) (events : List Event) : Throttle :=
  events.foldl (fun t event => (t.handle event).2) t

/-- An event as it is seen from outside. -/
structure Entry where
  event : Event
  wasArmed : Bool
  drawn : Bool
deriving DecidableEq, Repr

/-- Output that finds the timer at rest arms it. -/
def Entry.arms (entry : Entry) : Bool := entry.event.isOutput && !entry.wasArmed

def entry (t : Throttle) (event : Event) : Entry := ⟨event, t.isArmed, (t.handle event).1⟩

def log (t : Throttle) : List Event → List Entry
  | [] => []
  | event :: rest => t.entry event :: (t.handle event).2.log rest

/-- Some output came after the most recent draw. -/
def waits (log : List Entry) : Bool := (log.rtakeWhile (!·.drawn)).any (·.event.isOutput)

/-- The time of the most recent entry of a kind. -/
def last? (kind : Entry → Bool) (log : List Entry) : Option Int :=
  (log.filter kind).getLast?.bind (·.event.time?)

/-- Twice the interval reaches no further back than 64 bits of nanoseconds. -/
def IsInterval (interval : Int) : Prop := -2 ^ 63 ≤ 2 * interval * 1000000

/-- 64 bits hold the time from any event to any other, and no interval is too far below zero. -/
structure IsTimed (events : List Event) : Prop where
  time : ∀ event ∈ events, ∀ earlier ∈ events,
    ∀ now ∈ event.time?, ∀ before ∈ earlier.time?, now - before < 2 ^ 63
  interval : ∀ interval, .setInterval interval ∈ events → IsInterval interval

variable {t : Throttle} {event : Event} {events : List Event} {now : Int}

/-! ### The log -/

lemma after_snoc (t : Throttle) (front : List Event) (event : Event) :
    t.after (front ++ [event]) = ((t.after front).handle event).2 := by
  rw [after, List.foldl_append]
  rfl

lemma log_snoc (t : Throttle) (front : List Event) (event : Event) :
    t.log (front ++ [event]) = t.log front ++ [(t.after front).entry event] := by
  induction front generalizing t with
  | nil => rfl
  | cons first front ih =>
    rw [List.cons_append, log, ih]
    rfl

lemma waits_snoc (log : List Entry) (entry : Entry) :
    waits (log ++ [entry]) = (!entry.drawn && (waits log || entry.event.isOutput)) := by
  cases drawn : entry.drawn with
  | false => simp [waits, List.rtakeWhile_concat_pos, drawn]
  | true => simp [waits, List.rtakeWhile_concat_neg, drawn]

lemma last?_snoc (kind : Entry → Bool) (log : List Entry) (entry : Entry) :
    last? kind (log ++ [entry]) = if kind entry then entry.event.time? else last? kind log := by
  unfold last?
  split <;> rename_i isKind <;> simp [isKind]

/-! ### One event -/

/-- Where something is drawn, nothing waits any longer. -/
lemma handle_of_drawn (drawn : (t.handle event).1 = true) :
    (t.handle event).2.isPending = false ∧ event.time? = some (t.handle event).2.lastDraw := by
  cases event with
  | output now => grind [handle, output, Event.time?]
  | tick now => grind [handle, tick, Event.time?]
  | setInterval interval => cases drawn

/-- Where nothing is drawn, output waits. -/
lemma handle_of_quiet (quiet : (t.handle event).1 = false) :
    (t.handle event).2.isPending = (t.isPending || event.isOutput) ∧
      (t.handle event).2.lastDraw = t.lastDraw ∧
      ((t.handle event).2.isArmed = true → t.isArmed = true) := by
  cases event with
  | output now => grind [handle, output, Event.isOutput]
  | tick now => grind [handle, tick, Event.isOutput]
  | setInterval interval => simp [handle, Event.isOutput]

/-- Only a tick that leaves nothing to draw disarms the timer. -/
lemma isArmed_handle (kept : t.isPending = true → t.isArmed = true)
    (pending : (t.handle event).2.isPending = true) : (t.handle event).2.isArmed = true := by
  cases event with
  | output now => grind [handle, output]
  | tick now => grind [handle, tick]
  | setInterval interval => exact kept pending

lemma handle_of_arms (arms : (t.entry event).arms = true) :
    event.time? = some (t.handle event).2.armedAt := by
  cases event <;> grind [Entry.arms, entry, handle, output, Event.isOutput, Event.time?]

lemma handle_of_not_arms (others : (t.entry event).arms = false)
    (armed : (t.handle event).2.isArmed = true) :
    t.isArmed = true ∧ (t.handle event).2.armedAt = t.armedAt := by
  cases event with
  | output now => grind [Entry.arms, entry, handle, output, Event.isOutput]
  | tick now => grind [handle, tick]
  | setInterval interval => exact ⟨armed, rfl⟩

/-! ### What is remembered -/

/-- What a throttle remembers of what it has heard. While the timer is at rest it need not know when it
was armed or when something was drawn. -/
structure Remembers (t : Throttle) (log : List Entry) : Prop where
  pending : t.isPending = waits log
  armed : t.isPending = true → t.isArmed = true
  lastDraw : t.isArmed = true → last? (·.drawn) log = some t.lastDraw
  armedAt : t.isArmed = true → last? Entry.arms log = some t.armedAt

lemma Remembers.handle {log : List Entry} (remembers : t.Remembers log) (event : Event) :
    (t.handle event).2.Remembers (log ++ [t.entry event]) where
  pending := by
    rw [waits_snoc, ← remembers.pending, entry]
    cases drawn : (t.handle event).1 with
    | false => simpa using (handle_of_quiet drawn).1
    | true => simpa using (handle_of_drawn drawn).1
  armed := isArmed_handle remembers.armed
  lastDraw armed := by
    rw [last?_snoc]
    split
    · rename_i drawn
      exact (handle_of_drawn drawn).2
    · rename_i quiet
      obtain ⟨-, same, wasArmed⟩ := handle_of_quiet (Bool.eq_false_iff.2 quiet)
      rw [same]
      exact remembers.lastDraw (wasArmed armed)
  armedAt armed := by
    rw [last?_snoc]
    split
    · rename_i arms
      exact handle_of_arms arms
    · rename_i others
      obtain ⟨wasArmed, same⟩ := handle_of_not_arms (Bool.eq_false_iff.2 others) armed
      rw [same]
      exact remembers.armedAt wasArmed

theorem remembers_after (interval : Int) (events : List Event) :
    (({ interval } : Throttle).after events).Remembers (({ interval } : Throttle).log events) := by
  induction events using List.reverseRecOn with
  | nil => exact ⟨rfl, nofun, nofun, nofun⟩
  | append_singleton front event ih =>
    rw [after_snoc, log_snoc]
    exact ih.handle event

/-! ### Time -/

lemma ofMilliseconds_of_lt {n : Int} (low : -2 ^ 63 ≤ n * 1000000) (high : n * 1000000 < 2 ^ 63) :
    ofMilliseconds n = n * 1000000 := by
  unfold ofMilliseconds Number.wrapTime
  apply Int.bmod_eq_of_le_mul_two <;> omega

lemma tick_of_rest (rest : t.isArmed = false) : (t.tick now).1 = false := by
  simp [tick, rest]

lemma tick_of_due (armed : t.isArmed = true) (isInterval : IsInterval t.interval)
    (near : now - t.armedAt < 2 ^ 63) (due : t.armedAt + t.interval * 1000000 ≤ now) :
    (t.tick now).1 = t.isPending := by
  unfold IsInterval at isInterval
  have window : ofMilliseconds t.interval = t.interval * 1000000 :=
    ofMilliseconds_of_lt (by omega) (by omega)
  have notEarly : ¬now - t.armedAt < ofMilliseconds t.interval := by omega
  cases pending : t.isPending <;> simp [tick, armed, notEarly, pending]

lemma armed_of_putOff (putOff : (t.output now).1 = false) :
    t.isArmed = true ∧ now - t.lastDraw ≤ ofMilliseconds (Number.wrapTime (2 * t.interval)) := by
  grind [output]

/-- Two intervals that 64 bits cannot hold are longer than any time from one event to another. -/
lemma recent_of_le (isInterval : IsInterval t.interval) (near : now - t.lastDraw < 2 ^ 63)
    (recent : now - t.lastDraw ≤ ofMilliseconds (Number.wrapTime (2 * t.interval))) :
    now - t.lastDraw ≤ 2 * t.interval * 1000000 := by
  unfold IsInterval at isInterval
  by_cases long : 2 * t.interval * 1000000 < 2 ^ 63
  · have double : Number.wrapTime (2 * t.interval) = 2 * t.interval := by
      apply Int.bmod_eq_of_le_mul_two <;> omega
    rwa [double, ofMilliseconds_of_lt isInterval long] at recent
  · omega

lemma map_event_log (t : Throttle) (events : List Event) : (t.log events).map (·.event) = events := by
  induction events generalizing t with
  | nil => rfl
  | cons event rest ih => rw [log, List.map_cons, ih, entry]

lemma exists_event_of_last? {kind : Entry → Bool} {time : Int}
    (last : last? kind (t.log events) = some time) : ∃ event ∈ events, time ∈ event.time? := by
  obtain ⟨entry, found, isTime⟩ := Option.bind_eq_some_iff.1 last
  have mem : entry ∈ t.log events := (List.mem_filter.1 (List.mem_of_getLast? found)).1
  refine ⟨entry.event, ?_, isTime⟩
  rw [← map_event_log t events]
  exact List.mem_map_of_mem mem

lemma isInterval_after (first : IsInterval t.interval)
    (later : ∀ interval, .setInterval interval ∈ events → IsInterval interval) :
    IsInterval (t.after events).interval := by
  induction events using List.reverseRecOn with
  | nil => exact first
  | append_singleton front event ih =>
    have before := ih fun interval mem => later interval (List.mem_append_left _ mem)
    rw [after_snoc]
    cases event with
    | output now => grind [handle, output]
    | tick now => grind [handle, tick]
    | setInterval interval => exact later interval (by simp)

/-- Whatever a new throttle hears, output is pending exactly when some came after the most recent draw, and
then the timer is armed. A tick that comes at least one interval after the timer was armed draws just
what is pending, and output is put off only if the last draw is at most two intervals ago. -/
theorem pending_output_is_drawn (interval : Int) (events : List Event) :
    let t := ({ interval } : Throttle).after events
    let log := ({ interval } : Throttle).log events
    t.isPending = waits log ∧ (t.isPending = true → t.isArmed = true) ∧
      ∀ now, IsTimed (.tick now :: .setInterval interval :: events) →
        ((∀ armed ∈ last? Entry.arms log, armed + t.interval * 1000000 ≤ now) →
          (t.tick now).1 = t.isPending) ∧
        ((t.output now).1 = false →
          ∃ drawn ∈ last? (·.drawn) log, now - drawn ≤ 2 * t.interval * 1000000) := by
  intro t log
  have remembers : t.Remembers log := remembers_after interval events
  refine ⟨remembers.pending, remembers.armed, fun now timed => ?_⟩
  have isInterval : IsInterval t.interval := by
    apply isInterval_after
    · exact timed.interval interval (by simp)
    · exact fun later mem => timed.interval later (by simp [mem])
  have near {kind : Entry → Bool} {time : Int} (last : last? kind log = some time) : now - time < 2 ^ 63 := by
    obtain ⟨event, mem, isTime⟩ := exists_event_of_last? last
    exact timed.time (.tick now) List.mem_cons_self event (by simp [mem]) now rfl time isTime
  refine ⟨fun due => ?_, fun putOff => ?_⟩
  · cases armed : t.isArmed with
    | false => rw [tick_of_rest armed, Bool.eq_false_iff.2 (mt remembers.armed (by simp [armed]))]
    | true =>
      have last := remembers.armedAt armed
      exact tick_of_due armed isInterval (near last) (due _ last)
  · obtain ⟨armed, recent⟩ := armed_of_putOff putOff
    have last := remembers.lastDraw armed
    exact ⟨t.lastDraw, last, recent_of_le isInterval (near last) recent⟩

/-- The last output of a burst is drawn when its window is over; output that comes before that is put off,
two intervals after the draw at the latest. -/
theorem pending_output_is_drawn_after_burst :
    let burst : List Event := [.output 0, .tick 1000000, .output 5000000, .output 20000000]
    let t := ({ interval := 50 } : Throttle).after burst
    let log := ({ interval := 50 } : Throttle).log burst
    IsTimed (.tick 50000000 :: .setInterval 50 :: burst) ∧ waits log = true ∧
      (t.tick 50000000).1 = true ∧ (t.output 50000000).1 = false ∧
      ∃ drawn ∈ last? (·.drawn) log, 50000000 - drawn ≤ 100000000 := by
  intro burst t log
  have timed : IsTimed (.tick 50000000 :: .setInterval 50 :: burst) := by
    constructor
    · simp [burst, Event.time?]
    · simp [burst, IsInterval]
  obtain ⟨pending, -, window⟩ := pending_output_is_drawn 50 burst
  have isPending : t.isPending = true := by decide
  have putOff : (t.output 50000000).1 = false := by decide
  obtain ⟨due, recent⟩ := window 50000000 timed
  refine ⟨timed, ?_, ?_, putOff, recent putOff⟩
  · rw [← pending]
    exact isPending
  · rw [due]
    · exact isPending
    · decide

end CalcShell.Throttle
