import CalcShell.Proofs.Completion.Words

/-! Completing a word first takes it as far as its candidates agree, and then shows them one after the
other in its place. The text in front of the word is never touched. -/
namespace CalcShell

/-! ### The common start -/

namespace Completion

/-- The longest text that all of the texts begin with. -/
def IsCommonStart (start : Bytes) (texts : List Bytes) : Prop :=
  ∀ part, part <+: start ↔ ∀ text ∈ texts, part <+: text

lemma prefix_shared_iff (part a b : Bytes) :
    part <+: commonStart.shared a b ↔ part <+: a ∧ part <+: b := by
  induction a generalizing part b with
  | nil => exact ⟨fun none => ⟨none, none.trans List.nil_prefix⟩, And.left⟩
  | cons x a ih =>
    cases b with
    | nil => exact ⟨fun none => ⟨none.trans List.nil_prefix, none⟩, And.right⟩
    | cons y b =>
      cases part with
      | nil => simp
      | cons z part =>
        rw [commonStart.shared]
        split
        · rename_i same
          rw [List.cons_prefix_cons, ih, List.cons_prefix_cons, List.cons_prefix_cons, same]
          exact and_and_left
        · rename_i differ
          rw [List.prefix_nil, List.cons_prefix_cons, List.cons_prefix_cons]
          constructor
          · nofun
          · rintro ⟨⟨rfl, -⟩, rfl, -⟩
            contradiction

lemma prefix_foldl_shared_iff (part first : Bytes) (rest : List Bytes) :
    part <+: rest.foldl commonStart.shared first ↔ part <+: first ∧ ∀ text ∈ rest, part <+: text := by
  induction rest generalizing first with
  | nil => simp
  | cons text rest ih => rw [List.foldl_cons, ih, prefix_shared_iff, List.forall_mem_cons, and_assoc]

lemma isCommonStart_commonStart {texts : List Bytes} (some : texts ≠ []) :
    IsCommonStart (commonStart texts) texts := by
  cases texts with
  | nil => contradiction
  | cons first rest =>
    intro part
    rw [commonStart, prefix_foldl_shared_iff, List.forall_mem_cons]

/-- The candidates agree on more than the word that they complete. -/
def Expands (word : Bytes) (candidates : List Bytes) : Prop :=
  word.length < (commonStart candidates).length ∧ word <+: commonStart candidates

lemma expands_iff (word : Bytes) (candidates : List Bytes) :
    (decide (word.length < (commonStart candidates).length) &&
        word.isPrefixOf (commonStart candidates)) = true ↔ Expands word candidates := by
  rw [Bool.and_eq_true, decide_eq_true_eq, List.isPrefixOf_iff_prefix, Expands]

end Completion

/-! ### The position -/

namespace MatchCursor

/-- The position that follows one among `count` candidates. -/
def turn (count : Nat) (index : Option Nat) (back : Bool) : Nat :=
  match index, back with
  | none, false => 0
  | none, true => count - 1
  | some i, false => (i + 1) % count
  | some i, true => (i + count - 1) % count

/-- The position after steps in some directions. -/
def position (count : Nat) (first : Bool) (rest : List Bool) : Nat :=
  rest.foldl (fun i back => turn count (some i) back) (turn count none first)

/-- The position points to a candidate. -/
def IsInside (cursor : MatchCursor) : Prop := ∀ i ∈ cursor.index, i < cursor.candidates.length

variable {cursor : MatchCursor}

lemma isInside_of_inactive (inactive : cursor.isActive = false) : cursor.IsInside := by
  intro i isIndex
  rw [isActive, Option.mem_def.1 isIndex] at inactive
  cases inactive

lemma turn_lt (some : cursor.candidates ≠ []) (back : Bool) :
    turn cursor.candidates.length cursor.index back < cursor.candidates.length := by
  have positive := List.length_pos_iff.2 some
  unfold turn
  split
  · exact positive
  · omega
  · exact Nat.mod_lt _ positive
  · exact Nat.mod_lt _ positive

lemma next_or_previous (some : cursor.candidates ≠ []) (inside : cursor.IsInside) (back : Bool) :
    (if back then cursor.previous else cursor.next) =
      cursor.select (turn cursor.candidates.length cursor.index back) := by
  have full : cursor.candidates.isEmpty = false := List.isEmpty_eq_false_iff.2 some
  unfold previous next
  rw [full, if_neg Bool.false_ne_true, if_neg Bool.false_ne_true]
  cases back with
  | false =>
    cases cursor.index <;> rfl
  | true =>
    rw [if_pos rfl]
    cases index : cursor.index with
    | none => rfl
    | some i =>
      have below := inside i index
      dsimp only [turn]
      cases i with
      | zero =>
        rw [Nat.zero_add, Nat.mod_eq_of_lt (Nat.sub_lt below Nat.one_pos)]
      | succ i =>
        have around : i + 1 + cursor.candidates.length - 1 = i + cursor.candidates.length := by omega
        rw [around, Nat.add_mod_right, Nat.mod_eq_of_lt (Nat.lt_of_succ_lt below)]

/-- Going on stays inside. -/
lemma isInside_select {i : Nat} (below : i < cursor.candidates.length) :
    (cursor.select i).2.IsInside := by
  intro j isIndex
  cases isIndex
  exact below

end MatchCursor

namespace Completion.Engine

/-! ### One step -/

/-- The line ends in what the cursor shows of its candidates, behind a text that is no part of it. -/
structure Shows (base : Bytes) (cursor : MatchCursor) (line : InputLine) : Prop where
  offers : cursor.candidates ≠ []
  completes : ∀ candidate ∈ cursor.candidates, cursor.word <+: candidate
  inside : cursor.IsInside
  before : line.before = base ++ cursor.current?.getD cursor.word
  after : line.after = []

variable {base : Bytes} {cursor : MatchCursor} {line : InputLine} {engine : Engine}

lemma Shows.text (shows : Shows base cursor line) :
    line.text = base ++ cursor.current?.getD cursor.word := by
  rw [InputLine.text, shows.after, List.append_nil, shows.before]

lemma takeBack_of_shows (shows : Shows base cursor line) :
    takeBack cursor cursor.word line = { line with before := base ++ cursor.word } := by
  have text := shows.text
  have before := shows.before
  unfold takeBack
  cases current : cursor.current? with
  | none =>
    rw [current, Option.getD_none] at before
    rw [← before]
  | some shown =>
    rw [current, Option.getD_some] at text
    dsimp only
    rw [text, if_pos (List.isSuffixOf_iff_suffix.2 (List.suffix_append _ _)), List.length_append,
      Nat.add_sub_cancel, List.take_left, InputLine.set, ← shows.after]

/-- Where the candidates agree on no more than the word, the next one of them takes the place of the
one shown. -/
lemma expand_of_shows (shows : Shows base engine.cursor line)
    (short : (commonStart engine.cursor.candidates).length ≤ engine.cursor.word.length) (back : Bool) :
    let i := MatchCursor.turn engine.cursor.candidates.length engine.cursor.index back
    ∃ shown, engine.cursor.candidates[i]? = some shown ∧
      engine.expand line engine.cursor.word back =
        ({ line with before := base ++ shown },
          { engine with cursor := { engine.cursor with index := some i } }) := by
  intro i
  have below : i < engine.cursor.candidates.length := MatchCursor.turn_lt shows.offers back
  have isPrefix := shows.completes _ (List.getElem_mem below)
  have stays := mt (expands_iff engine.cursor.word engine.cursor.candidates).1
    fun expands => Nat.not_lt.2 short expands.1
  refine ⟨_, List.getElem?_eq_getElem below, ?_⟩
  unfold expand
  dsimp only
  rw [if_neg stays, MatchCursor.next_or_previous shows.offers shows.inside, takeBack_of_shows shows,
    MatchCursor.select, List.getElem?_eq_getElem below, Option.getD_some]
  generalize engine.cursor.candidates[i] = shown at isPrefix
  dsimp only
  rw [if_pos (List.isPrefixOf_iff_prefix.2 isPrefix), InputLine.insert]
  obtain ⟨rest, rfl⟩ := isPrefix
  rw [List.drop_left, List.append_assoc]

lemma Shows.step (shows : Shows base cursor line) {back : Bool} {shown : Bytes}
    (there : cursor.candidates[MatchCursor.turn cursor.candidates.length cursor.index back]? =
      some shown) :
    Shows base
      { cursor with index := some (MatchCursor.turn cursor.candidates.length cursor.index back) }
      { line with before := base ++ shown } where
  offers := shows.offers
  completes := shows.completes
  inside := MatchCursor.isInside_select (MatchCursor.turn_lt shows.offers back)
  before := by
    rw [MatchCursor.current?, Option.bind_some, there, Option.getD_some]
  after := shows.after

/-- Where the candidates agree on more than the word, it is taken that far. -/
lemma expand_of_expands {word : Bytes} (expands : Expands word engine.cursor.candidates)
    (back : Bool) :
    engine.expand line word back =
      (line.insert ((commonStart engine.cursor.candidates).drop word.length),
        { engine with
          set := { engine.set with word := commonStart engine.cursor.candidates }
          cursor := engine.cursor.reset.update (commonStart engine.cursor.candidates)
            engine.cursor.candidates }) := by
  unfold expand
  dsimp only
  rw [if_pos ((expands_iff _ _).2 expands)]

/-! ### Completing -/

lemma isActive_update (cursor : MatchCursor) (word : Bytes) (candidates : List Bytes) :
    (cursor.reset.update word candidates).isActive = false := by
  rw [MatchCursor.update]
  split <;> rfl

/-- The cursor after a refresh: kept while it cycles for the same word, else readied for what is
offered. -/
lemma cursor_refresh_eq (engine : Engine) (sources : Sources) (line : InputLine) :
    let set := (engine.refresh sources line).set
    (engine.refresh sources line).cursor =
      if set.word = [] ∨ set.candidates = [] then {}
      else if engine.cursor.isActive ∧ engine.cursor.word = set.word then engine.cursor
      else { word := set.word, candidates := set.candidates } := by
  have kept := (matchesFor_eq_offered engine sources line).2
  unfold refresh
  generalize engine.matchesFor sources line = found at kept ⊢
  obtain ⟨set, other⟩ := found
  dsimp only at kept ⊢
  simp only [adopt, kept, Bool.or_eq_true, List.isEmpty_iff, Bool.and_eq_true, beq_iff_eq]
  by_cases nothing : set.word = [] ∨ canonical set.isPath set.candidates = []
  · rw [if_pos nothing, if_pos nothing]
    rfl
  · rw [if_neg nothing, if_neg nothing, MatchCursor.update]
    exact if_congr Iff.rfl rfl (if_neg (not_or.1 nothing).1)

/-- A refresh that offers something readies the cursor for it. -/
lemma cursor_refresh {sources : Sources} (inactive : engine.cursor.isActive = false)
    (typed : (engine.refresh sources line).set.word ≠ [])
    (offers : (engine.refresh sources line).set.candidates ≠ []) :
    (engine.refresh sources line).cursor =
      { word := (engine.refresh sources line).set.word
        candidates := (engine.refresh sources line).set.candidates } := by
  rw [cursor_refresh_eq, if_neg (not_or.2 ⟨typed, offers⟩), inactive, if_neg (by simp)]

/-- While it cycles, the cursor does not take over what is offered for its word. -/
lemma cursor_refresh_of_active {sources : Sources} (active : engine.cursor.isActive = true)
    (same : (engine.refresh sources line).set.word = engine.cursor.word)
    (typed : (engine.refresh sources line).set.word ≠ [])
    (offers : (engine.refresh sources line).set.candidates ≠ []) :
    (engine.refresh sources line).cursor = engine.cursor := by
  rw [cursor_refresh_eq, if_neg (not_or.2 ⟨typed, offers⟩), if_pos ⟨active, same.symm⟩]

/-- A refresh leaves the cursor alone, if that is active for the same word, or makes it inactive. -/
lemma refresh_cases (engine : Engine) (sources : Sources) (line : InputLine) :
    (engine.refresh sources line).cursor.isActive = false ∨
      (engine.refresh sources line).cursor = engine.cursor ∧
        (engine.refresh sources line).set.word = engine.cursor.word := by
  rw [cursor_refresh_eq]
  split
  · exact .inl rfl
  · split
    · rename_i same
      exact .inr ⟨rfl, same.2.symm⟩
    · exact .inl rfl

lemma complete_of_active {sources : Sources} (marked : line.before.isBlank = false)
    (active : engine.cursor.isActive = true) (back : Bool) :
    engine.complete sources line back = (true, engine.expand line engine.cursor.word back) := by
  unfold complete
  rw [marked, active]
  rfl

lemma complete_of_inactive {sources : Sources} (marked : line.before.isBlank = false)
    (inactive : engine.cursor.isActive = false) (typed : (engine.refresh sources line).set.word ≠ [])
    (offers : (engine.refresh sources line).set.candidates ≠ []) (back : Bool) :
    engine.complete sources line back =
      (true, (engine.refresh sources line).expand line (engine.refresh sources line).set.word back) := by
  unfold complete
  rw [marked, inactive, if_neg Bool.false_ne_true, if_neg Bool.false_ne_true]
  dsimp only
  rw [if_neg (by simp [typed, offers])]

/-- Some completions in a row, forwards or backwards, with nothing between them. -/
def completeAll (sources : Sources) : List Bool → Engine → InputLine → InputLine × Engine
  | [], engine, line => (line, engine)
  | back :: rest, engine, line =>
    let (_, line, engine) := engine.complete sources line back
    completeAll sources rest engine line

variable {sources : Sources}

lemma Shows.not_isBlank (shows : Shows base cursor line)
    (marked : (base ++ cursor.word).isBlank = false) : line.before.isBlank = false := by
  have isPrefix : cursor.word <+: cursor.current?.getD cursor.word := by
    cases current : cursor.current? with
    | none => exact List.prefix_refl _
    | some shown =>
      obtain ⟨i, -, there⟩ := Option.bind_eq_some_iff.1 current
      exact shows.completes shown (List.mem_of_getElem? there)
  obtain ⟨rest, whole⟩ := isPrefix
  rw [shows.before, ← whole, ← List.append_assoc, Bytes.isBlank_append, marked, Bool.false_and]

/-- In a row of completions the position moves step by step. -/
lemma completeAll_of_shows (rest : List Bool) (engine : Engine) {line : InputLine} {i : Nat}
    (shows : Shows base engine.cursor line) (isIndex : engine.cursor.index = some i)
    (marked : (base ++ engine.cursor.word).isBlank = false)
    (short : (commonStart engine.cursor.candidates).length ≤ engine.cursor.word.length) :
    let count := engine.cursor.candidates.length
    let last := rest.foldl (fun i back => MatchCursor.turn count (some i) back) i
    Shows base { engine.cursor with index := some last } (completeAll sources rest engine line).1 := by
  induction rest generalizing engine line i with
  | nil =>
    have same : { engine.cursor with index := some i } = engine.cursor := by rw [← isIndex]
    change Shows base { engine.cursor with index := some i } line
    rw [same]
    exact shows
  | cons back rest ih =>
    have active : engine.cursor.isActive = true := by rw [MatchCursor.isActive, isIndex]; rfl
    obtain ⟨shown, there, expanded⟩ := expand_of_shows shows short back
    have next := shows.step there
    rw [isIndex] at expanded next
    rw [completeAll, complete_of_active (shows.not_isBlank marked) active, expanded]
    exact ih { engine with cursor := { engine.cursor with index := _ } } next rfl marked short

/-- A row of completions that begins at the word. -/
lemma completeAll_of_ready {found : Engine} {first : Bool} (rest : List Bool)
    (completed : engine.complete sources line first =
      (true, found.expand line found.cursor.word first))
    (shows : Shows base found.cursor line) (fresh : found.cursor.index = none)
    (marked : (base ++ found.cursor.word).isBlank = false)
    (short : (commonStart found.cursor.candidates).length ≤ found.cursor.word.length) :
    let count := found.cursor.candidates.length
    let shown := (completeAll sources (first :: rest) engine line).1
    ∃ candidate, found.cursor.candidates[MatchCursor.position count first rest]? = some candidate ∧
      shown.text = base ++ candidate ∧ shown.after = [] := by
  intro count shown
  obtain ⟨candidate, there, expanded⟩ := expand_of_shows shows short first
  have next := shows.step there
  rw [fresh] at expanded next
  have last : Shows base
      { found.cursor with index := some (MatchCursor.position count first rest) } shown := by
    change Shows base _ (completeAll sources (first :: rest) engine line).1
    rw [completeAll, completed, expanded]
    exact completeAll_of_shows rest
      { found with cursor := { found.cursor with index := _ } } next rfl marked short
  have below : MatchCursor.position count first rest < count := last.inside _ rfl
  have isShown := List.getElem?_eq_getElem below
  refine ⟨_, isShown, ?_, last.after⟩
  rw [last.text, MatchCursor.current?, Option.bind_some, isShown, Option.getD_some]

/-- Completing takes a word as far as its candidates agree, and leaves it at that. Where they agree on
no more than the word, every completion shows a candidate in its place, the next one in its
direction. -/
theorem complete_expands_or_cycles (engine : Engine) (sources : Sources) (line : InputLine)
    (inactive : engine.cursor.isActive = false) :
    let word := (engine.refresh sources line).set.word
    let candidates := (engine.refresh sources line).set.candidates
    word ≠ [] → candidates ≠ [] → (∀ candidate ∈ candidates, word <+: candidate) →
      ∃ base start, line.text = base ++ word ∧ IsCommonStart start candidates ∧
        (word.length < start.length → ∀ back,
          let done := engine.complete sources line back
          done.1 = true ∧ done.2.1.text = base ++ start ∧ done.2.2.cursor.isActive = false) ∧
        (start.length ≤ word.length → ∀ first rest,
          let shown := (completeAll sources (first :: rest) engine line).1
          ∃ candidate, candidates[MatchCursor.position candidates.length first rest]? = some candidate ∧
            shown.text = base ++ candidate ∧ shown.after = []) := by
  intro word candidates typed offers completes
  have ready := cursor_refresh inactive typed offers
  obtain ⟨atEnd, marked, base, before, -⟩ := endsIn_word_refresh typed
  have common := isCommonStart_commonStart offers
  have isPrefix : word <+: commonStart candidates := (common word).2 completes
  have text : line.text = base ++ word := by
    rw [InputLine.text, atEnd, List.append_nil]
    exact before
  have shows : Shows base (engine.refresh sources line).cursor line := by
    rw [ready]
    exact ⟨offers, completes, MatchCursor.isInside_of_inactive rfl, before, atEnd⟩
  refine ⟨base, commonStart candidates, text, common, fun longer back => ?_, fun short first rest => ?_⟩
  · have same : (engine.refresh sources line).cursor.candidates = candidates := by rw [ready]
    rw [complete_of_inactive marked inactive typed offers, expand_of_expands ⟨same ▸ longer,
      same ▸ isPrefix⟩, same]
    refine ⟨rfl, ?_, isActive_update _ _ _⟩
    obtain ⟨rest, whole⟩ := isPrefix
    rw [InputLine.text_insert, atEnd, List.append_nil, before, ← whole, List.drop_left,
      List.append_assoc]
  · have completed : engine.complete sources line first = (true, (engine.refresh sources line).expand
        line (engine.refresh sources line).cursor.word first) := by
      rw [complete_of_inactive marked inactive typed offers, ready]
    have row := completeAll_of_ready rest completed shows (by rw [ready])
      (by rw [ready, ← before]; exact marked) (by rw [ready]; exact short)
    rw [ready] at row
    exact row

/-- Names that begin with one another, of which the shortest is the word itself; on to the first one
and back past it to the last one and the one before. -/
theorem cycles_through_names :
    let sources : Sources :=
      { symbols := ({ names := ["si", "sin", "sinh"].map bytes } : SymbolList).source }
    (completeAll sources [false, true, true] {} { before := bytes "2*si" }).1.text =
      bytes "2*sin" := by
  intro sources
  have word : (Engine.refresh {} sources { before := bytes "2*si" }).set.word = bytes "si" := by
    decide +kernel
  have candidates : (Engine.refresh {} sources { before := bytes "2*si" }).set.candidates =
      ["si", "sin", "sinh"].map bytes := by
    have names : (offered sources { before := bytes "2*si" }).2 = ["si", "sin", "sinh"].map bytes := by
      decide +kernel
    rw [candidates_refresh, names, canonical, List.mergeSort_of_pairwise (by decide +kernel)]
    decide +kernel
  obtain ⟨base, start, text, common, -, cycles⟩ :=
    complete_expands_or_cycles {} sources { before := bytes "2*si" } rfl
      (by rw [word]; decide) (by rw [candidates]; decide) (by rw [word, candidates]; decide)
  rw [word] at text cycles
  rw [candidates] at common cycles
  have isBase : base = bytes "2*" := List.append_cancel_right text.symm
  have short := ((common start).1 (List.prefix_refl start) (bytes "si") (by decide)).length_le
  obtain ⟨candidate, there, shown, -⟩ := cycles short false [true, true]
  cases there
  rw [shown, isBase]
  decide

end Completion.Engine
end CalcShell
