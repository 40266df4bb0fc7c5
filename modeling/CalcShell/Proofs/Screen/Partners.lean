import CalcShell.Proofs.Screen.Nesting
import Mathlib.Data.List.Nodup

/-! The bracket that is highlighted together with a closing one. The search goes over the bytes of the
statement, whatever tokens they belong to; it finds the bracket that the tokens tell as long as the
bytes in between have paired brackets, too. -/
namespace CalcShell

open Calc (Token)

namespace Renderer

variable {opening close : UInt8} {depth : Nat}

/-! ### Places -/

/-- The bytes of the statement before the end of a text of the line that is edited. -/
def bytesBefore (r : Renderer) (left : Bytes) : List Placed :=
  (r.page.statement.flatMap fun line => Placed.ofText (.earlier line.mark) 0 line.text) ++
    Placed.ofText .live 0 left

/-- The brackets of the statement, line by line, before the end of some tokens of the line that is
edited. -/
def bracketsBefore (r : Renderer) (front : List Token) : List Placed :=
  (r.page.statement.flatMap fun line =>
      Placed.brackets (.earlier line.mark) (Token.lex line.text)) ++
    Placed.brackets .live front

/-- Where the search finds a bracket. -/
def found? (r : Renderer) (opening close : UInt8) (left : Bytes) : Option Position :=
  match scanBack opening close 1 left.reverse with
  | .inl column => some (.live column)
  | .inr depth => (scanInputs opening close depth r.page.statement.reverse).map fun found =>
      .earlier found.1.mark found.2

lemma text_lines (lines : List Evaluated) :
    Placed.text (lines.flatMap fun line => Placed.ofText (.earlier line.mark) 0 line.text) =
      lines.flatMap (·.text) := by
  induction lines with
  | nil => rfl
  | cons line lines ih =>
    rw [List.flatMap_cons, Placed.text_append, ih, Placed.text_ofText, List.flatMap_cons]

lemma text_bytesBefore (r : Renderer) (left : Bytes) :
    Placed.text (r.bytesBefore left) = r.page.statement.flatMap (·.text) ++ left := by
  rw [bytesBefore, Placed.text_append, text_lines, Placed.text_ofText]

lemma length_lines (lines : List Evaluated) :
    (lines.reverse.flatMap fun line => Placed.ofText (.earlier line.mark) 0 line.text).length =
      (backwards lines).length := by
  have bytes := congrArg List.length (text_lines lines.reverse)
  rw [Placed.text, List.length_map] at bytes
  rw [bytes, backwards, List.flatMap_reverse, List.length_reverse]
  rfl

/-- The search over lines is a search over their bytes. -/
lemma scanInputs_eq (depth : Nat) (lines : List Evaluated) :
    (scanInputs opening close depth lines).map (fun found => Position.earlier found.1.mark found.2) =
      match scanBack opening close depth (backwards lines) with
      | .inl column => ((lines.reverse.flatMap fun line =>
          Placed.ofText (.earlier line.mark) 0 line.text)[column]?).map Placed.place
      | .inr _ => none := by
  induction lines generalizing depth with
  | nil => rfl
  | cons line lines ih =>
    have length := length_lines lines
    rw [scanInputs, backwards, List.flatMap_cons, scanBack_append_eq, List.reverse_cons,
      List.flatMap_append]
    cases found : scanBack opening close depth line.text.reverse with
    | inl column =>
      have inside := scanBack_lt found
      rw [List.length_reverse] at inside
      dsimp only
      rw [List.getElem?_append_right (by rw [length]; exact Nat.le_add_left _ _), length, ← backwards,
        Nat.add_sub_cancel, List.flatMap_singleton, Placed.getElem?_ofText, List.getElem?_eq_getElem inside]
      simp
    | inr depth =>
      dsimp only
      rw [ih]
      split
      · rename_i column found
        have inside := scanBack_lt found
        rw [← backwards, found]
        dsimp only
        rw [List.getElem?_append_left (by rw [length]; exact inside)]
      · rename_i found
        rw [← backwards, found]

/-- The search finds a place among the bytes of the statement. -/
theorem found?_eq (r : Renderer) (opening close : UInt8) (left : Bytes) :
    r.found? opening close left =
      match scanBack opening close 1 (Placed.text (r.bytesBefore left)).reverse with
      | .inl column => ((r.bytesBefore left)[column]?).map Placed.place
      | .inr _ => none := by
  have length := length_lines r.page.statement.reverse
  rw [List.reverse_reverse] at length
  have reversed : (Placed.text (r.bytesBefore left)).reverse =
      left.reverse ++ backwards r.page.statement.reverse := by
    rw [text_bytesBefore, List.reverse_append, List.reverse_flatMap, backwards]
    rfl
  rw [found?, reversed, scanBack_append_eq]
  cases found : scanBack opening close 1 left.reverse with
  | inl column =>
    have inside := scanBack_lt found
    rw [List.length_reverse] at inside
    dsimp only
    rw [bytesBefore, List.getElem?_append_right (by rw [length]; exact Nat.le_add_left _ _), length,
      Nat.add_sub_cancel, Placed.getElem?_ofText, List.getElem?_eq_getElem inside]
    simp
  | inr depth =>
    dsimp only
    rw [scanInputs_eq]
    split
    · rename_i column found
      have inside := scanBack_lt found
      rw [found, List.reverse_reverse]
      dsimp only
      rw [bytesBefore, List.getElem?_append_left (by rw [length]; exact inside)]
    · rename_i found
      rw [found]

/-! ### No place twice -/

lemma map_place_ofText (place : Nat → Position) (column : Nat) (bytes : Bytes) :
    (Placed.ofText place column bytes).map Placed.place =
      (List.range' column bytes.length).map place := by
  induction bytes generalizing column with
  | nil => rfl
  | cons byte rest ih => exact congrArg (place column :: ·) (ih (column + 1))

lemma nodup_ofText {place : Nat → Position} (inj : place.Injective) (column : Nat) (bytes : Bytes) :
    ((Placed.ofText place column bytes).map Placed.place).Nodup := by
  rw [map_place_ofText]
  exact List.Nodup.map inj (List.nodup_range' 1)

/-- No two lines of the statement have one number. -/
lemma pairwise_statement (r : Renderer) : r.page.statement.Pairwise (·.mark ≠ ·.mark) := by
  have numbers : (r.transcript.lines.toList.zipIdx r.transcript.first).Pairwise (·.2 ≠ ·.2) := by
    apply List.pairwise_map.1
    rw [List.zipIdx_map_snd]
    exact List.nodup_range' 1
  have inputs : r.transcript.inputs.Pairwise (·.mark ≠ ·.mark) := by
    refine numbers.filterMap _ fun entry other differ line isLine line' isLine' => ?_
    rw [Transcript.input?, Option.map_eq_some_iff] at isLine isLine'
    obtain ⟨_, -, rfl⟩ := isLine
    obtain ⟨_, -, rfl⟩ := isLine'
    exact differ
  exact inputs.sublist List.filter_sublist

lemma mem_ofText {place : Nat → Position} {column : Nat} {bytes : Bytes} {b : Placed}
    (mem : b ∈ Placed.ofText place column bytes) :
    ∃ i < bytes.length, b.place = place (column + i) := by
  obtain ⟨i, found⟩ := List.mem_iff_getElem?.1 mem
  rw [Placed.getElem?_ofText, Option.map_eq_some_iff] at found
  obtain ⟨byte, inText, rfl⟩ := found
  exact ⟨i, (List.getElem?_eq_some_iff.1 inText).1, rfl⟩

/-- Every byte of the statement has a place of its own. -/
lemma nodup_bytesBefore (r : Renderer) (left : Bytes) :
    ((r.bytesBefore left).map Placed.place).Nodup := by
  have onLine (line : Evaluated) {p : Position}
      (mem : p ∈ (Placed.ofText (.earlier line.mark) 0 line.text).map Placed.place) :
      ∃ column, p = .earlier line.mark column := by
    obtain ⟨b, inLine, rfl⟩ := List.mem_map.1 mem
    obtain ⟨i, -, place⟩ := mem_ofText inLine
    exact ⟨0 + i, place⟩
  rw [bytesBefore, List.map_append, List.map_flatMap, List.nodup_append, List.nodup_flatMap]
  refine ⟨⟨fun line _ => nodup_ofText (fun i j same => by cases same; rfl) 0 line.text, ?_⟩,
    nodup_ofText (fun i j same => by cases same; rfl) 0 left, ?_⟩
  · refine r.pairwise_statement.imp fun {line other} differ p inLine inOther => ?_
    obtain ⟨i, rfl⟩ := onLine line inLine
    obtain ⟨j, same⟩ := onLine other inOther
    exact differ (Position.earlier.inj same).1
  · intro p inEarlier q inLive same
    obtain ⟨line, -, mem⟩ := List.mem_flatMap.1 inEarlier
    obtain ⟨i, rfl⟩ := onLine line mem
    obtain ⟨b, isByte, rfl⟩ := List.mem_map.1 inLive
    obtain ⟨j, -, place⟩ := mem_ofText isByte
    rw [place] at same
    cases same

/-! ### The bracket that is found -/

/-- The bytes of the statement behind a place, up to the end of a text of the edited line. -/
def bytesBehind (r : Renderer) (left : Bytes) (place : Position) : Bytes :=
  Placed.text (((r.bytesBefore left).dropWhile (·.place ≠ place)).drop 1)

variable {r : Renderer} {left : Bytes} {before behind : List Placed} {b : Placed}

lemma place_notMem_of_split (split : r.bytesBefore left = before ++ b :: behind) :
    b.place ∉ before.map Placed.place ∧ b.place ∉ behind.map Placed.place := by
  have nodup := r.nodup_bytesBefore left
  rw [split, List.map_append, List.map_cons, List.nodup_append, List.nodup_cons] at nodup
  exact ⟨fun mem => nodup.2.2 _ mem _ List.mem_cons_self rfl, nodup.2.1.1⟩

lemma bytesBehind_of_split (split : r.bytesBefore left = before ++ b :: behind) :
    r.bytesBehind left b.place = Placed.text behind := by
  have others : ∀ c ∈ before, c.place ≠ b.place := fun c mem same =>
    (place_notMem_of_split split).1 (same ▸ List.mem_map_of_mem mem)
  have dropped : (before ++ b :: behind).dropWhile (·.place ≠ b.place) = b :: behind := by
    rw [List.dropWhile_append_of_pos (by simpa using others), List.dropWhile_cons_of_neg (by simp)]
  rw [bytesBehind, split, dropped, List.drop_succ_cons, List.drop_zero]

/-- The byte at a place is the one at its index. -/
lemma place_eq_iff (split : r.bytesBefore left = before ++ b :: behind) (i : Nat) :
    ((r.bytesBefore left)[i]?).map Placed.place = some b.place ↔ i = before.length := by
  have here : ((r.bytesBefore left).map Placed.place)[before.length]? = some b.place := by
    rw [split]
    simp
  rw [← List.getElem?_map]
  constructor
  · intro there
    obtain ⟨inside, -⟩ := List.getElem?_eq_some_iff.1 there
    exact (List.getElem?_inj inside (r.nodup_bytesBefore left)).1 (there.trans here.symm)
  · rintro rfl
    exact here

lemma scanBack_eq_inl_iff (differ : opening ≠ close) (front back : Bytes) :
    scanBack opening close 1 (front ++ opening :: back).reverse = .inl front.length ↔
      Balanced opening close back := by
  have reversed : (front ++ opening :: back).reverse = back.reverse ++ opening :: front.reverse := by
    simp
  rw [reversed]
  constructor
  · intro found
    have spec := scanBack_spec differ Nat.one_pos (back.reverse ++ opening :: front.reverse)
    rw [found] at spec
    obtain ⟨behind, rest, split, length, stays, last⟩ := spec
    obtain ⟨rfl, -⟩ : back.reverse = behind ∧ opening :: front.reverse = opening :: rest := by
      refine List.append_inj' split ?_
      rw [List.length_cons, List.length_cons, List.length_reverse, length]
    refine ⟨?_, staysOpen_reverse_iff.1 stays⟩
    rw [depthBefore, List.count_reverse, List.count_reverse] at last
    have le := staysOpen_reverse_iff.1 stays back (List.suffix_refl _)
    omega
  · intro balanced
    rw [scanBack_append differ (staysOpen_reverse balanced), depthBefore_reverse balanced,
      scanBack_opening differ, List.length_reverse]

/-- A bracket of the statement is found just if the bytes behind it have paired brackets. -/
theorem found?_eq_some_iff (differ : opening ≠ close) (mem : b ∈ r.bytesBefore left)
    (isOpening : b.byte = opening) : r.found? opening close left = some b.place ↔
      Balanced opening close (r.bytesBehind left b.place) := by
  obtain ⟨before, behind, split⟩ := List.append_of_mem mem
  have bytes : Placed.text (r.bytesBefore left) =
      Placed.text before ++ opening :: Placed.text behind := by
    rw [split, ← isOpening]
    simp [Placed.text]
  have length : (Placed.text before).length = before.length := List.length_map _
  rw [bytesBehind_of_split split, ← scanBack_eq_inl_iff differ (Placed.text before), ← bytes, found?_eq]
  split
  · rename_i i found
    rw [place_eq_iff split, found, length, Sum.inl.injEq]
  · rename_i depth found
    rw [found]
    simp

/-- Nothing is found just if no opening bracket is left over. -/
theorem found?_eq_none_iff (differ : opening ≠ close) : r.found? opening close left = none ↔
    ∀ part, part <:+ Placed.text (r.bytesBefore left) → part.count opening ≤ part.count close := by
  rw [found?_eq]
  have spec := scanBack_spec differ Nat.one_pos (Placed.text (r.bytesBefore left)).reverse
  split
  · rename_i i found
    rw [found] at spec
    obtain ⟨behind, rest, reversed, length, stays, last⟩ := spec
    have inside := scanBack_lt found
    rw [Placed.text, List.length_reverse, List.length_map] at inside
    refine iff_of_false (by simp [List.getElem?_eq_getElem inside]) fun le => ?_
    -- The search stops where one more bracket is open than the text behind has closing ones.
    have lt := staysOpen_reverse_iff.2 le (behind ++ [opening])
      ⟨rest, by rw [reversed, List.append_assoc]; rfl⟩
    have none : [opening].count close = 0 := by simp [differ]
    rw [List.count_append, List.count_append, List.count_singleton_self, none] at lt
    unfold depthBefore at last
    omega
  · rename_i depth found
    rw [found] at spec
    exact iff_of_true rfl (staysOpen_reverse_iff.1 spec)

lemma place_ne_live (mem : b ∈ r.bytesBefore left) : b.place ≠ .live left.length := by
  rcases List.mem_append.1 mem with early | live
  · obtain ⟨line, -, onLine⟩ := List.mem_flatMap.1 early
    obtain ⟨i, -, place⟩ := mem_ofText onLine
    rw [place]
    nofun
  · obtain ⟨i, inside, place⟩ := mem_ofText live
    rw [place]
    intro same
    have := Position.live.inj same
    omega

lemma mem_of_found? {place : Position} (found : r.found? opening close left = some place) :
    ∃ b ∈ r.bytesBefore left, b.place = place := by
  rw [found?_eq] at found
  split at found
  · obtain ⟨b, there, isPlace⟩ := Option.map_eq_some_iff.1 found
    exact ⟨b, List.mem_of_getElem? there, isPlace⟩
  · cases found

/-! ### The bracket that the tokens tell -/

variable {front back : List Token} {text : Bytes}

/-- The bytes of the statement are those of its tokens. -/
lemma bytesBefore_eq (parted : Token.lex text = front ++ back) :
    r.bytesBefore (front.flatMap Token.text) =
      (r.page.statement.flatMap fun line =>
        (Token.lex line.text).flatMap (Placed.ofToken (.earlier line.mark))) ++
        front.flatMap (Placed.ofToken .live) := by
  have whole (place : Nat → Position) (line : Bytes) :
      Placed.ofText place 0 line = (Token.lex line).flatMap (Placed.ofToken place) := by
    have tokens := Placed.ofText_eq_flatMap place (List.append_nil (Token.lex line)).symm
    rwa [Token.flatMap_text_lex] at tokens
  rw [bytesBefore, Placed.ofText_eq_flatMap _ parted]
  congr 2
  funext line
  exact whole _ _

lemma mem_lex_of_parted (parted : Token.lex text = front ++ back) :
    ∀ token ∈ front, token ∈ Token.lexFrom 0 text := by
  intro token mem
  change token ∈ Token.lex text
  rw [parted]
  exact List.mem_append_left _ mem

/-- A bracket as a token is a byte of the statement. -/
lemma mem_bytesBefore (parted : Token.lex text = front ++ back)
    (mem : b ∈ r.bracketsBefore front) : b ∈ r.bytesBefore (front.flatMap Token.text) := by
  rw [bytesBefore_eq parted]
  rcases List.mem_append.1 mem with early | live
  · obtain ⟨line, inStatement, onLine⟩ := List.mem_flatMap.1 early
    exact List.mem_append_left _ (List.mem_flatMap.2
      ⟨line, inStatement, Placed.mem_of_mem_brackets (fun _ => id) onLine⟩)
  · exact List.mem_append_right _ (Placed.mem_of_mem_brackets (mem_lex_of_parted parted) live)

/-- No token of the statement but punctuation holds a bracket of a kind. -/
structure IsPlain (r : Renderer) (opening close : UInt8) (front : List Token) : Prop where
  earlier : ∀ line ∈ r.page.statement, Placed.IsPlain opening close (Token.lex line.text)
  live : Placed.IsPlain opening close front

lemma IsPlain.filter_eq (plain : r.IsPlain opening close front)
    (closes : openingFor? close = some opening) (parted : Token.lex text = front ++ back) :
    (r.bytesBefore (front.flatMap Token.text)).filter (Placed.isOf opening close ·.byte) =
      (r.bracketsBefore front).filter (Placed.isOf opening close ·.byte) := by
  have onLine (line : Evaluated) (mem : line ∈ r.page.statement) :
      ((Token.lex line.text).flatMap (Placed.ofToken (.earlier line.mark))).filter
          (Placed.isOf opening close ·.byte) =
        (Placed.brackets (.earlier line.mark) (Token.lex line.text)).filter
          (Placed.isOf opening close ·.byte) :=
    Placed.filter_eq_brackets closes (fun _ => id) (plain.earlier line mem)
  rw [bytesBefore_eq parted, bracketsBefore, List.filter_append, List.filter_append,
    Placed.filter_eq_brackets closes (mem_lex_of_parted parted) plain.live, List.filter_flatMap,
    List.filter_flatMap, List.flatMap_congr onLine]

/-! ### The partner -/

/-- A bracket is found just if this holds of the bytes of the statement: behind the bracket those of its
kind are paired, or, for none, no opening one is left over. -/
def IsReached (r : Renderer) (opening close : UInt8) (left : Bytes) : Option Position → Prop
  | some place => Balanced opening close (r.bytesBehind left place)
  | none => ∀ part, part <:+ Placed.text (r.bytesBefore left) → part.count opening ≤ part.count close

/-- A bracket that the tokens tell is a byte of its kind in the statement. -/
lemma mem_of_partner? (closes : openingFor? close = some opening) {stack : List Placed}
    (parted : Token.lex text = front ++ back)
    (nested : Placed.nest? (r.bracketsBefore front) = some stack) {place : Position}
    (isPartner : Placed.partner? opening stack = some place) :
    ∃ b ∈ r.bytesBefore (front.flatMap Token.text), b.byte = opening ∧ b.place = place := by
  cases stack with
  | nil => cases isPartner
  | cons top stack =>
    rw [Placed.partner?] at isPartner
    split at isPartner
    · rename_i isOpening
      cases isPartner
      obtain ⟨-, before, behind, split, -, -⟩ := Placed.opens_of_nest? closes nested
      refine ⟨top, mem_bytesBefore parted ?_, isOpening, rfl⟩
      rw [split]
      exact List.mem_append_right _ List.mem_cons_self
    · cases isPartner

/-- What is found is the partner of a bracket just if it is within reach. -/
lemma found?_eq_iff (closes : openingFor? close = some opening) {stack : List Placed}
    (parted : Token.lex text = front ++ back)
    (nested : Placed.nest? (r.bracketsBefore front) = some stack) :
    r.found? opening close (front.flatMap Token.text) = Placed.partner? opening stack ↔
      r.IsReached opening close (front.flatMap Token.text) (Placed.partner? opening stack) := by
  have differ := opening_ne_close closes
  cases partner : Placed.partner? opening stack with
  | none => exact found?_eq_none_iff differ
  | some place =>
    obtain ⟨b, mem, isOpening, rfl⟩ := mem_of_partner? closes parted nested partner
    exact found?_eq_some_iff differ mem isOpening

/-- Where no other token holds a bracket of a kind, brackets that are paired behind one as tokens are
paired in the bytes behind it. -/
lemma IsPlain.balanced_bytesBehind (plain : r.IsPlain opening close front)
    (closes : openingFor? close = some opening) (parted : Token.lex text = front ++ back)
    (isOpening : b.byte = opening) (split : r.bracketsBefore front = before ++ b :: behind)
    (paired : Balanced opening close (Placed.text behind)) :
    Balanced opening close (r.bytesBehind (front.flatMap Token.text) b.place) := by
  have isOf : Placed.isOf opening close b.byte = true := by simp [Placed.isOf, isOpening]
  have mem : b ∈ r.bytesBefore (front.flatMap Token.text) :=
    mem_bytesBefore parted (split ▸ List.mem_append_right _ List.mem_cons_self)
  obtain ⟨early, late, inBytes⟩ := List.append_of_mem mem
  have same := plain.filter_eq closes parted
  rw [split, inBytes, List.filter_append, List.filter_append, List.filter_cons, if_pos isOf,
    List.filter_cons, if_pos isOf] at same
  -- The place of the bracket is nowhere else among the bytes, so both lists part at the same one.
  obtain ⟨notEarly, notLate⟩ := place_notMem_of_split inBytes
  have notMem {part : List Placed} (other : b.place ∉ part.map Placed.place) :
      b ∉ part.filter (Placed.isOf opening close ·.byte) := fun inPart =>
    other (List.mem_map_of_mem (List.mem_of_mem_filter inPart))
  obtain ⟨-, -, lates⟩ :=
    (List.append_cons_inj_of_notMem (notMem notEarly) (notMem notLate)).1 same
  rw [bytesBehind_of_split inBytes]
  refine Placed.balanced_of_filter ?_ paired
  rw [Placed.filter_text, Placed.filter_text, lates]

/-- Where no other token holds a bracket of the kind, the partner is within reach. -/
lemma IsPlain.isReached (plain : r.IsPlain opening close front)
    (closes : openingFor? close = some opening) {stack : List Placed}
    (parted : Token.lex text = front ++ back)
    (nested : Placed.nest? (r.bracketsBefore front) = some stack)
    (alone : Placed.partner? opening stack = none → ∀ top ∈ stack, top.byte ≠ opening) :
    r.IsReached opening close (front.flatMap Token.text) (Placed.partner? opening stack) := by
  have opens := Placed.opens_of_nest? closes nested
  cases partner : Placed.partner? opening stack with
  | none =>
    intro part isPart
    have filtered := congrArg Placed.text (plain.filter_eq closes parted)
    rw [← Placed.filter_text, ← Placed.filter_text] at filtered
    obtain ⟨other, isOther, opens', closings⟩ := Placed.exists_suffix_of_filter filtered.symm isPart
    rw [← opens', ← closings]
    exact opens.count_le (alone partner) other isOther
  | some place =>
    cases stack with
    | nil => cases partner
    | cons top stack =>
      obtain ⟨-, before, behind, split, -, paired⟩ := opens
      rw [Placed.partner?] at partner
      split at partner
      · rename_i isOpening
        cases partner
        exact plain.balanced_bytesBehind closes parted isOpening split paired
      · cases partner

end Renderer
end CalcShell
