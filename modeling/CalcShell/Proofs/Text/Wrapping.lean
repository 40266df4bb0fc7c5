import CalcShell.Proofs.Text.Lines
import CalcShell.Proofs.Text.Widths
import CalcShell.Text.WordWrap
import Mathlib.Data.List.DropRight
import Mathlib.Data.List.SplitBy

/-! Wrapping loses nothing but white space. Every line of the text has rows of its own, the words on them
stand in order, a word is cut only where it is wider than a row, and a row ends only where the next word does
not fit behind it. -/
namespace CalcShell.WordWrap

variable {text word rest : Bytes} {ws : List Bytes} {cols : Nat}

/-! ### Words -/

/-- The words of a text: after some white space a word goes up to the next white space. -/
inductive Reads : Bytes → List Bytes → Prop
  | blank {gap : Bytes} (isBlank : gap.isBlank) : Reads gap []
  | word {gap word rest : Bytes} {ws : List Bytes} (isBlank : gap.isBlank) (some : word ≠ [])
    (noSpace : ∀ b ∈ word, Ascii.isSpace b = false) (ends : ∀ b ∈ rest.head?, Ascii.isSpace b = true)
    (behind : Reads rest ws) : Reads (gap ++ (word ++ rest)) (word :: ws)

lemma words_of_isBlank (isBlank : text.isBlank) : words text = [] := by
  rw [words, List.filter_eq_nil_iff]
  intro piece mem
  have blank : Bytes.isBlank piece := by
    refine Bytes.isBlank_of_subset (fun b inside => ?_) isBlank
    rw [← List.flatten_splitBy (fun a b => Ascii.isSpace a == Ascii.isSpace b) text]
    exact List.mem_flatten_of_mem mem inside
  simp [blank]

lemma words_read {gap : Bytes} (isBlank : gap.isBlank) (some : word ≠ [])
    (noSpace : ∀ b ∈ word, Ascii.isSpace b = false) (ends : ∀ b ∈ rest.head?, Ascii.isSpace b = true) :
    words (gap ++ (word ++ rest)) = word :: words rest := by
  have marked : Bytes.isBlank word = false := by
    obtain ⟨b, others, rfl⟩ := List.exists_cons_of_ne_nil some
    rw [Bytes.isBlank_cons, noSpace b List.mem_cons_self, Bool.false_and]
  have single : word.splitBy (fun a b => Ascii.isSpace a == Ascii.isSpace b) = [word] := by
    refine List.splitBy_of_isChain some (List.Pairwise.isChain ?_)
    refine List.pairwise_of_forall_mem_list fun a memA b memB => ?_
    rw [noSpace a memA, noSpace b memB]
    rfl
  have before := words_of_isBlank isBlank
  unfold words at before ⊢
  rw [List.splitBy_append, List.splitBy_append, single, List.filter_append, List.filter_append, before,
    List.filter_singleton, marked]
  · rfl
  · intro a isLast b isFirst
    rw [noSpace a (List.mem_of_getLast? isLast), ends b isFirst]
    rfl
  · intro a isLast b isFirst
    rw [List.head?_append_of_ne_nil _ some] at isFirst
    rw [List.all_eq_true.1 isBlank a (List.mem_of_getLast? isLast), noSpace b (List.mem_of_head? isFirst)]
    rfl

lemma reads_words (text : Bytes) : Reads text (words text) := by
  induction length : text.length using Nat.strong_induction_on generalizing text with
  | _ n ih =>
    by_cases isBlank : text.isBlank
    · rw [words_of_isBlank isBlank]
      exact .blank isBlank
    · obtain ⟨gap, b, others, rfl, isBlank, marked⟩ := Bytes.exists_of_not_isBlank isBlank
      have split : b :: others =
          b :: others.takeWhile (!Ascii.isSpace ·) ++ others.dropWhile (!Ascii.isSpace ·) := by
        rw [List.cons_append, List.takeWhile_append_dropWhile]
      have noSpace : ∀ c ∈ b :: others.takeWhile (!Ascii.isSpace ·), Ascii.isSpace c = false :=
        List.forall_mem_cons.2 ⟨marked, fun c mem => by simpa using List.mem_takeWhile_imp mem⟩
      have ends : ∀ c ∈ (others.dropWhile (!Ascii.isSpace ·)).head?, Ascii.isSpace c = true := by
        intro c isFirst
        have stops := List.head?_dropWhile_not (!Ascii.isSpace ·) others
        rw [isFirst] at stops
        simpa using stops
      have shorter := (List.dropWhile_suffix (!Ascii.isSpace ·) (l := others)).length_le
      rw [split, words_read isBlank (List.cons_ne_nil _ _) noSpace ends]
      refine .word isBlank (List.cons_ne_nil _ _) noSpace ends (ih _ ?_ _ rfl)
      rw [← length, List.length_append, List.length_cons]
      omega

lemma Reads.mem (reads : Reads text ws) : ∀ word ∈ ws, word ≠ [] ∧ ∀ b ∈ word, Ascii.isSpace b = false := by
  induction reads with
  | blank => nofun
  | word _ some noSpace _ _ ih => exact List.forall_mem_cons.2 ⟨⟨some, noSpace⟩, ih⟩

lemma filter_of_isBlank (isBlank : text.isBlank) : text.filter (!Ascii.isSpace ·) = [] := by
  rw [List.filter_eq_nil_iff]
  exact fun b mem => by simp [List.all_eq_true.1 isBlank b mem]

lemma filter_of_noSpace (noSpace : ∀ b ∈ word, Ascii.isSpace b = false) :
    word.filter (!Ascii.isSpace ·) = word :=
  List.filter_eq_self.2 fun b mem => by simp [noSpace b mem]

/-- The words are all that is no white space. -/
lemma Reads.flatten_eq (reads : Reads text ws) : ws.flatten = text.filter (!Ascii.isSpace ·) := by
  induction reads with
  | blank isBlank => rw [filter_of_isBlank isBlank, List.flatten_nil]
  | word isBlank _ noSpace _ _ ih =>
    rw [List.filter_append, List.filter_append, filter_of_isBlank isBlank, filter_of_noSpace noSpace,
      List.flatten_cons, ih, List.nil_append]

/-! ### Cutting a word -/

lemma splitLong_of_fits (fits : Utf8.width word ≤ cols) : splitLong cols word = ([], word) := by
  rw [splitLong, dif_neg]
  exact fun wide => absurd wide.2 (Nat.not_lt.2 fits)

lemma splitLong_of_wide (positive : 0 < cols) (wide : cols < Utf8.width word) : splitLong cols word =
    (Utf8.truncate cols word :: (splitLong cols (word.drop (Utf8.truncate cols word).length)).1,
      (splitLong cols (word.drop (Utf8.truncate cols word).length)).2) := by
  rw [splitLong, dif_pos ⟨positive, wide⟩]

/-- What becomes of a word: parts that fill rows, and a rest that is never nothing. -/
structure IsSplit (cols : Nat) (word : Bytes) (parts : List Bytes) (rest : Bytes) : Prop where
  whole : parts.flatten ++ rest = word
  parts_fit : ∀ part ∈ parts, part ≠ [] ∧ Utf8.width part ≤ cols
  some : rest ≠ []
  fits : Utf8.width rest ≤ cols
  isWide : parts ≠ [] ↔ cols < Utf8.width word

lemma isSplit_splitLong (positive : 0 < cols) (some : word ≠ []) :
    IsSplit cols word (splitLong cols word).1 (splitLong cols word).2 := by
  induction length : word.length using Nat.strong_induction_on generalizing word with
  | _ n ih =>
    by_cases wide : cols < Utf8.width word
    · obtain ⟨behind, whole⟩ := Utf8.truncate_prefix cols word
      have narrow := Utf8.width_truncate_le cols word
      have full := truncate_ne_nil positive some
      rw [splitLong_of_wide positive wide]
      generalize Utf8.truncate cols word = part at whole narrow full ⊢
      subst whole
      rw [Utf8.width_append] at wide
      rw [List.drop_left]
      have left : behind ≠ [] := by
        rintro rfl
        rw [Utf8.width_nil] at wide
        omega
      have shorter := List.length_pos_iff.2 full
      rw [List.length_append] at length
      have split := ih behind.length (by omega) left rfl
      exact {
        whole := by rw [List.flatten_cons, List.append_assoc, split.whole]
        parts_fit := List.forall_mem_cons.2 ⟨⟨full, narrow⟩, split.parts_fit⟩
        some := split.some
        fits := split.fits
        isWide := iff_of_true (List.cons_ne_nil _ _) (by rw [Utf8.width_append]; exact wide) }
    · have fits := Nat.not_lt.1 wide
      rw [splitLong_of_fits fits]
      exact ⟨rfl, nofun, some, fits, iff_of_false (fun none => none rfl) wide⟩

/-! ### Rows -/

/-- A word or, where it is wider than a row, a part of one. -/
structure Piece where
  text : Bytes
  isWhole : Bool
deriving DecidableEq, Repr

/-- The pieces of a row, with a space between them. -/
def printed (row : List Piece) : Bytes := [Ascii.space].intercalate (row.map Piece.text)

def cut (cols : Nat) (word : Bytes) : List Piece :=
  let (parts, rest) := splitLong cols word
  parts.map ({ text := ·, isWhole := false }) ++ [{ text := rest, isWhole := parts.isEmpty }]

/-- A word that the next row begins with would not have fitted on the row. -/
def IsFull (cols : Nat) (row next : List Piece) : Prop :=
  ∀ word ∈ next.head?, word.isWhole = true → cols < Utf8.width (printed row) + 1 + Utf8.width word.text

/-- The rows go on from a current one with some pieces. -/
structure Deals (cols : Nat) (current pieces : List Piece) (rows : List (List Piece)) : Prop where
  dealt : rows.flatten = current ++ pieces
  some : ∀ row ∈ rows, row ≠ []
  fits : ∀ row ∈ rows, Utf8.width (printed row) ≤ cols
  greedy : rows.IsChain (IsFull cols)
  goesOn : current ≠ [] → ∃ row others, rows = row :: others ∧ current <+: row

variable {piece : Piece} {current pieces row : List Piece} {rows : List (List Piece)}

@[simp] lemma printed_nil : printed [] = [] := rfl

@[simp] lemma printed_singleton (piece : Piece) : printed [piece] = piece.text := List.intercalate_singleton

lemma printed_cons_cons (first second : Piece) (row : List Piece) :
    printed (first :: second :: row) = first.text ++ Ascii.space :: printed (second :: row) := by
  simp [printed, List.intercalate_cons_cons]

lemma printed_concat (some : row ≠ []) (piece : Piece) :
    printed (row ++ [piece]) = printed row ++ [Ascii.space] ++ piece.text := by
  rw [printed, List.map_append, Bytes.intercalate_append (mt List.map_eq_nil_iff.1 some), List.map_singleton,
    List.flatMap_singleton, ← List.append_assoc]
  rfl

lemma printed_eq_nil_iff (some : ∀ piece ∈ row, piece.text ≠ []) : printed row = [] ↔ row = [] := by
  rcases row with _ | ⟨first, _ | ⟨second, row⟩⟩
  · exact iff_of_true rfl rfl
  · exact iff_of_false (by simpa using some) (List.cons_ne_nil _ _)
  · exact iff_of_false (by simp [printed_cons_cons]) (List.cons_ne_nil _ _)

/-- A row shows its pieces and white space. -/
lemma filter_printed (noSpace : ∀ piece ∈ row, ∀ b ∈ piece.text, Ascii.isSpace b = false) :
    (printed row).filter (!Ascii.isSpace ·) = row.flatMap Piece.text := by
  induction row with
  | nil => rfl
  | cons first row ih =>
    obtain ⟨plain, others⟩ := List.forall_mem_cons.1 noSpace
    cases row with
    | nil => simpa using filter_of_noSpace plain
    | cons second row =>
      have gap : Ascii.isSpace Ascii.space = true := rfl
      rw [printed_cons_cons, List.filter_append, filter_of_noSpace plain, List.filter_cons_of_neg (by simp [gap]),
        ih others]
      rfl

namespace Deals

lemma done (fits : Utf8.width (printed current) ≤ cols) :
    Deals cols current [] (if current = [] then [] else [current]) := by
  split
  next none => exact ⟨by rw [none]; rfl, nofun, nofun, .nil, fun some => absurd none some⟩
  next some =>
    exact {
      dealt := by rw [List.flatten_singleton, List.append_nil]
      some := List.forall_mem_singleton.2 some
      fits := List.forall_mem_singleton.2 fits
      greedy := .singleton _
      goesOn _ := ⟨current, [], rfl, List.prefix_rfl⟩ }

/-- The next piece is put behind the current row. -/
lemma join (deals : Deals cols (current ++ [piece]) pieces rows) :
    Deals cols current (piece :: pieces) rows where
  dealt := by rw [deals.dealt, List.append_assoc, List.singleton_append]
  some := deals.some
  fits := deals.fits
  greedy := deals.greedy
  goesOn _ := by
    obtain ⟨row, others, isFirst, behind⟩ := deals.goesOn (by simp)
    exact ⟨row, others, isFirst, (List.prefix_append current [piece]).trans behind⟩

/-- The current row ends, and the next piece begins a new one. -/
lemma close (deals : Deals cols [piece] pieces rows) (some : current ≠ [])
    (fits : Utf8.width (printed current) ≤ cols)
    (full : piece.isWhole = true → cols < Utf8.width (printed current) + 1 + Utf8.width piece.text) :
    Deals cols current (piece :: pieces) (current :: rows) where
  dealt := by rw [List.flatten_cons, deals.dealt, List.singleton_append]
  some := List.forall_mem_cons.2 ⟨some, deals.some⟩
  fits := List.forall_mem_cons.2 ⟨fits, deals.fits⟩
  greedy := by
    obtain ⟨row, others, rfl, ⟨behind, rfl⟩⟩ := deals.goesOn (List.cons_ne_nil _ _)
    refine List.isChain_cons.2 ⟨?_, deals.greedy⟩
    rintro next ⟨⟩ word ⟨⟩
    exact full
  goesOn _ := ⟨current, rows, rfl, List.prefix_rfl⟩

/-- The parts of a word that is too wide get rows of their own. -/
lemma closeAll {parts : List Bytes} (deals : Deals cols [⟨rest, false⟩] pieces rows) (some : current ≠ [])
    (fits : Utf8.width (printed current) ≤ cols) (parts_fit : ∀ part ∈ parts, Utf8.width part ≤ cols) :
    Deals cols current (parts.map (⟨·, false⟩) ++ ⟨rest, false⟩ :: pieces)
      (current :: parts.map (fun part => [⟨part, false⟩]) ++ rows) := by
  induction parts generalizing current with
  | nil => exact deals.close some fits nofun
  | cons part parts ih =>
    obtain ⟨first, others⟩ := List.forall_mem_cons.1 parts_fit
    exact (ih (List.cons_ne_nil _ _) (printed_singleton _ ▸ first) others).close some fits nofun

lemma cutUp {parts : List Bytes} (deals : Deals cols [⟨rest, false⟩] pieces rows) (several : parts ≠ [])
    (fits : Utf8.width (printed current) ≤ cols) (parts_fit : ∀ part ∈ parts, Utf8.width part ≤ cols) :
    Deals cols current (parts.map (⟨·, false⟩) ++ ⟨rest, false⟩ :: pieces)
      ((if current = [] then [] else [current]) ++ parts.map (fun part => [⟨part, false⟩]) ++ rows) := by
  split
  next none =>
    subst none
    obtain ⟨part, parts, rfl⟩ := List.exists_cons_of_ne_nil several
    obtain ⟨first, others⟩ := List.forall_mem_cons.1 parts_fit
    exact (deals.closeAll (List.cons_ne_nil _ _) (printed_singleton _ ▸ first) others).join
  next some => exact deals.closeAll some fits parts_fit

end Deals

/-! ### Laying words -/

lemma layWords_cons_of_fits (fits : Utf8.width word ≤ cols) (line : Bytes) (ws : List Bytes) :
    layWords cols line (word :: ws) =
      if line = [] then layWords cols word ws
      else if Utf8.width line + 1 + Utf8.width word ≤ cols then layWords cols (line ++ [Ascii.space] ++ word) ws
      else line :: layWords cols word ws := by
  rw [layWords, splitLong_of_fits fits]
  simp only [List.isEmpty_iff]

lemma layWords_cons_of_wide {parts : List Bytes} (split : splitLong cols word = (parts, rest))
    (some : parts ≠ []) (line : Bytes) (ws : List Bytes) :
    layWords cols line (word :: ws) = flush line ++ parts ++ layWords cols rest ws := by
  rw [layWords, split]
  split
  next isNil => exact absurd (congrArg Prod.fst isNil) some
  next isPair => cases isPair; rfl

lemma flush_printed (shown : ∀ piece ∈ current, piece.text ≠ []) :
    flush (printed current) = (if current = [] then [] else [current]).map printed := by
  simp only [flush, List.isEmpty_iff, printed_eq_nil_iff shown]
  split <;> rfl

lemma cut_of_fits (fits : Utf8.width word ≤ cols) : cut cols word = [⟨word, true⟩] := by
  rw [cut, splitLong_of_fits fits]
  rfl

lemma cut_of_wide {parts : List Bytes} (split : splitLong cols word = (parts, rest)) (some : parts ≠ []) :
    cut cols word = parts.map (⟨·, false⟩) ++ [⟨rest, false⟩] := by
  rw [cut, split]
  simp [some]

/-- The rows of some words behind a current row. -/
lemma exists_deals (positive : 0 < cols) (some : ∀ word ∈ ws, word ≠ []) (current : List Piece)
    (shown : ∀ piece ∈ current, piece.text ≠ []) (fits : Utf8.width (printed current) ≤ cols) :
    ∃ rows, layWords cols (printed current) ws = rows.map printed ∧
      Deals cols current (ws.flatMap (cut cols)) rows := by
  -- Each word leaves another current row to the words behind it.
  induction ws generalizing current with
  | nil => exact ⟨_, flush_printed shown, .done fits⟩
  | cons word ws ih =>
    obtain ⟨some, others⟩ := List.forall_mem_cons.1 some
    have begun (piece : Piece) (some : piece.text ≠ []) (narrow : Utf8.width piece.text ≤ cols) :
        ∃ rows, layWords cols piece.text ws = rows.map printed ∧
          Deals cols [piece] (ws.flatMap (cut cols)) rows := by
      rw [← printed_singleton piece] at narrow ⊢
      exact ih others [piece] (List.forall_mem_singleton.2 some) narrow
    rw [List.flatMap_cons]
    by_cases wide : cols < Utf8.width word
    · have parted := isSplit_splitLong positive some
      have several := parted.isWide.2 wide
      rcases split : splitLong cols word with ⟨parts, rest⟩
      rw [split] at parted several
      obtain ⟨rows, laid, deals⟩ := begun ⟨rest, false⟩ parted.some parted.fits
      rw [layWords_cons_of_wide split several, cut_of_wide split several, List.append_assoc _ [_],
        List.singleton_append]
      refine ⟨_, ?_, deals.cutUp several fits fun part mem => (parted.parts_fit part mem).2⟩
      rw [List.map_append, List.map_append, ← laid, flush_printed shown, List.map_map]
      simp [Function.comp_def]
    · have narrow := Nat.not_lt.1 wide
      obtain ⟨rows, laid, deals⟩ := begun ⟨word, true⟩ some narrow
      rw [cut_of_fits narrow, layWords_cons_of_fits narrow]
      simp only [printed_eq_nil_iff shown]
      split_ifs with none joins
      · subst none
        exact ⟨rows, laid, deals.join⟩
      · have joined : Utf8.width (printed (current ++ [⟨word, true⟩])) ≤ cols := by
          rw [printed_concat none, Utf8.width_append, Utf8.width_append]
          exact joins
        obtain ⟨rows, laid, deals⟩ := ih others _
          (List.forall_mem_append.2 ⟨shown, List.forall_mem_singleton.2 some⟩) joined
        rw [printed_concat none] at laid
        exact ⟨rows, laid, deals.join⟩
      · exact ⟨current :: rows, congrArg _ laid, deals.close none fits fun _ => Nat.not_le.1 joins⟩

/-! ### Paragraphs -/

/-- The pieces of a word. It is one piece, and then whole, just where it is no wider than a row. -/
structure IsCut (cols : Nat) (word : Bytes) (pieces : List Piece) : Prop where
  whole : pieces.flatMap Piece.text = word
  some : ∀ piece ∈ pieces, piece.text ≠ []
  isWhole : ∀ piece ∈ pieces, piece.isWhole = true ↔ pieces = [piece]
  unsplit : pieces.length = 1 ↔ Utf8.width word ≤ cols

/-- The rows of a paragraph with some words. -/
structure Layout (cols : Nat) (ws : List Bytes) (cuts rows : List (List Piece)) : Prop where
  cut : List.Forall₂ (IsCut cols) ws cuts
  dealt : rows.flatten = cuts.flatten
  blank : ws = [] → rows = [[]]
  some : ws ≠ [] → ∀ row ∈ rows, row ≠ []
  fits : ∀ row ∈ rows, Utf8.width (printed row) ≤ cols
  greedy : rows.IsChain (IsFull cols)

variable {cuts : List (List Piece)}

lemma isCut_cut (positive : 0 < cols) (some : word ≠ []) : IsCut cols word (cut cols word) := by
  by_cases wide : cols < Utf8.width word
  · have parted := isSplit_splitLong positive some
    have several := parted.isWide.2 wide
    rcases split : splitLong cols word with ⟨parts, rest⟩
    rw [split] at parted several
    have long : ∀ piece : Piece, parts.map (⟨·, false⟩) ++ [⟨rest, false⟩] ≠ [piece] := by
      obtain ⟨part, parts, rfl⟩ := List.exists_cons_of_ne_nil several
      simp
    rw [cut_of_wide split several]
    exact {
      whole := by
        rw [← parted.whole, List.flatMap_append, List.flatMap_map, List.flatMap_id', List.flatMap_singleton]
      some := List.forall_mem_append.2 ⟨List.forall_mem_map.2 fun part mem => (parted.parts_fit part mem).1,
        List.forall_mem_singleton.2 parted.some⟩
      isWhole piece mem := by
        have part : piece.isWhole = false := by
          obtain mem | mem := List.mem_append.1 mem
          · obtain ⟨part, _, rfl⟩ := List.mem_map.1 mem
            rfl
          · exact congrArg Piece.isWhole (List.mem_singleton.1 mem)
        exact iff_of_false (by rw [part]; exact Bool.false_ne_true) (long piece)
      unsplit := by
        rw [List.length_eq_one_iff]
        exact iff_of_false (fun ⟨piece, single⟩ => long piece single) (Nat.not_le.2 wide) }
  · have narrow := Nat.not_lt.1 wide
    rw [cut_of_fits narrow]
    exact ⟨List.append_nil _, List.forall_mem_singleton.2 some, by simp, iff_of_true rfl narrow⟩

lemma exists_layout (positive : 0 < cols) (text : Bytes) : ∃ rows, paragraph cols text = rows.map printed ∧
    Layout cols (words text) ((words text).map (cut cols)) rows := by
  have marked : ∀ word ∈ words text, word ≠ [] := fun word mem => ((reads_words text).mem word mem).1
  rw [paragraph]
  split
  next none =>
    rw [none]
    exact ⟨[[]], rfl, .nil, rfl, fun _ => rfl, fun some => absurd rfl some, by simp, .singleton _⟩
  next ws some =>
    obtain ⟨rows, laid, deals⟩ := exists_deals positive marked [] nofun (Nat.zero_le cols)
    refine ⟨rows, laid, ?_, ?_, fun none => absurd none some, fun _ => deals.some, deals.fits, deals.greedy⟩
    · exact List.forall₂_map_right_iff.2 (List.forall₂_same.2 fun word mem => isCut_cut positive (marked word mem))
    · rw [deals.dealt, List.nil_append, List.flatMap]

lemma Layout.text_rows (layout : Layout cols ws cuts rows) : rows.flatten.flatMap Piece.text = ws.flatten := by
  have cut := layout.cut
  rw [layout.dealt]
  clear layout
  induction cut with
  | nil => rfl
  | cons first _ ih => rw [List.flatten_cons, List.flatMap_append, first.whole, ih, List.flatten_cons]

/-- The rows of a paragraph show all of it that is no white space. -/
lemma Layout.filter_rows (layout : Layout cols ws cuts rows) (reads : Reads text ws) :
    (rows.flatMap printed).filter (!Ascii.isSpace ·) = text.filter (!Ascii.isSpace ·) := by
  have plain : ∀ row ∈ rows, ∀ piece ∈ row, ∀ b ∈ piece.text, Ascii.isSpace b = false := by
    intro row mem piece inside b among
    have mem : b ∈ rows.flatten.flatMap Piece.text :=
      List.mem_flatMap.2 ⟨piece, List.mem_flatten_of_mem mem inside, among⟩
    rw [layout.text_rows] at mem
    obtain ⟨word, mem, inside⟩ := List.mem_flatten.1 mem
    exact (reads.mem word mem).2 b inside
  calc (rows.flatMap printed).filter (!Ascii.isSpace ·)
    _ = rows.flatMap (·.flatMap Piece.text) := by
        rw [List.filter_flatMap]
        exact List.flatMap_congr fun row mem => filter_printed (plain row mem)
    _ = rows.flatten.flatMap Piece.text := by
        rw [← List.flatMap_id (L := rows), List.flatMap_assoc]
        rfl
    _ = text.filter (!Ascii.isSpace ·) := by rw [layout.text_rows, reads.flatten_eq]

/-- White space at most stands between the lines. -/
lemma filter_lines (text : Bytes) :
    text.lines.flatMap (·.filter (!Ascii.isSpace ·)) = text.filter (!Ascii.isSpace ·) := by
  obtain ⟨complete, rest, parts⟩ := Bytes.exists_isSplit text
  have ended (line : Bytes) :
      (line ++ [Ascii.newline]).filter (!Ascii.isSpace ·) = line.filter (!Ascii.isSpace ·) := by
    rw [List.filter_append]
    exact List.append_nil _
  rw [parts.lines_eq]
  conv_rhs => rw [parts.whole, List.filter_append, Bytes.unlines, List.filter_flatMap]
  simp only [ended]
  split
  next none => rw [none, List.filter_nil, List.append_nil]
  next => rw [List.flatMap_append, List.flatMap_singleton]

lemma flatten_rdropWhile_isEmpty (lines : List Bytes) : (lines.rdropWhile (·.isEmpty)).flatten = lines.flatten := by
  have empty : (lines.rtakeWhile (·.isEmpty)).flatten = [] :=
    List.flatten_eq_nil_iff.2 fun line mem => List.isEmpty_iff.1 (List.mem_rtakeWhile_imp mem)
  conv_rhs => rw [← List.rdropWhile_append_rtakeWhile (p := (·.isEmpty)) (l := lines), List.flatten_append, empty,
    List.append_nil]

/-- The rows of the lines one below the other, without blank ones at the end. They fit, and together they show all
of the text that is no white space. -/
theorem wrap_keeps_text (text : Bytes) (positive : 0 < cols) :
    ∃ blocks, List.Forall₂ (fun paragraph rows => ∃ ws cuts, Reads paragraph ws ∧ Layout cols ws cuts rows)
        text.lines blocks ∧
      wrap text cols = (blocks.flatten.map printed).rdropWhile (·.isEmpty) ∧
      (∀ row ∈ wrap text cols, Utf8.width row ≤ cols) ∧
      (wrap text cols).flatten.filter (!Ascii.isSpace ·) = text.filter (!Ascii.isSpace ·) := by
  choose rows laid layout using exists_layout positive
  have wrapped : wrap text cols = ((text.lines.flatMap rows).map printed).rdropWhile (·.isEmpty) := by
    rw [wrap, if_neg positive.ne', List.rdropWhile, List.map_flatMap, funext laid]
  refine ⟨text.lines.map rows, ?_, wrapped, fun line mem => ?_, ?_⟩
  · exact List.forall₂_map_right_iff.2 (List.forall₂_same.2 fun line _ => ⟨_, _, reads_words line, layout line⟩)
  · rw [wrapped] at mem
    obtain ⟨row, inside, rfl⟩ := List.mem_map.1 ((List.rdropWhile_prefix _ _).subset mem)
    obtain ⟨line, _, among⟩ := List.mem_flatMap.1 inside
    exact (layout line).fits row among
  · rw [wrapped, flatten_rdropWhile_isEmpty, ← List.flatMap, List.flatMap_assoc, List.filter_flatMap, ← filter_lines]
    exact List.flatMap_congr fun line _ => (layout line).filter_rows (reads_words line)

theorem wrap_keeps_malformed_text :
    let text := bytes "to be or  not\n\nabcdefgh i" ++ [0xC3] ++ bytes "j\n"
    wrap text 5 =
        [bytes "to be", bytes "or", bytes "not", [], bytes "abcde", bytes "fgh", bytes "i" ++ [0xC3] ++ bytes "j"] ∧
      ∃ blocks, List.Forall₂ (fun paragraph rows => ∃ ws cuts, Reads paragraph ws ∧ Layout 5 ws cuts rows)
          text.lines blocks ∧
        wrap text 5 = (blocks.flatten.map printed).rdropWhile (·.isEmpty) ∧
        (∀ row ∈ wrap text 5, Utf8.width row ≤ 5) ∧
        (wrap text 5).flatten.filter (!Ascii.isSpace ·) = text.filter (!Ascii.isSpace ·) :=
  ⟨by decide +kernel, wrap_keeps_text _ (by decide)⟩

end CalcShell.WordWrap
