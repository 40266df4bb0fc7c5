import CalcShell.Proofs.Calc.Places
import CalcShell.Proofs.Screen.Brackets
import Mathlib.Data.List.Induction

/-! Brackets that nest. The tokens of the lines of a statement are read with a stack of the brackets
that are open; between an open bracket and the next one on the stack the brackets of every kind are
paired. -/
namespace CalcShell

open Renderer (openingFor? Balanced)
open Calc (Token)

/-- Where a byte of a statement stands: on the line that is being edited, or on an earlier line, known
by its number. -/
inductive Position where
  | live (column : Nat)
  | earlier (number column : Nat)
deriving DecidableEq, Repr

/-- A byte in its place. -/
structure Placed where
  byte : UInt8
  place : Position
deriving DecidableEq, Repr

namespace Placed

def text (bytes : List Placed) : Bytes := bytes.map Placed.byte

@[simp] lemma text_append (front back : List Placed) : text (front ++ back) = text front ++ text back :=
  List.map_append

/-- The bytes of a text, of which the first one is at column `column` of its line. -/
def ofText (place : Nat → Position) : (column : Nat) → Bytes → List Placed
  | _, [] => []
  | column, byte :: rest => { byte, place := place column } :: ofText place (column + 1) rest

/-- The brackets among some tokens. -/
def brackets (place : Nat → Position) (tokens : List Token) : List Placed :=
  (tokens.filter fun token => token.isOpening || token.isClosing).map fun token =>
    { byte := token.text.headD 0, place := place token.pos }

/-- The brackets that are open behind one more, the innermost one first. Nothing if it closes none, or
one of another kind. -/
def pass? (stack : List Placed) (bracket : Placed) : Option (List Placed) :=
  match openingFor? bracket.byte, stack with
  | none, stack => some (bracket :: stack)
  | some opening, top :: stack => if top.byte = opening then some stack else none
  | some _, [] => none

/-- The brackets that are open behind some that are properly nested. -/
def nest? (brackets : List Placed) : Option (List Placed) := brackets.foldlM pass? []

/-- The bracket that a closing one closes: the innermost one that is open, if it is of its kind. -/
def partner? (opening : UInt8) : List Placed → Option Position
  | top :: _ => if top.byte = opening then some top.place else none
  | [] => none

end Placed

namespace Renderer

/-! ### Paired brackets -/

variable {opening close : UInt8} {front back : Bytes}

lemma balanced_nil : Balanced opening close [] := by
  refine ⟨rfl, fun back isBack => ?_⟩
  rw [List.suffix_nil.1 isBack]
  exact Nat.le_refl _

/-- A suffix of joined texts either lies in the second one, or holds all of it. -/
lemma suffix_append_cases {α : Type} {part front back : List α} (isPart : part <:+ front ++ back) :
    part <:+ back ∨ ∃ inner, inner <:+ front ∧ part = inner ++ back := by
  obtain ⟨before, whole⟩ := isPart
  rcases List.append_eq_append_iff.1 whole with ⟨inner, rfl, rfl⟩ | ⟨inner, rfl, rfl⟩
  · exact .inr ⟨inner, ⟨before, rfl⟩, rfl⟩
  · exact .inl ⟨inner, rfl⟩

lemma Balanced.append (h : Balanced opening close front) (h' : Balanced opening close back) :
    Balanced opening close (front ++ back) := by
  refine ⟨?_, fun part isPart => ?_⟩
  · rw [List.count_append, List.count_append, h.1, h'.1]
  · rcases suffix_append_cases isPart with inBack | ⟨inner, inFront, rfl⟩
    · exact h'.2 part inBack
    · rw [List.count_append, List.count_append, h'.1]
      exact Nat.add_le_add_right (h.2 inner inFront) _

/-- A pair of brackets with paired ones in between, whatever the kind of the pair. -/
lemma Balanced.wrap {text : Bytes} (h : Balanced opening close text) {first last : UInt8}
    (noClose : first ≠ close) (noOpening : last ≠ opening) (same : first = opening ↔ last = close) :
    Balanced opening close (first :: text ++ [last]) := by
  have counts : [first].count opening = [last].count close := by
    by_cases isFirst : first = opening
    · rw [isFirst, same.1 isFirst, List.count_singleton_self, List.count_singleton_self]
    · rw [List.count_singleton, List.count_singleton, beq_false_of_ne isFirst,
        beq_false_of_ne (mt same.2 isFirst)]
  have none : [last].count opening = 0 := by simp [noOpening]
  have none' : [first].count close = 0 := by simp [noClose]
  rw [List.cons_append, ← List.singleton_append]
  refine ⟨?_, fun part isPart => ?_⟩
  · simp only [List.count_append, none, none', h.1, counts]
    omega
  · rcases suffix_append_cases isPart with inside | ⟨inner, inFirst, rfl⟩
    · rcases suffix_append_cases inside with inLast | ⟨inner, inText, rfl⟩
      · have le := inLast.sublist.count_le opening
        rw [none] at le
        omega
      · have le := h.2 inner inText
        simp only [List.count_append, none]
        omega
    · have le := inFirst.sublist.count_le opening
      simp only [List.count_append, none, h.1]
      omega

lemma openingFor?_opening (closes : openingFor? close = some opening) : openingFor? opening = none := by
  rcases openingFor?_cases closes with ⟨rfl, rfl⟩ | ⟨rfl, rfl⟩ | ⟨rfl, rfl⟩ <;> rfl

lemma openingFor?_inj {close' : UInt8} (closes : openingFor? close = some opening)
    (closes' : openingFor? close' = some opening) : close = close' := by
  rcases openingFor?_cases closes with ⟨rfl, rfl⟩ | ⟨rfl, rfl⟩ | ⟨rfl, rfl⟩ <;>
    rcases openingFor?_cases closes' with ⟨rfl, h⟩ | ⟨rfl, h⟩ | ⟨rfl, h⟩ <;>
    first | rfl | exact absurd h (by decide)

end Renderer

namespace Placed

variable {opening close : UInt8}

/-- Behind some brackets a stack is open: the brackets of one kind between any two of the stack, and
those before the first one and behind the last, are paired. -/
def Opens (opening close : UInt8) : (stack brackets : List Placed) → Prop
  | [], brackets => Balanced opening close (text brackets)
  | top :: stack, brackets => openingFor? top.byte = none ∧ ∃ front back,
      brackets = front ++ top :: back ∧ Opens opening close stack front ∧
        Balanced opening close (text back)

lemma Opens.append {stack brackets more : List Placed} (h : Opens opening close stack brackets)
    (paired : Balanced opening close (text more)) : Opens opening close stack (brackets ++ more) := by
  cases stack with
  | nil =>
    rw [Opens, text_append]
    exact Balanced.append h paired
  | cons top stack =>
    obtain ⟨isOpening, front, back, rfl, opens, inner⟩ := h
    refine ⟨isOpening, front, back ++ more, by simp, opens, ?_⟩
    rw [text_append]
    exact inner.append paired

/-- What the stack says of the brackets it was read from. -/
theorem opens_of_nest? (closes : openingFor? close = some opening) {stack brackets : List Placed}
    (nested : nest? brackets = some stack) : Opens opening close stack brackets := by
  induction brackets using List.reverseRecOn generalizing stack with
  | nil =>
    cases nested
    exact Renderer.balanced_nil
  | append_singleton brackets bracket ih =>
    rw [nest?, List.foldlM_append, Option.bind_eq_bind, Option.bind_eq_some_iff] at nested
    obtain ⟨before, isBefore, last⟩ := nested
    rw [List.foldlM_cons, Option.bind_eq_bind, Option.bind_eq_some_iff] at last
    obtain ⟨_, last, same⟩ := last
    cases same
    have opens := ih isBefore
    unfold pass? at last
    split at last
    · rename_i isOpening
      cases last
      exact ⟨isOpening, brackets, [], rfl, opens, Renderer.balanced_nil⟩
    · rename_i other top stack isClosing
      split at last
      · rename_i isTop
        cases last
        obtain ⟨isOpening, front, back, rfl, opens, inner⟩ := opens
        rw [List.append_assoc]
        refine opens.append ?_
        have pair : text (top :: back ++ [bracket]) = top.byte :: text back ++ [bracket.byte] := by
          simp [text]
        rw [pair]
        refine inner.wrap ?_ ?_ ⟨?_, ?_⟩
        · rintro isClose
          rw [isClose, closes] at isOpening
          cases isOpening
        · rintro isOther
          rw [isOther, Renderer.openingFor?_opening closes] at isClosing
          cases isClosing
        · rintro isOther
          rw [← isTop, isOther] at isClosing
          exact Renderer.openingFor?_inj isClosing closes
        · rintro isClose
          rw [isClose, closes] at isClosing
          rw [isTop]
          exact (Option.some.inj isClosing).symm
      · cases last
    · cases last

/-- Where no bracket of a kind is open, going back over the brackets meets no open one. -/
lemma Opens.count_le {stack brackets : List Placed} (h : Opens opening close stack brackets)
    (closed : ∀ open_ ∈ stack, open_.byte ≠ opening) :
    ∀ part, part <:+ text brackets → part.count opening ≤ part.count close := by
  induction stack generalizing brackets with
  | nil => exact h.2
  | cons top stack ih =>
    obtain ⟨isOpening, front, back, rfl, opens, inner⟩ := h
    obtain ⟨other, others⟩ := List.forall_mem_cons.1 closed
    have pieces : text (front ++ top :: back) = (text front ++ [top.byte]) ++ text back := by
      simp [text]
    have none : [top.byte].count opening = 0 := by simp [other]
    intro part isPart
    rw [pieces] at isPart
    rcases Renderer.suffix_append_cases isPart with inBack | ⟨before, inFront, rfl⟩
    · exact inner.2 part inBack
    · rw [List.count_append, List.count_append, inner.1]
      rcases Renderer.suffix_append_cases inFront with isTop | ⟨early, inEarly, rfl⟩
      · have le := isTop.sublist.count_le opening
        omega
      · have le := ih opens others early inEarly
        simp only [List.count_append, none]
        omega

/-! ### Bytes and tokens -/

variable {place : Nat → Position}

lemma ofText_append (place : Nat → Position) (column : Nat) (front back : Bytes) :
    ofText place column (front ++ back) =
      ofText place column front ++ ofText place (column + front.length) back := by
  induction front generalizing column with
  | nil => rfl
  | cons byte front ih =>
    rw [List.cons_append, ofText, ih, ofText, List.length_cons, Nat.add_assoc, Nat.add_comm 1]
    rfl

@[simp] lemma text_ofText (place : Nat → Position) (column : Nat) (bytes : Bytes) :
    text (ofText place column bytes) = bytes := by
  induction bytes generalizing column with
  | nil => rfl
  | cons byte rest ih => exact congrArg (byte :: ·) (ih (column + 1))

lemma getElem?_ofText (place : Nat → Position) (column : Nat) (bytes : Bytes) (i : Nat) :
    (ofText place column bytes)[i]? = bytes[i]?.map ({ byte := ·, place := place (column + i) }) := by
  induction bytes generalizing column i with
  | nil => rfl
  | cons byte rest ih =>
    cases i with
    | zero => rfl
    | succ i =>
      rw [ofText, List.getElem?_cons_succ, List.getElem?_cons_succ, ih, Nat.add_right_comm, Nat.add_assoc]

/-- The bytes of a token, where it stands. -/
def ofToken (place : Nat → Position) (token : Token) : List Placed := ofText place token.pos token.text

/-- The bytes of a line up to a token are those of the tokens before it. -/
lemma ofText_eq_flatMap (place : Nat → Position) {pos : Nat} {text : Bytes} {front back : List Token}
    (parted : Token.lexFrom pos text = front ++ back) :
    ofText place pos (front.flatMap Token.text) = front.flatMap (ofToken place) := by
  induction front generalizing pos text with
  | nil => rfl
  | cons token front ih =>
    cases text with
    | nil =>
      rw [Token.lexFrom_nil] at parted
      cases parted
    | cons b rest =>
      rw [Token.lexFrom_cons, List.cons_append] at parted
      obtain ⟨rfl, others⟩ := List.cons.inj parted
      have length := Token.length_text_scan b rest
      rw [List.flatMap_cons, List.flatMap_cons, ofText_append, length, ← Nat.add_assoc, ih others]
      rfl

lemma text_of_punctuation {pos : Nat} {text : Bytes} {token : Token}
    (mem : token ∈ Token.lexFrom pos text) (sign : token.kind = .punctuation) :
    ∃ b, token.text = [b] := by
  obtain ⟨-, b, rest, -, kind, whole⟩ := Token.exists_scan_of_mem_lexFrom mem
  rw [sign] at kind
  refine ⟨b, ?_⟩
  rcases Token.mark_cases b rest with ⟨-, is⟩ | ⟨-, is⟩ | ⟨-, is⟩ | ⟨⟨-, -, other⟩, -⟩
  · rw [is] at kind; cases kind
  · rw [is] at kind; cases kind
  · rw [whole, is, List.take_zero]
  · exact absurd kind.symm other

/-- A sign of punctuation that is a bracket of a kind is a bracket as a token, too. -/
lemma isBracket_of_byte (closes : openingFor? close = some opening) {b : UInt8}
    (ofKind : b = opening ∨ b = close) {token : Token} (sign : token.kind = .punctuation)
    (text : token.text = [b]) : (token.isOpening || token.isClosing) = true := by
  rw [Token.isOpening, Token.isClosing, sign, text]
  rcases ofKind with rfl | rfl <;>
    rcases Renderer.openingFor?_cases closes with ⟨rfl, rfl⟩ | ⟨rfl, rfl⟩ | ⟨rfl, rfl⟩ <;> decide

lemma text_of_isBracket {pos : Nat} {text : Bytes} {token : Token}
    (mem : token ∈ Token.lexFrom pos text) (isBracket : (token.isOpening || token.isClosing) = true) :
    ∃ b, token.text = [b] := by
  refine text_of_punctuation mem ?_
  rw [Token.isOpening, Token.isClosing, ← Bool.and_or_distrib_left, Bool.and_eq_true, beq_iff_eq]
    at isBracket
  exact isBracket.1

lemma brackets_cons (place : Nat → Position) (token : Token) (tokens : List Token) :
    brackets place (token :: tokens) =
      (if (token.isOpening || token.isClosing) = true then
        [{ byte := token.text.headD 0, place := place token.pos }] else []) ++
        brackets place tokens := by
  rw [brackets, List.filter_cons]
  split <;> rfl

lemma mem_of_mem_brackets {pos : Nat} {text : Bytes} {tokens : List Token}
    (inText : ∀ token ∈ tokens, token ∈ Token.lexFrom pos text) {b : Placed}
    (mem : b ∈ brackets place tokens) : b ∈ tokens.flatMap (ofToken place) := by
  obtain ⟨token, found, rfl⟩ := List.mem_map.1 mem
  obtain ⟨inTokens, isBracket⟩ := List.mem_filter.1 found
  obtain ⟨b, isText⟩ := text_of_isBracket (inText token inTokens) isBracket
  refine List.mem_flatMap.2 ⟨token, inTokens, ?_⟩
  rw [ofToken, isText]
  exact List.mem_cons_self

/-- Strings, comments and whatever else is no punctuation hold no brackets of a kind. -/
def IsPlain (opening close : UInt8) (tokens : List Token) : Prop :=
  ∀ token ∈ tokens, token.kind ≠ .punctuation → opening ∉ token.text ∧ close ∉ token.text

instance (opening close : UInt8) (tokens : List Token) : Decidable (IsPlain opening close tokens) :=
  inferInstanceAs (Decidable (∀ token ∈ tokens, token.kind ≠ .punctuation →
    opening ∉ token.text ∧ close ∉ token.text))

/-- A bracket of a kind. -/
def isOf (opening close : UInt8) (b : UInt8) : Bool := b = opening ∨ b = close

/-- Where no other token holds a bracket of a kind, the brackets of that kind are those of the tokens. -/
lemma filter_eq_brackets (closes : openingFor? close = some opening) {pos : Nat} {text : Bytes}
    {tokens : List Token} (inText : ∀ token ∈ tokens, token ∈ Token.lexFrom pos text)
    (plain : IsPlain opening close tokens) :
    (tokens.flatMap (ofToken place)).filter (isOf opening close ·.byte) =
      (brackets place tokens).filter (isOf opening close ·.byte) := by
  induction tokens with
  | nil => rfl
  | cons token tokens ih =>
    obtain ⟨mem, others⟩ := List.forall_mem_cons.1 inText
    obtain ⟨alone, rest⟩ := List.forall_mem_cons.1 plain
    rw [List.flatMap_cons, List.filter_append, ih others rest, brackets_cons, List.filter_append]
    congr 1
    split
    · rename_i isBracket
      obtain ⟨b, isText⟩ := text_of_isBracket mem isBracket
      rw [ofToken, isText]
      rfl
    · rename_i noBracket
      refine List.filter_eq_nil_iff.2 fun b inToken => ?_
      rw [isOf, decide_eq_true_eq]
      intro ofKind
      have inside : b.byte ∈ token.text := by
        rw [← text_ofText place token.pos token.text]
        exact List.mem_map_of_mem inToken
      by_cases sign : token.kind = .punctuation
      · obtain ⟨c, isText⟩ := text_of_punctuation mem sign
        rw [isText, List.mem_singleton] at inside
        exact noBracket (isBracket_of_byte closes (inside ▸ ofKind) sign isText)
      · rcases ofKind with isOpening | isClose
        · exact (alone sign).1 (isOpening ▸ inside)
        · exact (alone sign).2 (isClose ▸ inside)

lemma count_filter_isOf (opening close : UInt8) (text : Bytes) :
    (text.filter (isOf opening close)).count opening = text.count opening ∧
      (text.filter (isOf opening close)).count close = text.count close :=
  ⟨List.count_filter (by simp [isOf]), List.count_filter (by simp [isOf])⟩

lemma count_eq_of_filter {text other : Bytes}
    (same : text.filter (isOf opening close) = other.filter (isOf opening close)) :
    text.count opening = other.count opening ∧ text.count close = other.count close := by
  obtain ⟨opens, closings⟩ := count_filter_isOf opening close text
  rw [same] at opens closings
  obtain ⟨opens', closings'⟩ := count_filter_isOf opening close other
  exact ⟨opens.symm.trans opens', closings.symm.trans closings'⟩

/-- Texts with the same brackets of a kind end in parts with as many of them. -/
lemma exists_suffix_of_filter {text other part : Bytes}
    (same : text.filter (isOf opening close) = other.filter (isOf opening close))
    (isPart : part <:+ other) : ∃ back, back <:+ text ∧ back.count opening = part.count opening ∧
      back.count close = part.count close := by
  obtain ⟨before, rfl⟩ := isPart
  rw [List.filter_append, List.filter_eq_append_iff] at same
  obtain ⟨front, back, rfl, -, counted⟩ := same
  exact ⟨back, List.suffix_append _ _, count_eq_of_filter counted⟩

lemma balanced_of_filter {text other : Bytes}
    (same : text.filter (isOf opening close) = other.filter (isOf opening close))
    (balanced : Balanced opening close text) : Balanced opening close other := by
  refine ⟨?_, fun part isPart => ?_⟩
  · obtain ⟨opens, closings⟩ := count_eq_of_filter same
    rw [← opens, ← closings, balanced.1]
  · obtain ⟨back, isBack, opens, closings⟩ := exists_suffix_of_filter same isPart
    rw [← opens, ← closings]
    exact balanced.2 back isBack

lemma filter_text (bytes : List Placed) :
    (text bytes).filter (isOf opening close) = text (bytes.filter (isOf opening close ·.byte)) :=
  List.filter_map

end Placed
end CalcShell
