import CalcShell.Proofs.Calc.Levels

/-! The grammar looks at the kinds and the texts of tokens, never at their places. What is left to read
behind an expression is the same wherever the tokens stand, so longer lists follow from shorter ones. -/
namespace CalcShell.Calc.Grammar
open Token (unplaced)

/-! ### The levels that look at single tokens -/

/-- What a bracket at the front of an atom holds, given what was read behind it. -/
def closeBracket : Expr × List Token → Expr × List Token
  | (inner, []) => (.broken inner .invalid, [])
  | (inner, close :: rest) =>
    if close.is .punctuation ")" then (inner, rest) else (.broken inner .invalid, [])

lemma read_bracket {t : Token} (is : t.is .punctuation "(") (behind : List Token) :
    read 9 (t :: behind) = closeBracket (read 0 behind) := by
  change (atom (t :: behind)).view = closeBracket (or behind).view
  rw [atom.eq_def]
  dsimp only
  rw [if_pos is]
  rcases or behind with ⟨inner, _ | ⟨close, rest⟩, h⟩
  · rfl
  · dsimp only
    split
    · rename_i closes
      exact (if_pos closes).symm
    · rename_i other
      exact (if_neg other).symm

lemma read_mistaken {t : Token} (other : t.is .punctuation "(" = false) {m : Mistake}
    (is : atomExpr t = .mistake m) (behind : List Token) :
    read 9 (t :: behind) = (.mistake m, []) := by
  change (atom (t :: behind)).view = _
  rw [atom.eq_def]
  dsimp only
  rw [other, if_neg Bool.false_ne_true, is]
  rfl

lemma read_atom_nil : read 9 [] = (.mistake .invalid, []) := by
  change (atom []).view = _
  rw [atom]
  rfl

lemma goOn_broken {t : Token} (is : t.is .punctuation ".") {behind : List Token}
    (other : ∀ name ∈ behind.head?, name.kind ≠ .name) (left : Expr) :
    goOn 8 left (t :: behind) = (.broken left .invalid, []) := by
  have noCall : t.is .punctuation "(" = false := by
    rw [Token.is, Bool.and_eq_true, beq_iff_eq, beq_iff_eq] at is
    rw [Token.is, is.1, is.2]
    decide
  change (trailers left (t :: behind)).view = _
  rw [trailers.eq_def]
  dsimp only
  rw [noCall, if_neg Bool.false_ne_true, if_pos is]
  cases behind with
  | nil => rfl
  | cons name rest =>
    dsimp only
    rw [if_neg (other name rfl)]
    rfl

lemma argumentsTail_other {t : Token} (noComma : t.is .punctuation "," = false)
    (noClose : t.is .punctuation ")" = false) (named : Bool) (behind : List Token) :
    (argumentsTail named (t :: behind)).view = (.mistake .invalid, []) := by
  rw [argumentsTail.eq_def]
  dsimp only
  rw [noComma, noClose, if_neg Bool.false_ne_true, if_neg Bool.false_ne_true]
  rfl

lemma arguments_late {t : Token} {behind : List Token} (other : t.is .punctuation ")" = false)
    (plain : isBinding (t :: behind) = false) :
    (arguments true (t :: behind)).view = (.mistake .positionalAfterKeyword, []) := by
  rw [arguments.eq_def]
  dsimp only
  rw [other, plain, if_neg Bool.false_ne_true, if_neg Bool.false_ne_true, if_pos rfl]
  rfl

lemma length_read_le (k : Nat) (ts : List Token) : (read k ts).2.length ≤ ts.length := by
  match k with
  | 0 => exact (or ts).rest_le
  | 1 => exact (and ts).rest_le
  | 2 => exact (not ts).rest_le
  | 3 => exact (comparison ts).rest_le
  | 4 => exact (sum ts).rest_le
  | 5 => exact (term ts).rest_le
  | 6 => exact (unary ts).rest_le
  | 7 => exact (power ts).rest_le
  | 8 => exact (trailed ts).rest_le
  | n + 9 => exact (atom ts).rest_le

/-! ### Lists of tokens, the shorter ones first -/

/-- What was read, with the tokens behind it wherever they stand. -/
def moved {α : Type} (answer : α × List Token) : α × List Token := (answer.1, answer.2.map unplaced)

lemma closeBracket_moved (answer : Expr × List Token) :
    closeBracket (moved answer) = moved (closeBracket answer) := by
  rcases answer with ⟨inner, _ | ⟨close, rest⟩⟩
  · rfl
  · simp only [moved, closeBracket, List.map_cons]
    change (if close.is .punctuation ")" = true then _ else _) = _
    split <;> rfl

/-- Lists of less than `n` tokens are read in the same way wherever the tokens stand. -/
structure Blind (n : Nat) : Prop where
  read : ∀ ts, ts.length < n → ∀ k, read k (ts.map unplaced) = moved (read k ts)
  goOn : ∀ ts, ts.length < n → ∀ k left, goOn k left (ts.map unplaced) = moved (goOn k left ts)
  arguments : ∀ ts, ts.length < n → ∀ named,
    (arguments named (ts.map unplaced)).view = moved (arguments named ts).view

namespace Blind

variable {n : Nat} {ts : List Token}

/-- A point goes on with a member, and is wrong where no name follows. -/
lemma goOn_point_unplaced (blind : Blind n) {t : Token} {behind : List Token}
    (shorter : behind.length < n) (point : t.is .punctuation ".") (left : Expr) :
    Grammar.goOn 8 left (t.unplaced :: behind.map unplaced) =
      moved (Grammar.goOn 8 left (t :: behind)) := by
  by_cases named : ∃ name ∈ behind.head?, name.kind = .name
  · obtain ⟨name, isHead, isName⟩ := named
    obtain ⟨rest, rfl⟩ := List.head?_eq_some_iff.1 isHead
    have isMember : name.unplaced.kind = .name := isName
    rw [List.map_cons, goOn_member point isName, goOn_member (t := t.unplaced) point isMember]
    exact blind.goOn _ (Nat.lt_of_succ_lt shorter) 8 _
  · have other : ∀ name ∈ behind.head?, name.kind ≠ .name :=
      fun name isHead isName => named ⟨name, isHead, isName⟩
    have others : ∀ name ∈ (behind.map unplaced).head?, name.kind ≠ .name := by
      rw [List.head?_map]
      rintro _ isHead
      obtain ⟨name, isFirst, rfl⟩ := Option.map_eq_some_iff.1 isHead
      exact other name isFirst
    rw [goOn_broken point other, goOn_broken (t := t.unplaced) point others]
    rfl

lemma goOn_unplaced (blind : Blind n) (short : ts.length ≤ n) (k : Nat) (left : Expr) :
    Grammar.goOn k left (ts.map unplaced) = moved (Grammar.goOn k left ts) := by
  cases ts with
  | nil => rw [List.map_nil, goOn_nil]; rfl
  | cons t behind =>
    have shorter : behind.length < n := short
    have rest (j : Nat) : (Grammar.read j behind).2.length < n :=
      Nat.lt_of_le_of_lt (length_read_le j behind) shorter
    rw [List.map_cons]
    cases goes : continues k t with
    | false => rw [goOn_cons goes, goOn_cons ((continues_unplaced k t).trans goes)]; rfl
    | true =>
      match k, goes with
      | 0, is =>
        have is : t.is .keyword "or" := is
        rw [goOn_or is, goOn_or (t := t.unplaced) is, blind.read behind shorter]
        exact blind.goOn _ (rest 1) 0 _
      | 1, is =>
        have is : t.is .keyword "and" := is
        rw [goOn_and is, goOn_and (t := t.unplaced) is, blind.read behind shorter]
        exact blind.goOn _ (rest 2) 1 _
      | 3, is =>
        obtain ⟨op, is⟩ := Option.isSome_iff_exists.1 is
        rw [goOn_compare is, goOn_compare (t := t.unplaced) is, blind.read behind shorter]
        rfl
      | 4, is =>
        obtain ⟨op, is⟩ := Option.isSome_iff_exists.1 is
        rw [goOn_sum is, goOn_sum (t := t.unplaced) is, blind.read behind shorter]
        exact blind.goOn _ (rest 5) 4 _
      | 5, is =>
        obtain ⟨op, is⟩ := Option.isSome_iff_exists.1 is
        rw [goOn_term is, goOn_term (t := t.unplaced) is, blind.read behind shorter]
        exact blind.goOn _ (rest 6) 5 _
      | 7, is =>
        obtain ⟨op, is⟩ := Option.isSome_iff_exists.1 is
        rw [goOn_power is, goOn_power (t := t.unplaced) is, blind.read behind shorter]
        rfl
      | 8, is =>
        rw [continues, Bool.or_eq_true] at is
        rcases is with call | point
        · have within := (Grammar.arguments false behind).rest_le
          rw [goOn_call call, goOn_call (t := t.unplaced) call, blind.arguments behind shorter]
          exact blind.goOn _ (Nat.lt_of_le_of_lt within shorter) 8 _
        · exact blind.goOn_point_unplaced shorter point left

lemma read_atom_unplaced (blind : Blind n) (short : ts.length ≤ n) :
    Grammar.read 9 (ts.map unplaced) = moved (Grammar.read 9 ts) := by
  cases ts with
  | nil => rw [List.map_nil, read_atom_nil]; rfl
  | cons t behind =>
    rw [List.map_cons]
    cases bracket : t.is .punctuation "(" with
    | true =>
      rw [read_bracket bracket, read_bracket (t := t.unplaced) bracket, blind.read behind short,
        closeBracket_moved]
    | false =>
      by_cases sound : ∀ m, atomExpr t ≠ .mistake m
      · rw [read_atom bracket rfl sound, read_atom (t := t.unplaced) bracket rfl sound]
        rfl
      · obtain ⟨m, isMistake⟩ := not_forall_not.1 sound
        rw [read_mistaken bracket isMistake, read_mistaken (t := t.unplaced) bracket isMistake]
        rfl

/-- A level either begins with a token of its own, or goes on behind the next level. -/
lemma read_unplaced (blind : Blind n) (short : ts.length ≤ n) (k : Nat) :
    Grammar.read k (ts.map unplaced) = moved (Grammar.read k ts) := by
  by_cases low : k < 9
  · by_cases plain : ∀ t ∈ ts.head?, begins k t = false
    · have inner := read_unplaced blind short (k + 1)
      have within := (length_read_le (k + 1) ts).trans short
      rw [read_eq_goOn low plain, read_eq_goOn low (by
        rw [List.head?_map]
        simpa [begins_unplaced] using plain), inner]
      exact blind.goOn_unplaced within k _
    · simp only [not_forall] at plain
      obtain ⟨t, isHead, own⟩ := plain
      obtain ⟨behind, rfl⟩ := List.head?_eq_some_iff.1 isHead
      rw [List.map_cons]
      match k, own with
      | 2, own =>
        have is : t.is .keyword "not" := (Bool.not_eq_false _).mp own
        rw [read_not is, read_not (t := t.unplaced) is, blind.read behind short]
        rfl
      | 6, own =>
        obtain ⟨negative, is⟩ : ∃ negative, signOf? t = some negative := by
          rw [begins, Bool.not_eq_false] at own
          exact Option.isSome_iff_exists.1 own
        rw [read_sign is, read_sign (t := t.unplaced) is, blind.read behind short]
        rfl
  · obtain ⟨j, rfl⟩ := Nat.exists_eq_add_of_le' (Nat.le_of_not_lt low)
    exact blind.read_atom_unplaced short
termination_by 9 - k

lemma argumentsTail_unplaced (blind : Blind n) (short : ts.length ≤ n) (named : Bool) :
    (argumentsTail named (ts.map unplaced)).view = moved (argumentsTail named ts).view := by
  cases ts with
  | nil => rw [List.map_nil, argumentsTail]; rfl
  | cons t behind =>
    rw [List.map_cons]
    cases comma : t.is .punctuation "," with
    | true =>
      rw [argumentsTail_comma comma, argumentsTail_comma (t := t.unplaced) comma]
      exact blind.arguments behind short named
    | false =>
      cases close : t.is .punctuation ")" with
      | true => rw [argumentsTail_close close, argumentsTail_close (t := t.unplaced) close]; rfl
      | false =>
        rw [argumentsTail_other comma close, argumentsTail_other (t := t.unplaced) comma close]
        rfl

lemma arguments_unplaced (blind : Blind n) (short : ts.length ≤ n) (named : Bool) :
    (Grammar.arguments named (ts.map unplaced)).view =
      moved (Grammar.arguments named ts).view := by
  cases ts with
  | nil => rw [List.map_nil, Grammar.arguments]; rfl
  | cons t behind =>
    have same : isBinding (t.unplaced :: behind.map unplaced) = isBinding (t :: behind) :=
      isBinding_unplaced (t :: behind)
    rw [List.map_cons]
    cases close : t.is .punctuation ")" with
    | true => rw [arguments_close close, arguments_close (t := t.unplaced) close]; rfl
    | false =>
      cases binding : isBinding (t :: behind) with
      | true =>
        cases behind with
        | nil => cases binding
        | cons sign behind =>
          have shorter : behind.length < n := Nat.lt_of_succ_lt short
          rw [isBinding, Bool.and_eq_true, beq_iff_eq] at binding
          have within := (length_read_le 0 behind).trans shorter.le
          have isSign : sign.unplaced.is .operator "=" = true := binding.2
          rw [List.map_cons, arguments_keyword binding.1 binding.2,
            arguments_keyword (t := t.unplaced) binding.1 isSign, blind.read behind shorter]
          simp only [moved, blind.argumentsTail_unplaced within]
          rfl
      | false =>
        cases named with
        | true =>
          rw [arguments_late close binding,
            arguments_late (t := t.unplaced) close (same.trans binding)]
          rfl
        | false =>
          have within := (length_read_le 0 (t :: behind)).trans short
          have first := blind.read_unplaced short 0
          rw [List.map_cons] at first
          rw [arguments_positional close binding,
            arguments_positional (t := t.unplaced) close (same.trans binding), first]
          simp only [moved, blind.argumentsTail_unplaced within]

end Blind

theorem blind (n : Nat) : Blind n := by
  induction n with
  | zero => exact ⟨nofun, nofun, nofun⟩
  | succ n ih =>
    exact ⟨fun _ short => ih.read_unplaced (Nat.le_of_lt_succ short),
      fun _ short => ih.goOn_unplaced (Nat.le_of_lt_succ short),
      fun _ short => ih.arguments_unplaced (Nat.le_of_lt_succ short)⟩

/-- An expression is the same wherever its tokens stand. -/
theorem expression_unplaced (ts : List Token) : expression (ts.map unplaced) = expression ts := by
  have told (ts : List Token) : expression ts =
      if (read 0 ts).2 = [] then (read 0 ts).1 else .broken (read 0 ts).1 .invalid := by
    change _ = if (or ts).rest = [] then (or ts).expr else .broken (or ts).expr .invalid
    rw [expression]
    rcases or ts with ⟨expr, _ | ⟨t, rest⟩, h⟩ <;> rfl
  rw [told, told, (blind _).read ts (Nat.lt_succ_self _)]
  simp only [moved, List.map_eq_nil_iff]

end CalcShell.Calc.Grammar
