import CalcShell.Keyboard.Decode
import Mathlib.Data.List.TakeWhile

/-! The keys of a stream do not depend on where the stream is cut, save for one place: a carriage
return is a key as soon as it arrives, and a line feed that comes after it is another one then. -/
namespace CalcShell.Key

/-- Takes keys from the front of a buffer as long as there is a whole one, and answers the rest. -/
def drain (buffer : Bytes) : List Decoded × Bytes :=
  if _waits : (decode buffer true).consumed = 0 then ([], buffer)
  else
    let (taken, left) := drain (buffer.drop (decode buffer true).consumed)
    (decode buffer true :: taken, left)
termination_by buffer.length
decreasing_by
  cases buffer with
  | nil => exact absurd rfl _waits
  | cons b rest => simp only [List.length_drop, List.length_cons]; omega

/-- What is read of a stream that arrives in chunks, behind bytes that wait already. After the last
chunk nothing waits any longer. -/
def readChunks : Bytes → List Bytes → List Decoded
  | pending, [] => decodeAll pending
  | pending, chunk :: rest =>
    let (taken, left) := drain (pending ++ chunk)
    taken ++ readChunks left rest

def keys (read : List Decoded) : List Bytes := read.filterMap (·.key)

@[simp] lemma keys_append (read more : List Decoded) : keys (read ++ more) = keys read ++ keys more :=
  List.filterMap_append

@[simp] lemma keys_cons_named (name : String) (consumed : Nat) (read : List Decoded) :
    keys (.named name consumed :: read) = bytes name :: keys read := rfl

/-- A buffer that is read to a carriage return which is its last byte. -/
inductive EndsInReturn : Bytes → Prop
  | last : EndsInReturn [Ascii.carriageReturn]
  | behind {buffer : Bytes} (whole : (decode buffer true).consumed ≠ 0)
    (rest : EndsInReturn (buffer.drop (decode buffer true).consumed)) : EndsInReturn buffer

/-- A carriage return is the last byte of a chunk and read with it, and a line feed comes next. -/
def SplitsReturn (chunks : List Bytes) : Prop :=
  ∃ before after, chunks = before ++ after ∧ EndsInReturn before.flatten ∧
    after.flatten.head? = some Ascii.newline

/-! ### One key -/

lemma consumed_decodeText_le (lead : UInt8) (rest : Bytes) (more : Bool) :
    (decodeText lead rest more).consumed ≤ rest.length + 1 := by
  unfold decodeText
  cases announced lead with
  | none => simp [Decoded.skip]
  | some length =>
    dsimp only
    split
    · cases more <;> simp [Decoded.unfinished, Decoded.skip]
    · split
      · simp only; omega
      · simp [Decoded.skip]

lemma consumed_decodeEscape_le (rest : Bytes) (more : Bool) :
    (decodeEscape rest more).consumed ≤ rest.length + 1 := by
  cases rest with
  | nil => cases more <;> simp [decodeEscape, Decoded.skip, Decoded.named]
  | cons second body =>
    simp only [decodeEscape]
    split
    · split
      · cases more <;> simp [Decoded.unfinished, Decoded.skip]
      · rename_i final others behind
        have length := congrArg List.length behind
        simp only [List.length_drop, List.length_cons] at length ⊢
        omega
    · split <;> simp [Decoded.named]

/-- Only the escape byte, a carriage return and text can begin a key of several bytes. -/
lemma decode_cons_cases (b : UInt8) :
    (∀ rest more, decode (b :: rest) more = decodeEscape rest more) ∨
      b = Ascii.carriageReturn ∨
      (∃ single : Decoded, single.consumed = 1 ∧ ∀ rest more, decode (b :: rest) more = single) ∨
      ∀ rest more, decode (b :: rest) more = decodeText b rest more := by
  by_cases escape : b = Ascii.escape
  · left
    simp [decode, escape]
  by_cases isReturn : b = Ascii.carriageReturn
  · exact .inr (.inl isReturn)
  by_cases control : b = Ascii.delete ∨ b < 0x20
  · refine .inr (.inr (.inl ⟨decode [b] true, ?_, fun rest more => ?_⟩))
    all_goals grind [decode, Decoded.named, Decoded.skip]
  · refine .inr (.inr (.inr fun rest more => ?_))
    grind [decode, Ascii.newline, Ascii.tab]

lemma decode_return_cons (rest : Bytes) (more : Bool) :
    decode (Ascii.carriageReturn :: rest) more =
      .named "ENTER" (if rest.head? = some Ascii.newline then 2 else 1) := rfl

/-- A key takes no more bytes than there are. -/
lemma consumed_decode_le (buffer : Bytes) (more : Bool) :
    (decode buffer more).consumed ≤ buffer.length := by
  cases buffer with
  | nil => simp [decode, Decoded.skip]
  | cons b rest =>
    rcases decode_cons_cases b with escape | rfl | ⟨single, one, isSingle⟩ | text
    · rw [escape]
      exact consumed_decodeEscape_le rest more
    · rw [decode_return_cons]
      cases rest <;> simp [Decoded.named]
      split <;> omega
    · simp [isSingle, one]
    · rw [text]
      exact consumed_decodeText_le b rest more

lemma decodeText_append {lead : UInt8} {rest : Bytes} (whole : (decodeText lead rest true).consumed ≠ 0)
    (back : Bytes) : decodeText lead (rest ++ back) true = decodeText lead rest true := by
  unfold decodeText at whole ⊢
  cases isLead : announced lead with
  | none => rfl
  | some length =>
    simp only [isLead] at whole ⊢
    by_cases short : rest.length + 1 < length
    · simp [short, Decoded.unfinished, Decoded.skip] at whole
    · have enough : length - 1 ≤ rest.length := by omega
      have long : ¬(rest ++ back).length + 1 < length := by
        rw [List.length_append]
        omega
      rw [if_neg short, if_neg long, List.take_append_of_le_length enough]

lemma decodeEscape_append {rest : Bytes} (whole : (decodeEscape rest true).consumed ≠ 0)
    (back : Bytes) : decodeEscape (rest ++ back) true = decodeEscape rest true := by
  cases rest with
  | nil => simp [decodeEscape, Decoded.skip] at whole
  | cons second body =>
    simp only [decodeEscape, List.cons_append] at whole ⊢
    split
    · rename_i isSequence
      rw [if_pos isSequence] at whole
      cases behind : body.drop (body.takeWhile (!isFinal ·)).length with
      | nil => simp [behind, Decoded.unfinished, Decoded.skip] at whole
      | cons final others =>
        have stops : (body.takeWhile (!isFinal ·)).length < body.length := by
          by_contra all
          simp [List.drop_eq_nil_of_le (Nat.not_lt.1 all)] at behind
        have same : (body ++ back).takeWhile (!isFinal ·) = body.takeWhile (!isFinal ·) := by
          rw [List.takeWhile_append, if_neg (Nat.ne_of_lt stops)]
        rw [same, List.drop_append_of_le_length (Nat.le_of_lt stops), behind]
        rfl
    · rfl

/-- A key that is whole stays as it is when more bytes arrive, unless it is a carriage return in front
of a line feed. -/
lemma decode_append {buffer : Bytes} (whole : (decode buffer true).consumed ≠ 0) (back : Bytes)
    (apart : buffer = [Ascii.carriageReturn] → back.head? ≠ some Ascii.newline) :
    decode (buffer ++ back) true = decode buffer true := by
  cases buffer with
  | nil => exact absurd rfl whole
  | cons b rest =>
    rw [List.cons_append]
    rcases decode_cons_cases b with escape | rfl | ⟨single, -, isSingle⟩ | text
    · rw [escape] at whole
      rw [escape, escape, decodeEscape_append whole]
    · cases rest with
      | nil => simp [decode_return_cons, apart rfl]
      | cons second rest => rfl
    · rw [isSingle, isSingle]
    · rw [text] at whole
      rw [text, text, decodeText_append whole]

/-! ### Draining a buffer -/

lemma drain_of_waits {buffer : Bytes} (waits : (decode buffer true).consumed = 0) :
    drain buffer = ([], buffer) := by
  rw [drain, dif_pos waits]

lemma drain_of_whole {buffer : Bytes} (whole : (decode buffer true).consumed ≠ 0) :
    drain buffer =
      (decode buffer true :: (drain (buffer.drop (decode buffer true).consumed)).1,
        (drain (buffer.drop (decode buffer true).consumed)).2) := by
  rw [drain, dif_neg whole]

@[simp] lemma drain_nil : drain [] = ([], []) := drain_of_waits rfl

@[simp] lemma drain_return : drain [Ascii.carriageReturn] = ([.named "ENTER" 1], []) := by
  rw [drain_of_whole (by decide), show List.drop _ [Ascii.carriageReturn] = [] from rfl, drain_nil]
  rfl

lemma drain_newline_cons (rest : Bytes) :
    drain (Ascii.newline :: rest) = (.named "ENTER" 1 :: (drain rest).1, (drain rest).2) := by
  have whole : (decode (Ascii.newline :: rest) true).consumed ≠ 0 := Nat.one_ne_zero
  exact drain_of_whole whole

lemma drain_return_newline_cons (rest : Bytes) :
    drain (Ascii.carriageReturn :: Ascii.newline :: rest) =
      (.named "ENTER" 2 :: (drain rest).1, (drain rest).2) := by
  have whole : (decode (Ascii.carriageReturn :: Ascii.newline :: rest) true).consumed ≠ 0 :=
    Nat.succ_ne_zero 1
  exact drain_of_whole whole

/-- Draining a buffer in two parts is draining it as a whole, unless a carriage return and a line feed
are parted. -/
lemma drain_append (front back : Bytes)
    (apart : EndsInReturn front → back.head? ≠ some Ascii.newline) :
    drain (front ++ back) =
      ((drain front).1 ++ (drain ((drain front).2 ++ back)).1, (drain ((drain front).2 ++ back)).2) := by
  induction front using drain.induct with
  | case1 front waits =>
    rw [drain_of_waits waits]
    rfl
  | case2 front whole taken left _ ih =>
    have same := decode_append whole back fun isReturn => apart (isReturn ▸ .last)
    have enough := consumed_decode_le front true
    rw [drain_of_whole whole, drain_of_whole (same ▸ whole), same,
      List.drop_append_of_le_length enough, ih fun ends => apart (.behind whole ends)]
    rfl

/-- A carriage return and a line feed are one key together and two keys when they are parted. -/
lemma drain_of_endsInReturn {front : Bytes} (ends : EndsInReturn front) (rest : Bytes) :
    ∃ taken, drain front = (taken ++ [.named "ENTER" 1], []) ∧
      drain (front ++ Ascii.newline :: rest) =
        (taken ++ .named "ENTER" 2 :: (drain rest).1, (drain rest).2) := by
  induction ends with
  | last => exact ⟨[], drain_return, drain_return_newline_cons rest⟩
  | @behind front whole inner ih =>
    obtain ⟨taken, parted, joined⟩ := ih
    have same : decode (front ++ Ascii.newline :: rest) true = decode front true := by
      apply decode_append whole
      rintro rfl
      -- Nothing is left behind a single carriage return.
      cases inner with
      | behind whole => exact absurd rfl whole
    have enough := consumed_decode_le front true
    refine ⟨decode front true :: taken, ?_, ?_⟩
    · rw [drain_of_whole whole, parted]
      rfl
    · rw [drain_of_whole (same ▸ whole), same, List.drop_append_of_le_length enough, joined]
      rfl

/-! ### Reading a stream -/

lemma not_endsInReturn_nil : ¬EndsInReturn [] := by
  rintro ⟨⟩
  contradiction

lemma splitsReturn_cons_cons (front back : Bytes) (rest : List Bytes) :
    SplitsReturn (front :: back :: rest) ↔
      EndsInReturn front ∧ back.head? = some Ascii.newline ∨
        SplitsReturn ((front ++ back) :: rest) := by
  constructor
  · rintro ⟨before, after, chunks, ends, next⟩
    rcases before with _ | ⟨first, _ | ⟨second, before⟩⟩
    · exact absurd ends not_endsInReturn_nil
    · cases chunks
      rw [List.flatten_singleton] at ends
      cases back with
      | nil => exact .inr ⟨[front], rest, by simp, by simpa using ends, by simpa using next⟩
      | cons b back => exact .inl ⟨ends, by simpa using next⟩
    · cases chunks
      exact .inr ⟨(front ++ back) :: before, after, rfl, by simpa using ends, next⟩
  · rintro (⟨ends, next⟩ | ⟨before, after, chunks, ends, next⟩)
    · exact ⟨[front], back :: rest, rfl, by simpa using ends, by simp [next]⟩
    · cases before with
      | nil => exact absurd ends not_endsInReturn_nil
      | cons first before =>
        cases chunks
        exact ⟨front :: back :: before, after, rfl, by simpa using ends, next⟩

lemma readChunks_join {front back : Bytes} (rest : List Bytes)
    (apart : EndsInReturn front → back.head? ≠ some Ascii.newline) :
    readChunks [] (front :: back :: rest) = readChunks [] ((front ++ back) :: rest) := by
  simp [readChunks, drain_append front back apart]

/-- A cut between a carriage return and a line feed makes one key two. -/
lemma length_keys_of_endsInReturn {front : Bytes} (ends : EndsInReturn front) (back : Bytes)
    (rest : List Bytes) :
    (keys (readChunks [] (front :: (Ascii.newline :: back) :: rest))).length =
      (keys (readChunks [] ((front ++ Ascii.newline :: back) :: rest))).length + 1 := by
  obtain ⟨taken, parted, joined⟩ := drain_of_endsInReturn ends back
  simp [readChunks, parted, joined, drain_newline_cons]
  omega

/-- Cuts add keys just where they part a carriage return from its line feed. -/
lemma keys_readChunks_cons (front : Bytes) (rest : List Bytes) :
    (¬SplitsReturn (front :: rest) →
        keys (readChunks [] (front :: rest)) = keys (readChunks [] [(front :: rest).flatten])) ∧
      (SplitsReturn (front :: rest) →
        (keys (readChunks [] [(front :: rest).flatten])).length <
          (keys (readChunks [] (front :: rest))).length) := by
  induction rest generalizing front with
  | nil =>
    refine ⟨fun _ => by simp, ?_⟩
    rintro ⟨before, after, chunks, ends, next⟩
    rcases before with _ | ⟨first, before⟩
    · exact absurd ends not_endsInReturn_nil
    · have none : after = [] := by simp_all
      simp [none] at next
  | cons back rest ih =>
    obtain ⟨same, more⟩ := ih (front ++ back)
    have whole : ((front ++ back) :: rest).flatten = (front :: back :: rest).flatten := by simp
    rw [whole] at same more
    rw [splitsReturn_cons_cons]
    by_cases parts : EndsInReturn front ∧ back.head? = some Ascii.newline
    · refine ⟨fun apart => absurd (.inl parts) apart, fun _ => ?_⟩
      obtain ⟨ends, next⟩ := parts
      obtain ⟨back, rfl⟩ := List.head?_eq_some_iff.1 next
      rw [length_keys_of_endsInReturn ends, Nat.lt_succ_iff]
      by_cases later : SplitsReturn ((front ++ Ascii.newline :: back) :: rest)
      · exact Nat.le_of_lt (more later)
      · exact Nat.le_of_eq (congrArg List.length (same later).symm)
    · rw [readChunks_join rest fun ends next => parts ⟨ends, next⟩]
      exact ⟨fun apart => same fun later => apart (.inr later),
        fun splits => more (splits.resolve_left parts)⟩

/-- A stream gives the keys that it gives in one piece, wherever it is cut, just when no cut parts a
carriage return that is a key from the line feed behind it. -/
theorem keys_of_chunks_eq_iff (chunks : List Bytes) :
    keys (readChunks [] chunks) = keys (readChunks [] [chunks.flatten]) ↔ ¬SplitsReturn chunks := by
  cases chunks with
  | nil =>
    have empty : ¬SplitsReturn [] := by
      rintro ⟨before, after, chunks, ends, -⟩
      rw [(List.append_eq_nil_iff.1 chunks.symm).1] at ends
      exact not_endsInReturn_nil ends
    simp [readChunks, empty]
  | cons front rest =>
    obtain ⟨same, more⟩ := keys_readChunks_cons front rest
    refine ⟨fun equal splits => ?_, same⟩
    exact absurd (congrArg List.length equal.symm) (Nat.ne_of_lt (more splits))

/-- The return key of a terminal that sends both bytes, when they arrive one after the other. -/
theorem parted_return_is_two_keys :
    keys (readChunks [] [[Ascii.carriageReturn], [Ascii.newline]]) = [bytes "ENTER", bytes "ENTER"] ∧
      keys (readChunks [] [[Ascii.carriageReturn, Ascii.newline]]) = [bytes "ENTER"] := by
  decide +kernel

end CalcShell.Key
