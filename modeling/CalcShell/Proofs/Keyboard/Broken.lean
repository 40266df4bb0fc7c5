import CalcShell.Proofs.Keyboard.Decoding

/-! Where a character breaks off. Its first byte and the continuation bytes behind it are skipped one by
one, so that decoding goes on with the byte that came too early, but only if the buffer has as many bytes
as the character should have had. A shorter buffer is skipped as a whole, with the keys in it. -/
namespace CalcShell.Key

variable {b lead : UInt8} {rest tail : Bytes} {length : Nat}

/-- A character that breaks off in front of the rest: fewer continuation bytes than the lead byte announces,
and then a byte that is none. -/
structure BreaksOff (lead : UInt8) (tail rest : Bytes) (length : Nat) : Prop where
  isLead : announced lead = some length
  continues : tail.all Utf8.isContinuation
  short : tail.length + 1 < length
  fresh : ∃ b others, rest = b :: others ∧ Utf8.isContinuation b = false

/-! ### Bytes that are skipped alone -/

lemma isVisible_of_high (high : 0x80 ≤ b) : IsVisible b := by
  refine ⟨UInt8.le_trans (by decide) high, ?_⟩
  rintro rfl
  exact absurd high (by decide)

/-- What announces more than itself is no ASCII byte. -/
lemma high_of_announced (isLead : announced lead = some length) (long : 1 < length) : 0x80 ≤ lead := by
  by_contra low
  rw [announced, if_pos (UInt8.not_le.1 low)] at isLead
  cases isLead
  exact absurd long (by decide)

lemma high_of_isContinuation (continues : Utf8.isContinuation b = true) : 0x80 ≤ b := by
  by_contra low
  rw [Utf8.isContinuation_eq_false_of_lt (UInt8.not_le.1 low)] at continues
  cases continues

lemma announced_of_isContinuation (continues : Utf8.isContinuation b = true) : announced b = none := by
  cases isLead : announced b with
  | none => rfl
  | some length =>
    rw [isContinuation_of_announced isLead] at continues
    cases continues

lemma decode_of_isContinuation (continues : Utf8.isContinuation b = true) (rest : Bytes) (more : Bool) :
    decode (b :: rest) more = .skip 1 := by
  rw [decode_of_isVisible (isVisible_of_high (high_of_isContinuation continues)), decodeText,
    announced_of_isContinuation continues]

/-- Continuation bytes with no lead byte in front of them are skipped one by one. -/
lemma decodeAll_continuation_append (continues : tail.all Utf8.isContinuation) (rest : Bytes) :
    decodeAll (tail ++ rest) = List.replicate tail.length (.skip 1) ++ decodeAll rest := by
  induction tail with
  | nil => rfl
  | cons b tail ih =>
    rw [List.all_cons, Bool.and_eq_true] at continues
    have first := decode_of_isContinuation continues.1 (tail ++ rest) false
    rw [List.cons_append, decodeAll_of_ne_nil (List.cons_ne_nil _ _), first]
    exact congrArg (_ :: ·) (ih continues.2)

/-! ### The lead byte -/

namespace BreaksOff

lemma isVisible (broken : BreaksOff lead tail rest length) : IsVisible lead :=
  isVisible_of_high (high_of_announced broken.isLead (Nat.lt_of_le_of_lt (Nat.le_add_left 1 _) broken.short))

/-- The bytes that should belong to the character reach as far as the one that does not. -/
lemma not_all_continuation (broken : BreaksOff lead tail rest length) :
    ((tail ++ rest).take (length - 1)).all Utf8.isContinuation = false := by
  obtain ⟨b, others, rfl, fresh⟩ := broken.fresh
  obtain ⟨k, missing⟩ := Nat.exists_eq_add_of_lt broken.short
  have cut : length - 1 = tail.length + (k + 1) := by omega
  rw [cut, List.take_length_add_append, List.take_succ_cons, List.all_append, List.all_cons, fresh,
    Bool.false_and, Bool.and_false]

/-- With enough bytes in the buffer the lead byte is skipped alone, else the buffer. -/
lemma decode_eq (broken : BreaksOff lead tail rest length) :
    decode (lead :: (tail ++ rest)) false =
      .skip (if length ≤ (lead :: (tail ++ rest)).length then 1 else (lead :: (tail ++ rest)).length) := by
  rw [decode_of_isVisible broken.isVisible, decodeText, broken.isLead]
  dsimp only
  rw [broken.not_all_continuation, List.length_cons]
  split
  · rename_i few
    rw [if_neg (Nat.not_le.2 few)]
    rfl
  · rename_i enough
    rw [if_pos (Nat.not_lt.1 enough)]
    rfl

lemma decodeAll_of_enough (broken : BreaksOff lead tail rest length)
    (enough : length ≤ (lead :: (tail ++ rest)).length) :
    decodeAll (lead :: (tail ++ rest)) =
      List.replicate (tail.length + 1) (.skip 1) ++ decodeAll rest := by
  have first := broken.decode_eq
  rw [if_pos enough] at first
  rw [decodeAll_of_ne_nil (List.cons_ne_nil _ _), first, List.replicate_succ, List.cons_append,
    ← decodeAll_continuation_append broken.continues]
  rfl

lemma decodeAll_of_few (broken : BreaksOff lead tail rest length)
    (few : (lead :: (tail ++ rest)).length < length) :
    decodeAll (lead :: (tail ++ rest)) = [.skip (lead :: (tail ++ rest)).length] := by
  have first := broken.decode_eq
  rw [if_neg (Nat.not_le.2 few)] at first
  have none : (lead :: (tail ++ rest)).drop (Decoded.skip (lead :: (tail ++ rest)).length).consumed = [] :=
    List.drop_length
  rw [decodeAll_of_ne_nil (List.cons_ne_nil _ _), first, none, decodeAll_nil]

end BreaksOff

lemma keys_replicate_skip (n consumed : Nat) (read : List Decoded) :
    keys (List.replicate n (.skip consumed) ++ read) = keys read := by
  have none : keys (List.replicate n (.skip consumed)) = [] := by
    rw [keys, List.filterMap_replicate_of_none rfl]
  rw [keys_append, none, List.nil_append]

/-- Behind a character that breaks off the keys are those of the rest alone just when the buffer has as
many bytes as the lead byte announces, unless the rest has no keys at all. -/
theorem keys_behind_broken_iff (broken : BreaksOff lead tail rest length) :
    keys (decodeAll (lead :: (tail ++ rest))) = keys (decodeAll rest) ↔
      length ≤ (lead :: (tail ++ rest)).length ∨ keys (decodeAll rest) = [] := by
  by_cases enough : length ≤ (lead :: (tail ++ rest)).length
  · rw [broken.decodeAll_of_enough enough, keys_replicate_skip]
    exact iff_of_true rfl (.inl enough)
  · rw [broken.decodeAll_of_few (Nat.not_le.1 enough), or_iff_right enough]
    exact eq_comm

/-- The first two bytes of a character of four, and a key for each byte that is missing. -/
theorem keys_behind_broken_emoji :
    let tail := [0x9F]
    let rest := bytes "ab"
    BreaksOff 0xF0 tail rest 4 ∧ keys (decodeAll (0xF0 :: (tail ++ rest))) = [bytes "a", bytes "b"] := by
  intro tail rest
  have broken : BreaksOff 0xF0 tail rest 4 :=
    ⟨by decide, by decide, by decide, Ascii.code 'a', bytes "b", by decide, by decide⟩
  refine ⟨broken, ((keys_behind_broken_iff broken).2 (.inl (by decide))).trans ?_⟩
  decide +kernel

/-- The lead byte of a character of three bytes and a single key behind it: the key is lost. -/
theorem short_buffer_swallows_key :
    BreaksOff 0xE2 [] (bytes "z") 3 ∧ keys (decodeAll (bytes "z")) = [bytes "z"] ∧
      keys (decodeAll (0xE2 :: ([] ++ bytes "z"))) = [] := by
  refine ⟨⟨by decide, by decide, by decide, Ascii.code 'z', [], by decide, by decide⟩, ?_⟩
  decide +kernel

end CalcShell.Key
