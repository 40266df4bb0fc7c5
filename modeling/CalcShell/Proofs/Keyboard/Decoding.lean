import CalcShell.Proofs.Keyboard.Bindings
import CalcShell.Proofs.Keyboard.Chunks
import CalcShell.Proofs.Text.Utf8
import Mathlib.Algebra.Ring.Nat

/-! Every buffer is decoded to its end, and into keys that a session understands: names that can be bound or
single printable code points. Typed text comes out as it went in. -/
namespace CalcShell.Key

variable {b : UInt8} {buffer rest key : Bytes} {more : Bool}

/-! ### Nothing is left -/

lemma announced_pos {length : Nat} (isLead : announced b = some length) : 0 < length := by
  unfold announced at isLead
  grind

lemma consumed_decodeText_pos (lead : UInt8) (rest : Bytes) :
    0 < (decodeText lead rest false).consumed := by
  unfold decodeText
  cases isLead : announced lead with
  | none => exact Nat.one_pos
  | some length =>
    dsimp only
    split
    · exact Nat.succ_pos _
    · split
      · exact announced_pos isLead
      · exact Nat.one_pos

lemma consumed_decodeEscape_pos (rest : Bytes) : 0 < (decodeEscape rest false).consumed := by
  cases rest with
  | nil => exact Nat.one_pos
  | cons second body =>
    simp only [decodeEscape]
    split
    · split
      · exact Nat.succ_pos _
      · exact Nat.succ_pos _
    · split
      · exact Nat.two_pos
      · exact Nat.one_pos

lemma consumed_decode_pos (some : buffer ≠ []) : 0 < (decode buffer false).consumed := by
  obtain ⟨b, rest, rfl⟩ := List.exists_cons_of_ne_nil some
  rcases decode_cons_cases b with escape | rfl | ⟨single, one, isSingle⟩ | text
  · rw [escape]
    exact consumed_decodeEscape_pos rest
  · rw [decode_return_cons]
    simp only [Decoded.named]
    split <;> omega
  · rw [isSingle, one]
    exact Nat.one_pos
  · rw [text]
    exact consumed_decodeText_pos b rest

lemma decodeAll_nil : decodeAll [] = [] := by
  rw [decodeAll]
  rfl

lemma decodeAll_of_ne_nil (some : buffer ≠ []) :
    decodeAll buffer =
      decode buffer false :: decodeAll (buffer.drop (decode buffer false).consumed) := by
  have moves := consumed_decode_pos some
  rw [decodeAll, dif_neg (not_or.2 ⟨some, by omega⟩)]

/-- The keys and skips of a buffer take all of its bytes. -/
lemma sum_consumed_decodeAll (buffer : Bytes) :
    ((decodeAll buffer).map (·.consumed)).sum = buffer.length := by
  induction buffer using decodeAll.induct with
  | case1 buffer done empty =>
    rw [List.isEmpty_iff.1 empty, decodeAll_nil]
    rfl
  | case2 buffer done some =>
    have moves := consumed_decode_pos (by simpa using some)
    rcases done with rfl | waits
    · exact absurd rfl some
    · omega
  | case3 buffer going ih =>
    have fits := consumed_decode_le buffer false
    rw [decodeAll_of_ne_nil (not_or.1 going).1, List.map_cons, List.sum_cons, ih, List.length_drop]
    omega

/-! ### Waiting for more -/

lemma decodeText_of_whole {lead : UInt8} (whole : (decodeText lead rest true).consumed ≠ 0) :
    decodeText lead rest true = decodeText lead rest false := by
  unfold decodeText at whole ⊢
  cases isLead : announced lead with
  | none => rfl
  | some length =>
    simp only [isLead] at whole ⊢
    by_cases short : rest.length + 1 < length
    · simp [short, Decoded.unfinished, Decoded.skip] at whole
    · rw [if_neg short, if_neg short]

lemma decodeEscape_of_whole (whole : (decodeEscape rest true).consumed ≠ 0) :
    decodeEscape rest true = decodeEscape rest false := by
  cases rest with
  | nil => simp [decodeEscape, Decoded.skip] at whole
  | cons second body =>
    simp only [decodeEscape] at whole ⊢
    split
    · rename_i isSequence
      rw [if_pos isSequence] at whole
      cases behind : body.drop (body.takeWhile (!isFinal ·)).length with
      | nil => simp [behind, Decoded.unfinished, Decoded.skip] at whole
      | cons final others => rfl
    · rfl

/-- A key that does not wait for more bytes is the same when no more can come. -/
lemma decode_of_whole (whole : (decode buffer true).consumed ≠ 0) :
    decode buffer true = decode buffer false := by
  cases buffer with
  | nil => rfl
  | cons b rest =>
    rcases decode_cons_cases b with escape | rfl | ⟨single, -, isSingle⟩ | text
    · rw [escape] at whole
      rw [escape, escape, decodeEscape_of_whole whole]
    · rfl
    · rw [isSingle, isSingle]
    · rw [text] at whole
      rw [text, text, decodeText_of_whole whole]

/-! ### Names and printable keys -/

lemma isKnown_of_ofNumber? {code : Bytes} (found : ofNumber? code = some key) : isKnown key := by
  have known : ∀ entry ∈ numbered, isKnown (bytes entry.2) := by decide
  obtain ⟨entry, isEntry, rfl⟩ := Option.map_eq_some_iff.1 found
  exact known entry (List.mem_of_find?_eq_some isEntry)

lemma isKnown_of_ofFinal? {final : UInt8} (found : ofFinal? final = some key) : isKnown key := by
  have known : ∀ entry ∈ finals, isKnown (bytes entry.2) := by decide
  obtain ⟨entry, isEntry, rfl⟩ := Option.map_eq_some_iff.1 found
  exact known entry (List.mem_of_find?_eq_some isEntry)

lemma isKnown_of_decodeEscape (decoded : (decodeEscape rest more).key = some key) : isKnown key := by
  cases rest with
  | nil =>
    cases more with
    | false =>
      cases decoded
      decide
    | true => cases decoded
  | cons second body =>
    simp only [decodeEscape] at decoded
    split at decoded
    · split at decoded
      · cases more <;> cases decoded
      · rename_i final others behind
        simp only [ofSequence?] at decoded
        split at decoded
        · exact isKnown_of_ofNumber? decoded
        · exact isKnown_of_ofFinal? decoded
    · split at decoded
      · rename_i lower
        cases decoded
        have modified : isModified (bytes "M-" ++ [second]) := lower
        simp [isKnown, modified]
      · cases decoded
        decide

/-- What is no control byte begins a text. -/
def IsVisible (b : UInt8) : Prop := 0x20 ≤ b ∧ b ≠ Ascii.delete

instance (b : UInt8) : Decidable (IsVisible b) := inferInstanceAs (Decidable (_ ∧ _))

lemma decode_of_isVisible (visible : IsVisible b) : decode (b :: rest) more = decodeText b rest more := by
  grind [IsVisible, decode, Ascii.escape, Ascii.carriageReturn, Ascii.newline, Ascii.tab]

/-- But for an escape sequence, what follows a control byte is no part of its key. -/
lemma key_of_control (control : ¬IsVisible b) (notEscape : b ≠ Ascii.escape) :
    (decode (b :: rest) more).key = (decode [b] false).key := by
  grind [IsVisible, decode, Decoded.named, Decoded.skip]

lemma isKnown_of_control_byte : ∀ n < 256, ¬IsVisible (UInt8.ofNat n) →
    ∀ key ∈ (decode [UInt8.ofNat n] false).key, isKnown key := by
  decide +kernel

lemma isKnown_of_control (control : ¬IsVisible b) (decoded : (decode (b :: rest) more).key = some key) :
    isKnown key := by
  by_cases escape : b = Ascii.escape
  · rw [decode, if_pos escape] at decoded
    exact isKnown_of_decodeEscape decoded
  · rw [key_of_control control escape] at decoded
    have single := isKnown_of_control_byte b.toNat (UInt8.toNat_lt b)
    rw [UInt8.ofNat_toNat] at single
    exact single control key decoded

lemma announced_ofNat : ∀ n < 256, announced (UInt8.ofNat n) =
    if n < 128 then some 1 else if n < 192 then none else if n < 224 then some 2
    else if n < 240 then some 3 else if n < 248 then some 4 else none := by
  decide +kernel

lemma isContinuation_of_announced {length : Nat} (isLead : announced b = some length) :
    Utf8.isContinuation b = false := by
  have lead := announced_ofNat b.toNat (UInt8.toNat_lt b)
  have continuation := Utf8.isContinuation_ofNat b.toNat (UInt8.toNat_lt b)
  rw [UInt8.ofNat_toNat] at lead continuation
  rw [continuation, decide_eq_false_iff_not]
  rintro ⟨low, high⟩
  rw [lead, if_neg (by omega), if_pos high] at isLead
  cases isLead

lemma isPrintable_of_decodeText (visible : IsVisible b)
    (decoded : (decodeText b rest more).key = some key) : isPrintable key := by
  unfold decodeText at decoded
  cases isLead : announced b with
  | none => simp [isLead, Decoded.skip] at decoded
  | some length =>
    simp only [isLead] at decoded
    split at decoded
    · cases more <;> cases decoded
    split at decoded
    · rename_i behind
      cases decoded
      have lead := isContinuation_of_announced isLead
      have width : Utf8.width (b :: rest.take (length - 1)) = 1 := by
        have none : (rest.take (length - 1)).countP (!Utf8.isContinuation ·) = 0 := by
          simpa [List.countP_eq_zero] using behind
        rw [Utf8.width, List.countP_cons_of_pos (by simp [lead]), none]
      simp [isPrintable, width, visible.1, visible.2]
    · cases decoded

/-- A key is known by its name or it is printable, and never both. -/
lemma isKnown_eq_of_decode (decoded : (decode buffer more).key = some key) :
    isKnown key = !isPrintable key := by
  cases buffer with
  | nil => cases decoded
  | cons b rest =>
    by_cases visible : IsVisible b
    · rw [decode_of_isVisible visible] at decoded
      have printable := isPrintable_of_decodeText visible decoded
      have unknown : isKnown key = false := by
        by_contra known
        rw [not_isPrintable_of_known (by simpa using known)] at printable
        cases printable
      rw [unknown, printable]
      rfl
    · have known := isKnown_of_control visible decoded
      rw [known, not_isPrintable_of_known known]
      rfl

/-! ### Typed text -/

/-- A character that is typed into a line: no control character below the space, and no delete. -/
def IsTyped (c : Char) : Prop := 0x20 ≤ c.toNat ∧ c.toNat ≠ 0x7F

instance (c : Char) : Decidable (IsTyped c) := inferInstanceAs (Decidable (_ ∧ _))

lemma announced_encodeChar {c : Char} (shape : String.utf8EncodeChar c = b :: rest) :
    announced b = some (rest.length + 1) := by
  unfold String.utf8EncodeChar at shape
  generalize c.val.toNat = n at shape
  dsimp only at shape
  split at shape
  · cases shape
    rw [announced_ofNat _ (by omega), if_pos (by omega)]
    rfl
  · split at shape
    · cases shape
      rw [announced_ofNat _ (by omega), if_neg (by omega), if_neg (by omega), if_pos (by omega)]
      rfl
    · split at shape
      · cases shape
        rw [announced_ofNat _ (by omega), if_neg (by omega), if_neg (by omega), if_neg (by omega),
          if_pos (by omega)]
        rfl
      · cases shape
        rw [announced_ofNat _ (by omega), if_neg (by omega), if_neg (by omega), if_neg (by omega),
          if_neg (by omega), if_pos (by omega)]
        rfl

lemma isVisible_encodeChar {c : Char} (typed : IsTyped c)
    (shape : String.utf8EncodeChar c = b :: rest) : IsVisible b := by
  have visible : ∀ n < 256, IsVisible (UInt8.ofNat n) ↔ 32 ≤ n ∧ n ≠ 127 := by decide +kernel
  obtain ⟨low, notDelete⟩ : 32 ≤ c.val.toNat ∧ c.val.toNat ≠ 127 := typed
  unfold String.utf8EncodeChar at shape
  generalize c.val.toNat = n at shape low notDelete
  dsimp only at shape
  split at shape
  · cases shape
    exact (visible _ (by omega)).2 ⟨low, notDelete⟩
  · split at shape
    · cases shape
      exact (visible _ (by omega)).2 (by omega)
    · split at shape
      · cases shape
        exact (visible _ (by omega)).2 (by omega)
      · cases shape
        exact (visible _ (by omega)).2 (by omega)

lemma decode_encodeChar_append {c : Char} (typed : IsTyped c) (tail : Bytes) (more : Bool) :
    decode (String.utf8EncodeChar c ++ tail) more =
      ⟨some (String.utf8EncodeChar c), (String.utf8EncodeChar c).length⟩ := by
  obtain ⟨b, rest, shape, -, behind, -⟩ := Utf8.encodeChar_eq_cons c
  have taken : (rest ++ tail).take (rest.length + 1 - 1) = rest := by
    rw [Nat.add_sub_cancel, List.take_left]
  have enough : ¬(rest ++ tail).length + 1 < rest.length + 1 := by
    rw [List.length_append]
    omega
  rw [shape, List.cons_append, decode_of_isVisible (isVisible_encodeChar typed shape), decodeText,
    announced_encodeChar shape]
  dsimp only
  rw [taken, if_neg enough, if_pos behind, List.length_cons]

lemma decodeAll_encode {chars : List Char} (typed : ∀ c ∈ chars, IsTyped c) :
    decodeAll (Utf8.encode chars) =
      chars.map fun c => ⟨some (String.utf8EncodeChar c), (String.utf8EncodeChar c).length⟩ := by
  induction chars with
  | nil => exact decodeAll_nil
  | cons c chars ih =>
    obtain ⟨first, others⟩ := List.forall_mem_cons.1 typed
    have some : Utf8.encode (c :: chars) ≠ [] := by
      rw [Utf8.encode_cons]
      exact List.append_ne_nil_of_left_ne_nil String.utf8EncodeChar_ne_nil _
    rw [decodeAll_of_ne_nil some, Utf8.encode_cons, decode_encodeChar_append first, List.drop_left,
      ih others, List.map_cons]

/-- Every buffer that is not empty begins with a key or with bytes to skip, so that decoding takes all of
it. What does not wait for more bytes is decoded the same when no more can come. Every key is known by its
name or printable but not both, and typed text is decoded into its characters, one by one. -/
theorem decode_complete (buffer : Bytes) :
    (buffer ≠ [] → 1 ≤ (decode buffer false).consumed ∧ (decode buffer false).consumed ≤ buffer.length) ∧
      ((decodeAll buffer).map (·.consumed)).sum = buffer.length ∧
      ((decode buffer true).consumed ≠ 0 → decode buffer true = decode buffer false) ∧
      (∀ more, ∀ key ∈ (decode buffer more).key, isKnown key = !isPrintable key) ∧
      ∀ chars, Utf8.encode chars = buffer → (∀ c ∈ chars, IsTyped c) →
        decodeAll buffer =
          chars.map fun c => ⟨some (String.utf8EncodeChar c), (String.utf8EncodeChar c).length⟩ := by
  refine ⟨fun some => ⟨consumed_decode_pos some, consumed_decode_le buffer false⟩,
    sum_consumed_decodeAll buffer, decode_of_whole, fun more key decoded => isKnown_eq_of_decode decoded, ?_⟩
  rintro chars rfl typed
  exact decodeAll_encode typed

/-- Text of one to four bytes a character, decoded. -/
theorem decode_complete_typed_text :
    let chars := ['f', 'é', '€', '😀']
    (∀ c ∈ chars, IsTyped c) ∧ (decode (Utf8.encode chars) true).consumed ≠ 0 ∧
      keys (decodeAll (Utf8.encode chars)) = chars.map String.utf8EncodeChar ∧
      (decode (Utf8.encode chars) true).key = some (bytes "f") := by
  intro chars
  have typed : ∀ c ∈ chars, IsTyped c := by simp [chars, IsTyped]
  have whole : (decode (Utf8.encode chars) true).consumed ≠ 0 := by decide
  obtain ⟨-, -, same, -, text⟩ := decode_complete (Utf8.encode chars)
  refine ⟨typed, whole, ?_, ?_⟩
  · rw [text chars rfl typed]
    rfl
  · rw [same whole]
    rfl

end CalcShell.Key
