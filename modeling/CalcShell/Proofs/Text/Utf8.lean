import CalcShell.Text.Utf8
import Mathlib.Tactic.Lemma

/-! Code points of valid UTF-8: the encoding of a character ends where cutting bytes finds the last
code point. -/
namespace CalcShell.Utf8

/-- The UTF-8 bytes of some characters. -/
def encode (chars : List Char) : Bytes := chars.flatMap String.utf8EncodeChar

@[simp] lemma encode_nil : encode [] = [] := rfl

@[simp] lemma encode_append (left right : List Char) :
    encode (left ++ right) = encode left ++ encode right := List.flatMap_append

@[simp] lemma encode_cons (c : Char) (chars : List Char) :
    encode (c :: chars) = String.utf8EncodeChar c ++ encode chars := rfl

/-! ### One character -/

lemma isContinuation_ofNat :
    ∀ n < 256, isContinuation (UInt8.ofNat n) = decide (128 ≤ n ∧ n < 192) := by
  decide +kernel

lemma isContinuation_lead {n : Nat} (h : n < 256) (outside : n < 128 ∨ 192 ≤ n) :
    isContinuation (UInt8.ofNat n) = false := by
  rw [isContinuation_ofNat n h, decide_eq_false]
  omega

lemma isContinuation_trail (n : Nat) : isContinuation (UInt8.ofNat (n % 64 + 128)) := by
  rw [isContinuation_ofNat _ (by omega), decide_eq_true]
  omega

/-- A first byte, and at most three continuation bytes behind it. -/
lemma encodeChar_eq_cons (c : Char) : ∃ b rest, String.utf8EncodeChar c = b :: rest ∧
    isContinuation b = false ∧ rest.all isContinuation ∧ rest.length ≤ 3 := by
  unfold String.utf8EncodeChar
  generalize c.val.toNat = n
  dsimp only
  split
  · exact ⟨_, _, rfl, isContinuation_lead (by omega) (by omega), rfl, by simp⟩
  · split
    · refine ⟨_, _, rfl, isContinuation_lead (by omega) (by omega), ?_, by simp⟩
      simp only [List.all_cons, isContinuation_trail, List.all_nil, Bool.and_self]
    · split
      · refine ⟨_, _, rfl, isContinuation_lead (by omega) (by omega), ?_, by simp⟩
        simp only [List.all_cons, isContinuation_trail, List.all_nil, Bool.and_self]
      · refine ⟨_, _, rfl, isContinuation_lead (by omega) (by omega), ?_, by simp⟩
        simp only [List.all_cons, isContinuation_trail, List.all_nil, Bool.and_self]

lemma lastLength_append_encodeChar (text : Bytes) (c : Char) :
    lastLength (text ++ String.utf8EncodeChar c).reverse = (String.utf8EncodeChar c).length := by
  obtain ⟨b, rest, shape, first, behind, short⟩ := encodeChar_eq_cons c
  have run : ((text ++ b :: rest).reverse.take 3).takeWhile isContinuation = rest.reverse := by
    have split : (text ++ b :: rest).reverse.take 3 =
        rest.reverse ++ (b :: text.reverse).take (3 - rest.length) := by
      rw [List.reverse_append, List.reverse_cons, List.append_assoc, List.singleton_append,
        List.take_append, List.length_reverse, List.take_of_length_le]
      simpa using short
    rw [split, List.takeWhile_append_of_pos (by simpa using behind)]
    cases 3 - rest.length with
    | zero => simp
    | succ n => simp [first]
  rw [shape, lastLength, run]
  simp only [List.length_reverse, List.length_append, List.length_cons]
  omega

/-! ### Lengths -/

lemma length_le_length_encode (chars : List Char) : chars.length ≤ (encode chars).length := by
  induction chars with
  | nil => exact Nat.le_refl 0
  | cons c chars ih =>
    have := c.utf8Size_pos
    simp only [encode_cons, List.length_append, List.length_cons, String.length_utf8EncodeChar]
    omega

/-- Only ASCII takes one byte for each character. -/
lemma length_eq_length_encode_iff (chars : List Char) :
    chars.length = (encode chars).length ↔ ∀ c ∈ chars, c.val ≤ 0x7F := by
  induction chars with
  | nil => simp
  | cons c chars ih =>
    have bound := length_le_length_encode chars
    have := c.utf8Size_pos
    rw [List.forall_mem_cons, ← ih, ← Char.utf8Size_eq_one_iff]
    simp only [encode_cons, List.length_append, List.length_cons, String.length_utf8EncodeChar]
    omega

lemma length_encode_drop_lt (chars : List Char) {i j : Nat} (h : i < j) (hi : i < chars.length) :
    (encode (chars.drop j)).length < (encode (chars.drop i)).length := by
  have split : chars.drop i = (chars.drop i).take (j - i) ++ chars.drop j := by
    have split := List.take_append_drop (j - i) (chars.drop i)
    rw [List.drop_drop, Nat.add_sub_cancel' (Nat.le_of_lt h)] at split
    exact split.symm
  have bound := length_le_length_encode ((chars.drop i).take (j - i))
  rw [List.length_take, List.length_drop] at bound
  rw [split, encode_append, List.length_append]
  omega

/-- A suffix is told by the number of its bytes. -/
lemma length_encode_drop_inj {chars : List Char} {i j : Nat} (hi : i ≤ chars.length)
    (hj : j ≤ chars.length) :
    (encode (chars.drop i)).length = (encode (chars.drop j)).length ↔ i = j := by
  constructor
  · intro same
    rcases Nat.lt_trichotomy i j with h | h | h
    · have := length_encode_drop_lt chars h (by omega)
      omega
    · exact h
    · have := length_encode_drop_lt chars h (by omega)
      omega
  · rintro rfl
    rfl

/-! ### Where characters begin -/

/-- The text does not begin inside a character. -/
def IsAligned (text : Bytes) : Prop := ∀ b ∈ text.head?, isContinuation b = false

lemma isAligned_nil : IsAligned [] := nofun

lemma IsAligned.append {front back : Bytes} (hfront : IsAligned front) (hback : IsAligned back) :
    IsAligned (front ++ back) := by
  cases front with
  | nil => exact hback
  | cons b front => exact hfront

lemma isAligned_encode (chars : List Char) : IsAligned (encode chars) := by
  cases chars with
  | nil => exact isAligned_nil
  | cons c chars =>
    obtain ⟨b, rest, shape, first, -, -⟩ := encodeChar_eq_cons c
    intro b' head
    rw [encode_cons, shape] at head
    cases head
    exact first

lemma isContinuation_eq_false_of_lt {b : UInt8} (ascii : b < 0x80) : isContinuation b = false := by
  have := isContinuation_ofNat b.toNat (UInt8.toNat_lt b)
  rw [UInt8.ofNat_toNat] at this
  rw [this, decide_eq_false]
  have := UInt8.lt_iff_toNat_lt.1 ascii
  simp at this
  omega

lemma isAligned_cons_of_lt {b : UInt8} (ascii : b < 0x80) (rest : Bytes) :
    IsAligned (b :: rest) := by
  intro b' head
  cases head
  exact isContinuation_eq_false_of_lt ascii

/-- A first byte below those of longer characters is the whole character. -/
lemma encodeChar_of_lt {c : Char} {b : UInt8} {rest : Bytes}
    (shape : String.utf8EncodeChar c = b :: rest) (ascii : b < 0x80) : rest = [] := by
  have low := UInt8.lt_iff_toNat_lt.1 ascii
  unfold String.utf8EncodeChar at shape
  generalize c.val.toNat = n at shape
  dsimp only at shape
  split at shape
  · cases shape
    rfl
  · exfalso
    split at shape
    · cases shape
      simp at low
      omega
    · split at shape
      · cases shape
        simp at low
        omega
      · cases shape
        simp at low
        omega

/-- Only ASCII is encoded in a single byte. -/
lemma lt_of_encodeChar_eq_singleton {c : Char} {b : UInt8} (single : String.utf8EncodeChar c = [b]) :
    b < 0x80 := by
  have size : c.utf8Size = 1 := by rw [← String.length_utf8EncodeChar, single, List.length_singleton]
  rw [String.utf8EncodeChar_eq_singleton size] at single
  cases single
  have low : c.val.toNat ≤ 127 := UInt32.le_iff_toNat_le.1 (Char.utf8Size_eq_one_iff.1 size)
  rw [UInt8.lt_iff_toNat_lt]
  change c.val.toUInt8.toNat < 128
  rw [UInt32.toNat_toUInt8]
  omega

/-- The first character of a text is told by its bytes. -/
lemma encodeChar_append_inj {c c' : Char} {front back : Bytes}
    (same : String.utf8EncodeChar c ++ front = String.utf8EncodeChar c' ++ back) :
    c = c' ∧ front = back := by
  have first : some c = some c' := by
    have bytes := congrArg List.toByteArray same
    rw [List.toByteArray_append, List.toByteArray_append] at bytes
    rw [← ByteArray.utf8DecodeChar?_utf8EncodeChar_append, bytes,
      ByteArray.utf8DecodeChar?_utf8EncodeChar_append]
  cases first
  exact ⟨rfl, List.append_cancel_left same⟩

/-- The continuation bytes behind a first byte are taken with it. -/
lemma trailing_append {rest tail : Bytes} (behind : rest.all isContinuation)
    (short : rest.length ≤ 3) (aligned : IsAligned tail) :
    trailing (rest ++ tail) = rest.length := by
  unfold trailing
  rw [List.take_append, List.take_of_length_le short,
    List.takeWhile_append_of_pos (by simpa using behind)]
  have none : (tail.take (3 - rest.length)).takeWhile isContinuation = [] := by
    cases tail with
    | nil => simp
    | cons b tail =>
      have first : isContinuation b = false := aligned b rfl
      cases 3 - rest.length <;> simp [first]
  rw [none, List.append_nil]

lemma chunks_encodeChar_append (c : Char) {tail : Bytes} (aligned : IsAligned tail) :
    chunks (String.utf8EncodeChar c ++ tail) = String.utf8EncodeChar c :: chunks tail := by
  obtain ⟨b, rest, shape, -, behind, short⟩ := encodeChar_eq_cons c
  rw [shape, List.cons_append, chunks_cons, trailing_append behind short aligned, List.take_left,
    List.drop_left]

lemma nextLength_encodeChar_append (c : Char) {tail : Bytes} (aligned : IsAligned tail) :
    nextLength (String.utf8EncodeChar c ++ tail) = (String.utf8EncodeChar c).length := by
  obtain ⟨b, rest, shape, -, behind, short⟩ := encodeChar_eq_cons c
  rw [shape, List.cons_append, nextLength, trailing_append behind short aligned, List.length_cons]
  omega

/-- Cutting finds the characters before a place where one begins. -/
lemma chunks_encode_append (chars : List Char) {tail : Bytes} (aligned : IsAligned tail) :
    chunks (encode chars ++ tail) = chars.map String.utf8EncodeChar ++ chunks tail := by
  induction chars with
  | nil => rfl
  | cons c chars ih =>
    rw [encode_cons, List.append_assoc, chunks_encodeChar_append c
      ((isAligned_encode chars).append aligned), ih, List.map_cons, List.cons_append]

lemma chunks_encode (chars : List Char) :
    chunks (encode chars) = chars.map String.utf8EncodeChar := by
  have whole := chunks_encode_append chars isAligned_nil
  rw [List.append_nil, chunks_nil, List.append_nil] at whole
  exact whole

lemma width_encodeChar (c : Char) : width (String.utf8EncodeChar c) = 1 := by
  obtain ⟨b, rest, shape, first, behind, -⟩ := encodeChar_eq_cons c
  have none : rest.countP (!isContinuation ·) = 0 := by
    simpa [List.countP_eq_zero] using behind
  rw [shape, width, List.countP_cons_of_pos (by simp [first]), none]

lemma width_encode (chars : List Char) : width (encode chars) = chars.length := by
  induction chars with
  | nil => rfl
  | cons c chars ih =>
    rw [encode_cons, width_append, width_encodeChar, ih, List.length_cons]
    omega

/-! ### Valid texts -/

/-- The text is the UTF-8 of some characters. -/
def IsValid (text : Bytes) : Prop := ∃ chars, encode chars = text

lemma isValid_nil : IsValid [] := ⟨[], rfl⟩

lemma isValid_encode (chars : List Char) : IsValid (encode chars) := ⟨chars, rfl⟩

lemma IsValid.isAligned {text : Bytes} (valid : IsValid text) : IsAligned text := by
  obtain ⟨chars, rfl⟩ := valid
  exact isAligned_encode chars

lemma IsValid.append {front back : Bytes} (hfront : IsValid front) (hback : IsValid back) :
    IsValid (front ++ back) := by
  obtain ⟨left, rfl⟩ := hfront
  obtain ⟨right, rfl⟩ := hback
  exact ⟨left ++ right, encode_append left right⟩

/-- What follows a valid beginning of a valid text is valid. -/
lemma IsValid.of_append {front back : Bytes} (valid : IsValid (front ++ back))
    (hfront : IsValid front) : IsValid back := by
  obtain ⟨chars, same⟩ := valid
  obtain ⟨left, rfl⟩ := hfront
  induction left generalizing chars with
  | nil => exact ⟨chars, same⟩
  | cons c left ih =>
    rw [encode_cons, List.append_assoc] at same
    cases chars with
    | nil => exact absurd (List.append_eq_nil_iff.1 same.symm).1 String.utf8EncodeChar_ne_nil
    | cons c' chars =>
      rw [encode_cons] at same
      exact ih chars (encodeChar_append_inj same).2

lemma isValid_append_iff {front : Bytes} (hfront : IsValid front) (back : Bytes) :
    IsValid (front ++ back) ↔ IsValid back :=
  ⟨fun valid => valid.of_append hfront, hfront.append⟩

lemma lt_of_isValid_singleton {b : UInt8} (valid : IsValid [b]) : b < 0x80 := by
  obtain ⟨chars, same⟩ := valid
  cases chars with
  | nil => cases same
  | cons c chars =>
    obtain ⟨b', rest, shape, -, -, -⟩ := encodeChar_eq_cons c
    rw [encode_cons, shape, List.cons_append, List.cons.injEq, List.append_eq_nil_iff] at same
    obtain ⟨rfl, rfl, -⟩ := same
    exact lt_of_encodeChar_eq_singleton shape

/-- A valid text falls into two wherever a character begins. -/
theorem IsValid.split {front back : Bytes} (valid : IsValid (front ++ back))
    (aligned : IsAligned back) : IsValid front ∧ IsValid back := by
  obtain ⟨chars, same⟩ := valid
  induction chars generalizing front with
  | nil =>
    obtain ⟨rfl, rfl⟩ := List.append_eq_nil_iff.1 same.symm
    exact ⟨isValid_nil, isValid_nil⟩
  | cons c chars ih =>
    rw [encode_cons] at same
    rcases List.append_eq_append_iff.1 same with ⟨rest, rfl, rest_eq⟩ | ⟨inside, whole, rfl⟩
    · obtain ⟨⟨left, rfl⟩, hback⟩ := ih rest_eq
      exact ⟨⟨c :: left, rfl⟩, hback⟩
    · cases front with
      | nil =>
        rw [List.nil_append] at whole
        exact ⟨isValid_nil, c :: chars, by rw [encode_cons, whole]⟩
      | cons b front =>
        cases inside with
        | nil =>
          rw [List.append_nil] at whole
          exact ⟨⟨[c], by rw [← whole]; simp⟩, isValid_encode chars⟩
        | cons x inside =>
          -- The second part would begin with a continuation byte of `c`.
          obtain ⟨b', rest, shape, -, behind, -⟩ := encodeChar_eq_cons c
          have first : isContinuation x = false := aligned x rfl
          rw [shape, List.cons_append, List.cons.injEq] at whole
          rw [whole.2] at behind
          simp [first] at behind

lemma encodeChar_ofNat : ∀ n < 128, String.utf8EncodeChar (Char.ofNat n) = [UInt8.ofNat n] := by
  decide +kernel

lemma isValid_of_ascii {text : Bytes} (ascii : ∀ b ∈ text, b < 0x80) : IsValid text := by
  induction text with
  | nil => exact isValid_nil
  | cons b text ih =>
    have single := encodeChar_ofNat b.toNat (UInt8.lt_iff_toNat_lt.1 (ascii b List.mem_cons_self))
    rw [UInt8.ofNat_toNat] at single
    have first : IsValid [b] := ⟨[Char.ofNat b.toNat], by simp [single]⟩
    exact first.append (ih fun b' mem => ascii b' (List.mem_cons_of_mem b mem))

/-- On both sides of an ASCII character the text is valid. -/
lemma IsValid.around {front back : Bytes} {b : UInt8} (valid : IsValid (front ++ b :: back))
    (ascii : b < 0x80) : IsValid front ∧ IsValid back := by
  obtain ⟨hfront, chars, same⟩ := valid.split (isAligned_cons_of_lt ascii back)
  cases chars with
  | nil => cases same
  | cons c chars =>
    obtain ⟨b', rest, shape, -, -, -⟩ := encodeChar_eq_cons c
    rw [encode_cons, shape, List.cons_append, List.cons.injEq] at same
    obtain ⟨rfl, same⟩ := same
    rw [encodeChar_of_lt shape ascii, List.nil_append] at same
    exact ⟨hfront, chars, same⟩

/-- Between the texts no character can be cut: nothing follows, or an ASCII character stands on one
side. -/
def IsSeam (front back : Bytes) : Prop :=
  back = [] ∨ (∃ b rest, back = b :: rest ∧ b < 0x80) ∨ ∃ rest b, front = rest ++ [b] ∧ b < 0x80

lemma isSeam_of_ascii {front : Bytes} (some : front ≠ []) (ascii : ∀ b ∈ front, b < 0x80)
    (back : Bytes) : IsSeam front back := by
  rcases List.eq_nil_or_concat front with rfl | ⟨rest, b, rfl⟩
  · contradiction
  · rw [List.concat_eq_append] at ascii ⊢
    exact .inr (.inr ⟨rest, b, rfl, ascii b (by simp)⟩)

lemma IsValid.split_of_isSeam {front back : Bytes} (valid : IsValid (front ++ back))
    (seam : IsSeam front back) : IsValid front ∧ IsValid back := by
  rcases seam with rfl | ⟨b, rest, rfl, ascii⟩ | ⟨rest, b, rfl, ascii⟩
  · exact valid.split isAligned_nil
  · exact valid.split (isAligned_cons_of_lt ascii rest)
  · rw [List.append_assoc, List.singleton_append] at valid
    obtain ⟨hrest, hback⟩ := valid.around ascii
    have last : IsValid [b] := isValid_of_ascii (List.forall_mem_singleton.2 ascii)
    exact ⟨hrest.append last, hback⟩

end CalcShell.Utf8
