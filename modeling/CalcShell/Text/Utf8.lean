import CalcShell.Bytes

/-!
Code points of a byte text. A code point is a byte with at most three continuation bytes behind
it, which agrees with UTF-8 on valid text and still cuts every other text into pieces of one to
four bytes. A terminal cell shows one code point.
-/
namespace CalcShell
namespace Utf8

def isContinuation (b : UInt8) : Bool := b &&& 0xC0 == 0x80

/-- The first code point of `b :: rest` as the number of bytes it takes from `rest`. -/
def trailing (rest : Bytes) : Nat := ((rest.take 3).takeWhile isContinuation).length

/-- The code points of a text, in order. -/
def chunks : Bytes → List Bytes
  | [] => []
  | b :: rest => (b :: rest.take (trailing rest)) :: chunks (rest.drop (trailing rest))
termination_by text => text.length
decreasing_by simp only [List.length_drop, List.length_cons]; omega

@[simp] theorem chunks_nil : chunks [] = [] := by rw [chunks]

theorem chunks_cons (b : UInt8) (rest : Bytes) :
    chunks (b :: rest) =
      (b :: rest.take (trailing rest)) :: chunks (rest.drop (trailing rest)) := by
  rw [chunks]

/-- Cutting a text into code points loses nothing. -/
@[simp] theorem flatten_chunks (text : Bytes) : (chunks text).flatten = text := by
  induction text using chunks.induct with
  | case1 => simp
  | case2 b rest ih => rw [chunks_cons]; simp [ih]

/-- Length of the code point at the front of a text. -/
def nextLength : Bytes → Nat
  | [] => 0
  | _ :: rest => 1 + trailing rest

/-- Length of the code point at the end of a text that is given from its last byte back: the
continuation bytes at the end and the byte before them, but never more than four. -/
def lastLength (reversed : Bytes) : Nat :=
  min (min 4 reversed.length) (1 + ((reversed.take 3).takeWhile isContinuation).length)

/-- Terminal cells that a text takes: one for each byte that is no continuation byte. -/
def width (text : Bytes) : Nat := text.countP (!isContinuation ·)

@[simp] theorem width_nil : width [] = 0 := rfl

@[simp] theorem width_append (a b : Bytes) : width (a ++ b) = width a + width b := by
  simp [width]

/-- The first `cells` code points. -/
def truncate (cells : Nat) (text : Bytes) : Bytes := ((chunks text).take cells).flatten

end Utf8
end CalcShell
