import CalcShell.Text.Utf8

/-!
Key names. A key is either known by name, and can then be bound to an action, or it is one
printable code point that stands for itself.
-/
namespace CalcShell
namespace Key

/-- Keys with a name of their own. -/
def named : List Bytes :=
  ["KEY_UP", "KEY_DOWN", "KEY_LEFT", "KEY_RIGHT", "KEY_HOME", "KEY_END", "KEY_PPAGE", "KEY_NPAGE",
   "KEY_DC", "KEY_IC", "KEY_BTAB", "KEY_BACKSPACE", "TAB", "ENTER", "ESC"].map bytes

/-- The function keys F1 to F12. -/
def functionKeys : List Bytes :=
  (List.range 12).map fun n => Ascii.code 'F' :: Bytes.ofNat (n + 1)

/-- A letter together with Control or Meta, such as C-a. -/
def isModified : Bytes → Bool
  | [modifier, dash, letter] =>
    (modifier == Ascii.code 'C' || modifier == Ascii.code 'M') && dash == Ascii.code '-' &&
      Ascii.isLower letter
  | _ => false

/-- Keys that a configuration may bind. -/
def isKnown (key : Bytes) : Bool :=
  named.contains key || isModified key || functionKeys.contains key

/-- One code point that is typed into the line. -/
def isPrintable (key : Bytes) : Bool :=
  match key with
  | [] => false
  | b :: _ => 0x20 ≤ b && b != Ascii.delete && Utf8.width key == 1

end Key
end CalcShell
