import CalcShell.Keyboard.Key

/-!
Key names from the bytes that a terminal sends: control bytes, escape sequences and UTF-8. Bytes
that form no key are consumed without one.
-/
namespace CalcShell
namespace Key

/-- The first key of a buffer. Without a key the consumed bytes are skipped; nothing consumed means
that the buffer holds only the beginning of a key. -/
structure Decoded where
  key : Option Bytes
  consumed : Nat
deriving DecidableEq, Repr

namespace Decoded

def named (name : String) (consumed : Nat) : Decoded := ⟨some (bytes name), consumed⟩

def skip (consumed : Nat) : Decoded := ⟨none, consumed⟩

/-- An unfinished key waits while more bytes may come and is skipped otherwise. -/
def unfinished (buffer : Bytes) (more : Bool) : Decoded :=
  if more then skip 0 else skip buffer.length

end Decoded

/-- Keys that a terminal reports as a number before a tilde. -/
def numbered : List (String × String) :=
  [("1", "KEY_HOME"), ("2", "KEY_IC"), ("3", "KEY_DC"), ("4", "KEY_END"), ("5", "KEY_PPAGE"),
   ("6", "KEY_NPAGE"), ("7", "KEY_HOME"), ("8", "KEY_END"), ("11", "F1"), ("12", "F2"),
   ("13", "F3"), ("14", "F4"), ("15", "F5"), ("17", "F6"), ("18", "F7"), ("19", "F8"),
   ("20", "F9"), ("21", "F10"), ("23", "F11"), ("24", "F12")]

def ofNumber? (code : Bytes) : Option Bytes :=
  (numbered.find? (bytes ·.1 == code)).map (bytes ·.2)

/-- Keys that a terminal reports by the last byte of a sequence. -/
def finals : List (Char × String) :=
  [('A', "KEY_UP"), ('B', "KEY_DOWN"), ('C', "KEY_RIGHT"), ('D', "KEY_LEFT"), ('H', "KEY_HOME"),
   ('F', "KEY_END"), ('Z', "KEY_BTAB"), ('P', "F1"), ('Q', "F2"), ('R', "F3"), ('S', "F4")]

def ofFinal? (final : UInt8) : Option Bytes :=
  (finals.find? (Ascii.code ·.1 == final)).map (bytes ·.2)

def isFinal (b : UInt8) : Bool := 0x40 ≤ b && b ≤ 0x7E

/-- The key of a complete control sequence; of several parameters before a tilde the first one
counts. -/
def ofSequence? (parameters : Bytes) (final : UInt8) : Option Bytes :=
  if final = Ascii.code '~' then ofNumber? (parameters.takeWhile (· != Ascii.code ';'))
  else ofFinal? final

/-- Decodes a buffer that begins with the escape byte, given the bytes after it. -/
def decodeEscape (rest : Bytes) (more : Bool) : Decoded :=
  match rest with
  | [] => if more then .skip 0 else .named "ESC" 1
  | second :: body =>
    if second = Ascii.code '[' || second = Ascii.code 'O' then
      let parameters := body.takeWhile (!isFinal ·)
      match body.drop parameters.length with
      | [] => .unfinished (Ascii.escape :: rest) more
      | final :: _ => ⟨ofSequence? parameters final, parameters.length + 3⟩
    else if Ascii.isLower second then ⟨some (bytes "M-" ++ [second]), 2⟩
    else .named "ESC" 1

/-- Bytes of the code point that a lead byte announces; none for a byte that is no lead byte. -/
def announced (lead : UInt8) : Option Nat :=
  if lead < 0x80 then some 1
  else if lead &&& 0xE0 == 0xC0 then some 2
  else if lead &&& 0xF0 == 0xE0 then some 3
  else if lead &&& 0xF8 == 0xF0 then some 4
  else none

def decodeText (lead : UInt8) (rest : Bytes) (more : Bool) : Decoded :=
  match announced lead with
  | none => .skip 1
  | some length =>
    let tail := rest.take (length - 1)
    if rest.length + 1 < length then .unfinished (lead :: rest) more
    else if tail.all Utf8.isContinuation then ⟨some (lead :: tail), length⟩
    else .skip 1

def decode (buffer : Bytes) (more : Bool) : Decoded :=
  match buffer with
  | [] => .skip 0
  | b :: rest =>
    if b = Ascii.escape then decodeEscape rest more
    else if b = Ascii.delete || b = 0x08 then .named "KEY_BACKSPACE" 1
    else if b = Ascii.carriageReturn then
      .named "ENTER" (if rest.head? = some Ascii.newline then 2 else 1)
    else if b = Ascii.newline then .named "ENTER" 1
    else if b = Ascii.tab then .named "TAB" 1
    else if 1 ≤ b && b ≤ 26 then ⟨some (bytes "C-" ++ [b + 0x60]), 1⟩
    else if b < 0x20 then .skip 1
    else decodeText b rest more

/-- The keys and skips of a buffer that no more bytes will follow. -/
def decodeAll (buffer : Bytes) : List Decoded :=
  if _done : buffer = [] ∨ (decode buffer false).consumed = 0 then
    if buffer.isEmpty then [] else [decode buffer false]
  else decode buffer false :: decodeAll (buffer.drop (decode buffer false).consumed)
termination_by buffer.length
decreasing_by
  have := List.length_pos_iff.2 (not_or.1 _done).1
  have := (not_or.1 _done).2
  simp only [List.length_drop]
  omega

end Key
end CalcShell
