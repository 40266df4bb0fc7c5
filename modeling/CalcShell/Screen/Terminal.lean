import CalcShell.Keyboard.Decode
import CalcShell.Screen.Painter

/-!
A terminal: a screen to paint on and a stream of bytes to read keys from. In raw mode the bytes of
all keys are delivered as they are; every change of mode throws away what was not read yet.
-/
namespace CalcShell

/-- The bytes on their way from the keyboard. -/
structure KeyStream where
  /-- Bytes that arrived and were not read. -/
  unread : Bytes := []
  /-- Bytes that were read and form no key yet. -/
  pending : Bytes := []
  isClosed : Bool := false
  /-- Only a terminal device has modes. -/
  isDevice : Bool := false
  isRaw : Bool := false
deriving DecidableEq, Repr, Inhabited

namespace KeyStream

def closedMessage : Bytes := bytes "Terminal input closed"

/-- The most bytes that one read takes. -/
def readSize : Nat := 256

def feed (s : KeyStream) (sent : Bytes) : KeyStream := { s with unread := s.unread ++ sent }

/-- Nothing more arrives. A device loses what was not read. -/
def close (s : KeyStream) : KeyStream :=
  { s with isClosed := true, unread := if s.isDevice then [] else s.unread }

def setMode (s : KeyStream) (isRaw : Bool) : KeyStream :=
  if s.isDevice && s.isRaw != isRaw then { s with isRaw, unread := [] } else s

/-- Whether the device delivers bytes as they are; one that hung up does not. -/
def deliversRaw (s : KeyStream) : Bool := s.isRaw && !s.isClosed

/-- Removes the first key from what was read, if there is a whole one. -/
def take (s : KeyStream) (decoded : Key.Decoded) : Option Bytes × KeyStream :=
  (decoded.key, { s with pending := s.pending.drop decoded.consumed })

/-- Reads a key; nothing if there is none yet. Reading on after the end is an error and leaves the
stream as it is. -/
def next (s : KeyStream) : Except Bytes (Option Bytes × KeyStream) :=
  let decoded := Key.decode s.pending true
  if decoded.consumed != 0 then .ok (s.take decoded)
  else if s.unread.isEmpty && s.isClosed then .error closedMessage
  else
    let s' := { s with
      pending := s.pending ++ s.unread.take readSize, unread := s.unread.drop readSize }
    .ok (s'.take (Key.decode s'.pending (!s.unread.isEmpty)))

/-- What the reads of a closed stream deliver until it ends. Each read takes bytes over or uses them
up. -/
def reads (s : KeyStream) : List (Option Bytes) := go (2 * s.unread.length + s.pending.length + 1) s
where
  go : Nat → KeyStream → List (Option Bytes)
    | 0, _ => []
    | n + 1, s =>
      match s.next with
      | .ok (key, s) => key :: go n s
      | .error _ => []

end KeyStream

structure Terminal where
  painter : Painter
  keys : KeyStream := {}
  /-- The size that the terminal reports, if it reports one. -/
  size : Option Geometry := none

namespace Terminal

/-- A size as terminals report it, in 16 bits each way. -/
def reported (size : Geometry) : Geometry := ⟨size.rows % 0x10000, size.cols % 0x10000⟩

def reportedSize (t : Terminal) : Geometry := (t.size.map reported).getD .standard

def new (colors : ColorScheme) (size : Option Geometry) (isDevice : Bool) : Terminal :=
  { painter := .new colors ((size.map reported).getD .standard), size
    keys := { isDevice, isRaw := isDevice } }

def paint (t : Terminal) (f : Painter → Bytes × Painter) : Bytes × Terminal :=
  let (out, painter) := f t.painter
  (out, { t with painter })

def enter (t : Terminal) : Bytes × Terminal := t.paint Painter.enter

/-- Goes back to the main screen and to the mode from before. -/
def leave (t : Terminal) : Bytes × Terminal :=
  if t.painter.hasEntered then { t with keys := t.keys.setMode false }.paint Painter.leave
  else ([], t)

/-- Asks the terminal for its size. -/
def measure (t : Terminal) : Bytes × Terminal := t.paint (·.measured t.reportedSize)

def draw (t : Terminal) (command : Draw) : Bytes × Terminal :=
  match command with
  | .suspend isOn => ([], { t with keys := t.keys.setMode !isOn })
  | command => t.paint (·.draw command)

def drawAll (t : Terminal) (commands : List Draw) : Bytes × Terminal :=
  commands.foldl
    (fun (out, t) command =>
      let (more, t) := Terminal.draw t command
      (out ++ more, t))
    ([], t)

end Terminal
end CalcShell
