import CalcShell.Bytes
import CalcShell.Number.Real

/-!
The status bar: a permanent text that a message can replace for a time.
-/
namespace CalcShell

structure Message where
  text : Bytes
  /-- When the message goes, in nanoseconds. -/
  expires : Int
deriving DecidableEq, Repr

structure StatusBar where
  permanent : Bytes := []
  message : Option Message := none
deriving DecidableEq, Repr, Inhabited

namespace StatusBar

def text (bar : StatusBar) : Bytes := (bar.message.map (·.text)).getD bar.permanent

def hasMessage (bar : StatusBar) : Bool := bar.message.isSome

def display (bar : StatusBar) (text : Bytes) (now : Int) (seconds : Float) : StatusBar :=
  { bar with message := some { text, expires := Number.wrapTime (now + Number.nanoseconds seconds) } }

/-- Drops the message once its time is up, and tells whether it did. -/
def check (bar : StatusBar) (now : Int) : Bool × StatusBar :=
  if bar.message.any (·.expires ≤ now) then (true, { bar with message := none }) else (false, bar)

end StatusBar
end CalcShell
