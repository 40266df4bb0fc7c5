import CalcShell.Bytes

/-!
Lines sent by clients over connections. Each poll accepts the new clients, takes what they have sent,
and hands over their complete lines; a line without its end is never handed over.
-/
namespace CalcShell

structure Client where
  /-- The number that names the connection. -/
  id : Int
  /-- What was sent and not yet read, one piece for each read. -/
  unread : List Bytes := []
  hasEnded : Bool := false
  /-- The beginning of a line whose end has not come. -/
  tail : Bytes := []
deriving DecidableEq, Repr

structure Listener where
  /-- Connections made since the last poll. -/
  waiting : List Client := []
  clients : List Client := []
deriving DecidableEq, Repr, Inhabited

namespace Listener

def busyMessage (port : Bytes) : Bytes :=
  bytes "Could not listen on port " ++ port ++ bytes ": Address already in use"

def connect (l : Listener) (id : Int) : Listener := { l with waiting := l.waiting ++ [{ id }] }

/-- Changes the newest connection of a name that has not ended. -/
def update (id : Int) (f : Client → Client) (clients : List Client) : List Client :=
  match clients with
  | [] => []
  | client :: rest =>
    if client.id = id && !client.hasEnded && !(rest.any fun c => c.id == id && !c.hasEnded) then
      f client :: rest
    else client :: update id f rest

def modify (l : Listener) (id : Int) (f : Client → Client) : Listener :=
  if l.waiting.any fun c => c.id == id && !c.hasEnded then
    { l with waiting := update id f l.waiting }
  else { l with clients := update id f l.clients }

def send (l : Listener) (id : Int) (sent : Bytes) : Listener :=
  l.modify id fun client => { client with unread := client.unread ++ [sent] }

def close (l : Listener) (id : Int) : Listener :=
  l.modify id fun client => { client with hasEnded := true }

/-- A line without the carriage return that may end it. -/
def chomp (line : Bytes) : Bytes :=
  if line.getLast? = some Ascii.carriageReturn then line.dropLast else line

/-- The complete lines of a text, and what follows the last newline. -/
def splitLines (text : Bytes) : List Bytes × Bytes :=
  let pieces := text.splitOn Ascii.newline
  (pieces.dropLast.map chomp, pieces.getLast?.getD [])

/-- Reads all that a client has sent, piece by piece, behind the beginning of its line. -/
def receive (client : Client) : Client :=
  { client with unread := [], tail := client.unread.foldl (· ++ ·) client.tail }

/-- Takes what a client has sent. -/
def drain (client : Client) : List Bytes × Client :=
  let client := receive client
  let (lines, tail) := splitLines client.tail
  (lines, { client with tail })

/-- Accepts the clients that wait and drains all of them in order, each with its lines. -/
def drained (l : Listener) : List (List Bytes × Client) := (l.clients ++ l.waiting).map drain

/-- Hands the lines over and drops the clients that have ended. -/
def poll (l : Listener) : List Bytes × Listener :=
  (l.drained.flatMap (·.1), { clients := (l.drained.map (·.2)).filter (!·.hasEnded) })

end Listener
end CalcShell
