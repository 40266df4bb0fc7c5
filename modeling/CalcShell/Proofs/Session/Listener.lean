import CalcShell.Session.Listener
import CalcShell.Proofs.Text.Lines
import Mathlib.Data.List.Forall2

/-! What a client sends against what is handed over for it: the lines of its stream, however the stream
is cut, whatever the other clients do and whenever the polls come. -/
namespace CalcShell
open Bytes (IsSplit unlines unlines_append)

/-- A line as it was sent, without its newline, and as it is handed over: without the one carriage
return that may stand at its end. -/
def Means (sent line : Bytes) : Prop :=
  sent = line ++ [Ascii.carriageReturn] ∨ sent = line ∧ sent.getLast? ≠ some Ascii.carriageReturn

lemma means_chomp (sent : Bytes) : Means sent (Listener.chomp sent) := by
  rw [Listener.chomp]
  split
  · rename_i ends
    obtain ⟨line, rfl⟩ := List.getLast?_eq_some_iff.1 ends
    exact .inl (by rw [List.dropLast_concat])
  · rename_i plain
    exact .inr ⟨rfl, plain⟩

lemma means_map_chomp (sent : List Bytes) :
    List.Forall₂ Means sent (sent.map Listener.chomp) := by
  induction sent with
  | nil => exact .nil
  | cons line rest ih => exact .cons (means_chomp line) ih

namespace Listener

lemma splitLines_eq {text rest : Bytes} {complete : List Bytes} (parts : IsSplit text complete rest) :
    splitLines text = (complete.map chomp, rest) := by
  simp [splitLines, parts.splitOn_eq]

/-! ### Runs of a listener -/

inductive Event where
  | connect (id : Int)
  | send (id : Int) (piece : Bytes)
  | close (id : Int)
  | poll
deriving DecidableEq

def happen (l : Listener) : Event → Listener
  | .connect id => l.connect id
  | .send id piece => l.send id piece
  | .close id => l.close id
  | .poll => l.poll.2

/-- The lines that an event hands over, each with the client that it is from. -/
def lines (l : Listener) : Event → List (Int × Bytes)
  | .poll => l.drained.flatMap fun (lines, client) => lines.map fun line => (client.id, line)
  | _ => []

def after (l : Listener) (run : List Event) : Listener := run.foldl happen l

/-- All lines that a run hands over, in order, each with the client that it is from. -/
def handed (l : Listener) : List Event → List (Int × Bytes)
  | [] => []
  | e :: run => l.lines e ++ (l.happen e).handed run

/-- What the polls of a run return. -/
def polled (l : Listener) : List Event → List Bytes
  | [] => []
  | .poll :: run => l.poll.1 ++ (l.happen .poll).polled run
  | e :: run => (l.happen e).polled run

/-- The lines of one client. -/
def of (id : Int) (handed : List (Int × Bytes)) : List Bytes :=
  (handed.filter (·.1 = id)).map (·.2)

@[simp] lemma of_nil (id : Int) : of id [] = [] := rfl

@[simp] lemma of_append (id : Int) (front back : List (Int × Bytes)) :
    of id (front ++ back) = of id front ++ of id back := by
  simp [of]

lemma lines_of_ne {l : Listener} {e : Event} (ne : e ≠ .poll) : l.lines e = [] := by
  cases e with
  | poll => exact absurd rfl ne
  | connect id | send id piece | close id => rfl

lemma after_concat (l : Listener) (run : List Event) (e : Event) :
    l.after (run ++ [e]) = (l.after run).happen e := by
  simp [after]

lemma handed_append (l : Listener) (run later : List Event) :
    l.handed (run ++ later) = l.handed run ++ (l.after run).handed later := by
  induction run generalizing l with
  | nil => rfl
  | cons e run ih => simp [handed, ih, after]

lemma handed_concat (l : Listener) (run : List Event) (e : Event) :
    l.handed (run ++ [e]) = l.handed run ++ (l.after run).lines e := by
  simp [handed_append, handed]

lemma handed_of_noPoll (l : Listener) {run : List Event} (none : .poll ∉ run) :
    l.handed run = [] := by
  induction run generalizing l with
  | nil => rfl
  | cons e run ih =>
    rw [List.mem_cons, not_or] at none
    rw [handed, ih _ none.2, lines_of_ne (Ne.symm none.1)]
    rfl

lemma lines_poll_snd (l : Listener) : (l.lines .poll).map (·.2) = l.poll.1 := by
  simp [lines, poll, List.map_flatMap, Function.comp_def]

lemma handed_snd (l : Listener) (run : List Event) : (l.handed run).map (·.2) = l.polled run := by
  induction run generalizing l with
  | nil => rfl
  | cons e run ih =>
    rw [handed, List.map_append, ih]
    cases e with
    | poll => rw [lines_poll_snd, polled]
    | connect id | send id piece | close id => rfl

/-! ### One client in a listener -/

/-- The clients of a name, those that still wait behind the others. -/
def named (l : Listener) (id : Int) : List Client := (l.clients ++ l.waiting).filter (·.id = id)

lemma named_connect (l : Listener) (id other : Int) :
    (l.connect other).named id = l.named id ++ if other = id then [({ id } : Client)] else [] := by
  by_cases same : other = id
  · simp [named, connect, same]
  · simp [named, connect, same]

/-- What changes an open client leaves one that has ended alone. -/
def unlessEnded (f : Client → Client) (client : Client) : Client :=
  if client.hasEnded then client else f client

variable {f : Client → Client}

lemma update_of_allEnded {id : Int} {clients : List Client}
    (ended : ∀ c ∈ clients, c.id = id → c.hasEnded) : update id f clients = clients := by
  induction clients with
  | nil => rfl
  | cons client rest ih =>
    obtain ⟨first, others⟩ := List.forall_mem_cons.1 ended
    have settled : ¬(client.id = id && !client.hasEnded &&
        !(rest.any fun c => c.id == id && !c.hasEnded)) := by
      by_cases same : client.id = id <;> simp [same, first]
    rw [update, if_neg settled, ih others]

lemma filter_update_of_ne {id other : Int} (ne : other ≠ id) (keeps : ∀ c, (f c).id = c.id)
    (clients : List Client) :
    (update other f clients).filter (·.id = id) = clients.filter (·.id = id) := by
  induction clients with
  | nil => rfl
  | cons client rest ih =>
    rw [update]
    split
    · rename_i changed
      have same : client.id = other := by simp_all
      simp [keeps, same, ne]
    · rw [List.filter_cons, List.filter_cons, ih]

/-- The only client of a name is changed unless it has ended. -/
lemma filter_update {id : Int} (keeps : ∀ c, (f c).id = c.id) {clients : List Client}
    (single : (clients.filter (·.id = id)).length ≤ 1) :
    (update id f clients).filter (·.id = id) = (clients.filter (·.id = id)).map (unlessEnded f) := by
  induction clients with
  | nil => rfl
  | cons client rest ih =>
    by_cases same : client.id = id
    · have none : rest.filter (·.id = id) = [] := by simpa [same] using single
      have others : ∀ c ∈ rest, c.id ≠ id := by simpa using none
      have absent : (rest.any fun c => c.id == id && !c.hasEnded) = false := by simp_all
      have kept : update id f rest = rest :=
        update_of_allEnded fun c mem same => absurd same (others c mem)
      cases ended : client.hasEnded <;> simp [update, same, ended, absent, kept, none, unlessEnded, keeps]
    · simp only [same, decide_false, Bool.false_eq_true, not_false_eq_true, List.filter_cons_of_neg]
        at single ⊢
      simpa [update, same] using ih single

lemma named_modify_of_ne {id other : Int} (ne : other ≠ id) (keeps : ∀ c, (f c).id = c.id)
    (l : Listener) : (l.modify other f).named id = l.named id := by
  rw [modify]
  split <;> simp [named, filter_update_of_ne ne keeps]

lemma named_modify {id : Int} (keeps : ∀ c, (f c).id = c.id) {l : Listener}
    (single : (l.named id).length ≤ 1) :
    (l.modify id f).named id = (l.named id).map (unlessEnded f) := by
  simp only [named, List.filter_append, List.length_append, List.map_append] at single ⊢
  rw [modify]
  split
  · rename_i waits
    have some : 0 < (l.waiting.filter (·.id = id)).length := by
      obtain ⟨c, mem, open'⟩ := List.any_eq_true.1 waits
      exact List.length_pos_of_mem (List.mem_filter.2 ⟨mem, by simp_all⟩)
    have none : l.clients.filter (·.id = id) = [] := List.length_eq_zero_iff.1 (by omega)
    rw [none, filter_update keeps (by omega)]
    rfl
  · rename_i noneWaits
    have ended : ∀ c ∈ l.waiting, c.id = id → c.hasEnded := by simpa using noneWaits
    have kept : (l.waiting.filter (·.id = id)).map (unlessEnded f) = l.waiting.filter (·.id = id) := by
      rw [List.map_congr_left, List.map_id]
      intro c mem
      obtain ⟨mem, same⟩ := List.mem_filter.1 mem
      exact if_pos (ended c mem (of_decide_eq_true same))
    rw [kept, filter_update keeps (by omega)]

lemma named_send_of_ne {id other : Int} (ne : other ≠ id) (l : Listener) (piece : Bytes) :
    (l.send other piece).named id = l.named id :=
  named_modify_of_ne ne (by intro c; rfl) l

lemma named_close_of_ne {id other : Int} (ne : other ≠ id) (l : Listener) :
    (l.close other).named id = l.named id :=
  named_modify_of_ne ne (by intro c; rfl) l

lemma named_send {id : Int} {l : Listener} (single : (l.named id).length ≤ 1) (piece : Bytes) :
    (l.send id piece).named id =
      (l.named id).map (unlessEnded fun c => { c with unread := c.unread ++ [piece] }) :=
  named_modify (by intro c; rfl) single

lemma named_close {id : Int} {l : Listener} (single : (l.named id).length ≤ 1) :
    (l.close id).named id = (l.named id).map (unlessEnded fun c => { c with hasEnded := true }) :=
  named_modify (by intro c; rfl) single

lemma filter_map_drain (id : Int) (clients : List Client) :
    (clients.map drain).filter (·.2.id = id) = (clients.filter (·.id = id)).map drain := by
  rw [List.filter_map]
  rfl

lemma named_poll (l : Listener) (id : Int) :
    l.poll.2.named id = ((l.named id).map fun c => (drain c).2).filter (!·.hasEnded) := by
  have kept : l.poll.2.named id =
      ((l.drained.filter (·.2.id = id)).map (·.2)).filter (!·.hasEnded) := by
    simp [named, poll, List.filter_map, Function.comp_def, Bool.and_comm]
  rw [kept, drained, filter_map_drain, named, List.map_map]
  rfl

lemma of_map_pair (id other : Int) (lines : List Bytes) :
    of id (lines.map fun line => (other, line)) = if other = id then lines else [] := by
  split <;> simp [of, List.filter_map, Function.comp_def, *]

/-- A poll hands over for a client what is read from the clients of its name. -/
lemma of_lines_poll (l : Listener) (id : Int) :
    of id (l.lines .poll) = (l.named id).flatMap fun c => (drain c).1 := by
  have tagged (read : List (List Bytes × Client)) :
      of id (read.flatMap fun (lines, client) => lines.map fun line => (client.id, line)) =
        (read.filter (·.2.id = id)).flatMap (·.1) := by
    induction read with
    | nil => rfl
    | cons first read ih =>
      rw [List.flatMap_cons, of_append, ih, of_map_pair]
      split <;> simp [*]
  rw [lines, tagged, drained, filter_map_drain, List.flatMap_map]
  rfl

/-! ### The two ends of a connection -/

/-- What a client has done. -/
structure Sender where
  isConnected : Bool := false
  hasClosed : Bool := false
  stream : Bytes := []

/-- A client sends nothing before it connects and nothing after it closes. -/
def Sender.act (id : Int) (sender : Sender) : Event → Sender
  | .connect other => if other = id then { sender with isConnected := true } else sender
  | .send other piece =>
    if other = id ∧ sender.isConnected ∧ !sender.hasClosed then
      { sender with stream := sender.stream ++ piece }
    else sender
  | .close other =>
    if other = id ∧ sender.isConnected then { sender with hasClosed := true } else sender
  | .poll => sender

def sender (id : Int) (run : List Event) : Sender := run.foldl (Sender.act id) {}

lemma sender_concat (id : Int) (run : List Event) (e : Event) :
    sender id (run ++ [e]) = (sender id run).act id e := by
  simp [sender]

lemma connect_mem {id : Int} {run : List Event} (connected : (sender id run).isConnected) :
    .connect id ∈ run := by
  induction run using List.reverseRecOn with
  | nil => nomatch connected
  | append_singleton run e ih =>
    rw [List.mem_append]
    rw [sender_concat] at connected
    cases e with
    | connect other =>
      by_cases same : other = id
      · simp [same]
      · exact .inl (ih (by simpa [Sender.act, same] using connected))
    | send other piece | close other =>
      rw [Sender.act] at connected
      split at connected <;> exact .inl (ih connected)
    | poll => exact .inl (ih connected)

/-- What the listener has read of a stream: the lines it handed over, and the beginning of a line. -/
structure HasRead (text : Bytes) (complete lines : List Bytes) (tail : Bytes) : Prop where
  parts : IsSplit text complete tail
  handed : List.Forall₂ Means complete lines

/-- Where a client is: not there yet, one of the listener's clients, or gone. -/
inductive Follows (sender : Sender) (lines : List Bytes) : List Client → Prop where
  | absent (out : sender.isConnected = false) (open' : sender.hasClosed = false)
    (silent : sender.stream = []) (none : lines = []) : Follows sender lines []
  | listed (client : Client) (text : Bytes) (complete : List Bytes)
    (there : sender.isConnected) (ended : client.hasEnded = sender.hasClosed)
    (read : HasRead text complete lines client.tail)
    (stream : sender.stream = text ++ client.unread.flatten) : Follows sender lines [client]
  | gone (complete : List Bytes) (tail : Bytes) (there : sender.isConnected)
    (closed : sender.hasClosed) (read : HasRead sender.stream complete lines tail) :
    Follows sender lines []

lemma tail_receive (client : Client) :
    (receive client).tail = client.tail ++ client.unread.flatten := by
  have joined (tail : Bytes) (pieces : List Bytes) :
      pieces.foldl (· ++ ·) tail = tail ++ pieces.flatten := by
    induction pieces generalizing tail with
    | nil => simp
    | cons piece pieces ih => simp [ih]
  exact joined client.tail client.unread

/-- Reading a client completes the line that was begun and goes on behind it. -/
lemma HasRead.drain {client : Client} {text : Bytes} {complete lines : List Bytes}
    (read : HasRead text complete lines client.tail) :
    ∃ complete', HasRead (text ++ client.unread.flatten) complete' (lines ++ (drain client).1)
      (drain client).2.tail := by
  obtain ⟨more, rest, parts⟩ := Bytes.exists_isSplit (client.tail ++ client.unread.flatten)
  have drained : Listener.drain client = (more.map chomp, { receive client with tail := rest }) := by
    rw [Listener.drain, tail_receive, splitLines_eq parts]
  refine ⟨complete ++ more, ?_, ?_⟩
  · rw [drained]
    exact read.parts.append parts
  · rw [drained]
    exact List.rel_append read.handed (means_map_chomp more)

variable {side : Sender} {heard : List Bytes} {there : List Client} {id : Int}

lemma Follows.length_le (at' : Follows side heard there) : there.length ≤ 1 := by
  cases at' <;> simp

lemma Follows.connect (at' : Follows side heard there) (out : side.isConnected = false) :
    Follows (side.act id (.connect id)) heard (there ++ [({ id } : Client)]) := by
  have now : side.act id (.connect id) = { side with isConnected := true } := if_pos rfl
  rw [now]
  cases at' with
  | absent _ open' silent none =>
    refine .listed { id } [] [] (by rfl) open'.symm ⟨⟨rfl, nofun, nofun⟩, ?_⟩ silent
    rw [none]
    exact .nil
  | listed client text complete connected => simp [out] at connected
  | gone complete tail connected => simp [out] at connected

lemma Follows.send (at' : Follows side heard there) (piece : Bytes) :
    Follows (side.act id (.send id piece)) heard
      (there.map (unlessEnded fun c => { c with unread := c.unread ++ [piece] })) := by
  cases at' with
  | absent out open' silent none =>
    rw [Sender.act, if_neg (by simp [out])]
    exact .absent out open' silent none
  | listed client text complete connected ended read stream =>
    rw [List.map_singleton, unlessEnded]
    cases closed : side.hasClosed with
    | true =>
      rw [Sender.act, if_neg (by simp [closed]), if_pos (ended.trans closed)]
      exact .listed client text complete connected ended read stream
    | false =>
      rw [Sender.act, if_pos (by simp [connected, closed]), if_neg (by simp [ended, closed])]
      refine .listed _ text complete connected ended read ?_
      simp [stream]
  | gone complete tail connected closed read =>
    rw [Sender.act, if_neg (by simp [closed])]
    exact .gone complete tail connected closed read

lemma Follows.close (at' : Follows side heard there) :
    Follows (side.act id (.close id)) heard
      (there.map (unlessEnded fun c => { c with hasEnded := true })) := by
  cases at' with
  | absent out open' silent none =>
    rw [Sender.act, if_neg (by simp [out])]
    exact .absent out open' silent none
  | listed client text complete connected ended read stream =>
    rw [Sender.act, if_pos ⟨rfl, connected⟩, List.map_singleton, unlessEnded]
    split
    · rename_i closed
      exact .listed client text complete connected closed read stream
    · exact .listed _ text complete connected rfl read stream
  | gone complete tail connected closed read =>
    rw [Sender.act, if_pos ⟨rfl, connected⟩]
    exact .gone complete tail connected rfl read

lemma Follows.poll (at' : Follows side heard there) :
    Follows side (heard ++ there.flatMap fun c => (drain c).1)
      ((there.map fun c => (drain c).2).filter (!·.hasEnded)) := by
  cases at' with
  | absent out open' silent none =>
    rw [List.flatMap_nil, List.append_nil]
    exact .absent out open' silent none
  | listed client text complete connected ended read stream =>
    obtain ⟨complete', read'⟩ := read.drain
    have same : (Listener.drain client).2.hasEnded = side.hasClosed := ended
    rw [List.flatMap_singleton, List.map_singleton]
    cases closed : side.hasClosed with
    | true =>
      rw [List.filter_cons_of_neg (by simp [same, closed])]
      refine .gone complete' (Listener.drain client).2.tail connected closed ?_
      rw [stream]
      exact read'
    | false =>
      rw [List.filter_cons_of_pos (by simp [same, closed])]
      refine .listed _ _ complete' connected same read' ?_
      rw [stream]
      exact (List.append_nil _).symm
  | gone complete tail connected closed read =>
    rw [List.flatMap_nil, List.append_nil]
    exact .gone complete tail connected closed read

variable {l : Listener}

/-- Whatever happens, a client is where it has to be. It connects at most once. -/
lemma Follows.happen (at' : Follows side heard (l.named id)) {e : Event}
    (once : e = .connect id → side.isConnected = false) :
    Follows (side.act id e) (heard ++ of id (l.lines e)) ((l.happen e).named id) := by
  cases e with
  | connect other =>
    rw [lines_of_ne (e := .connect other) nofun, of_nil, List.append_nil, Listener.happen, named_connect]
    split
    · rename_i same
      subst same
      exact at'.connect (once rfl)
    · rename_i ne
      rwa [Sender.act, if_neg ne, List.append_nil]
  | send other piece =>
    rw [lines_of_ne (e := .send other piece) nofun, of_nil, List.append_nil, Listener.happen]
    by_cases same : other = id
    · subst same
      rw [named_send at'.length_le]
      exact at'.send piece
    · rwa [named_send_of_ne same, Sender.act, if_neg (by simp [same])]
  | close other =>
    rw [lines_of_ne (e := .close other) nofun, of_nil, List.append_nil, Listener.happen]
    by_cases same : other = id
    · subst same
      rw [named_close at'.length_le]
      exact at'.close
    · rwa [named_close_of_ne same, Sender.act, if_neg (by simp [same])]
  | poll =>
    rw [of_lines_poll, Listener.happen, named_poll]
    exact at'.poll

lemma follows_after {run : List Event} (once : run.count (.connect id) ≤ 1) :
    Follows (sender id run) (of id (handed {} run)) ((after {} run).named id) := by
  induction run using List.reverseRecOn with
  | nil => exact .absent rfl rfl rfl rfl
  | append_singleton run e ih =>
    rw [List.count_append] at once
    rw [sender_concat, handed_concat, of_append, after_concat]
    apply (ih (by omega)).happen
    rintro rfl
    rw [List.count_singleton_self] at once
    have first : .connect id ∉ run := List.count_eq_zero.1 (by omega)
    exact Bool.eq_false_iff.2 fun connected => first (connect_mem connected)

/-- A client that a poll leaves in the listener is open, and all that it sent has been read. -/
lemma mem_named_poll {client : Client} (mem : client ∈ l.poll.2.named id) :
    client = { id, tail := client.tail } := by
  have same : client.id = id := by simpa using (List.mem_filter.1 mem).2
  rw [named_poll, List.mem_filter, List.mem_map] at mem
  obtain ⟨⟨before, -, rfl⟩, isOpen⟩ := mem
  have isOpen : (drain before).2.hasEnded = false := by simpa using isOpen
  rw [← same, ← isOpen]
  rfl

/-- Where a client is when all that it sent has been read. -/
lemma Follows.settled (at' : Follows side heard there)
    (drained : ∀ client ∈ there, client = { id, tail := client.tail }) :
    ∃ complete rest, HasRead side.stream complete heard rest ∧
      there = if side.isConnected && !side.hasClosed then [{ id, tail := rest }] else [] := by
  cases at' with
  | absent out open' silent none =>
    refine ⟨[], [], ⟨⟨silent, nofun, nofun⟩, ?_⟩, by simp [out]⟩
    rw [none]
    exact .nil
  | listed client text complete connected ended read stream =>
    have same : client = { id, tail := client.tail } := drained client (List.mem_singleton_self client)
    rw [same] at ended stream
    refine ⟨complete, client.tail, ?_, ?_⟩
    · rw [stream, List.flatten_nil, List.append_nil]
      exact read
    · rw [if_pos (by simp [connected, ← ended]), ← same]
  | gone complete tail connected closed read => exact ⟨complete, tail, read, by simp [closed]⟩

/-- After a poll exactly the lines of what a client has sent until then are handed over for it, and
nothing more is until the next poll. What it has sent of a further line waits in the listener as long
as the client has not closed. -/
theorem handed_eq_lines (id : Int) (run later : List Event)
    (once : run.count (.connect id) ≤ 1) (noPoll : .poll ∉ later) :
    ∃ complete rest, IsSplit (sender id run).stream complete rest ∧
      List.Forall₂ Means complete (of id (handed {} (run ++ .poll :: later))) ∧
      (after {} (run ++ [.poll])).named id =
        (if (sender id run).isConnected && !(sender id run).hasClosed then [{ id, tail := rest }]
          else []) ∧
      (handed {} (run ++ .poll :: later)).map (·.2) = polled {} (run ++ .poll :: later) ∧
      handed {} later = [] := by
  have quiet : handed {} (run ++ .poll :: later) = handed {} (run ++ [.poll]) := by
    rw [List.append_cons, handed_append _ _ later, handed_of_noPoll _ noPoll, List.append_nil]
  have counted : (run ++ [Event.poll]).count (Event.connect id) ≤ 1 := by
    simpa [List.count_append] using once
  have at' := follows_after counted
  rw [sender_concat, after_concat] at at'
  obtain ⟨complete, rest, read, state⟩ := at'.settled fun _ => mem_named_poll
  rw [handed_snd, quiet, after_concat]
  exact ⟨complete, rest, read.parts, read.handed, state, rfl, handed_of_noPoll _ noPoll⟩

/-- Two clients, one with a line cut between its carriage return and its newline. -/
theorem handed_of_cut_line :
    let run : List Event := [.connect 1, .send 1 (bytes "a = 1\r"), .connect 2, .poll,
      .send 2 (bytes "x\ny"), .send 1 (bytes "\nb ="), .close 2]
    let later : List Event := [.send 1 (bytes " 2\n")]
    run.count (.connect 1) ≤ 1 ∧ .poll ∉ later ∧ (sender 1 run).stream = bytes "a = 1\r\nb =" ∧
      of 1 (handed {} (run ++ .poll :: later)) = [bytes "a = 1"] ∧
      ∃ complete rest, IsSplit (bytes "a = 1\r\nb =") complete rest ∧
        List.Forall₂ Means complete [bytes "a = 1"] ∧
        (after {} (run ++ [.poll])).named 1 = [{ id := 1, tail := rest }] := by
  intro run later
  have once : run.count (.connect 1) ≤ 1 := by decide
  have noPoll : .poll ∉ later := by decide
  obtain ⟨complete, rest, parts, means, state, -⟩ := handed_eq_lines 1 run later once noPoll
  exact ⟨once, noPoll, by decide, by decide, complete, rest, parts, means, state⟩

end Listener
end CalcShell
