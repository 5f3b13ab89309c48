import Lobby.Hub.Rendezvous
import Lobby.Player.Session

/-! A server under a virtual clock. Actors that can run wait in a queue; one runs until it has to
wait, then the next. When none can run, time passes. Rooms may be set apart: those only run when
they are told to. -/
namespace Lobby

structure World where
  hub : Hub := {}
  sessions : Array Session := #[]
  now : Nat := 0
  queue : List Task := []
  /-- Who can run because of a room set apart. They come after everyone in the queue. -/
  later : List Task := []
  apart : List Nat := []
  apartQueue : List Task := []
  inApart : Bool := false

namespace World

def session? (w : World) (p : Nat) : Option Session := w.sessions[p]?

def isApart (w : World) : Task → Bool
  | .room r => r ∈ w.apart
  | _ => false

def enqueue (w : World) (t : Task) : World :=
  if t = .visitor then w
  else if w.isApart t then
    if t ∈ w.apartQueue then w else { w with apartQueue := w.apartQueue ++ [t] }
  else if t ∈ w.queue ∨ t ∈ w.later then w
  else if w.inApart then { w with later := w.later ++ [t] }
  else { w with queue := w.queue ++ [t] }

def isIdle (w : World) : Task → Bool
  | .writer p => (w.session? p).any fun s => s.writing = .idle
  | .dispatcher p =>
    (w.session? p).any fun s =>
      match s.dispatching with
      | .idle _ => true
      | _ => false
  | .room r => (w.hub.rooms[r]?).any fun cell => !cell.stopped
  | _ => false

def notice (w : World) : Signal → World
  | .started t => w.enqueue t
  | .arrived t => if w.isIdle t then w.enqueue t else w
  | .settled t => w.enqueue t
  | .playerCancelled p =>
    match w.session? p with
    | some s =>
      let w := if s.readerEnded then w else w.enqueue (.reader p)
      let w := if s.writerEnded then w else w.enqueue (.writer p)
      if w.isIdle (.dispatcher p) then w.enqueue (.dispatcher p) else w
    | none => w
  | .roomCancelled r => if w.isIdle (.room r) then w.enqueue (.room r) else w
  | .dutyEnded p =>
    match w.session? p with
    | some s => if s.supervising = .joining then w.enqueue (.supervisor p) else w
    | none => w

/-- Wakes everyone concerned by what has happened, in the order in which it happened. -/
def settle (w : World) : World :=
  let signals := w.hub.signals.reverse
  signals.foldl notice { w with hub := { w.hub with signals := [] } }

def change (w : World) (f : Hub → Hub) : World :=
  { w with hub := f w.hub }.settle

def stepSession (w : World) (p : Nat) (step : Session → Hub → Session.Step) : Bool × World :=
  match w.session? p with
  | some s =>
    let (goesOn, s, hub) := step s w.hub
    (goesOn, { w with hub, sessions := w.sessions.setIfInBounds p s })
  | none => (false, w)

def step (w : World) : Task → Bool × World
  | .reader p => w.stepSession p fun s h => s.stepReader h p
  | .writer p => w.stepSession p fun s h => s.stepWriter h p
  | .dispatcher p => w.stepSession p fun s h => s.stepDispatcher h p w.now
  | .supervisor p => w.stepSession p fun s h => s.stepSupervisor h p w.now
  | .room r =>
    let (goesOn, hub) := w.hub.stepRoom r
    (goesOn, { w with hub })
  | .visitor => (false, w)

def runTask : Nat → World → Task → World
  | 0, w, _ => w
  | fuel + 1, w, t =>
    match w.step t with
    | (true, w) => runTask fuel w t
    | (false, w) => w

/-- More steps than an actor can take before it has to wait: every step of it takes a message, a
frame, octets or a room from a supply that nobody fills meanwhile. -/
def patience (w : World) (t : Task) : Nat :=
  match t with
  | .reader p =>
    match w.session? p with
    | some s => 2 * (s.stream.incoming.length + s.decoder.buffer.length) + 8
    | none => 1
  | .writer p => 2 * ((w.hub.outboxes[p]?.map (·.queue.length)).getD 0) + 8
  | .dispatcher p => (w.hub.players[p]?.map (·.inbound.queue.length)).getD 0 + 8
  | .supervisor p =>
    ((w.session? p).bind (·.context?)).elim 8 fun c => c.memberships.length + 8
  | .room r => (w.hub.rooms[r]?.map (·.events.queue.length)).getD 0 + 8
  | .visitor => 1

def turn (w : World) (t : Task) : World :=
  (runTask (w.patience t) w t).settle

def next? (w : World) : Option (Task × World) :=
  match w.queue with
  | t :: queue => some (t, { w with queue })
  | [] =>
    match w.later with
    | t :: later => some (t, { w with later })
    | [] => none

def runIdle : Nat → World → World
  | 0, w => w
  | fuel + 1, w =>
    match w.next? with
    | some (t, w) => runIdle fuel (w.turn t)
    | none => w

def runApart : Nat → World → World
  | 0, w => w
  | fuel + 1, w =>
    match w.apartQueue with
    | t :: apartQueue =>
      let w := { w with apartQueue, inApart := true }.turn t
      runApart fuel { w with inApart := false }
    | [] => w

end World

end Lobby
