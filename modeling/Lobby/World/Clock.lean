import Lobby.World.Basic

/-! Virtual time: what waits for a room does so until its time is up, and the clock jumps when
nobody can run. -/
namespace Lobby.World

def enoughTurns : Nat := 1000000

def rest (w : World) : World := w.runIdle enoughTurns

def sessionWaits (s : Session) : List Wait :=
  (match s.dispatching with
    | .busy _ pending => [pending.wait]
    | _ => []) ++
  match s.supervising with
  | .waiting wait _ => [wait]
  | _ => []

def waits (w : World) (visitor : Option Wait) : List Wait :=
  w.sessions.toList.flatMap sessionWaits ++ visitor.toList

/-- Earlier deadlines come first, and of equal ones the wait that began first. -/
def sooner (a b : Wait) : Bool :=
  a.deadline < b.deadline || (a.deadline = b.deadline && a.turn ≤ b.turn)

def nextDeadline? (w : World) (visitor : Option Wait) : Option Nat :=
  ((w.waits visitor).map Wait.deadline).min?

def reach (w : World) (time : Nat) (visitor : Option Wait) : World :=
  let due := ((w.waits visitor).filter (·.deadline ≤ time)).mergeSort sooner
  due.foldl (fun w wait => w.enqueue wait.ticket.owner) { w with now := time }

def passUntil : Nat → World → Nat → World
  | 0, w, _ => w
  | fuel + 1, w, time =>
    match w.nextDeadline? none with
    | some deadline =>
      if deadline ≤ time then passUntil fuel (w.reach deadline none).rest time
      else (w.reach time none).rest
    | none => (w.reach time none).rest

def pass (w : World) (ms : Nat) : World :=
  passUntil enoughTurns w (w.now + ms)

/-- What follows every step: everything comes to rest, and a millisecond passes. -/
def breathe (w : World) : World :=
  w.rest.pass 1

def pump (w : World) : World :=
  w.runApart enoughTurns

/-- Runs until a visitor's request is over; the clock jumps from deadline to deadline when nobody
can run. -/
def await : Nat → World → Wait → Answer × World
  | 0, w, wait => (.error (.timeout (w.hub.roomId wait.room)), w)
  | fuel + 1, w, wait =>
    match w.hub.resume wait w.now with
    | (.ended answer, hub) => (answer, { w with hub }.settle)
    | (.waiting wait, hub) =>
      let w := { w with hub }.settle
      if w.queue.isEmpty && w.later.isEmpty then
        match w.nextDeadline? (some wait) with
        | some deadline => await fuel (w.reach deadline (some wait)) wait
        | none => (.error (.timeout (w.hub.roomId wait.room)), w)
      else await fuel w.rest wait

def awaitCourse (w : World) : Course × Hub → Answer × World
  | (.ended answer, hub) => (answer, { w with hub }.settle)
  | (.waiting wait, hub) => await enoughTurns { w with hub }.settle wait

end Lobby.World
