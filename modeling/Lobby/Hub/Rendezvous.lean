import Lobby.Hub.Registry

/-! How actors talk to rooms, by offers that never wait, and by requests that wait first for a slot
in the room's mailbox and then for the answer, each for a limited time; and how a room takes one
event after the other. -/
namespace Lobby

inductive Stage where
  | slot
  | answer
  deriving DecidableEq, Repr

structure Wait where
  ticket : Ticket
  room : Nat
  stage : Stage
  timeout : Nat
  /-- When this stage began, by the clock and among all others. -/
  began : Nat
  turn : Nat
  deriving DecidableEq, Repr

def Wait.deadline (w : Wait) : Nat := w.began + w.timeout

abbrev Answer := Except RoomFault Outcome

inductive Course where
  | waiting (wait : Wait)
  | ended (answer : Answer)

namespace Hub

def roomId (h : Hub) (r : Nat) : RoomId := (h.header r).id

def offerEvent (h : Hub) (r : Nat) (event : Event Ticket) : Except RoomFault Unit × Hub :=
  match h.rooms[r]? with
  | some cell =>
    match cell.events.offer event with
    | (.ok _, events) => (.ok (), (h.setRoom r { cell with events }).signal (.arrived (.room r)))
    | (.error (.full _), events) => (.error (.busy cell.room.id), h.setRoom r { cell with events })
    | (.error (.closed _), events) =>
      (.error (.unavailable cell.room.id), h.setRoom r { cell with events })
  | none => (.error (.unavailable (h.roomId r)), h)

def sendLeave (h : Hub) (r : Nat) (player : PlayerId) : Except RoomFault Unit × Hub :=
  h.offerEvent r ⟨player, .leave none⟩

def sendMove (h : Hub) (r : Nat) (player : PlayerId) (profile : Profile) :
    Except RoomFault Unit × Hub :=
  h.offerEvent r ⟨player, .move profile⟩

def sendChat (h : Hub) (r : Nat) (player : PlayerId) (text : String) :
    Except RoomFault Unit × Hub :=
  h.offerEvent r ⟨player, .chat text⟩

def conclude (h : Hub) (w : Wait) (answer : Answer) : Course × Hub :=
  (.ended answer, h.closeReply w.ticket)

/-- The time of the present stage is up. A slot that was handed over goes to the next in
line. -/
def expire (h : Hub) (w : Wait) : Course × Hub :=
  let h := match w.stage, h.rooms[w.room]? with
    | .slot, some cell =>
      let (next, events) := cell.events.withdraw w.ticket
      let h := h.setRoom w.room { cell with events }
      match next with
      | some t => h.signal (.settled t.owner)
      | none => h
    | _, _ => h
  h.conclude w (.error (.timeout (h.roomId w.room)))

def awaitAnswer (h : Hub) (w : Wait) (now : Nat) : Course × Hub :=
  let (turn, h) := h.freshSerial
  let h := h.signal (.arrived (.room w.room))
  let w := { w with stage := .answer, began := now, turn }
  if w.timeout = 0 then h.expire w else (.waiting w, h)

/-- Goes on with a request as far as it can: into a slot that was handed over, to an answer that
has come, or to its end when there will be none or the time is up. -/
def resume (h : Hub) (w : Wait) (now : Nat) : Course × Hub :=
  let unavailable := h.conclude w (.error (.unavailable (h.roomId w.room)))
  match w.stage with
  | .slot =>
    match h.rooms[w.room]? with
    | some cell =>
      match cell.events.settle w.ticket with
      | (.accepted, events) => (h.setRoom w.room { cell with events }).awaitAnswer w now
      | (.refused, events) =>
        (h.setRoom w.room { cell with events }).conclude w
          (.error (.unavailable cell.room.id))
      | (.waiting, _) => if w.deadline ≤ now then h.expire w else (.waiting w, h)
    | none => unavailable
  | .answer =>
    match h.reply? w.ticket with
    | some (.answered outcome) => h.conclude w (.ok outcome)
    | some .awaited => if w.deadline ≤ now then h.expire w else (.waiting w, h)
    | _ => unavailable

def request (h : Hub) (owner : Task) (r : Nat) (timeout now : Nat)
    (event : Ticket → Event Ticket) : Course × Hub :=
  let (serial, h) := h.freshSerial
  let ticket : Ticket := ⟨owner, serial⟩
  let w : Wait := { ticket, room := r, stage := .slot, timeout, began := now, turn := serial }
  let h := h.openReply ticket
  match h.rooms[r]? with
  | some cell =>
    match cell.events.send ticket (event ticket) with
    | (.accepted, events) => (h.setRoom r { cell with events }).awaitAnswer w now
    | (.pending, events) =>
      let h := h.setRoom r { cell with events }
      if timeout = 0 then h.expire w else (.waiting w, h)
    | (.refused, _) => h.conclude w (.error (.unavailable cell.room.id))
  | none => h.conclude w (.error (.unavailable (h.roomId r)))

def requestJoin (h : Hub) (owner : Task) (r : Nat) (timeout now : Nat) (player : PlayerId)
    (profile : Profile) : Course × Hub :=
  h.request owner r timeout now fun t => ⟨player, .join profile (some t)⟩

def requestLeave (h : Hub) (owner : Task) (r : Nat) (timeout now : Nat) (player : PlayerId) :
    Course × Hub :=
  h.request owner r timeout now fun t => ⟨player, .leave (some t)⟩

/-- Ends a room's loop: its mailbox closes, those who wait for a slot learn of it, and queued
events go away unhandled. -/
def stopRoom (h : Hub) (r : Nat) : Hub :=
  match h.rooms[r]? with
  | some cell =>
    let h := h.setRoom r { cell with events := cell.events.discard, stopped := true }
    let h := cell.events.waiting.foldl (fun h w => h.signal (.settled w.1.owner)) h
    cell.events.queue.foldl discardEvent h
  | none => h

/-- Handles one event that has been taken from the mailbox, with what the room finds at the other
end of its reply. An answer still awaited then never comes. A room that dies of the event stops. -/
def handleEvent (h : Hub) (listener : Ticket → Listener) (r : Nat) (event : Event Ticket) : Hub :=
  match h.rooms[r]? with
  | some cell =>
    match cell.room.handle h.reactions listener h.player? event with
    | some (room, effects) =>
      ((h.setRoom r { cell with room }).applyAll effects).discardEvent event
    | none => (h.discardEvent event).stopRoom r
  | none => h

/-- Takes and handles the next event; the flag tells whether the loop goes on at once. A cancelled
room takes no more. -/
def stepRoom (h : Hub) (r : Nat) : Bool × Hub :=
  match h.rooms[r]? with
  | some cell =>
    if cell.stopped then (false, h)
    else if cell.cancelled then (false, h.stopRoom r)
    else
      match cell.events.receive with
      | (.message event, next, events) =>
        let h := h.setRoom r { cell with events }
        let h := match next with
          | some t => h.signal (.settled t.owner)
          | none => h
        (true, h.handleEvent h.listener r event)
      | (.empty, _, _) => (false, h)
      | (.disconnected, _, _) => (false, h.stopRoom r)
  | none => (false, h)

end Hub

end Lobby
