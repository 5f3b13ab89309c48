import Lobby.Frame
import Lobby.Room.Basic

/-! The state that all actors of a server share: live rooms with their event mailboxes, players
with theirs, the registry of both, and replies under way. Times are in milliseconds. -/
namespace Lobby

structure RoomConfig where
  eventCapacity : Nat := 100
  /-- How long a player who goes away waits for each room to take it off. -/
  replyTimeout : Nat := 5000
  deriving DecidableEq, Repr, Inhabited

structure PlayerConfig where
  inboundCapacity : Nat := 1000
  outboundCapacity : Nat := 1000
  readBuffer : Nat := 4096
  frameLimit : Nat := Frame.defaultLimit
  /-- How long a handler waits for a slot in a room's mailbox, and then for its answer. -/
  replyTimeout : Nat := 5000
  overflow : OverflowPolicy := .dropNewest
  deriving DecidableEq, Repr, Inhabited

/-- The actors of a server. Players and rooms are numbered in the order of their creation; a
visitor is someone outside who asks rooms directly. -/
inductive Task where
  | reader (player : Nat)
  | writer (player : Nat)
  | dispatcher (player : Nat)
  | supervisor (player : Nat)
  | room (room : Nat)
  | visitor
  deriving DecidableEq, Repr

structure Ticket where
  owner : Task
  serial : Nat
  deriving DecidableEq, Repr

inductive Reply where
  | awaited
  | answered (outcome : Outcome)
  | abandoned
  deriving DecidableEq, Repr

inductive Signal where
  | started (task : Task)
  | arrived (task : Task)
  /-- A slot, an answer, or the certainty that there will be none. -/
  | settled (task : Task)
  | playerCancelled (player : Nat)
  | roomCancelled (room : Nat)
  | dutyEnded (player : Nat)
  deriving DecidableEq, Repr

structure RoomCell where
  room : Room
  events : Mailbox Ticket (Event Ticket)
  cancelled : Bool := false
  stopped : Bool := false
  deriving Repr

/-- A player with what its handle shares. Its outbox has the same number. -/
structure PlayerCell where
  id : PlayerId
  inbound : Mailbox Ticket Envelope
  cancelled : Bool := false
  deriving Repr

structure Hub where
  config : RoomConfig := {}
  reactions : Reactions := Reactions.standard
  rooms : Array RoomCell := #[]
  players : Array PlayerCell := #[]
  outboxes : Outboxes := #[]
  /-- The rooms registered, ascending by identity. -/
  roomIndex : List (RoomId × Nat) := []
  playerIndex : List (PlayerId × Nat) := []
  nextRoom : UInt64 := 1
  nextSerial : Nat := 0
  replies : List (Ticket × Reply) := []
  /-- What has happened, latest first, and nobody has been told of. -/
  signals : List Signal := []

namespace Hub

def signal (h : Hub) (s : Signal) : Hub :=
  { h with signals := s :: h.signals }

def setRoom (h : Hub) (r : Nat) (cell : RoomCell) : Hub :=
  { h with rooms := h.rooms.setIfInBounds r cell }

def setPlayer (h : Hub) (p : Nat) (cell : PlayerCell) : Hub :=
  { h with players := h.players.setIfInBounds p cell }

def freshSerial (h : Hub) : Nat × Hub :=
  (h.nextSerial, { h with nextSerial := h.nextSerial + 1 })

def reply? (h : Hub) (t : Ticket) : Option Reply := h.replies.lookup t

def listener (h : Hub) (t : Ticket) : Listener :=
  match h.reply? t with
  | some .awaited => .waiting
  | _ => .gone

def openReply (h : Hub) (t : Ticket) : Hub :=
  { h with replies := (t, .awaited) :: h.replies }

def closeReply (h : Hub) (t : Ticket) : Hub :=
  { h with replies := h.replies.filter (·.1 ≠ t) }

def settleReply (h : Hub) (t : Ticket) (reply : Reply) : Hub :=
  match h.reply? t with
  | some .awaited =>
    let settle (e : Ticket × Reply) := if e.1 = t then (t, reply) else e
    { h with replies := h.replies.map settle }.signal (.settled t.owner)
  | _ => h

/-- An event goes away unhandled, and with it the hope for an answer. -/
def discardEvent (h : Hub) (event : Event Ticket) : Hub :=
  match event.reply? with
  | some t => h.settleReply t .abandoned
  | none => h

def post (h : Hub) (p : Nat) (message : Envelope) : Except MailboxFault Unit × Hub :=
  match h.outboxes.offer p message with
  | (.ok _, outboxes) => (.ok (), { h with outboxes }.signal (.arrived (.writer p)))
  | (.error e, outboxes) => (.error e, { h with outboxes })

def apply (h : Hub) : Effect Ticket → Hub
  | .answer t outcome => h.settleReply t (.answered outcome)
  | .post p message => (h.post p message).2

def applyAll (h : Hub) (effects : List (Effect Ticket)) : Hub :=
  effects.foldl apply h

end Hub

end Lobby
