import Lobby.Mailbox
import Lobby.Room.Event

/-! Rooms: who is in one, and what each event does to it. Events only change the room itself; what
goes to others comes out as a list of effects. -/
namespace Lobby

/-- The outbox of a player, which nothing ever waits to get into. -/
abbrev Outbox := Mailbox Empty Envelope

abbrev Outboxes := Array Outbox

namespace Outboxes

def offer (boxes : Outboxes) (i : Nat) (message : Envelope) :
    Except MailboxFault Unit × Outboxes :=
  match boxes[i]? with
  | some box =>
    let (result, box) := box.offer message
    (result, boxes.setIfInBounds i box)
  | none => (.error (.closed ""), boxes)

def offerAll (message : Envelope) : List Nat → Outboxes → Nat × Outboxes
  | [], boxes => (0, boxes)
  | i :: rest, boxes =>
    match boxes.offer i message with
    | (.ok _, boxes) =>
      let (taken, boxes) := offerAll message rest boxes
      (taken + 1, boxes)
    | (.error _, boxes) => offerAll message rest boxes

end Outboxes

structure Member where
  profile : Profile
  outbox : Nat
  deriving DecidableEq, Repr

structure Room where
  id : RoomId
  name : String
  members : List (PlayerId × Member) := []
  deriving DecidableEq, Repr

inductive Effect (ρ : Type) where
  | answer (requester : ρ) (outcome : Outcome)
  | post (outbox : Nat) (message : Envelope)
  deriving DecidableEq, Repr

/-- How a room reacts to a kind of event: as it does by default to some kind, or by dying. -/
inductive Reaction where
  | standard (kind : EventKind)
  | crash
  deriving DecidableEq, Repr

abbrev Reactions := Table EventKind Reaction

def Reactions.standard : Reactions :=
  Table.ofList (EventKind.all.map fun k => (k, .standard k))

namespace Room

def header (room : Room) : RoomSnapshot :=
  .header room.id room.name

def member? (room : Room) (player : PlayerId) : Option Member :=
  room.members.lookup player

def hasMember (room : Room) (player : PlayerId) : Bool :=
  (room.member? player).isSome

def insertMember (player : PlayerId) (m : Member) :
    List (PlayerId × Member) → List (PlayerId × Member)
  | [] => [(player, m)]
  | (other, n) :: rest =>
    match player.compare other with
    | .lt => (player, m) :: (other, n) :: rest
    | .eq => (player, m) :: rest
    | .gt => (other, n) :: insertMember player m rest

def insert (room : Room) (player : PlayerId) (m : Member) : Room :=
  { room with members := insertMember player m room.members }

def erase (room : Room) (player : PlayerId) : Room :=
  { room with members := room.members.filter (·.1 ≠ player) }

def snapshot (room : Room) : RoomSnapshot where
  id := room.id
  name := room.name
  players := room.members.map fun (id, m) =>
    { id, name := m.profile.name, position := m.profile.position }

def recipients (room : Room) (exclude : PlayerId) : List Nat :=
  (room.members.filter (·.1 ≠ exclude)).map (·.2.outbox)

def broadcast (room : Room) (exclude : PlayerId) (message : Envelope) (boxes : Outboxes) :
    Nat × Outboxes :=
  Outboxes.offerAll message (room.recipients exclude) boxes

def stateMessage (room : Room) : Envelope :=
  .notification .roomStateNotification
    (Wire.encode ({ room := room.snapshot } : RoomStateNotification))

variable {ρ : Type}

def notify (room : Room) (exclude : PlayerId) : List (Effect ρ) :=
  let message := room.stateMessage
  (room.recipients exclude).map (.post · message)

/-- Whether an answer reaches anyone, or nobody has asked for one. -/
def answerable (listener : ρ → Listener) (reply : Option ρ) : Bool :=
  reply.all fun requester => listener requester ≠ .gone

def answer (room : Room) (listener : ρ → Listener) (reply : Option ρ) (ret : ResultCode) :
    List (Effect ρ) :=
  match reply with
  | some requester =>
    if listener requester = .gone then [] else [.answer requester ⟨ret, room.snapshot⟩]
  | none => []

/-- Lets a player in. A requester who has gone is not let in; one who goes before the answer
reaches it is put out again. -/
def join (room : Room) (listener : ρ → Listener) (lookup : PlayerId → Option Nat)
    (player : PlayerId) (profile : Profile) (reply : Option ρ) : Room × List (Effect ρ) :=
  if !answerable listener reply then (room, [])
  else if room.hasMember player then
    (room, room.answer listener reply .playerAlreadyInRoom)
  else
    let later := fun requester => (listener requester).afterLookup
    match lookup player with
    | none => (room, room.answer later reply .playerNotFound)
    | some outbox =>
      let joined := room.insert player ⟨profile, outbox⟩
      if answerable later reply then
        (joined, joined.answer later reply .ok ++ joined.notify player)
      else (joined.erase player, [])

def leave (room : Room) (listener : ρ → Listener) (player : PlayerId) (reply : Option ρ) :
    Room × List (Effect ρ) :=
  if room.hasMember player then
    let left := room.erase player
    (left, left.notify player ++ left.answer listener reply .ok)
  else (room, room.answer listener reply .playerNotFound)

def move (room : Room) (player : PlayerId) (profile : Profile) : Room × List (Effect ρ) :=
  match room.member? player with
  | some m =>
    let moved := room.insert player { m with profile }
    (moved, moved.notify player)
  | none => (room, [])

/-- Reacts to an event as is usual for a kind. Another kind's event changes nothing. -/
def react (room : Room) (kind : EventKind) (listener : ρ → Listener)
    (lookup : PlayerId → Option Nat) (event : Event ρ) : Room × List (Effect ρ) :=
  match kind, event.body with
  | .join, .join profile reply => room.join listener lookup event.player profile reply
  | .leave, .leave reply => room.leave listener event.player reply
  | .move, .move profile => room.move event.player profile
  | _, _ => (room, [])

/-- Handles an event as a table of reactions says; `none` if the room dies of it. Kinds without a
reaction are ignored. -/
def handle (room : Room) (reactions : Reactions) (listener : ρ → Listener)
    (lookup : PlayerId → Option Nat) (event : Event ρ) : Option (Room × List (Effect ρ)) :=
  match reactions.get? event.kind with
  | some (.standard kind) => some (room.react kind listener lookup event)
  | some .crash => none
  | none => some (room, [])

end Room

namespace Effect

variable {ρ : Type}

def deliver (boxes : Outboxes) : Effect ρ → Outboxes
  | .answer .. => boxes
  | .post i message => (boxes.offer i message).2

def deliverAll (boxes : Outboxes) (effects : List (Effect ρ)) : Outboxes :=
  effects.foldl deliver boxes

def outcome? (effects : List (Effect ρ)) : Option Outcome :=
  effects.findSome? fun
    | .answer _ outcome => some outcome
    | .post .. => none

end Effect

def Room.handleAll {ρ : Type} (reactions : Reactions) (listener : ρ → Listener)
    (lookup : PlayerId → Option Nat) :
    Room → Outboxes → List (Event ρ) → Room × Outboxes
  | room, boxes, [] => (room, boxes)
  | room, boxes, event :: rest =>
    match room.handle reactions listener lookup event with
    | some (room, effects) =>
      handleAll reactions listener lookup room (Effect.deliverAll boxes effects) rest
    | none => (room, boxes)

end Lobby
