import Lobby.Hub.Rendezvous

/-! A player's own state, and how it enters and leaves rooms. -/
namespace Lobby

/-- A player's own state. Its `room` is set only by a room's approval; `unconfirmed` are the rooms
that may list the player all the same, because an answer never came and no leave could be queued
after it. -/
structure Context where
  id : PlayerId
  name : String := ""
  position : Position := {}
  room : Option RoomId := none
  unconfirmed : List RoomId := []
  outbox : Nat
  replyTimeout : Nat
  deriving DecidableEq, Repr

namespace Context

def profile (c : Context) : Profile := ⟨c.name, c.position⟩

/-- Every room that may list the player, the confirmed one first. -/
def memberships (c : Context) : List RoomId :=
  (c.room.toList ++ c.unconfirmed).eraseDups

def room? (c : Context) (h : Hub) : Option Nat := c.room.bind h.room?

/-- Queues a leave for a membership that is in doubt, and remembers the room if that fails. -/
def abandon (c : Context) (h : Hub) (r : Nat) : Context × Hub :=
  match h.sendLeave r c.id with
  | (.ok _, h) => (c, h)
  | (.error _, h) =>
    let id := h.roomId r
    (if id ∈ c.unconfirmed then c else { c with unconfirmed := c.unconfirmed ++ [id] }, h)

/-- Tries to queue a leave for a player in each of some rooms, and keeps those where that fails; a
room that is gone needs none. -/
def leaveAll (player : PlayerId) : List RoomId → Hub → List RoomId × Hub
  | [], h => ([], h)
  | id :: rest, h =>
    match h.room? id with
    | some r =>
      match h.sendLeave r player with
      | (.ok _, h) => leaveAll player rest h
      | (.error _, h) =>
        let (kept, h) := leaveAll player rest h
        (id :: kept, h)
    | none => leaveAll player rest h

def settle (c : Context) (h : Hub) : Context × Hub :=
  let (kept, h) := leaveAll c.id c.unconfirmed h
  ({ c with unconfirmed := kept }, h)

/-- Records how a join came out. When the answer did not come in time, a leave goes after the
join. -/
def concludeJoin (c : Context) (h : Hub) (r : Nat) (answer : Answer) : Context × Hub :=
  match answer with
  | .ok outcome =>
    if outcome.ret = .ok then
      let id := h.roomId r
      ({ c with room := some id, unconfirmed := c.unconfirmed.filter (· ≠ id) }, h)
    else (c, h)
  | .error (.timeout _) => c.abandon h r
  | .error _ => (c, h)

/-- Records how a leave came out. When the answer did not come in time, another leave goes after
it. -/
def concludeLeave (c : Context) (h : Hub) (r : Nat) (answer : Answer) : Context × Hub :=
  match answer with
  | .error (.timeout _) => c.abandon h r
  | _ => (c, h)

end Context

end Lobby
