import Lobby.Hub.Basic

/-! The registry: which rooms and players are known by their identities. -/
namespace Lobby.Hub

def room? (h : Hub) (id : RoomId) : Option Nat := h.roomIndex.lookup id

def insertRoom (id : RoomId) (r : Nat) : List (RoomId × Nat) → List (RoomId × Nat)
  | [] => [(id, r)]
  | (other, s) :: rest =>
    if id.number < other.number then (id, r) :: (other, s) :: rest
    else (other, s) :: insertRoom id r rest

/-- Finds the room registered under an identity, or starts one there. The flag tells whether it
is new. -/
def openRoom (h : Hub) (id : RoomId) (name : String) : Nat × Bool × Hub :=
  match h.room? id with
  | some r => (r, false, h)
  | none =>
    let r := h.rooms.size
    let cell : RoomCell :=
      { room := { id, name }
        events := Mailbox.ofCapacity id.display h.config.eventCapacity }
    (r, true,
      { h with
        rooms := h.rooms.push cell
        roomIndex := insertRoom id r h.roomIndex }.signal (.started (.room r)))

def takeRoomId (h : Hub) : RoomId × Hub :=
  (⟨h.nextRoom⟩, { h with nextRoom := h.nextRoom + 1 })

def createRoom (h : Hub) (name : String) : Nat × Hub :=
  let (id, h) := h.takeRoomId
  let (r, _, h) := h.openRoom id name
  (r, h)

def cancelRoom (h : Hub) (r : Nat) : Hub :=
  match h.rooms[r]? with
  | some cell =>
    if cell.cancelled then h
    else (h.setRoom r { cell with cancelled := true }).signal (.roomCancelled r)
  | none => h

def removeRoom (h : Hub) (id : RoomId) : Option Nat × Hub :=
  match h.room? id with
  | some r =>
    let h := h.cancelRoom r
    (some r, { h with roomIndex := h.roomIndex.filter (·.1 ≠ id) })
  | none => (none, h)

def header (h : Hub) (r : Nat) : RoomSnapshot :=
  match h.rooms[r]? with
  | some cell => cell.room.header
  | none => {}

def headers (h : Hub) : List RoomSnapshot :=
  h.roomIndex.map fun e => h.header e.2

def player? (h : Hub) (id : PlayerId) : Option Nat := h.playerIndex.lookup id

/-- Registers a new player with its mailboxes, unless the identity is taken. -/
def openPlayer (h : Hub) (id : PlayerId) (config : PlayerConfig) : Nat × Bool × Hub :=
  match h.player? id with
  | some p => (p, false, h)
  | none =>
    let p := h.players.size
    let cell : PlayerCell :=
      { id, inbound := Mailbox.ofCapacity (id.text ++ "/inbound") config.inboundCapacity }
    let outbox : Outbox := Mailbox.ofCapacity (id.text ++ "/outbound") config.outboundCapacity
    (p, true,
      { h with
        players := h.players.push cell
        outboxes := h.outboxes.push outbox
        playerIndex := h.playerIndex ++ [(id, p)] }.signal (.started (.supervisor p)))

def isCancelled (h : Hub) (p : Nat) : Bool :=
  (h.players[p]?.map (·.cancelled)).getD false

def cancelPlayer (h : Hub) (p : Nat) : Hub :=
  match h.players[p]? with
  | some cell =>
    if cell.cancelled then h
    else (h.setPlayer p { cell with cancelled := true }).signal (.playerCancelled p)
  | none => h

def removePlayer (h : Hub) (id : PlayerId) : Option Nat × Hub :=
  match h.player? id with
  | some p =>
    let h := h.cancelPlayer p
    (some p, { h with playerIndex := h.playerIndex.filter (·.1 ≠ id) })
  | none => (none, h)

end Lobby.Hub
