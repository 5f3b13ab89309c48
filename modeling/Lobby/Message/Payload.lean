import Lobby.Json.Record
import Lobby.Json.Text
import Lobby.Message.Basic

/-! What messages carry, the envelope around it, and how both are written and read as JSON. Every
field of a payload may be missing and then has its default. -/
namespace Lobby

open Number

class Wire (α : Type) where
  toJson : α → Json
  ofJson? : Json → Option α

namespace Wire

def encode {α : Type} [Wire α] (v : α) : List UInt8 :=
  (toJson v).render

def decode? {α : Type} [Wire α] (octets : List UInt8) : Option α := do
  ofJson? (← Json.parse? octets)

end Wire

structure Position where
  x : Binary32 := .zero
  y : Binary32 := .zero
  z : Binary32 := .zero
  deriving DecidableEq, Repr, Inhabited

structure PlayerInfo where
  id : PlayerId := ⟨""⟩
  name : String := ""
  position : Position := {}
  deriving DecidableEq, Repr, Inhabited

structure RoomSnapshot where
  id : RoomId := ⟨0⟩
  name : String := ""
  players : List PlayerInfo := []
  deriving DecidableEq, Repr, Inhabited

def RoomSnapshot.header (id : RoomId) (name : String) : RoomSnapshot := { id, name }

structure LoginRequest where
  playerName : String := ""
  deriving DecidableEq, Repr

structure LoginResponse where
  playerId : PlayerId := ⟨""⟩
  deriving DecidableEq, Repr

structure GetRoomListRequest where
  deriving DecidableEq, Repr

structure GetRoomListResponse where
  ret : ResultCode := .ok
  rooms : List RoomSnapshot := []
  deriving DecidableEq, Repr

structure CreateRoomRequest where
  name : String := ""
  deriving DecidableEq, Repr

structure JoinRoomRequest where
  player : Option PlayerInfo := none
  roomId : RoomId := ⟨0⟩
  deriving DecidableEq, Repr

structure MoveRequest where
  playerId : PlayerId := ⟨""⟩
  position : Position := {}
  deriving DecidableEq, Repr

structure LeaveRoomRequest where
  playerId : PlayerId := ⟨""⟩
  deriving DecidableEq, Repr

structure RoomResponse where
  ret : ResultCode := .ok
  room : Option RoomSnapshot := none
  deriving DecidableEq, Repr

structure RoomStateNotification where
  room : RoomSnapshot := {}
  deriving DecidableEq, Repr

open Wire Json

instance : Wire MessageKind where
  toJson k := ofNat k.number
  ofJson? v := do MessageKind.ofInt? (← v.int32?)

instance : Wire ResultCode where
  toJson c := ofNat c.number
  ofJson? v := do ResultCode.ofInt? (← v.int32?)

instance : Wire PlayerId where
  toJson id := ofText id.text
  ofJson? v := v.text?.map PlayerId.mk

instance : Wire RoomId where
  toJson id := ofNat id.number.toNat
  ofJson? v := v.uint64?.map RoomId.mk

instance : Wire Position where
  toJson p := ofMembers [("x", ofBinary32 p.x), ("y", ofBinary32 p.y), ("z", ofBinary32 p.z)]
  ofJson? v := do
    let fields ← v.record? ["x", "y", "z"]
    let x ← fields.getD "x" .zero binary32?
    let y ← fields.getD "y" .zero binary32?
    let z ← fields.getD "z" .zero binary32?
    return { x, y, z }

instance : Wire PlayerInfo where
  toJson p := ofMembers
    [("id", toJson p.id), ("name", ofText p.name), ("position", toJson p.position)]
  ofJson? v := do
    let fields ← v.record? ["id", "name", "position"]
    let id ← fields.getD "id" ⟨""⟩ ofJson?
    let name ← fields.getD "name" "" text?
    let position ← fields.getD "position" {} ofJson?
    return { id, name, position }

instance : Wire RoomSnapshot where
  toJson r := ofMembers
    [("id", toJson r.id), ("name", ofText r.name), ("players", ofList toJson r.players)]
  ofJson? v := do
    let fields ← v.record? ["id", "name", "players"]
    let id ← fields.getD "id" ⟨0⟩ ofJson?
    let name ← fields.getD "name" "" text?
    let players ← fields.getD "players" [] (list? ofJson?)
    return { id, name, players }

instance : Wire LoginRequest where
  toJson p := ofMembers [("playerName", ofText p.playerName)]
  ofJson? v := do
    let fields ← v.record? ["playerName"]
    let playerName ← fields.getD "playerName" "" text?
    return { playerName }

instance : Wire LoginResponse where
  toJson p := ofMembers [("playerId", toJson p.playerId)]
  ofJson? v := do
    let fields ← v.record? ["playerId"]
    let playerId ← fields.getD "playerId" ⟨""⟩ ofJson?
    return { playerId }

instance : Wire GetRoomListRequest where
  toJson _ := ofMembers []
  ofJson? v := do
    let _ ← v.record? []
    return {}

instance : Wire GetRoomListResponse where
  toJson p := ofMembers [("ret", toJson p.ret), ("rooms", ofList toJson p.rooms)]
  ofJson? v := do
    let fields ← v.record? ["ret", "rooms"]
    let ret ← fields.getD "ret" .ok ofJson?
    let rooms ← fields.getD "rooms" [] (list? ofJson?)
    return { ret, rooms }

instance : Wire CreateRoomRequest where
  toJson p := ofMembers [("name", ofText p.name)]
  ofJson? v := do
    let fields ← v.record? ["name"]
    let name ← fields.getD "name" "" text?
    return { name }

instance : Wire JoinRoomRequest where
  toJson p := ofMembers [("player", ofOptional toJson p.player), ("roomId", toJson p.roomId)]
  ofJson? v := do
    let fields ← v.record? ["player", "roomId"]
    let player ← fields.getD "player" none (optional? ofJson?)
    let roomId ← fields.getD "roomId" ⟨0⟩ ofJson?
    return { player, roomId }

instance : Wire MoveRequest where
  toJson p := ofMembers [("playerId", toJson p.playerId), ("position", toJson p.position)]
  ofJson? v := do
    let fields ← v.record? ["playerId", "position"]
    let playerId ← fields.getD "playerId" ⟨""⟩ ofJson?
    let position ← fields.getD "position" {} ofJson?
    return { playerId, position }

instance : Wire LeaveRoomRequest where
  toJson p := ofMembers [("playerId", toJson p.playerId)]
  ofJson? v := do
    let fields ← v.record? ["playerId"]
    let playerId ← fields.getD "playerId" ⟨""⟩ ofJson?
    return { playerId }

instance : Wire RoomResponse where
  toJson p := ofMembers [("ret", toJson p.ret), ("room", ofOptional toJson p.room)]
  ofJson? v := do
    let fields ← v.record? ["ret", "room"]
    let ret ← fields.getD "ret" .ok ofJson?
    let room ← fields.getD "room" none (optional? ofJson?)
    return { ret, room }

instance : Wire RoomStateNotification where
  toJson p := ofMembers [("room", toJson p.room)]
  ofJson? v := do
    let fields ← v.record? ["room"]
    let room ← fields.getD "room" {} ofJson?
    return { room }

/-- A message with its sender's name for itself, a serial number that pairs answers with
requests, and a payload that the kind tells how to read. -/
structure Envelope where
  clientId : String := ""
  serial : Int32 := 0
  kind : MessageKind
  data : List UInt8 := []
  deriving DecidableEq, Repr

namespace Envelope

def notificationSerial : Int32 := -1

open Json in
instance : Wire Envelope where
  toJson e := ofMembers
    [("clientId", ofText e.clientId), ("msgSerialNo", ofInt e.serial.toInt),
      ("id", Wire.toJson e.kind), ("data", ofList (fun b => ofNat b.toNat) e.data)]
  ofJson? v := do
    let fields ← v.record? ["clientId", "msgSerialNo", "id", "data"]
    let clientId ← fields.getD "clientId" "" text?
    let serial ← fields.getD "msgSerialNo" 0 fun v => v.int32?.map Int32.ofInt
    let kind ← fields.get? "id" Wire.ofJson?
    let data ← fields.getD "data" [] (list? octet?)
    return { clientId, serial, kind, data }

/-- The answer to a request: the kind one above, to the same client, under the same serial.
Only requests have one. -/
def responseTo? (request : Envelope) (data : List UInt8) : Option Envelope :=
  request.kind.response?.map fun kind =>
    { clientId := request.clientId, serial := request.serial, kind, data }

def notification (kind : MessageKind) (data : List UInt8) : Envelope :=
  { clientId := "", serial := notificationSerial, kind, data }

end Envelope

end Lobby
