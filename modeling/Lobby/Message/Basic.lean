/-! The identities of players and rooms, the kinds of messages and the codes of outcomes with their
numbers on the wire, and tables that name a handler for some of the kinds. -/
namespace Lobby

structure PlayerId where
  text : String
  deriving DecidableEq, Repr, Inhabited

structure RoomId where
  number : UInt64
  deriving DecidableEq, Repr, Inhabited

namespace PlayerId

/-- The order of identities, by code points and so by UTF-8 octets. -/
def compare (a b : PlayerId) : Ordering :=
  Ord.compare a.text b.text

end PlayerId

namespace RoomId

def display (id : RoomId) : String :=
  "R-" ++ String.ofList (Nat.toDigits 10 id.number.toNat)

end RoomId

/-- The kind of a message. Requests have even numbers and are answered by the kind one above;
the room state notification answers nothing. -/
inductive MessageKind where
  | loginRequest
  | loginResponse
  | getRoomListRequest
  | getRoomListResponse
  | createRoomRequest
  | createRoomResponse
  | joinRoomRequest
  | joinRoomResponse
  | moveRequest
  | moveResponse
  | leaveRoomRequest
  | leaveRoomResponse
  | roomStateNotification
  deriving DecidableEq, Repr, Inhabited

namespace MessageKind

def all : List MessageKind :=
  [loginRequest, loginResponse, getRoomListRequest, getRoomListResponse, createRoomRequest,
    createRoomResponse, joinRoomRequest, joinRoomResponse, moveRequest, moveResponse,
    leaveRoomRequest, leaveRoomResponse, roomStateNotification]

def number (k : MessageKind) : Nat := k.ctorIdx

def ofInt? (i : Int) : Option MessageKind :=
  if 0 ≤ i then all[i.toNat]? else none

theorem ofInt?_number (k : MessageKind) : ofInt? k.number = some k := by
  cases k <;> rfl

def isRequest (k : MessageKind) : Bool :=
  k.number % 2 = 0 && k ≠ roomStateNotification

def response? (k : MessageKind) : Option MessageKind :=
  if k.isRequest then ofInt? (k.number + 1) else none

def name : MessageKind → String
  | loginRequest => "LoginRequest"
  | loginResponse => "LoginResponse"
  | getRoomListRequest => "GetRoomListRequest"
  | getRoomListResponse => "GetRoomListResponse"
  | createRoomRequest => "CreateRoomRequest"
  | createRoomResponse => "CreateRoomResponse"
  | joinRoomRequest => "JoinRoomRequest"
  | joinRoomResponse => "JoinRoomResponse"
  | moveRequest => "MoveRequest"
  | moveResponse => "MoveResponse"
  | leaveRoomRequest => "LeaveRoomRequest"
  | leaveRoomResponse => "LeaveRoomResponse"
  | roomStateNotification => "RoomStateNotification"

def display (k : MessageKind) : String :=
  k.name ++ "(" ++ String.ofList (Nat.toDigits 10 k.number) ++ ")"

end MessageKind

inductive ResultCode where
  | ok
  | roomNotFound
  | roomFull
  | playerNotFound
  | playerAlreadyInRoom
  deriving DecidableEq, Repr

namespace ResultCode

instance : Inhabited ResultCode := ⟨.ok⟩

def all : List ResultCode := [ok, roomNotFound, roomFull, playerNotFound, playerAlreadyInRoom]

def number (c : ResultCode) : Nat := c.ctorIdx

def ofInt? (i : Int) : Option ResultCode :=
  if 0 ≤ i then all[i.toNat]? else none

theorem ofInt?_number (c : ResultCode) : ofInt? c.number = some c := by
  cases c <;> rfl

def name : ResultCode → String
  | ok => "Ok"
  | roomNotFound => "RoomNotFound"
  | roomFull => "RoomFull"
  | playerNotFound => "PlayerNotFound"
  | playerAlreadyInRoom => "PlayerAlreadyInRoom"

def display (c : ResultCode) : String :=
  c.name ++ "(" ++ String.ofList (Nat.toDigits 10 c.number) ++ ")"

end ResultCode

structure Table (κ α : Type) where
  entries : List (κ × α) := []
  deriving Repr

namespace Table

variable {κ α : Type} [BEq κ]

def empty : Table κ α := ⟨[]⟩

def get? (t : Table κ α) (key : κ) : Option α :=
  t.entries.lookup key

def contains (t : Table κ α) (key : κ) : Bool :=
  (t.get? key).isSome

def size (t : Table κ α) : Nat := t.entries.length

def isEmpty (t : Table κ α) : Bool := t.entries.isEmpty

def register (t : Table κ α) (key : κ) (value : α) : Table κ α :=
  ⟨(key, value) :: t.entries.filter fun e => !(e.1 == key)⟩

def ofList (entries : List (κ × α)) : Table κ α :=
  entries.foldl (fun t e => t.register e.1 e.2) empty

end Table

end Lobby
