import Lobby.Player.Context

/-! What players can ask for. Each service reads its request before it changes anything, and
answers it once; what goes wrong in between is told by the code in the answer. -/
namespace Lobby

inductive Service where
  | login
  | listRooms
  | createRoom
  | joinRoom
  | move
  | leaveRoom
  deriving DecidableEq, Repr

def Service.ofKind? : MessageKind → Option Service
  | .loginRequest => some .login
  | .getRoomListRequest => some .listRooms
  | .createRoomRequest => some .createRoom
  | .joinRoomRequest => some .joinRoom
  | .moveRequest => some .move
  | .leaveRoomRequest => some .leaveRoom
  | _ => none

inductive Handler where
  | serve (service : Service)
  | crash
  deriving DecidableEq, Repr

abbrev Handlers := Table MessageKind Handler

def Handlers.standard : Handlers :=
  Table.ofList (MessageKind.all.filterMap fun k =>
    (Service.ofKind? k).map fun s => (k, .serve s))

inductive Errand where
  | create (created : RoomSnapshot)
  | join
  | leave
  deriving DecidableEq, Repr

structure Pending where
  request : Envelope
  errand : Errand
  wait : Wait
  deriving DecidableEq, Repr

inductive Response where
  | login (body : LoginResponse)
  | rooms (body : GetRoomListResponse)
  | room (body : RoomResponse)
  deriving DecidableEq, Repr

namespace Response

def encode : Response → List UInt8
  | .login body => Wire.encode body
  | .rooms body => Wire.encode body
  | .room body => Wire.encode body

def code (ret : ResultCode) (room : Option RoomSnapshot) : Response := .room { ret, room }

end Response

/-- How a service goes: it has an answer, it waits for a room, or it cannot read its request. -/
inductive Progress where
  | answered (response : Response)
  | pending (pending : Pending)
  | unreadable

namespace Context

def respond (c : Context) (h : Hub) (request : Envelope) (response : Response) :
    Except SessionFault Unit × Hub :=
  match request.responseTo? response.encode with
  | some message =>
    match h.post c.outbox message with
    | (.ok _, h) => (.ok (), h)
    | (.error e, h) => (.error (.mailbox e), h)
  | none => (.error (.protocol (.invalidMessage (.unanswerable request.kind))), h)

def errandResponse (errand : Errand) (answer : Answer) : Response :=
  match errand, answer with
  | .create created, .ok outcome => .code outcome.ret (some created)
  | .create created, .error _ => .code .roomNotFound (some created)
  | .join, .ok outcome | .leave, .ok outcome => .code outcome.ret (some outcome.room)
  | .join, .error _ | .leave, .error _ => .code .roomNotFound none

def complete (c : Context) (h : Hub) (errand : Errand) (r : Nat) (answer : Answer) :
    Response × Context × Hub :=
  let (c, h) := match errand with
    | .create _ | .join => c.concludeJoin h r answer
    | .leave => c.concludeLeave h r answer
  (errandResponse errand answer, c, h)

def follow (c : Context) (request : Envelope) (errand : Errand) (r : Nat) :
    Course × Hub → Progress × Context × Hub
  | (.waiting wait, h) => (.pending { request, errand, wait }, c, h)
  | (.ended answer, h) =>
    let (response, c, h) := c.complete h errand r answer
    (.answered response, c, h)

/-- Asks a room in, after settling what is unsettled. -/
def enter (c : Context) (h : Hub) (owner : Task) (now : Nat) (request : Envelope)
    (errand : Errand) (r : Nat) : Progress × Context × Hub :=
  let (c, h) := c.settle h
  c.follow request errand r (h.requestJoin owner r c.replyTimeout now c.id c.profile)

def login (c : Context) (h : Hub) (body : LoginRequest) : Progress × Context × Hub :=
  let c := { c with name := body.playerName }
  let h := match c.room? h with
    | some r => (h.sendMove r c.id c.profile).2
    | none => h
  (.answered (.login { playerId := c.id }), c, h)

def listRooms (c : Context) (h : Hub) : Progress × Context × Hub :=
  (.answered (.rooms { rooms := h.headers }), c, h)

def createRoom (c : Context) (h : Hub) (owner : Task) (now : Nat) (request : Envelope)
    (body : CreateRoomRequest) : Progress × Context × Hub :=
  if c.room.isSome then (.answered (.code .playerAlreadyInRoom none), c, h)
  else
    let (r, h) := h.createRoom body.name
    c.enter h owner now request (.create (h.header r)) r

def joinRoom (c : Context) (h : Hub) (owner : Task) (now : Nat) (request : Envelope)
    (body : JoinRoomRequest) : Progress × Context × Hub :=
  if c.room.isSome then (.answered (.code .playerAlreadyInRoom none), c, h)
  else
    match h.room? body.roomId with
    | some r => c.enter h owner now request .join r
    | none => (.answered (.code .roomNotFound none), c, h)

def move (c : Context) (h : Hub) (body : MoveRequest) : Progress × Context × Hub :=
  let c := { c with position := body.position }
  match c.room? h with
  | some r =>
    let (_, h) := h.sendMove r c.id c.profile
    (.answered (.code .ok (some (h.header r))), c, h)
  | none => (.answered (.code .roomNotFound none), c, h)

def leaveRoom (c : Context) (h : Hub) (owner : Task) (now : Nat) (request : Envelope) :
    Progress × Context × Hub :=
  let left := { c with room := none }
  match c.room? h with
  | some r =>
    left.follow request .leave r (h.requestLeave owner r c.replyTimeout now c.id)
  | none => (.answered (.code .roomNotFound none), left, h)

def reading {α : Type} [Wire α] (c : Context) (h : Hub) (request : Envelope)
    (serve : α → Progress × Context × Hub) : Progress × Context × Hub :=
  match Wire.decode? (α := α) request.data with
  | some body => serve body
  | none => (.unreadable, c, h)

def serve (c : Context) (h : Hub) (owner : Task) (now : Nat) (service : Service)
    (request : Envelope) : Progress × Context × Hub :=
  match service with
  | .login => c.reading h request (c.login h)
  | .listRooms => c.reading h request fun (_ : GetRoomListRequest) => c.listRooms h
  | .createRoom => c.reading h request (c.createRoom h owner now request)
  | .joinRoom => c.reading h request (c.joinRoom h owner now request)
  | .move => c.reading h request (c.move h)
  | .leaveRoom =>
    c.reading h request fun (_ : LeaveRoomRequest) => c.leaveRoom h owner now request

def resume (c : Context) (h : Hub) (now : Nat) (p : Pending) : Progress × Context × Hub :=
  c.follow p.request p.errand p.wait.room (h.resume p.wait now)

end Context

end Lobby
