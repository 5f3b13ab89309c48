import Lobby.World.Clock

/-! What happens to a server from outside: clients come, send and go, and visitors act on players
and rooms directly. -/
namespace Lobby.World

def connect (w : World) (id : PlayerId) (config : PlayerConfig) (handlers : Handlers)
    (window : Option Nat) : Nat × Bool × World :=
  match w.hub.openPlayer id config with
  | (p, false, _) => (p, false, w)
  | (p, true, hub) =>
    let s := Session.start p id config handlers window
    (p, true, { w with hub, sessions := w.sessions.push s }.settle)

def touch (w : World) (p : Nat) (f : Stream → Stream) : World :=
  match w.session? p with
  | some s =>
    let w := { w with sessions := w.sessions.setIfInBounds p { s with stream := f s.stream } }
    let w := if s.reading = .ready then w.enqueue (.reader p) else w
    match s.writing with
    | .sending _ => w.enqueue (.writer p)
    | _ => w
  | none => w

def collect (w : World) (p : Nat) : List UInt8 × World :=
  match w.session? p with
  | some s =>
    let (octets, stream) := s.stream.collect
    (octets, { w with sessions := w.sessions.setIfInBounds p { s with stream } })
  | none => ([], w)

def hasHungUp (w : World) (p : Nat) : Bool :=
  (w.session? p).any fun s => s.readerEnded && s.writerEnded

def openRoom (w : World) (id : RoomId) (name : String) (apart : Bool) : Nat × Bool × World :=
  let (r, new, hub) := w.hub.openRoom id name
  let kept := if new && apart then r :: w.apart else w.apart
  (r, new, { w with hub, apart := kept }.settle)

def createRoom (w : World) (name : String) (apart : Bool) : Nat × World :=
  let (id, hub) := w.hub.takeRoomId
  let (r, _, w) := { w with hub }.openRoom id name apart
  (r, w)

def join (w : World) (r : Nat) (player : PlayerId) (profile : Profile) (timeout : Nat) :
    Answer × World :=
  w.awaitCourse (w.hub.requestJoin .visitor r timeout w.now player profile)

def leave (w : World) (r : Nat) (player : PlayerId) (timeout : Nat) : Answer × World :=
  w.awaitCourse (w.hub.requestLeave .visitor r timeout w.now player)

def serve (w : World) (c : Context) (service : Service) (request : Envelope) :
    Except SessionFault Unit × Context × World :=
  match c.serve w.hub .visitor w.now service request with
  | (.answered response, c, hub) => respond w c hub response
  | (.pending pending, c, hub) =>
    let (answer, w) := w.awaitCourse (.waiting pending.wait, hub)
    let (response, c, hub) := c.complete w.hub pending.errand pending.wait.room answer
    respond w c hub response
  | (.unreadable, c, hub) => (.error (.protocol .undecodable), c, { w with hub }.settle)
where
  respond (w : World) (c : Context) (hub : Hub) (response : Response) :=
    let (result, hub) := c.respond hub request response
    (result, c, { w with hub }.settle)

end Lobby.World
