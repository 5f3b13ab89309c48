import Lobby.Player.Service

/-! The duties of a player: a reader that cuts frames and fills the inbound mailbox, a dispatcher
that serves one message after the other, a writer that empties the outbox, and a supervisor that
takes the player off its rooms and out of the registry once all three have ended. Whichever ends
first makes the others end. Each step tells whether the duty can go on at once. -/
namespace Lobby

/-- A client's connection: what the client has sent and the server has not read, and what the server
has written and nobody has looked at. -/
structure Stream where
  incoming : List UInt8 := []
  /-- Nothing follows what is incoming: the client has closed its side, or reading fails. -/
  ended : Bool := false
  broken : Bool := false
  /-- How many more octets the client takes; unlimited if absent. -/
  window : Option Nat := none
  outgoing : List UInt8 := []
  deriving Repr

namespace Stream

def send (s : Stream) (octets : List UInt8) : Stream :=
  { s with incoming := s.incoming ++ octets }

def finish (s : Stream) : Stream := { s with ended := true }

def disconnect (s : Stream) : Stream := { s with ended := true, broken := true }

def fail (s : Stream) : Stream := { s with broken := true }

def grant (s : Stream) (octets : Nat) : Stream :=
  { s with window := s.window.map (· + octets) }

def read (s : Stream) (buffer : Nat) : List UInt8 × Stream :=
  let n := max buffer 1
  (s.incoming.take n, { s with incoming := s.incoming.drop n })

def write (s : Stream) (octets : List UInt8) : List UInt8 × Stream :=
  match s.window with
  | none => ([], { s with outgoing := s.outgoing ++ octets })
  | some n =>
    (octets.drop n,
      { s with
        outgoing := s.outgoing ++ octets.take n
        window := some (n - octets.length) })

def collect (s : Stream) : List UInt8 × Stream :=
  (s.outgoing, { s with outgoing := [] })

end Stream

inductive Reading where
  | ready
  | delivering (name : Ticket)
  | ended
  deriving DecidableEq, Repr

inductive Writing where
  | idle
  | sending (rest : List UInt8)
  | ended
  deriving DecidableEq, Repr

/-- Where a dispatcher is. When it has ended, its state is left behind, unless it died. -/
inductive Dispatching where
  | idle (context : Context)
  | busy (context : Context) (pending : Pending)
  | ended (context : Option Context)
  deriving DecidableEq, Repr

inductive Supervising where
  | starting
  | joining
  | leaving (rooms : List RoomId)
  | waiting (wait : Wait) (rooms : List RoomId)
  | ended
  deriving DecidableEq, Repr

structure Session where
  id : PlayerId
  config : PlayerConfig
  handlers : Handlers
  stream : Stream := {}
  decoder : Frame.Decoder
  reading : Reading := .ready
  writing : Writing := .idle
  dispatching : Dispatching
  supervising : Supervising := .starting

def Envelope.frame (limit : Nat) (e : Envelope) : Except ProtocolFault (List UInt8) :=
  Frame.encode limit (Wire.encode e)

namespace Session

def start (p : Nat) (id : PlayerId) (config : PlayerConfig) (handlers : Handlers)
    (window : Option Nat) : Session where
  id
  config
  handlers
  stream := { window }
  decoder := { limit := config.frameLimit }
  dispatching := .idle { id, outbox := p, replyTimeout := config.replyTimeout }

def readerEnded (s : Session) : Bool := s.reading = .ended

def writerEnded (s : Session) : Bool := s.writing = .ended

def dispatcherEnded (s : Session) : Bool :=
  match s.dispatching with
  | .ended _ => true
  | _ => false

def context? (s : Session) : Option Context :=
  match s.dispatching with
  | .idle c | .busy c _ => some c
  | .ended c => c

/-- What a step does to the session and to what all share; the flag tells whether to go on. -/
abbrev Step := Bool × Session × Hub

def endDuty (h : Hub) (p : Nat) : Hub :=
  (h.cancelPlayer p).signal (.dutyEnded p)

def endReader (s : Session) (h : Hub) (p : Nat) : Step :=
  (false, { s with reading := .ended }, endDuty h p)

def deliver (s : Session) (h : Hub) (p : Nat) (cell : PlayerCell) (e : Envelope) : Step :=
  match s.config.overflow with
  | .dropNewest =>
    match cell.inbound.offer e with
    | (.ok _, inbound) =>
      (true, s, (h.setPlayer p { cell with inbound }).signal (.arrived (.dispatcher p)))
    | (.error (.full _), inbound) => (true, s, h.setPlayer p { cell with inbound })
    | (.error (.closed _), _) => s.endReader h p
  | .wait =>
    let (serial, h) := h.freshSerial
    let name : Ticket := ⟨.reader p, serial⟩
    match cell.inbound.send name e with
    | (.accepted, inbound) =>
      (true, s, (h.setPlayer p { cell with inbound }).signal (.arrived (.dispatcher p)))
    | (.pending, inbound) =>
      (false, { s with reading := .delivering name }, h.setPlayer p { cell with inbound })
    | (.refused, _) => s.endReader h p

/-- Takes the next frame, or reads more when there is none. What does not decode is skipped; a
length above the limit ends the connection. -/
def readNext (s : Session) (h : Hub) (p : Nat) (cell : PlayerCell) : Step :=
  match s.decoder.next with
  | (.payload payload, decoder) =>
    let s := { s with decoder }
    match Wire.decode? (α := Envelope) payload with
    | some e => s.deliver h p cell e
    | none => (true, s, h)
  | (.tooLarge _, _) => s.endReader h p
  | (.more, _) =>
    match s.stream.read s.config.readBuffer with
    | ([], _) => if s.stream.ended then s.endReader h p else (false, s, h)
    | (octets, stream) => (true, { s with stream, decoder := s.decoder.extend octets }, h)

def stepReader (s : Session) (h : Hub) (p : Nat) : Step :=
  match h.players[p]? with
  | none => (false, s, h)
  | some cell =>
    match s.reading with
    | .ended => (false, s, h)
    | .delivering name =>
      if cell.cancelled then
        s.endReader (h.setPlayer p { cell with inbound := (cell.inbound.withdraw name).2 }) p
      else
        match cell.inbound.settle name with
        | (.accepted, inbound) =>
          (true, { s with reading := .ready },
            (h.setPlayer p { cell with inbound }).signal (.arrived (.dispatcher p)))
        | (.refused, inbound) => s.endReader (h.setPlayer p { cell with inbound }) p
        | (.waiting, _) => (false, s, h)
    | .ready => if cell.cancelled then s.endReader h p else s.readNext h p cell

def endWriter (s : Session) (h : Hub) (p : Nat) : Step :=
  (false, { s with writing := .ended }, endDuty h p)

/-- Takes the next message from the outbox. What is too long for a frame is dropped. -/
def writeNext (s : Session) (h : Hub) (p : Nat) : Step :=
  match h.outboxes[p]? with
  | none => s.endWriter h p
  | some box =>
    match box.receive with
    | (.message e, _, box) =>
      let h := { h with outboxes := h.outboxes.setIfInBounds p box }
      match e.frame s.config.frameLimit with
      | .ok octets => (true, { s with writing := .sending octets }, h)
      | .error _ => (true, s, h)
    | (.empty, _, _) => (false, s, h)
    | (.disconnected, _, _) => s.endWriter h p

def stepWriter (s : Session) (h : Hub) (p : Nat) : Step :=
  match s.writing with
  | .ended => (false, s, h)
  | .idle => if h.isCancelled p then s.endWriter h p else s.writeNext h p
  | .sending rest =>
    if h.isCancelled p then s.endWriter h p
    else if s.stream.broken then s.endWriter h p
    else
      match s.stream.write rest with
      | ([], stream) => (true, { s with stream, writing := .idle }, h)
      | (rest, stream) => (false, { s with stream, writing := .sending rest }, h)

def endDispatcher (s : Session) (h : Hub) (p : Nat) (c : Context) : Step :=
  (false, { s with dispatching := .ended (some c) }, endDuty h p)

/-- A dispatcher that dies takes the player's state and the inbound mailbox with it, and stops
nobody. -/
def loseDispatcher (s : Session) (h : Hub) (p : Nat) (cell : PlayerCell) : Step :=
  let h := h.setPlayer p { cell with inbound := cell.inbound.discard }
  let h := cell.inbound.waiting.foldl (fun h w => h.signal (.settled w.1.owner)) h
  (false, { s with dispatching := .ended none }, h.signal (.dutyEnded p))

def dispatched (s : Session) (request : Envelope) : Progress × Context × Hub → Step
  | (.answered response, c, h) =>
    (true, { s with dispatching := .idle c }, (c.respond h request response).2)
  | (.pending pending, c, h) => (false, { s with dispatching := .busy c pending }, h)
  | (.unreadable, c, h) => (true, { s with dispatching := .idle c }, h)

def dispatchNext (s : Session) (h : Hub) (p : Nat) (now : Nat) (cell : PlayerCell)
    (c : Context) : Step :=
  match cell.inbound.receive with
  | (.message e, next, inbound) =>
    let cell := { cell with inbound }
    let h := h.setPlayer p cell
    let h := match next with
      | some t => h.signal (.settled t.owner)
      | none => h
    match s.handlers.get? e.kind with
    | some (.serve service) => s.dispatched e (c.serve h (.dispatcher p) now service e)
    | some .crash => s.loseDispatcher h p cell
    | none => (true, s, h)
  | (.empty, _, _) => (false, s, h)
  | (.disconnected, _, _) => s.endDispatcher h p c

/-- A message whose service waits for a room is served to its end, even after the player has been
asked to stop. -/
def stepDispatcher (s : Session) (h : Hub) (p : Nat) (now : Nat) : Step :=
  match h.players[p]? with
  | none => (false, s, h)
  | some cell =>
    match s.dispatching with
    | .ended _ => (false, s, h)
    | .busy c pending => s.dispatched pending.request (c.resume h now pending)
    | .idle c =>
      if cell.cancelled then s.endDispatcher h p c else s.dispatchNext h p now cell c

def tearDown (s : Session) (h : Hub) (p : Nat) : Step :=
  let h := match h.players[p]? with
    | some cell => h.setPlayer p { cell with inbound := cell.inbound.discard }
    | none => h
  let h := { h with outboxes := h.outboxes.modify p (·.discard) }
  (false, { s with supervising := .ended }, (h.removePlayer s.id).2)

def leaveNext (s : Session) (h : Hub) (p : Nat) (now : Nat) : List RoomId → Step
  | [] => s.tearDown h p
  | id :: rooms =>
    match h.room? id with
    | none => (true, { s with supervising := .leaving rooms }, h)
    | some r =>
      match h.requestLeave (.supervisor p) r h.config.replyTimeout now s.id with
      | (.waiting wait, h) => (false, { s with supervising := .waiting wait rooms }, h)
      | (.ended _, h) => (true, { s with supervising := .leaving rooms }, h)

def stepSupervisor (s : Session) (h : Hub) (p : Nat) (now : Nat) : Step :=
  match s.supervising with
  | .ended => (false, s, h)
  | .starting =>
    (false, { s with supervising := .joining },
      ((h.signal (.started (.reader p))).signal (.started (.writer p))).signal
        (.started (.dispatcher p)))
  | .joining =>
    if s.readerEnded && s.writerEnded && s.dispatcherEnded then
      let rooms := (s.context?.map (·.memberships)).getD []
      (true, { s with supervising := .leaving rooms }, h)
    else (false, s, h)
  | .leaving rooms => s.leaveNext h p now rooms
  | .waiting wait rooms =>
    match h.resume wait now with
    | (.waiting wait, h) => (false, { s with supervising := .waiting wait rooms }, h)
    | (.ended _, h) => (true, { s with supervising := .leaving rooms }, h)

end Session

end Lobby
