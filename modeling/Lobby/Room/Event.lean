import Lobby.Message.Payload

/-! Events that a room takes from its mailbox. -/
namespace Lobby

structure Profile where
  name : String := ""
  position : Position := {}
  deriving DecidableEq, Repr, Inhabited

inductive EventKind where
  | join
  | leave
  | chat
  | move
  deriving DecidableEq, Repr

namespace EventKind

def all : List EventKind := [join, leave, chat, move]

def name : EventKind → String
  | join => "Join"
  | leave => "Leave"
  | chat => "Chat"
  | move => "Move"

end EventKind

/-- What an event asks for. A join or a leave may name where to send an answer. -/
inductive EventBody (ρ : Type) where
  | join (profile : Profile) (reply : Option ρ)
  | leave (reply : Option ρ)
  | chat (text : String)
  | move (profile : Profile)
  deriving DecidableEq, Repr

structure Event (ρ : Type) where
  player : PlayerId
  body : EventBody ρ
  deriving DecidableEq, Repr

namespace Event

variable {ρ : Type}

def kind (e : Event ρ) : EventKind :=
  match e.body with
  | .join .. => .join
  | .leave _ => .leave
  | .chat _ => .chat
  | .move _ => .move

def reply? (e : Event ρ) : Option ρ :=
  match e.body with
  | .join _ reply => reply
  | .leave reply => reply
  | .chat _ | .move _ => none

end Event

/-- The answer to a join or a leave: the code, and the room as it stands afterwards. -/
structure Outcome where
  ret : ResultCode
  room : RoomSnapshot
  deriving DecidableEq, Repr

/-- What is at the other end of a reply while a room handles its event: someone who waits, nobody,
or someone who goes away when the room looks the player up. -/
inductive Listener where
  | waiting
  | gone
  | leavesAtLookup
  deriving DecidableEq, Repr

def Listener.afterLookup : Listener → Listener
  | .waiting => .waiting
  | .gone | .leavesAtLookup => .gone

end Lobby
