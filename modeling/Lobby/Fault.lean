import Lobby.Message.Basic

/-! What can go wrong, by cause, and the text that reports it. -/
namespace Lobby

private def decimal (n : Nat) : String := String.ofList (Nat.toDigits 10 n)

private def signed (i : Int) : String :=
  if i < 0 then "-" ++ decimal i.natAbs else decimal i.natAbs

inductive InvalidMessage where
  | unknownKind (number : Int)
  | unknownResult (number : Int)
  | unanswerable (kind : MessageKind)
  | because (reason : String)
  deriving DecidableEq, Repr

def InvalidMessage.reason : InvalidMessage → String
  | unknownKind n => String.join ["unknown message kind ", signed n]
  | unknownResult n => String.join ["unknown result code ", signed n]
  | unanswerable k => String.join [k.display, " has no response kind"]
  | because reason => reason

inductive ProtocolFault where
  | undecodable
  | frameTooLarge (length limit : Nat)
  | invalidMessage (cause : InvalidMessage)
  deriving DecidableEq, Repr

def ProtocolFault.message : ProtocolFault → String
  | undecodable => "payload is not of the expected form"
  | frameTooLarge length limit =>
    "frame of " ++ decimal length ++ " bytes exceeds limit of " ++ decimal limit ++ " bytes"
  | invalidMessage cause => "invalid message: " ++ cause.reason

inductive RoomFault where
  | unavailable (room : RoomId)
  | busy (room : RoomId)
  | timeout (room : RoomId)
  deriving DecidableEq, Repr

def RoomFault.message : RoomFault → String
  | unavailable r => "room " ++ r.display ++ " is unavailable"
  | busy r => "room " ++ r.display ++ " is busy, event dropped"
  | timeout r => "room " ++ r.display ++ " did not respond in time"

inductive MailboxFault where
  | full (label : String)
  | closed (label : String)
  deriving DecidableEq, Repr

def MailboxFault.message : MailboxFault → String
  | full label => "mailbox " ++ label ++ " is full, message dropped"
  | closed label => "mailbox " ++ label ++ " is closed"

inductive SessionFault where
  | protocol (fault : ProtocolFault)
  | room (fault : RoomFault)
  | mailbox (fault : MailboxFault)
  deriving DecidableEq, Repr

def SessionFault.message : SessionFault → String
  | protocol f => f.message
  | room f => f.message
  | mailbox f => f.message

inductive TransportFault where
  | bind (address reason : String)
  | accept (reason : String)
  deriving DecidableEq, Repr

def TransportFault.message : TransportFault → String
  | bind address reason => "bind to " ++ address ++ " failed: " ++ reason
  | accept reason => "accept failed: " ++ reason

inductive ServerFault where
  | transport (fault : TransportFault)
  | protocol (fault : ProtocolFault)
  | session (fault : SessionFault)
  | room (fault : RoomFault)
  | mailbox (fault : MailboxFault)
  deriving DecidableEq, Repr

namespace ServerFault

def message : ServerFault → String
  | transport f => f.message
  | protocol f => f.message
  | session f => f.message
  | room f => f.message
  | mailbox f => f.message

def origin : ServerFault → String
  | transport _ => "Transport"
  | protocol _ => "Protocol"
  | session _ => "Session"
  | room _ => "Room"
  | mailbox _ => "Mailbox"

end ServerFault

def SessionFault.origin : SessionFault → String
  | protocol _ => "Protocol"
  | room _ => "Room"
  | mailbox _ => "Mailbox"

end Lobby
