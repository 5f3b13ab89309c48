import Lobby.Digest.Sha256
import Lobby.Server.Address
import Lobby.World.Actions

/-! The server: its settings, and the players it makes of the connections it accepts, under
identities derived from the peer and the number of the connection. -/
namespace Lobby

structure ConnectionId where
  text : String
  deriving DecidableEq, Repr

namespace ConnectionId

def length : Nat := 32

def seed (peer : String) (counter : UInt64) : String :=
  peer ++ "#" ++ String.ofList (Nat.toDigits 10 counter.toNat)

def hex (octets : List UInt8) : List Char :=
  octets.flatMap fun b =>
    [Char.ofNat (Json.Quoted.hexDigit (b.toNat / 16)).toNat,
      Char.ofNat (Json.Quoted.hexDigit (b.toNat % 16)).toNat]

def derive (peer : SocketAddress) (counter : UInt64) : ConnectionId :=
  ⟨String.ofList
    ((hex (Digest.Sha256.digest (Text.Utf8.encode (seed peer.display counter)))).take length)⟩

end ConnectionId

structure Settings where
  bind : String := "127.0.0.1:12345"
  player : PlayerConfig := {}
  room : RoomConfig := {}
  handlers : Handlers := Handlers.standard

structure Server where
  settings : Settings
  world : World
  accepted : UInt64 := 0

namespace Server

def build (settings : Settings) : Except ServerFault Server :=
  match Address.bindFault? settings.bind with
  | some f => .error (.transport f)
  | none => .ok { settings, world := { hub := { config := settings.room } } }

/-- Makes a player of a connection, under an identity that its peer and its number give. When the
identity is taken the connection is dropped. -/
def accept (s : Server) (peer : SocketAddress) : Nat × Bool × Server :=
  let accepted := s.accepted + 1
  let id : PlayerId := ⟨(ConnectionId.derive peer accepted).text⟩
  let (p, created, world) := s.world.connect id s.settings.player s.settings.handlers none
  (p, created, { s with world, accepted })

end Server

end Lobby
