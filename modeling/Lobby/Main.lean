import Lobby.Server.Basic

/-! A server for a single client, on standard input and output. -/
namespace Lobby

def flushTo (output : IO.FS.Stream) (world : World) (p : Nat) : IO World := do
  let (octets, world) := world.collect p
  output.write ⟨octets.toArray⟩
  output.flush
  return world

partial def converse (input output : IO.FS.Stream) (world : World) (p : Nat) : IO Unit := do
  let chunk ← input.read 4096
  let change : Stream → Stream :=
    if chunk.isEmpty then Stream.finish else fun s => s.send chunk.toList
  let world ← flushTo output (world.touch p change).breathe p
  unless chunk.isEmpty || world.hasHungUp p do
    converse input output world p

end Lobby

/-- Serves one client. The first argument is the address that the server stands for, and one that
nothing could listen at is refused. -/
def main (args : List String) : IO UInt32 := do
  match Lobby.Server.build { bind := Lobby.Address.listening args.head? } with
  | .error fault =>
    (← IO.getStderr).putStrLn fault.message
    return 1
  | .ok server =>
    let (p, _, server) := server.accept ⟨.v4 127 0 0 1, 0⟩
    Lobby.converse (← IO.getStdin) (← IO.getStdout) server.world.breathe p
    return 0
