import Lobby.Proofs.PlayerRegistry
import Lobby.Proofs.WorldRuns
import Lobby.Server.Basic

/-! The identities of connections. An identity spells the first half of a digest. What is digested
shows the address of the peer and the number of the connection, and the sign between the two stands
in neither, so both can be told from it; hence no two connections of a server, which numbers them
from one on, have the same text digested. -/
namespace Lobby

namespace ConnectionId

def digits : List Char :=
  ['0', '1', '2', '3', '4', '5', '6', '7', '8', '9', 'a', 'b', 'c', 'd', 'e', 'f']

/-- Text that gives each octet two digits, the higher one first. -/
inductive Spells : List Char → List UInt8 → Prop
  | nil : Spells [] []
  | cons {high low : Char} {text : List Char} {octet : UInt8} {octets : List UInt8}
      (hhigh : digits[octet.toNat / 16]? = some high)
      (hlow : digits[octet.toNat % 16]? = some low) (rest : Spells text octets) :
      Spells (high :: low :: text) (octet :: octets)

structure Abridges (id : ConnectionId) (octets : List UInt8) : Prop where
  length : id.text.length = 32
  lower : ∀ c ∈ id.text.toList, c ∈ digits
  spells : Spells id.text.toList ((Digest.Sha256.digest octets).take 16)

def digested (peer : SocketAddress) (counter : UInt64) : List UInt8 :=
  Text.Utf8.encode (seed peer.display counter)

variable {text : List Char} {octets : List UInt8} {p q : SocketAddress} {m n : UInt64}

theorem Spells.length (h : Spells text octets) : text.length = 2 * octets.length := by
  induction h with
  | nil => rfl
  | cons _ _ _ ih =>
    simp only [List.length_cons]
    omega

theorem Spells.mem_digits (h : Spells text octets) : ∀ c ∈ text, c ∈ digits := by
  induction h with
  | nil => simp
  | cons hhigh hlow _ ih =>
    intro c hc
    rcases List.mem_cons.mp hc with rfl | hc
    · exact List.mem_of_getElem? hhigh
    rcases List.mem_cons.mp hc with rfl | hc
    · exact List.mem_of_getElem? hlow
    · exact ih c hc

private theorem digit_hexDigit {k : Nat} (hk : k < 16) :
    digits[k]? = some (Char.ofNat (Json.Quoted.hexDigit k).toNat) := by
  have hall : ∀ k : Fin 16, digits[k.val]? =
      some (Char.ofNat (Json.Quoted.hexDigit k.val).toNat) := by decide
  exact hall ⟨k, hk⟩

theorem spells_hex (octets : List UInt8) : Spells (hex octets) octets := by
  induction octets with
  | nil => exact .nil
  | cons octet octets ih =>
    have hoctet := octet.toNat_lt
    exact .cons (digit_hexDigit (by omega)) (digit_hexDigit (by omega)) ih

/-- The first digits are those of the first octets. -/
theorem take_hex (k : Nat) (octets : List UInt8) :
    (hex octets).take (2 * k) = hex (octets.take k) := by
  induction k generalizing octets with
  | zero => rfl
  | succ k ih =>
    cases octets with
    | nil => rfl
    | cons octet octets => exact congrArg (_ :: _ :: ·) (ih octets)

theorem abridges_derive (peer : SocketAddress) (counter : UInt64) :
    (derive peer counter).Abridges (digested peer counter) := by
  have htext : (derive peer counter).text.toList =
      hex ((Digest.Sha256.digest (digested peer counter)).take 16) := by
    rw [derive, String.toList_ofList]
    exact take_hex 16 _
  have hspells := spells_hex ((Digest.Sha256.digest (digested peer counter)).take 16)
  rw [← htext] at hspells
  refine ⟨?_, hspells.mem_digits, hspells⟩
  have hlength := hspells.length
  rwa [List.length_take, Digest.Sha256.length_digest, String.length_toList] at hlength

theorem toList_seed (peer : String) (counter : UInt64) :
    (seed peer counter).toList = peer.toList ++ '#' :: Nat.toDigits 10 counter.toNat := by
  have hsign : "#".toList = ['#'] := rfl
  rw [seed, String.toList_append, String.toList_append, hsign, String.toList_ofList,
    List.append_assoc, List.singleton_append]

private theorem separator_notMem_display (peer : SocketAddress) : '#' ∉ peer.display.toList :=
  fun h => absurd (peer.mem_alphabet_of_mem_display h) (by decide)

private theorem separator_notMem_toDigits (k : Nat) : '#' ∉ Nat.toDigits 10 k :=
  fun h => absurd (Nat.isDigit_of_mem_toDigits (by decide) (by decide) h) (by decide)

private theorem toDigits_inj {j k : Nat} : Nat.toDigits 10 j = Nat.toDigits 10 k ↔ j = k := by
  refine ⟨fun h => ?_, congrArg (Nat.toDigits 10)⟩
  have hread := congrArg (Nat.ofDigitChars 10 · 0) h
  simpa only [Nat.ofDigitChars_ten_toDigits] using hread

/-- The address and the number can be told from the text: what stands between them occurs nowhere
else. -/
theorem seed_eq_iff : seed p.display m = seed q.display n ↔ m = n ∧ p.display = q.display := by
  rw [← String.toList_inj, toList_seed, toList_seed,
    List.append_cons_inj_of_notMem (separator_notMem_display p) (separator_notMem_toDigits m.toNat),
    toDigits_inj, UInt64.toNat_inj, String.toList_inj]
  constructor
  · rintro ⟨hpeer, -, hcounter⟩
    exact ⟨hcounter, hpeer⟩
  · rintro ⟨hcounter, hpeer⟩
    exact ⟨hpeer, rfl, hcounter⟩

theorem digested_eq_iff : digested p m = digested q n ↔ m = n ∧ p.display = q.display := by
  rw [digested, digested, Text.Utf8.encode_inj, seed_eq_iff]

end ConnectionId

namespace World

theorem player?_settle (w : World) (id : PlayerId) :
    w.settle.hub.player? id = w.hub.player? id :=
  congrArg (·.player? id) (congrArg System.hub w.system_settle)

/-- Whoever connects is given the player of the identity. -/
theorem player?_connect (w : World) (id : PlayerId) (config : PlayerConfig) (handlers : Handlers)
    (window : Option Nat) :
    (w.connect id config handlers window).2.2.hub.player? id =
      some (w.connect id config handlers window).1 := by
  rw [connect]
  cases hp : w.hub.player? id with
  | some m =>
    have hopen : w.hub.openPlayer id config = (m, false, w.hub) := by
      rw [Hub.openPlayer, hp]
    simpa only [hopen] using hp
  | none =>
    have hnamed : (w.hub.openPlayer id config).2.2.player? id = some w.hub.players.size := by
      rw [Hub.player?_openPlayer hp, if_pos rfl]
    have hopen : w.hub.openPlayer id config =
        (w.hub.players.size, true, (w.hub.openPlayer id config).2.2) := by
      rw [Hub.openPlayer, hp]
    rw [hopen]
    exact (player?_settle _ id).trans hnamed

end World

namespace Server

theorem accepted_accept (s : Server) (peer : SocketAddress) :
    (s.accept peer).2.2.accepted = s.accepted + 1 := rfl

/-- A connection is given the player of the identity that its peer and its number give. -/
theorem player?_accept (s : Server) (peer : SocketAddress) :
    (s.accept peer).2.2.world.hub.player?
        ⟨(ConnectionId.derive peer (s.accept peer).2.2.accepted).text⟩ =
      some (s.accept peer).1 :=
  World.player?_connect _ _ _ _ _

end Server

structure Arrival where
  peer : SocketAddress
  player : Nat
  server : Server

namespace Arrival

def number (a : Arrival) : UInt64 := a.server.accepted

def digested (a : Arrival) : List UInt8 := ConnectionId.digested a.peer a.number

def Named (a : Arrival) : Prop :=
  ∃ id : ConnectionId, id.Abridges a.digested ∧
    a.server.world.hub.player? ⟨id.text⟩ = some a.player

end Arrival

structure Entrance where
  server : Server
  arrivals : List Arrival := []

namespace Entrance

inductive Act where
  | accept (peer : SocketAddress)
  /-- Rooms, players and their clients go on in any way, or a connection cannot be accepted. -/
  | goOn (world : World)

def Act.peer? : Act → Option SocketAddress
  | .accept peer => some peer
  | .goOn _ => none

def perform (e : Entrance) : Act → Entrance
  | .accept peer =>
    let (player, _, server) := e.server.accept peer
    { server, arrivals := e.arrivals ++ [{ peer, player, server }] }
  | .goOn world => { e with server := { e.server with world } }

def performAll (e : Entrance) (acts : List Act) : Entrance := acts.foldl perform e

def peers (acts : List Act) : List SocketAddress := acts.filterMap Act.peer?

structure Sound (e : Entrance) (peers : List SocketAddress) : Prop where
  accepted : e.arrivals.map Arrival.peer = peers
  count : e.server.accepted = UInt64.ofNat peers.length
  numbers : e.arrivals.map Arrival.number = (List.range' 1 peers.length).map UInt64.ofNat
  named : ∀ a ∈ e.arrivals, a.Named

/-- Connections numbered 1, 2, 3 and so on, no two of which have the same octets digested. -/
structure Distinct (e : Entrance) (peers : List SocketAddress) : Prop where
  accepted : e.arrivals.map Arrival.peer = peers
  numbered : e.arrivals.map (·.number.toNat) = List.range' 1 peers.length
  named : ∀ a ∈ e.arrivals, a.Named
  apart : e.arrivals.Pairwise fun a b => a.digested ≠ b.digested

variable {e : Entrance} {peers : List SocketAddress}

theorem sound_start {settings : Settings} {server : Server}
    (hb : Server.build settings = .ok server) : ({ server } : Entrance).Sound [] := by
  rw [Server.build] at hb
  split at hb
  · contradiction
  · cases hb
    exact ⟨rfl, rfl, rfl, by simp⟩

/-- A connection that is accepted gets the next number, and a player under its identity. -/
theorem Sound.accept (h : e.Sound peers) (peer : SocketAddress) :
    (e.perform (.accept peer)).Sound (peers ++ [peer]) := by
  have hnext : (e.server.accept peer).2.2.accepted = UInt64.ofNat (peers.length + 1) := by
    rw [Server.accepted_accept, h.count, UInt64.ofNat_add]
    rfl
  constructor
  · rw [perform, List.map_append, h.accepted]
    rfl
  · rw [List.length_append]
    exact hnext
  · rw [perform, List.map_append, h.numbers, List.length_append, List.length_singleton,
      List.range'_concat, List.map_append, Nat.one_mul, Nat.add_comm 1]
    exact congrArg (_ ++ [·]) hnext
  · intro a ha
    rcases List.mem_append.mp ha with ha | ha
    · exact h.named a ha
    · obtain rfl := List.mem_singleton.mp ha
      exact ⟨_, ConnectionId.abridges_derive _ _, e.server.player?_accept peer⟩

theorem Sound.perform (h : e.Sound peers) (act : Act) :
    (e.perform act).Sound (peers ++ act.peer?.toList) := by
  cases act with
  | accept peer => exact h.accept peer
  | goOn world =>
    rw [Act.peer?, Option.toList_none, List.append_nil]
    exact ⟨h.accepted, h.count, h.numbers, h.named⟩

theorem Sound.performAll (h : e.Sound peers) (acts : List Act) :
    (e.performAll acts).Sound (peers ++ Entrance.peers acts) := by
  induction acts generalizing e peers with
  | nil =>
    rw [Entrance.peers, List.filterMap_nil, List.append_nil]
    exact h
  | cons act acts ih =>
    have hrest := ih (h.perform act)
    rw [List.append_assoc] at hrest
    have hpeers : Entrance.peers (act :: acts) = act.peer?.toList ++ Entrance.peers acts := by
      cases act <;> rfl
    rw [hpeers]
    exact hrest

theorem Sound.distinct (h : e.Sound peers) (hfew : peers.length < 2 ^ 64) : e.Distinct peers := by
  have hnumbered : e.arrivals.map (·.number.toNat) = List.range' 1 peers.length := by
    have hnat := congrArg (List.map UInt64.toNat) h.numbers
    rw [List.map_map, List.map_map] at hnat
    refine hnat.trans ((List.map_congr_left fun k hk => ?_).trans (List.map_id _))
    have hk := List.mem_range'_1.mp hk
    rw [Function.comp_apply, UInt64.toNat_ofNat', id_eq]
    omega
  refine ⟨h.accepted, hnumbered, h.named, ?_⟩
  have honce : (e.arrivals.map (·.number.toNat)).Nodup := by
    rw [hnumbered]
    exact List.nodup_range'
  refine (List.pairwise_map.mp honce).imp fun {a b} hab hsame => ?_
  exact hab (congrArg UInt64.toNat (ConnectionId.digested_eq_iff.mp hsame).1)

/-- Every identity spells the first half of a digest in thirty-two lower-case digits; addresses
shown alike and equal numbers are all that makes the same octets digested; and so no two of the
connections that a server has accepted, fewer than it can number, have the same octets digested. -/
theorem connections_told_apart :
    (∀ (peer : SocketAddress) (counter : UInt64),
      (ConnectionId.derive peer counter).Abridges (ConnectionId.digested peer counter)) ∧
    (∀ (p q : SocketAddress) (m n : UInt64),
      ConnectionId.digested p m = ConnectionId.digested q n ↔ m = n ∧ p.display = q.display) ∧
    ∀ (settings : Settings) (server : Server) (acts : List Act),
      Server.build settings = .ok server → (Entrance.peers acts).length < 2 ^ 64 →
        (({ server } : Entrance).performAll acts).Distinct (Entrance.peers acts) := by
  refine ⟨ConnectionId.abridges_derive, fun _ _ _ _ => ConnectionId.digested_eq_iff, ?_⟩
  intro settings server acts hbuild hfew
  have hsound := (sound_start hbuild).performAll acts
  rw [List.nil_append] at hsound
  exact hsound.distinct hfew

def elevens : List Act :=
  .accept ⟨.v4 10 0 0 1, 11⟩ :: List.replicate 10 (.accept ⟨.v4 10 0 0 1, 1⟩)

/-- The first and the last of them would have the same text digested, were it not for the sign
between port and number. -/
theorem connections_told_apart_elevens :
    SocketAddress.display ⟨.v4 10 0 0 1, 11⟩ ++ "1" =
      SocketAddress.display ⟨.v4 10 0 0 1, 1⟩ ++ "11" ∧
    Server.build {} = .ok { settings := {}, world := {} } ∧
    (Entrance.peers elevens).length < 2 ^ 64 ∧
    (({ server := { settings := {}, world := {} } } : Entrance).performAll elevens).Distinct
      (Entrance.peers elevens) := by
  have hbuild : Server.build {} = .ok { settings := {}, world := {} } := rfl
  have hfew : (Entrance.peers elevens).length < 2 ^ 64 := by decide
  exact ⟨by decide, hbuild, hfew, connections_told_apart.2.2 {} _ elevens hbuild hfew⟩

end Entrance

end Lobby
