import Lobby.Proofs.LikeSessions
import Lobby.Proofs.Namesakes
import Lobby.Proofs.PayloadRoundTrip

/-! Clients cannot act under another identity: what a client says about itself shows in nothing but
the answers that it gets. -/
namespace Lobby

namespace Envelope
variable {e e' : Envelope}

/-- Whatever name a client has for itself and however it counts, it asks for the same. -/
theorem sameAsk_of_data (hk : e'.kind = e.kind) (hd : e'.data = e.data) : e.SameAsk e' :=
  ⟨hk, by rw [ask?, ask?, hk, hd]⟩

/-- Whoever a join is said to be for, it asks for the room. -/
theorem sameAsk_of_join {body body' : JoinRoomRequest} (hk : e.kind = .joinRoomRequest)
    (hk' : e'.kind = .joinRoomRequest) (hb : Wire.decode? e.data = some body)
    (hb' : Wire.decode? e'.data = some body') (hroom : body'.roomId = body.roomId) :
    e.SameAsk e' := by
  refine ⟨hk'.trans hk.symm, ?_⟩
  simp [ask?, hk, hk', hb, hb', hroom]

/-- Whoever a move is said to be of, it asks for the position. -/
theorem sameAsk_of_move {body body' : MoveRequest} (hk : e.kind = .moveRequest)
    (hk' : e'.kind = .moveRequest) (hb : Wire.decode? e.data = some body)
    (hb' : Wire.decode? e'.data = some body') (hposition : body'.position = body.position) :
    e.SameAsk e' := by
  refine ⟨hk'.trans hk.symm, ?_⟩
  simp [ask?, hk, hk', hb, hb', hposition]

/-- Whoever a leave is said to be of, it asks for the same. -/
theorem sameAsk_of_leave {body body' : LeaveRoomRequest} (hk : e.kind = .leaveRoomRequest)
    (hk' : e'.kind = .leaveRoomRequest) (hb : Wire.decode? e.data = some body)
    (hb' : Wire.decode? e'.data = some body') : e.SameAsk e' := by
  refine ⟨hk'.trans hk.symm, ?_⟩
  simp [ask?, hk, hk', hb, hb']

end Envelope

namespace System
variable {σ σ' : System} {n : Nat} {act act' : Act}

def Seated (σ : System) : Prop := σ.sessions.size = σ.hub.players.size

private theorem size_sessions (σ : System) {act : Act}
    (hact : ∀ id config window, act ≠ .connect id config window) :
    (σ.perform act).sessions.size = σ.sessions.size := by
  cases act with
  | session n act =>
    rw [perform]
    split
    · exact Array.size_setIfInBounds
    · rfl
  | room r | conclude r =>
    rw [perform]
    split <;> rfl
  | take r =>
    rw [perform, takeUp]
    split
    · split <;> rfl
    · rfl
  | connect id config window => exact absurd rfl (hact id config window)
  | call c => rfl

private theorem Alters.size_players (ha : σ.Alters act σ')
    (hact : ∀ id config window, act ≠ .connect id config window) :
    σ'.hub.players.size = σ.hub.players.size := by
  cases ha with
  | keeps hub => exact hub.size
  | stops hub => exact hub.size.trans (Hub.size_cancelPlayer _ _)
  | removes _ hub => exact hub.size.trans (Hub.size_removePlayer _ _)
  | leaves hub => exact hub.size.trans (Hub.size_removePlayer _ _)
  | enters _ _ _ why => exact absurd why (hact _ _ _)

theorem Sound.seated (hσ : σ.Sound) (hseat : σ.Seated) (act : Act) : (σ.perform act).Seated := by
  have still (hact : ∀ id config window, act ≠ .connect id config window) :
      (σ.perform act).Seated := by
    rw [Seated, size_sessions σ hact, (hσ.alters act).size_players hact]
    exact hseat
  cases act with
  | connect id config window =>
    rw [System.perform, Hub.openPlayer]
    cases σ.hub.player? id with
    | some m => exact hseat
    | none =>
      rw [Seated] at hseat ⊢
      simp [Hub.signal, hseat]
  | _ => exact still (by simp)

/-- What happens is the same, but for who player number `n` says it is. What its writer does with
the messages it takes is left open. -/
inductive Act.SameBut (n : Nat) : Act → Act → Prop
  | hear {e e' : Envelope} (he : e.SameAsk e') :
      SameBut n (.session n (.hear e)) (.session n (.hear e'))
  | same {act : Act} (hact : act ≠ .session n .write) : SameBut n act act

structure Resembles (n : Nat) (σ σ' : System) : Prop where
  hub : σ.hub.Alike n σ'.hub
  sessions : Entrywise (Session.Resembles n) σ.sessions σ'.sessions
  hands : σ'.hands = σ.hands

namespace Resembles

private theorem session (hr : σ.Resembles n σ') (hσ : σ.Sound) (j : Nat) {act act' : Session.Act}
    (hact : act.SameBut n j act') :
    (σ.perform (.session j act)).Resembles n (σ'.perform (.session j act')) := by
  rw [perform, perform]
  rcases hr.sessions.cases j with ⟨hs, hs'⟩ | ⟨s, s', hs, hs', hlike⟩
  · rw [hs, hs']
    exact hr
  · have hstep := Session.stepAlike_perform hlike (hσ.session hs).handlers hr.hub hact
    rw [hs, hs']
    exact ⟨hstep.hub, hr.sessions.set hstep.session, hr.hands⟩

private theorem take (hr : σ.Resembles n σ') (r : Nat) :
    (σ.takeUp r).Resembles n (σ'.takeUp r) := by
  have htaken := hr.hub.takeEvent? r
  rw [takeUp, takeUp, hr.hands]
  generalize σ.hub.takeEvent? r = taken at htaken ⊢
  generalize σ'.hub.takeEvent? r = taken' at htaken ⊢
  cases σ.hands r with
  | some e => cases htaken <;> exact hr
  | none =>
    cases htaken with
    | none => exact hr
    | @some x x' hx =>
      obtain ⟨e, h⟩ := x
      obtain ⟨e', h'⟩ := x'
      obtain ⟨rfl, hh⟩ := hx
      have hlistener : h'.listener = h.listener := hh.read fun _ _ _ => rfl
      simp only [hlistener]
      split
      · exact ⟨hh, hr.sessions, rfl⟩
      · exact hr

private theorem connect (hr : σ.Resembles n σ') (hseat : σ.Seated) (id : PlayerId)
    (config : PlayerConfig) (window : Option Nat) :
    (σ.perform (.connect id config window)).Resembles n
      (σ'.perform (.connect id config window)) := by
  obtain ⟨hplayer, hcreated, hhub⟩ := hr.hub.openPlayer id config
  rw [System.perform, System.perform]
  -- A new session takes the number of its player, and with it that player's outbox.
  have hsize : (σ.hub.openPlayer id config).2.1 = true →
      (σ.hub.openPlayer id config).1 = σ.sessions.size := by
    rw [Hub.openPlayer]
    split
    · simp
    · exact fun _ => hseat.symm
  generalize σ.hub.openPlayer id config = x at hplayer hcreated hhub hsize ⊢
  generalize σ'.hub.openPlayer id config = x' at hplayer hcreated hhub ⊢
  obtain ⟨m, created, h⟩ := x
  obtain ⟨m', created', h'⟩ := x'
  obtain rfl : m' = m := hplayer
  obtain rfl : created' = created := hcreated
  cases created' with
  | false => exact hr
  | true =>
    refine ⟨hhub, hr.sessions.push ⟨rfl, .idle ?_⟩, hr.hands⟩
    exact hsize rfl

theorem perform (hr : σ.Resembles n σ') (hσ : σ.Sound) (hseat : σ.Seated)
    (hact : act.SameBut n act') : (σ.perform act).Resembles n (σ'.perform act') := by
  cases hact with
  | hear he => exact hr.session hσ n (.hear ⟨he, fun hn => absurd rfl hn⟩)
  | same hact =>
    cases act with
    | session j act =>
      refine hr.session hσ j (.same ?_)
      rintro rfl rfl
      exact hact rfl
    | room r =>
      rw [System.perform, System.perform, hr.hands]
      split
      · exact ⟨hr.hub.stepRoom r, hr.sessions, rfl⟩
      · exact hr
    | take r => exact hr.take r
    | conclude r =>
      have hlistener : σ'.hub.lateListener = σ.hub.lateListener := hr.hub.read fun _ _ _ => rfl
      rw [System.perform, System.perform, hr.hands, hlistener]
      split
      · exact ⟨hr.hub.handleEvent _ r _, hr.sessions, rfl⟩
      · exact hr
    | connect id config window => exact hr.connect hseat id config window
    | call c => exact ⟨hr.hub.call c, hr.sessions, hr.hands⟩

end Resembles

theorem Resembles.performAll (hr : σ.Resembles n σ') (hσ : σ.Sound) (hseat : σ.Seated)
    {acts acts' : List Act} (hacts : List.Forall₂ (Act.SameBut n) acts acts') :
    (σ.performAll acts).Resembles n (σ'.performAll acts') := by
  induction hacts generalizing σ σ' with
  | nil => exact hr
  | cons hact _ ih => exact ih (hr.perform hσ hseat hact) (hσ.perform _) (hσ.seated hseat _)

private theorem resembles_initial (n : Nat) (config : RoomConfig) (reactions : Reactions) :
    (initial config reactions).Resembles n (initial config reactions) where
  hub := .refl n _
  sessions _ := .none
  hands := rfl

/-- Servers that only the answers to player number `n` can tell apart. -/
structure Indistinct (n : Nat) (σ σ' : System) : Prop where
  rooms : σ'.hub.rooms = σ.hub.rooms
  registeredRooms : σ'.hub.roomIndex = σ.hub.roomIndex
  nextRoom : σ'.hub.nextRoom = σ.hub.nextRoom
  registeredPlayers : σ'.hub.playerIndex = σ.hub.playerIndex
  standing (j : Nat) : σ'.hub.standing? j = σ.hub.standing? j
  state : σ'.sessions[n]?.bind Session.context? = σ.sessions[n]?.bind Session.context?
  others {j : Nat} : j ≠ n → σ'.sessions[j]? = σ.sessions[j]?
  outboxes {j : Nat} : j ≠ n → σ'.hub.outboxes[j]? = σ.hub.outboxes[j]?
  outbox : Option.Rel (Mailbox.Alike Envelope.SameTell) σ.hub.outboxes[n]? σ'.hub.outboxes[n]?

private theorem eq_of_rel {α : Type} {R : α → α → Prop} (hR : ∀ x x', R x x' → x' = x)
    {a a' : Option α} (h : Option.Rel R a a') : a' = a := by
  cases h with
  | none => rfl
  | some hx => rw [hR _ _ hx]

theorem Resembles.indistinct (hr : σ.Resembles n σ') : σ.Indistinct n σ' where
  rooms := hr.hub.rooms
  registeredRooms := hr.hub.read fun _ _ _ => rfl
  nextRoom := hr.hub.read fun _ _ _ => rfl
  registeredPlayers := hr.hub.read fun _ _ _ => rfl
  standing j := by
    rw [Hub.standing?, Hub.standing?]
    rcases hr.hub.players.cases j with ⟨hp, hp'⟩ | ⟨cell, cell', hp, hp', hc⟩
    · rw [hp, hp']
    · rw [hp, hp', Option.map_some, Option.map_some, hc.id, hc.cancelled]
  state := by
    rcases hr.sessions.cases n with ⟨hs, hs'⟩ | ⟨s, s', hs, hs', hlike⟩
    · rw [hs, hs']
    · rw [hs, hs']
      exact hlike.context?
  others hj := eq_of_rel (fun _ _ hlike => hlike.eq hj) (hr.sessions _)
  outboxes hj := eq_of_rel (fun _ _ hbox => hbox.eq fun _ _ he => he.2 hj) (hr.hub.outboxes _)
  outbox := by
    rcases hr.hub.outboxes.cases n with ⟨hb, hb'⟩ | ⟨box, box', hb, hb', hbox⟩
    · rw [hb, hb']
      exact .none
    · rw [hb, hb']
      exact .some (hbox.imp fun _ _ he => he.1)

/-- Whatever a client says about itself, in two runs of a server that are otherwise the same: rooms,
registry, its own state and all other players come out the same, and of what it is told only what
responses echo can differ. -/
theorem indistinct_disguises (config : RoomConfig) (reactions : Reactions) {n : Nat}
    {acts acts' : List Act} (hacts : List.Forall₂ (Act.SameBut n) acts acts') :
    ((initial config reactions).performAll acts).Indistinct n
      ((initial config reactions).performAll acts') :=
  ((resembles_initial n config reactions).performAll (sound_start config reactions) rfl
    hacts).indistinct

private def utters (j : Nat) (e : Envelope) : List Act :=
  [.session j (.hear e), .session j (.dispatch 0), .room 0, .session j (.dispatch 0)]

private def opening : List Act :=
  [.connect ⟨"ann"⟩ {} none, .connect ⟨"bob"⟩ {} none] ++
    utters 1 { kind := .createRoomRequest, data := Wire.encode (CreateRoomRequest.mk "hall") }

private def under (name : String) (serial : Int32) (kind : MessageKind) (data : List UInt8) :
    Envelope :=
  { clientId := name, serial, kind, data }

/-- The other player comes in, moves, leaves and asks for the rooms, all under some name. -/
private def calling (name : String) (serial : Int32) : List Act :=
  opening ++
    utters 0 (under name serial .joinRoomRequest
      (Wire.encode (JoinRoomRequest.mk (some { id := ⟨name⟩ }) ⟨1⟩))) ++
    utters 0 (under name serial .moveRequest (Wire.encode (MoveRequest.mk ⟨name⟩ {}))) ++
    utters 0 (under name serial .leaveRoomRequest (Wire.encode (LeaveRoomRequest.mk ⟨name⟩))) ++
    utters 0 (under name serial .getRoomListRequest (Wire.encode GetRoomListRequest.mk))

private theorem sameBut_self {acts : List Act} (hacts : .session n .write ∉ acts) :
    List.Forall₂ (Act.SameBut n) acts acts :=
  List.forall₂_same.mpr fun _ hact => .same fun heq => hacts (heq ▸ hact)

private theorem sameBut_utters {e e' : Envelope} (he : e.SameAsk e') :
    List.Forall₂ (Act.SameBut 0) (utters 0 e) (utters 0 e') :=
  .cons (.hear he) (sameBut_self (by simp))

private theorem sameBut_calling (name name' : String) (serial serial' : Int32) :
    List.Forall₂ (Act.SameBut 0) (calling name serial) (calling name' serial') := by
  have hwords : ∀ x ∈ LawfulWire.words ({} : Position), x.isFinite = true ∧ x.ReadsBack := by
    decide +kernel
  have hjoin (name : String) : ∀ x ∈ LawfulWire.words
      (JoinRoomRequest.mk (some { id := ⟨name⟩ }) ⟨1⟩), x.isFinite = true ∧ x.ReadsBack := hwords
  have hmove (name : String) : ∀ x ∈ LawfulWire.words (MoveRequest.mk ⟨name⟩ {}),
      x.isFinite = true ∧ x.ReadsBack := hwords
  have hleave (name : String) : ∀ x ∈ LawfulWire.words (LeaveRoomRequest.mk ⟨name⟩),
      x.isFinite = true ∧ x.ReadsBack := by
    simp [LawfulWire.words]
  refine List.rel_append (List.rel_append (List.rel_append (List.rel_append
    (sameBut_self ?_) (sameBut_utters ?_)) (sameBut_utters ?_)) (sameBut_utters ?_))
    (sameBut_utters ?_)
  · simp [opening, utters]
  · exact Envelope.sameAsk_of_join rfl rfl (LawfulWire.decode?_encode_of_finite (hjoin name))
      (LawfulWire.decode?_encode_of_finite (hjoin name')) rfl
  · exact Envelope.sameAsk_of_move rfl rfl (LawfulWire.decode?_encode_of_finite (hmove name))
      (LawfulWire.decode?_encode_of_finite (hmove name')) rfl
  · exact Envelope.sameAsk_of_leave rfl rfl (LawfulWire.decode?_encode_of_finite (hleave name))
      (LawfulWire.decode?_encode_of_finite (hleave name'))
  · exact Envelope.sameAsk_of_data rfl rfl

/-- Somebody who calls under the name of another takes nobody away but itself. -/
theorem indistinct_disguises_calling :
    List.Forall₂ (Act.SameBut 0) (calling "ann" 1) (calling "bob" 2) ∧
      ((initial {} .standard).performAll (calling "ann" 1)).Indistinct 0
        ((initial {} .standard).performAll (calling "bob" 2)) ∧
      ((initial {} .standard).performAll (calling "ann" 1)).hub.rooms.toList.map
        (·.room.members.map (·.1)) = [[⟨"bob"⟩]] :=
  ⟨sameBut_calling _ _ _ _, indistinct_disguises {} .standard (sameBut_calling _ _ _ _),
    by decide +kernel⟩

end System

end Lobby
