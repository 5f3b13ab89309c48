import Lobby.Proofs.ServerActs

/-! What tasks do with rooms and replies neither depends on players and their outboxes nor changes
them: whatever stands there, all else comes out the same. -/
namespace Lobby

namespace Hub

def populate (h : Hub) (players : Array PlayerCell) (outboxes : Outboxes) : Hub :=
  { h with players, outboxes }

variable {h : Hub} {players : Array PlayerCell} {outboxes : Outboxes}

@[simp] theorem rooms_populate : (h.populate players outboxes).rooms = h.rooms := rfl

@[simp] theorem room?_populate (id : RoomId) :
    (h.populate players outboxes).room? id = h.room? id := rfl

@[simp] theorem reply?_populate (t : Ticket) :
    (h.populate players outboxes).reply? t = h.reply? t := rfl

theorem populate_settleReply (t : Ticket) (reply : Reply) :
    (h.populate players outboxes).settleReply t reply =
      (h.settleReply t reply).populate players outboxes := by
  rw [settleReply, settleReply, reply?_populate]
  split <;> rfl

theorem populate_discardEvent (e : Event Ticket) :
    (h.populate players outboxes).discardEvent e =
      (h.discardEvent e).populate players outboxes := by
  rw [discardEvent, discardEvent]
  split
  · exact populate_settleReply _ _
  · rfl

theorem populate_offerEvent (r : Nat) (e : Event Ticket) :
    (h.populate players outboxes).offerEvent r e =
      ((h.offerEvent r e).1, (h.offerEvent r e).2.populate players outboxes) := by
  simp only [offerEvent, rooms_populate]
  cases h.rooms[r]? with
  | none => rfl
  | some cell =>
    simp only
    generalize cell.events.offer e = result
    obtain ⟨fault | _, events⟩ := result
    · cases fault <;> rfl
    · rfl

theorem populate_expire (w : Wait) : (h.populate players outboxes).expire w =
    ((h.expire w).1, (h.expire w).2.populate players outboxes) := by
  simp only [expire, rooms_populate]
  cases w.stage with
  | answer => rfl
  | slot =>
    cases h.rooms[w.room]? with
    | none => rfl
    | some cell =>
      simp only
      generalize cell.events.withdraw w.ticket = result
      obtain ⟨_ | t, events⟩ := result <;> rfl

private theorem populate_awaitAnswer (w : Wait) (now : Nat) :
    (h.populate players outboxes).awaitAnswer w now =
      ((h.awaitAnswer w now).1, (h.awaitAnswer w now).2.populate players outboxes) := by
  have hsignal : (h.populate players outboxes).freshSerial.2.signal (.arrived (.room w.room)) =
      (h.freshSerial.2.signal (.arrived (.room w.room))).populate players outboxes := rfl
  simp only [awaitAnswer, hsignal]
  split
  · exact populate_expire _
  · rfl

theorem populate_resume (w : Wait) (now : Nat) : (h.populate players outboxes).resume w now =
    ((h.resume w now).1, (h.resume w now).2.populate players outboxes) := by
  have hlate : (if w.deadline ≤ now then (h.populate players outboxes).expire w
      else (.waiting w, h.populate players outboxes)) =
        ((if w.deadline ≤ now then h.expire w else (.waiting w, h)).1,
          (if w.deadline ≤ now then h.expire w else (.waiting w, h)).2.populate players
            outboxes) := by
    split
    · exact populate_expire w
    · rfl
  simp only [resume, rooms_populate, reply?_populate]
  cases w.stage with
  | slot =>
    cases h.rooms[w.room]? with
    | none => rfl
    | some cell =>
      simp only
      generalize cell.events.settle w.ticket = result
      obtain ⟨standing, events⟩ := result
      cases standing with
      | accepted => exact populate_awaitAnswer (h := h.setRoom w.room { cell with events }) w now
      | refused => rfl
      | waiting => exact hlate
  | answer =>
    simp only
    rcases h.reply? w.ticket with _ | reply
    · rfl
    · cases reply with
      | answered outcome => rfl
      | awaited => exact hlate
      | abandoned => rfl

theorem populate_request (owner : Task) (r timeout now : Nat) (event : Ticket → Event Ticket) :
    (h.populate players outboxes).request owner r timeout now event =
      ((h.request owner r timeout now event).1,
        (h.request owner r timeout now event).2.populate players outboxes) := by
  have hopen : (h.populate players outboxes).freshSerial.2.openReply ⟨owner, h.nextSerial⟩ =
      (h.freshSerial.2.openReply ⟨owner, h.nextSerial⟩).populate players outboxes := rfl
  simp only [request, show h.freshSerial.1 = h.nextSerial from rfl,
    show (h.populate players outboxes).freshSerial.1 = h.nextSerial from rfl, hopen, rooms_populate]
  generalize h.freshSerial.2.openReply ⟨owner, h.nextSerial⟩ = h'
  cases h'.rooms[r]? with
  | none => rfl
  | some cell =>
    simp only
    generalize cell.events.send ⟨owner, h.nextSerial⟩ (event ⟨owner, h.nextSerial⟩) = result
    obtain ⟨delivery, events⟩ := result
    cases delivery with
    | accepted => exact populate_awaitAnswer (h := h'.setRoom r { cell with events }) _ now
    | pending =>
      simp only
      split
      · exact populate_expire (h := h'.setRoom r { cell with events }) _
      · rfl
    | refused => rfl

theorem populate_openRoom (id : RoomId) (name : String) :
    (h.populate players outboxes).openRoom id name =
      ((h.openRoom id name).1, (h.openRoom id name).2.1,
        (h.openRoom id name).2.2.populate players outboxes) := by
  simp only [openRoom, room?_populate]
  cases h.room? id <;> rfl

theorem populate_createRoom (name : String) : (h.populate players outboxes).createRoom name =
    ((h.createRoom name).1, (h.createRoom name).2.populate players outboxes) := by
  have htake : (h.populate players outboxes).takeRoomId =
      (h.takeRoomId.1, h.takeRoomId.2.populate players outboxes) := rfl
  simp only [createRoom, htake, populate_openRoom]

theorem populate_cancelRoom (r : Nat) :
    (h.populate players outboxes).cancelRoom r = (h.cancelRoom r).populate players outboxes := by
  simp only [cancelRoom, rooms_populate]
  cases h.rooms[r]? with
  | none => rfl
  | some cell =>
    simp only
    split <;> rfl

theorem populate_removeRoom (id : RoomId) : (h.populate players outboxes).removeRoom id =
    ((h.removeRoom id).1, (h.removeRoom id).2.populate players outboxes) := by
  simp only [removeRoom, room?_populate]
  cases h.room? id with
  | none => rfl
  | some r =>
    simp only [populate_cancelRoom]
    rfl

end Hub

inductive Ask where
  | login (body : LoginRequest)
  | listRooms (body : GetRoomListRequest)
  | createRoom (body : CreateRoomRequest)
  | joinRoom (body : JoinRoomRequest)
  | move (body : MoveRequest)
  | leaveRoom (body : LeaveRoomRequest)
  deriving DecidableEq, Repr

namespace Envelope

/-- What an envelope asks for, if its payload can be read: the names in it are left out. -/
def ask? (e : Envelope) : Option Ask :=
  match e.kind with
  | .loginRequest => (Wire.decode? e.data).map .login
  | .getRoomListRequest => (Wire.decode? e.data).map .listRooms
  | .createRoomRequest => (Wire.decode? e.data).map .createRoom
  | .joinRoomRequest =>
    (Wire.decode? e.data).map fun body : JoinRoomRequest => .joinRoom { body with player := none }
  | .moveRequest =>
    (Wire.decode? e.data).map fun body : MoveRequest => .move { body with playerId := ⟨""⟩ }
  | .leaveRoomRequest =>
    (Wire.decode? e.data).map fun body : LeaveRoomRequest =>
      .leaveRoom { body with playerId := ⟨""⟩ }
  | _ => none

/-- Two envelopes of one kind that ask for the same. -/
structure SameAsk (e e' : Envelope) : Prop where
  kind : e'.kind = e.kind
  ask : e'.ask? = e.ask?

theorem SameAsk.refl (e : Envelope) : e.SameAsk e := ⟨rfl, rfl⟩

end Envelope

namespace Progress

def asking (request : Envelope) : Progress → Progress
  | .pending p => .pending { p with request }
  | .answered response => .answered response
  | .unreadable => .unreadable

end Progress

namespace Context
variable {c : Context} {h : Hub} {players : Array PlayerCell} {outboxes : Outboxes}

private theorem populate_abandon (r : Nat) : c.abandon (h.populate players outboxes) r =
    ((c.abandon h r).1, (c.abandon h r).2.populate players outboxes) := by
  simp only [abandon, Hub.sendLeave, Hub.populate_offerEvent]
  generalize h.offerEvent r ⟨c.id, .leave none⟩ = result
  obtain ⟨_ | _, h'⟩ := result <;> rfl

private theorem populate_leaveAll (player : PlayerId) (rooms : List RoomId) :
    leaveAll player rooms (h.populate players outboxes) =
      ((leaveAll player rooms h).1, (leaveAll player rooms h).2.populate players outboxes) := by
  induction rooms generalizing h with
  | nil => rfl
  | cons id rest ih =>
    simp only [leaveAll, Hub.room?_populate, Hub.sendLeave, Hub.populate_offerEvent]
    cases h.room? id with
    | none => exact ih
    | some r =>
      simp only
      generalize h.offerEvent r ⟨player, .leave none⟩ = result
      obtain ⟨_ | _, h'⟩ := result
      · simp only [ih]
      · exact ih

private theorem populate_complete (errand : Errand) (r : Nat) (answer : Answer) :
    c.complete (h.populate players outboxes) errand r answer =
      ((c.complete h errand r answer).1, (c.complete h errand r answer).2.1,
        (c.complete h errand r answer).2.2.populate players outboxes) := by
  have hjoin : c.concludeJoin (h.populate players outboxes) r answer =
      ((c.concludeJoin h r answer).1,
        (c.concludeJoin h r answer).2.populate players outboxes) := by
    rw [concludeJoin.eq_def, concludeJoin.eq_def]
    split
    · split <;> rfl
    · exact populate_abandon r
    · rfl
  cases errand with
  | create | join => simp only [complete, hjoin]
  | leave =>
    simp only [complete, concludeLeave]
    split
    · simp only [populate_abandon]
    · rfl

theorem populate_follow {request request' : Envelope} (errand : Errand) (r : Nat)
    (course : Course × Hub) :
    c.follow request' errand r (course.1, course.2.populate players outboxes) =
      ((c.follow request errand r course).1.asking request',
        (c.follow request errand r course).2.1,
        (c.follow request errand r course).2.2.populate players outboxes) := by
  obtain ⟨w | answer, h⟩ := course
  · rfl
  · simp only [follow, populate_complete]
    rfl

private theorem populate_enter {request request' : Envelope} (owner : Task) (now : Nat)
    (errand : Errand) (r : Nat) :
    c.enter (h.populate players outboxes) owner now request' errand r =
      ((c.enter h owner now request errand r).1.asking request',
        (c.enter h owner now request errand r).2.1,
        (c.enter h owner now request errand r).2.2.populate players outboxes) := by
  simp only [enter, settle, populate_leaveAll, Hub.requestJoin, Hub.populate_request]
  exact populate_follow errand r _

private def Likewise (request' : Envelope) (players : Array PlayerCell) (outboxes : Outboxes)
    (x x' : Progress × Context × Hub) : Prop :=
  x' = (x.1.asking request', x.2.1, x.2.2.populate players outboxes)

private theorem likewise_reading {α : Type} [Wire α] {request request' : Envelope} (ask : α → Ask)
    {serve serve' : α → Progress × Context × Hub}
    (hsame : (Wire.decode? request'.data).map ask = (Wire.decode? request.data).map ask)
    (hserve : ∀ body body', ask body' = ask body →
      Likewise request' players outboxes (serve body) (serve' body')) :
    Likewise request' players outboxes (c.reading h request serve)
      (c.reading (h.populate players outboxes) request' serve') := by
  rw [reading, reading]
  revert hsame
  cases Wire.decode? (α := α) request.data with
  | none =>
    cases Wire.decode? (α := α) request'.data with
    | none => exact fun _ => rfl
    | some body' => simp
  | some body =>
    cases Wire.decode? (α := α) request'.data with
    | none => simp
    | some body' => exact fun hsame => hserve body body' (Option.some.inj hsame)

private theorem likewise_login (request' : Envelope) (body : LoginRequest) :
    Likewise request' players outboxes (c.login h body)
      (c.login (h.populate players outboxes) body) := by
  have hroom : c.room? (h.populate players outboxes) = c.room? h := rfl
  simp only [Likewise, login, Progress.asking, room?] at hroom ⊢
  rw [hroom]
  split
  · simp only [Hub.sendMove, Hub.populate_offerEvent]
  · rfl

private theorem likewise_createRoom (request request' : Envelope) (owner : Task) (now : Nat)
    (body : CreateRoomRequest) :
    Likewise request' players outboxes (c.createRoom h owner now request body)
      (c.createRoom (h.populate players outboxes) owner now request' body) := by
  rw [Likewise, createRoom, createRoom]
  split
  · rfl
  · simp only [Hub.populate_createRoom]
    exact populate_enter owner now _ _

private theorem likewise_joinRoom (request request' : Envelope) (owner : Task) (now : Nat)
    {body body' : JoinRoomRequest} (hroom : body'.roomId = body.roomId) :
    Likewise request' players outboxes (c.joinRoom h owner now request body)
      (c.joinRoom (h.populate players outboxes) owner now request' body') := by
  rw [Likewise, joinRoom, joinRoom, hroom, Hub.room?_populate]
  split
  · rfl
  · cases h.room? body.roomId with
    | none => rfl
    | some r => exact populate_enter owner now _ r

private theorem likewise_move (request' : Envelope) {body body' : MoveRequest}
    (hposition : body'.position = body.position) :
    Likewise request' players outboxes (c.move h body)
      (c.move (h.populate players outboxes) body') := by
  have hroom : c.room? (h.populate players outboxes) = c.room? h := rfl
  simp only [Likewise, move, hposition, room?] at hroom ⊢
  rw [hroom]
  cases c.room.bind h.room? with
  | none => rfl
  | some r =>
    simp only [Hub.sendMove, Hub.populate_offerEvent]
    rfl

private theorem likewise_leaveRoom (request request' : Envelope) (owner : Task) (now : Nat) :
    Likewise request' players outboxes (c.leaveRoom h owner now request)
      (c.leaveRoom (h.populate players outboxes) owner now request') := by
  have hroom : c.room? (h.populate players outboxes) = c.room? h := rfl
  rw [Likewise, leaveRoom, leaveRoom, hroom]
  cases c.room? h with
  | none => rfl
  | some r =>
    simp only [Hub.requestLeave, Hub.populate_request]
    exact populate_follow _ r _

/-- A service looks neither at the players nor at who a request says it comes from. -/
theorem populate_serve {request request' : Envelope} (hsame : request.SameAsk request')
    (owner : Task) (now : Nat) {service : Service}
    (hk : Service.ofKind? request.kind = some service) :
    c.serve (h.populate players outboxes) owner now service request' =
      ((c.serve h owner now service request).1.asking request',
        (c.serve h owner now service request).2.1,
        (c.serve h owner now service request).2.2.populate players outboxes) := by
  -- Of a body, services read no more than its `Ask` keeps.
  have hask := hsame.ask
  rw [Envelope.ask?, Envelope.ask?, hsame.kind] at hask
  cases hkind : request.kind <;> rw [hkind] at hk hask <;> cases hk
  case loginRequest =>
    refine likewise_reading Ask.login hask ?_
    rintro body _ ⟨⟩
    exact likewise_login request' body
  case getRoomListRequest =>
    refine likewise_reading Ask.listRooms hask ?_
    rintro body _ ⟨⟩
    rfl
  case createRoomRequest =>
    refine likewise_reading Ask.createRoom hask ?_
    rintro body _ ⟨⟩
    exact likewise_createRoom request request' owner now body
  case joinRoomRequest =>
    refine likewise_reading _ hask fun body body' hsame => ?_
    have hroom : body'.roomId = body.roomId := by simpa using hsame
    exact likewise_joinRoom request request' owner now hroom
  case moveRequest =>
    refine likewise_reading _ hask fun body body' hsame => ?_
    have hposition : body'.position = body.position := by simpa using hsame
    exact likewise_move request' hposition
  case leaveRoomRequest =>
    refine likewise_reading _ hask fun body body' _ => ?_
    exact likewise_leaveRoom request request' owner now

end Context

end Lobby
