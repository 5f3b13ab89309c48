import Lobby.Player.Session

/-! What services do to the hub, told by the few operations that they use: they offer events in the
player's own name, they make requests and go on with them, and they create rooms. -/
namespace Lobby

namespace Hub

private theorem expire_ended (h : Hub) (w : Wait) (w' : Wait) : (h.expire w).1 ≠ .waiting w' := by
  simp [expire, conclude]

private theorem awaitAnswer_ticket (h : Hub) {w w' : Wait} {now : Nat}
    (hw : (h.awaitAnswer w now).1 = .waiting w') : w'.ticket = w.ticket := by
  rw [awaitAnswer] at hw
  simp only [freshSerial] at hw
  split at hw
  · exact absurd hw (expire_ended _ _ _)
  · cases hw
    rfl

/-- A request keeps its ticket as long as it waits. -/
theorem resume_ticket (h : Hub) {w w' : Wait} {now : Nat}
    (hw : (h.resume w now).1 = .waiting w') : w'.ticket = w.ticket := by
  rw [resume] at hw
  split at hw
  · split at hw
    · split at hw
      · exact awaitAnswer_ticket _ hw
      · contradiction
      · split at hw
        · exact absurd hw (expire_ended _ _ _)
        · cases hw
          rfl
    · contradiction
  · split at hw
    · contradiction
    · split at hw
      · exact absurd hw (expire_ended _ _ _)
      · cases hw
        rfl
    · contradiction

/-- A request that waits does so in the name of its owner. -/
theorem request_owner (h : Hub) {owner : Task} {r timeout now : Nat}
    {event : Ticket → Event Ticket} {w : Wait}
    (hw : (h.request owner r timeout now event).1 = .waiting w) : w.ticket.owner = owner := by
  rw [request] at hw
  simp only [freshSerial] at hw
  split at hw
  · split at hw
    · rw [awaitAnswer_ticket _ hw]
    · split at hw
      · exact absurd hw (expire_ended _ _ _)
      · cases hw
        rfl
    · contradiction
  · contradiction

private theorem awaitAnswer_ne_ok (h : Hub) (w : Wait) (now : Nat) (outcome : Outcome) :
    (h.awaitAnswer w now).1 ≠ .ended (.ok outcome) := by
  rw [awaitAnswer]
  simp only
  split <;> simp [expire, conclude]

/-- Who is told an outcome takes away the room's answer, and nothing else happens. -/
theorem resume_of_ok {h : Hub} {w : Wait} {now : Nat} {outcome : Outcome}
    (hout : (h.resume w now).1 = .ended (.ok outcome)) :
    h.reply? w.ticket = some (.answered outcome) ∧ (h.resume w now).2 = h.closeReply w.ticket := by
  have not_late : (if w.deadline ≤ now then h.expire w else (.waiting w, h)).1 ≠
      .ended (.ok outcome) := by
    split <;> simp [expire, conclude]
  rw [resume] at hout ⊢
  cases hstage : w.stage with
  | slot =>
    simp only [hstage] at hout
    split at hout
    · split at hout
      · exact absurd hout (awaitAnswer_ne_ok _ _ _ _)
      · simp [conclude] at hout
      · exact absurd hout not_late
    · simp [conclude] at hout
  | answer =>
    simp only [hstage] at hout ⊢
    split at hout
    · rename_i x hreply
      simp only [conclude, Course.ended.injEq, Except.ok.injEq] at hout
      rw [hreply, hout]
      exact ⟨rfl, rfl⟩
    · exact absurd hout not_late
    · simp [conclude] at hout

/-- Nobody is told an outcome that the room has not answered with. -/
theorem answered_of_resume {h : Hub} {w : Wait} {now : Nat} {outcome : Outcome}
    (hout : (h.resume w now).1 = .ended (.ok outcome)) :
    h.reply? w.ticket = some (.answered outcome) := (resume_of_ok hout).1

/-- Nobody is told an outcome at once. -/
theorem request_ne_ok (h : Hub) (owner : Task) (r timeout now : Nat)
    (event : Ticket → Event Ticket) (outcome : Outcome) :
    (h.request owner r timeout now event).1 ≠ .ended (.ok outcome) := by
  rw [request]
  simp only
  split
  · split
    · exact awaitAnswer_ne_ok _ _ _ _
    · split <;> simp [expire, conclude]
    · simp [conclude]
  · simp [conclude]

structure Lasting (player : PlayerId) (owner : Task) (Q : Hub → Prop) : Prop where
  offer {h : Hub} {r : Nat} {e : Event Ticket} : Q h → e.player = player → e.reply? = none →
    Q (h.offerEvent r e).2
  request {h : Hub} {r timeout now : Nat} {event : Ticket → Event Ticket} : Q h →
    (∀ t, (event t).player = player ∧ (event t).reply? = some t) →
      Q (h.request owner r timeout now event).2
  resume {h : Hub} {w : Wait} {now : Nat} : Q h → w.ticket.owner = owner → Q (h.resume w now).2
  expire {h : Hub} {w : Wait} : Q h → w.ticket.owner = owner → Q (h.expire w).2
  create {h : Hub} {name : String} : Q h → Q (h.createRoom name).2

/-- A property of the hub that lasts through the changes that offers and requests are made of,
whatever they say. -/
structure Robust (Q : Hub → Prop) : Prop where
  signal {h : Hub} {s : Signal} : Q h → Q (h.signal s)
  setEvents {h : Hub} {r : Nat} {cell : RoomCell} {events : Mailbox Ticket (Event Ticket)} :
    Q h → h.rooms[r]? = some cell → Q (h.setRoom r { cell with events })
  freshSerial {h : Hub} : Q h → Q h.freshSerial.2
  openReply {h : Hub} {owner : Task} : Q h → Q (h.freshSerial.2.openReply ⟨owner, h.nextSerial⟩)
  closeReply {h : Hub} {t : Ticket} : Q h → Q (h.closeReply t)
  createRoom {h : Hub} {name : String} : Q h → Q (h.createRoom name).2

/-- Two properties of the hub that a request takes turns with: `P` holds for its ticket from when
it opens its reply until it closes it, and `Q` before and after. -/
structure Tracks (P : Ticket → Hub → Prop) (Q : Hub → Prop) : Prop where
  signal {h : Hub} {t : Ticket} {s : Signal} : P t h → P t (h.signal s)
  setEvents {h : Hub} {t : Ticket} {r : Nat} {cell : RoomCell}
    {events : Mailbox Ticket (Event Ticket)} :
    P t h → h.rooms[r]? = some cell → P t (h.setRoom r { cell with events })
  freshSerial {h : Hub} {t : Ticket} : P t h → P t h.freshSerial.2
  openReply {h : Hub} {owner : Task} :
    Q h → P ⟨owner, h.nextSerial⟩ (h.freshSerial.2.openReply ⟨owner, h.nextSerial⟩)
  closeReply {h : Hub} {t : Ticket} : P t h → Q (h.closeReply t)

def Tracked (P : Ticket → Hub → Prop) (Q : Hub → Prop) : Course × Hub → Prop
  | (.waiting w, h) => P w.ticket h
  | (.ended _, h) => Q h

namespace Tracks
variable {P : Ticket → Hub → Prop} {Q : Hub → Prop} {h : Hub}

theorem expire (hP : Tracks P Q) (w : Wait) (hp : P w.ticket h) : Q (h.expire w).2 := by
  rw [Hub.expire]
  apply hP.closeReply
  split
  · rename_i cell _ hc
    simp only
    split
    · exact hP.signal (hP.setEvents hp hc)
    · exact hP.setEvents hp hc
  · exact hp

private theorem expired (hP : Tracks P Q) (w : Wait) (hp : P w.ticket h) :
    Tracked P Q (h.expire w) := hP.expire w hp

private theorem awaitAnswer (hP : Tracks P Q) {w : Wait} (hp : P w.ticket h) (now : Nat) :
    Tracked P Q (h.awaitAnswer w now) := by
  have hsig : P w.ticket (h.freshSerial.2.signal (.arrived (.room w.room))) :=
    hP.signal (hP.freshSerial hp)
  rw [Hub.awaitAnswer]
  simp only
  split
  · exact hP.expired _ hsig
  · exact hsig

theorem resume (hP : Tracks P Q) {w : Wait} (hp : P w.ticket h) (now : Nat) :
    Tracked P Q (h.resume w now) := by
  rw [Hub.resume]
  split
  · split
    · rename_i cell hc
      split
      · exact hP.awaitAnswer (hP.setEvents hp hc) now
      · exact hP.closeReply (hP.setEvents hp hc)
      · split
        · exact hP.expired w hp
        · exact hp
    · exact hP.closeReply hp
  · split
    · exact hP.closeReply hp
    · split
      · exact hP.expired w hp
      · exact hp
    · exact hP.closeReply hp

theorem request (hP : Tracks P Q) (hq : Q h) (owner : Task) (r timeout now : Nat)
    (event : Ticket → Event Ticket) : Tracked P Q (h.request owner r timeout now event) := by
  have hopen : P ⟨owner, h.nextSerial⟩ (h.freshSerial.2.openReply ⟨owner, h.nextSerial⟩) :=
    hP.openReply hq
  rw [Hub.request]
  simp only [Hub.freshSerial] at hopen ⊢
  generalize ({ h with nextSerial := h.nextSerial + 1 } : Hub).openReply ⟨owner, h.nextSerial⟩ = h'
    at hopen ⊢
  split
  · rename_i cell hc
    split
    · exact hP.awaitAnswer (hP.setEvents hopen hc) now
    · split
      · exact hP.expired _ (hP.setEvents hopen hc)
      · exact hP.setEvents hopen hc
    · exact hP.closeReply hopen
  · exact hP.closeReply hopen

end Tracks

namespace Robust
variable {Q : Hub → Prop} {h : Hub}

theorem offerEvent (hQ : Robust Q) (hq : Q h) (r : Nat) (e : Event Ticket) :
    Q (h.offerEvent r e).2 := by
  rw [Hub.offerEvent]
  split
  · rename_i cell hc
    split
    · exact hQ.signal (hQ.setEvents hq hc)
    · exact hQ.setEvents hq hc
    · exact hQ.setEvents hq hc
  · exact hq

/-- What is robust holds before, during and after a request. -/
private theorem tracks (hQ : Robust Q) : Tracks (fun _ => Q) Q where
  signal := hQ.signal
  setEvents := hQ.setEvents
  freshSerial := hQ.freshSerial
  openReply := hQ.openReply
  closeReply := hQ.closeReply

private theorem of_tracked {out : Course × Hub} (h : Tracked (fun _ => Q) Q out) : Q out.2 := by
  obtain ⟨course, hub⟩ := out
  cases course <;> exact h

theorem expire (hQ : Robust Q) (hq : Q h) (w : Wait) : Q (h.expire w).2 := hQ.tracks.expire w hq

theorem resume (hQ : Robust Q) (hq : Q h) (w : Wait) (now : Nat) : Q (h.resume w now).2 :=
  of_tracked (hQ.tracks.resume hq now)

theorem request (hQ : Robust Q) (hq : Q h) (owner : Task) (r timeout now : Nat)
    (event : Ticket → Event Ticket) : Q (h.request owner r timeout now event).2 :=
  of_tracked (hQ.tracks.request hq owner r timeout now event)

/-- What is robust lasts, whoever acts in whose name. -/
theorem lasting (hQ : Robust Q) (player : PlayerId) (owner : Task) : Lasting player owner Q where
  offer hq _ _ := hQ.offerEvent hq _ _
  request hq _ := hQ.request hq _ _ _ _ _
  resume hq _ := hQ.resume hq _ _
  expire hq _ := hQ.expire hq _
  create hq := hQ.createRoom hq

end Robust

end Hub

/-- An envelope is a request, and its payload is one of that kind of request. -/
def Envelope.answerable (e : Envelope) : Bool :=
  match e.kind with
  | .loginRequest => (Wire.decode? (α := LoginRequest) e.data).isSome
  | .getRoomListRequest => (Wire.decode? (α := GetRoomListRequest) e.data).isSome
  | .createRoomRequest => (Wire.decode? (α := CreateRoomRequest) e.data).isSome
  | .joinRoomRequest => (Wire.decode? (α := JoinRoomRequest) e.data).isSome
  | .moveRequest => (Wire.decode? (α := MoveRequest) e.data).isSome
  | .leaveRoomRequest => (Wire.decode? (α := LeaveRoomRequest) e.data).isSome
  | _ => false

namespace Context
variable {Q : Hub → Prop} {owner : Task} {c : Context}

structure Serves (Q : Hub → Prop) (owner : Task) (c : Context) (request : Envelope)
    (result : Progress × Context × Hub) : Prop where
  hub : Q result.2.2
  id : result.2.1.id = c.id
  outbox : result.2.1.outbox = c.outbox
  pending (pending : Pending) : result.1 = .pending pending →
    pending.request = request ∧ pending.wait.ticket.owner = owner
  readable : result.1 ≠ .unreadable

private theorem serves_answered {c' : Context} {h : Hub} {request : Envelope} (response : Response)
    (hq : Q h) (hid : c'.id = c.id) (hbox : c'.outbox = c.outbox) :
    c.Serves Q owner request (.answered response, c', h) :=
  ⟨hq, hid, hbox, by simp, by simp⟩

private theorem serves_abandon (hQ : Hub.Lasting c.id owner Q) {h : Hub} (hq : Q h) (r : Nat) :
    Q (c.abandon h r).2 ∧ (c.abandon h r).1.id = c.id ∧ (c.abandon h r).1.outbox = c.outbox := by
  have hoffer := hQ.offer (r := r) (e := ⟨c.id, .leave none⟩) hq rfl rfl
  rw [abandon, Hub.sendLeave]
  generalize h.offerEvent r ⟨c.id, .leave none⟩ = result at hoffer ⊢
  obtain ⟨_ | _, h'⟩ := result
  · exact ⟨hoffer, by simp only; split <;> exact ⟨rfl, rfl⟩⟩
  · exact ⟨hoffer, rfl, rfl⟩

private theorem serves_complete (hQ : Hub.Lasting c.id owner Q) {h : Hub} (hq : Q h)
    (errand : Errand) (r : Nat) (answer : Answer) :
    Q (c.complete h errand r answer).2.2 ∧ (c.complete h errand r answer).2.1.id = c.id ∧
      (c.complete h errand r answer).2.1.outbox = c.outbox := by
  have join : Q (c.concludeJoin h r answer).2 ∧ (c.concludeJoin h r answer).1.id = c.id ∧
      (c.concludeJoin h r answer).1.outbox = c.outbox := by
    rw [concludeJoin.eq_def]
    split
    · split <;> exact ⟨hq, rfl, rfl⟩
    · exact serves_abandon hQ hq r
    · exact ⟨hq, rfl, rfl⟩
  cases errand with
  | create | join => exact join
  | leave =>
    simp only [complete, concludeLeave]
    split
    · exact serves_abandon hQ hq r
    · exact ⟨hq, rfl, rfl⟩

/-- An errand is followed in the player's own name. -/
theorem serves_follow (hQ : Hub.Lasting c.id owner Q) {c' : Context} {request : Envelope}
    (errand : Errand) (r : Nat) {course : Course × Hub} (hq : Q course.2)
    (hw : ∀ w, course.1 = .waiting w → w.ticket.owner = owner) (hid : c'.id = c.id)
    (hbox : c'.outbox = c.outbox) :
    c.Serves Q owner request (c'.follow request errand r course) := by
  obtain ⟨w | answer, h⟩ := course
  · refine ⟨hq, hid, hbox, ?_, by simp [follow]⟩
    rintro _ ⟨⟩
    exact ⟨rfl, hw w rfl⟩
  · obtain ⟨hq', hid', hbox'⟩ := serves_complete (hid ▸ hQ) hq errand r answer
    exact serves_answered _ hq' (hid'.trans hid) (hbox'.trans hbox)

theorem serves_leaveAll {player : PlayerId} (hQ : Hub.Lasting player owner Q)
    (rooms : List RoomId) {h : Hub} (hq : Q h) : Q (leaveAll player rooms h).2 := by
  induction rooms generalizing h with
  | nil => exact hq
  | cons id rest ih =>
    rw [leaveAll]
    split
    · rename_i r _
      have hoffer := hQ.offer (r := r) (e := ⟨player, .leave none⟩) hq rfl rfl
      rw [Hub.sendLeave]
      generalize h.offerEvent r ⟨player, .leave none⟩ = result at hoffer ⊢
      obtain ⟨_ | _, h'⟩ := result
      · exact ih hoffer
      · exact ih hoffer
    · exact ih hq

private theorem serves_enter (hQ : Hub.Lasting c.id owner Q) {h : Hub} (hq : Q h) (now : Nat)
    (request : Envelope) (errand : Errand) (r : Nat) :
    c.Serves Q owner request (c.enter h owner now request errand r) := by
  refine serves_follow hQ errand r ?_ ?_ rfl rfl
  · exact hQ.request (serves_leaveAll hQ c.unconfirmed hq) fun t => ⟨rfl, rfl⟩
  · intro w hw
    exact Hub.request_owner _ hw

/-- A request whose payload can be read is served. -/
private theorem serves_reading {α : Type} [Wire α] {h : Hub} {request : Envelope}
    {serve : α → Progress × Context × Hub}
    (hs : ∀ body, c.Serves Q owner request (serve body)) :
    if (Wire.decode? (α := α) request.data).isSome then
      c.Serves Q owner request (c.reading h request serve)
    else c.reading h request serve = (.unreadable, c, h) := by
  rw [reading]
  cases Wire.decode? (α := α) request.data with
  | some body => exact hs body
  | none => rfl

/-- A request that can be answered is served in the player's own name, and any other does
nothing. -/
theorem serve_spec (hQ : Hub.Lasting c.id owner Q) {h : Hub} (hq : Q h) (now : Nat)
    {service : Service} {request : Envelope} (hk : Service.ofKind? request.kind = some service) :
    if request.answerable then c.Serves Q owner request (c.serve h owner now service request)
    else c.serve h owner now service request = (.unreadable, c, h) := by
  rw [Envelope.answerable]
  cases hkind : request.kind <;> rw [hkind] at hk <;> cases hk
  case loginRequest =>
    apply serves_reading
    intro body
    rw [login]
    refine serves_answered _ ?_ rfl rfl
    split
    · exact hQ.offer hq rfl rfl
    · exact hq
  case getRoomListRequest => exact serves_reading fun _ => serves_answered _ hq rfl rfl
  case createRoomRequest =>
    apply serves_reading
    intro body
    rw [createRoom]
    split
    · exact serves_answered _ hq rfl rfl
    · exact serves_enter hQ (hQ.create hq) now request _ _
  case joinRoomRequest =>
    apply serves_reading
    intro body
    rw [joinRoom]
    split
    · exact serves_answered _ hq rfl rfl
    · split
      · exact serves_enter hQ hq now request _ _
      · exact serves_answered _ hq rfl rfl
  case moveRequest =>
    apply serves_reading
    intro body
    rw [move]
    simp only
    split
    · exact serves_answered _ (hQ.offer hq rfl rfl) rfl rfl
    · exact serves_answered _ hq rfl rfl
  case leaveRoomRequest =>
    apply serves_reading
    intro body
    rw [leaveRoom]
    split
    · refine serves_follow hQ _ _ (hQ.request hq fun t => ⟨rfl, rfl⟩) ?_ rfl rfl
      intro w hw
      exact Hub.request_owner _ hw
    · exact serves_answered _ hq rfl rfl

/-- A request that waits is gone on with in the player's own name. -/
theorem resume_spec (hQ : Hub.Lasting c.id owner Q) {h : Hub} (hq : Q h) (now : Nat)
    {pending : Pending} (hw : pending.wait.ticket.owner = owner) :
    c.Serves Q owner pending.request (c.resume h now pending) := by
  refine serves_follow hQ _ _ (hQ.resume hq hw) ?_ rfl rfl
  intro w hwait
  rw [Hub.resume_ticket _ hwait, hw]

/-- A wait whose time is up is answered in the player's own name. -/
theorem lapse_spec (hQ : Hub.Lasting c.id owner Q) {h : Hub} (hq : Q h) {pending : Pending}
    (hw : pending.wait.ticket.owner = owner) :
    c.Serves Q owner pending.request
      (c.follow pending.request pending.errand pending.wait.room (h.expire pending.wait)) := by
  refine serves_follow hQ _ _ (hQ.expire hq hw) ?_ rfl rfl
  intro w hwait
  exact absurd hwait (Hub.expire_ended _ _ _)

end Context

end Lobby
