import Lobby.Proofs.ServiceRequests

/-! What services grant. A service that ends moves its player only into the room that its answer
grants, and one that waits has made a request to the room that it is going to answer for. -/
namespace Lobby

def Envelope.entering (e : Envelope) : Bool :=
  e.kind = .createRoomRequest || e.kind = .joinRoomRequest

def Envelope.leaving (e : Envelope) : Bool := e.kind = .leaveRoomRequest && e.answerable

def Response.grants? (request : Envelope) : Response → Option (Option RoomId)
  | .room body =>
    if request.entering && body.ret = .ok then some (body.room.map (·.id)) else none
  | _ => none

namespace Response

theorem grants_code_of_ne {request : Envelope} {ret : ResultCode} {room : Option RoomSnapshot}
    (h : ret ≠ .ok) : (code ret room).grants? request = none := by
  simp [code, grants?, h]

theorem grants_of_not_entering {request : Envelope} {response : Response}
    (h : request.entering = false) : response.grants? request = none := by
  cases response <;> simp [grants?, h]

end Response

namespace Context
variable {c : Context} {h : Hub} {owner : Task} {now : Nat} {request : Envelope}

/-- A service as it goes leaves the player in a room or in none, and grants nothing. -/
structure Holds (room : Option RoomId) (request : Envelope) (result : Progress × Context × Hub) :
    Prop where
  room : result.2.1.room = room
  response {response : Response} : result.1 = .answered response →
    response.grants? request = none

private theorem abandon_room (c : Context) (h : Hub) (r : Nat) :
    (c.abandon h r).1.room = c.room := by
  rw [abandon]
  split
  · rfl
  · simp only
    split <;> rfl

theorem holds_follow (c : Context) (request : Envelope) (errand : Errand) (r : Nat)
    {course : Course × Hub} (hno : ∀ outcome, course.1 ≠ .ended (.ok outcome)) :
    Holds c.room request (c.follow request errand r course) := by
  obtain ⟨w | fault | outcome, h⟩ := course
  · exact ⟨rfl, by simp [follow]⟩
  · have hresponse : ∃ room, errandResponse errand (.error fault) = .code .roomNotFound room := by
      cases errand <;> exact ⟨_, rfl⟩
    obtain ⟨room, hresponse⟩ := hresponse
    constructor
    · rw [follow]
      cases errand <;> cases fault <;>
        first | rfl | exact abandon_room c h r
    · rintro response ⟨⟩
      rw [hresponse]
      exact Response.grants_code_of_ne (by decide)
  · exact absurd rfl (hno outcome)

/-- Who is granted an errand is told of a room. -/
theorem follow_granted {errand : Errand} {r : Nat} {course : Course × Hub} {body : RoomResponse}
    (hf : (c.follow request errand r course).1 = .answered (.room body)) (hok : body.ret = .ok) :
    body.room.isSome := by
  obtain ⟨w | fault | outcome, h⟩ := course
  · contradiction
  · cases errand <;> cases hf <;> contradiction
  · cases errand <;> cases hf <;> rfl

private theorem holds_enter (c : Context) (h : Hub) (owner : Task) (now : Nat)
    (request : Envelope) (errand : Errand) (r : Nat) :
    Holds c.room request (c.enter h owner now request errand r) :=
  holds_follow (c.settle h).1 request errand r fun _ => Hub.request_ne_ok _ _ _ _ _ _ _

private theorem holds_reading {α : Type} [Wire α] {serve : α → Progress × Context × Hub}
    (hs : ∀ body, Holds c.room request (serve body)) :
    Holds c.room request (c.reading h request serve) := by
  rw [reading]
  split
  · exact hs _
  · exact ⟨rfl, by simp⟩

/-- Until a room has answered, only a leave changes the room that the player is in, and nothing is
granted. -/
theorem holds_serve (c : Context) (h : Hub) (owner : Task) (now : Nat) {service : Service}
    {request : Envelope} (hk : Service.ofKind? request.kind = some service) :
    Holds (if request.leaving then none else c.room) request
      (c.serve h owner now service request) := by
  have quick {room : Option RoomId} {c' : Context} {h' : Hub} (response : Response)
      (hroom : c'.room = room) (hr : response.grants? request = none) :
      Holds room request (.answered response, c', h') := by
    refine ⟨hroom, ?_⟩
    rintro _ ⟨⟩
    exact hr
  have failed {ret : ResultCode} {room : Option RoomSnapshot} (hret : ret ≠ .ok) :
      (Response.code ret room).grants? request = none := Response.grants_code_of_ne hret
  rw [Envelope.leaving]
  cases hkind : request.kind <;> rw [hkind] at hk <;> cases hk
  case leaveRoomRequest =>
    have hnone (response : Response) : response.grants? request = none :=
      Response.grants_of_not_entering (by simp [Envelope.entering, hkind])
    simp only [serve, reading, Envelope.answerable, hkind]
    cases Wire.decode? (α := LeaveRoomRequest) request.data with
    | none => exact ⟨rfl, by simp⟩
    | some body =>
      change Holds none request (c.leaveRoom h owner now request)
      rw [leaveRoom]
      split
      · exact ⟨(holds_follow _ _ _ _ fun _ => Hub.request_ne_ok _ _ _ _ _ _ _).room,
          fun _ => hnone _⟩
      · exact quick _ rfl (hnone _)
  case loginRequest =>
    refine holds_reading fun body => quick _ rfl rfl
  case getRoomListRequest => exact holds_reading fun body => quick _ rfl rfl
  case moveRequest =>
    have hnone (response : Response) : response.grants? request = none :=
      Response.grants_of_not_entering (by simp [Envelope.entering, hkind])
    refine holds_reading fun body => ?_
    rw [move]
    simp only
    split
    · exact quick _ rfl (hnone _)
    · exact quick _ rfl (hnone _)
  case createRoomRequest =>
    refine holds_reading fun body => ?_
    rw [createRoom]
    split
    · exact quick _ rfl (failed (by decide))
    · exact holds_enter c _ owner now request _ _
  case joinRoomRequest =>
    refine holds_reading fun body => ?_
    rw [joinRoom]
    split
    · exact quick _ rfl (failed (by decide))
    · split
      · exact holds_enter c _ owner now request _ _
      · exact quick _ rfl (failed (by decide))

/-- A player that is in a room is not let into another, and nobody is asked. -/
theorem serve_occupied (h : Hub) (owner : Task) (now : Nat) {service : Service}
    (hk : Service.ofKind? request.kind = some service) (hin : request.entering = true)
    (hread : request.answerable = true) (hroom : c.room.isSome) :
    c.serve h owner now service request =
      (.answered (.code .playerAlreadyInRoom none), c, h) := by
  rw [Envelope.entering] at hin
  rw [Envelope.answerable] at hread
  cases hkind : request.kind <;> simp only [hkind] at hk hin hread <;> cases hk <;>
    try contradiction
  case createRoomRequest =>
    obtain ⟨body, hb⟩ := Option.isSome_iff_exists.mp hread
    simp [serve, reading, hb, createRoom, hroom]
  case joinRoomRequest =>
    obtain ⟨body, hb⟩ := Option.isSome_iff_exists.mp hread
    simp [serve, reading, hb, joinRoom, hroom]

end Context

structure Pending.Begins (pending : Pending) (owner : Task) (hub result : Hub) : Prop where
  course : ∃ timeout now event,
    hub.request owner pending.wait.room timeout now event = (.waiting pending.wait, result) ∧
      ∀ t, (event t).reply? = some t
  kind : pending.request.kind = pending.errand.kind
  created {created : RoomSnapshot} : pending.errand = .create created →
    created.id = hub.roomId pending.wait.room

namespace Context
variable {c : Context} {h : Hub} {owner : Task} {now : Nat} {request : Envelope} {pending : Pending}

/-- A service that waits for a room has made a request to it. -/
theorem begins_serve {service : Service} (hk : Service.ofKind? request.kind = some service)
    (hp : (c.serve h owner now service request).1 = .pending pending)
    (A : Ticket → Outcome → Prop) :
    ∃ hub, h.Brings (fun _ _ => True) A hub ∧
      pending.Begins owner hub (c.serve h owner now service request).2.2 := by
  have hruns : Runs (h.Brings (fun _ _ => True) A) owner request
      (c.serve h owner now service request) :=
    runs_serve (fun hb he => hb.offerEvent _ he) (fun hb => hb.createRoom _) (.refl _ _ h) hk
  generalize c.serve h owner now service request = result at hp hruns ⊢
  cases hruns with
  | aside hub done => exact absurd hp (done pending)
  | @asks c errand r timeout now event hub hb replies kind created =>
    refine ⟨hub, hb, ?_⟩
    rcases hcourse : hub.request owner r timeout now event with ⟨w | answer, result⟩
    · rw [hcourse] at hp
      obtain rfl := Progress.pending.inj hp
      obtain ⟨hroom, -, cell, hc⟩ := Hub.exists_of_request_waiting (congrArg Prod.fst hcourse)
      refine ⟨⟨timeout, now, event, ?_, replies⟩, kind, fun herrand => ?_⟩
      · rw [hroom]
        exact hcourse
      · exact hroom ▸ created _ herrand cell hc
    · rw [hcourse] at hp
      contradiction

end Context

end Lobby
