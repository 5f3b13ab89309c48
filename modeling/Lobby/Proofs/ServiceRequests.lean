import Lobby.Proofs.RequestTrails

/-! What services ask of rooms. A service makes offers to rooms and perhaps a room, and the last
thing that it does is a request to a room, if it makes one. -/
namespace Lobby

def Errand.kind : Errand → MessageKind
  | .create _ => .createRoomRequest
  | .join => .joinRoomRequest
  | .leave => .leaveRoomRequest

theorem Hub.Brings.roomId {N : Nat → Event Ticket → Prop} {A : Ticket → Outcome → Prop}
    {h h' : Hub} (hb : h.Brings N A h') {r : Nat} {cell : RoomCell}
    (hc : h.rooms[r]? = some cell) : h'.roomId r = h.roomId r := by
  obtain ⟨cell', hc', hheader⟩ := hb.room hc
  simp only [Hub.roomId, header, hc, hc', hheader]

namespace Context

/-- How a service goes: it does without a room's answer, or it makes a request to a room and follows
that. Until then all that it has done to the hub keeps a property. -/
inductive Runs (Q : Hub → Prop) (owner : Task) (request : Envelope) :
    Progress × Context × Hub → Prop
  | aside {progress : Progress} {c : Context} {h : Hub} (hub : Q h)
      (done : ∀ pending, progress ≠ .pending pending) : Runs Q owner request (progress, c, h)
  | asks {c : Context} {errand : Errand} {r timeout now : Nat} {event : Ticket → Event Ticket}
      {h : Hub} (hub : Q h) (replies : ∀ t, (event t).reply? = some t)
      (kind : request.kind = errand.kind)
      (created : ∀ created, errand = .create created → ∀ cell, h.rooms[r]? = some cell →
        created.id = h.roomId r) :
      Runs Q owner request (c.follow request errand r (h.request owner r timeout now event))

variable {c : Context} {h : Hub} {owner : Task} {now : Nat} {request : Envelope} {Q : Hub → Prop}

/-- Leaves that nobody waits for are offers. -/
theorem leaveAll_offers {player : PlayerId}
    (hoffer : ∀ {h : Hub} {r : Nat} {e : Event Ticket}, Q h → e.reply? = none →
      Q (h.offerEvent r e).2)
    (rooms : List RoomId) (hq : Q h) : Q (leaveAll player rooms h).2 := by
  induction rooms generalizing h with
  | nil => exact hq
  | cons id rest ih =>
    rw [leaveAll]
    split
    · rename_i r _
      have hsent : Q (h.offerEvent r ⟨player, .leave none⟩).2 := hoffer hq rfl
      rw [Hub.sendLeave]
      generalize h.offerEvent r ⟨player, .leave none⟩ = result at hsent ⊢
      obtain ⟨_ | _, h'⟩ := result
      · exact ih hsent
      · exact ih hsent
    · exact ih hq

theorem size_offerEvent (h : Hub) (r : Nat) (e : Event Ticket) :
    (h.offerEvent r e).2.rooms.size = h.rooms.size := by
  rw [Hub.offerEvent]
  split
  · split <;> exact Array.size_setIfInBounds
  · rfl

private theorem runs_enter
    (hoffer : ∀ {h : Hub} {r : Nat} {e : Event Ticket}, Q h → e.reply? = none →
      Q (h.offerEvent r e).2)
    (hq : Q h) {errand : Errand} {r : Nat} (hkind : request.kind = errand.kind)
    (hcreated : ∀ created, errand = .create created → created = h.header r) :
    Runs Q owner request (c.enter h owner now request errand r) := by
  have hsettled : h.Brings (fun _ _ => True) (fun _ _ => True) (c.settle h).2 ∧
      (c.settle h).2.rooms.size = h.rooms.size :=
    leaveAll_offers (Q := fun h' => h.Brings (fun _ _ => True) (fun _ _ => True) h' ∧
        h'.rooms.size = h.rooms.size)
      (fun hb he => ⟨hb.1.offerEvent _ he, (size_offerEvent _ _ _).trans hb.2⟩) c.unconfirmed
      ⟨.refl _ _ h, rfl⟩
  refine .asks (leaveAll_offers hoffer c.unconfirmed hq) ?_ hkind ?_
  · exact fun _ => rfl
  intro created herrand cell hcell
  -- a room of that number was there before, under the same name
  have hlt := (Array.getElem?_eq_some_iff.mp hcell).1
  rw [show (leaveAll c.id c.unconfirmed h).2.rooms.size = h.rooms.size from hsettled.2] at hlt
  rw [hcreated created herrand]
  exact (hsettled.1.roomId (Array.getElem?_eq_getElem hlt)).symm

theorem runs_serve
    (hoffer : ∀ {h : Hub} {r : Nat} {e : Event Ticket}, Q h → e.reply? = none →
      Q (h.offerEvent r e).2)
    (hcreate : ∀ {h : Hub} {name : String}, Q h → Q (h.createRoom name).2) (hq : Q h)
    {service : Service} (hk : Service.ofKind? request.kind = some service) :
    Runs Q owner request (c.serve h owner now service request) := by
  have reading {α : Type} [Wire α] {serve : α → Progress × Context × Hub}
      (hs : ∀ body, Runs Q owner request (serve body)) :
      Runs Q owner request (c.reading h request serve) := by
    rw [Context.reading]
    split
    · exact hs _
    · exact .aside hq (by simp)
  cases hkind : request.kind <;> rw [hkind] at hk <;> cases hk
  case loginRequest =>
    refine reading fun body => ?_
    rw [login]
    refine .aside ?_ (by simp)
    split
    · exact hoffer hq rfl
    · exact hq
  case getRoomListRequest => exact reading fun _ => .aside hq (by simp)
  case moveRequest =>
    refine reading fun body => ?_
    rw [move]
    simp only
    split
    · exact .aside (hoffer hq rfl) (by simp)
    · exact .aside hq (by simp)
  case createRoomRequest =>
    refine reading fun body => ?_
    rw [createRoom]
    split
    · exact .aside hq (by simp)
    · exact runs_enter hoffer (hcreate hq) hkind (by rintro _ ⟨⟩; rfl)
  case joinRoomRequest =>
    refine reading fun body => ?_
    rw [joinRoom]
    split
    · exact .aside hq (by simp)
    · split
      · exact runs_enter hoffer hq hkind (by simp)
      · exact .aside hq (by simp)
  case leaveRoomRequest =>
    refine reading fun body => ?_
    rw [leaveRoom]
    split
    · refine .asks hq ?_ hkind ?_
      · exact fun _ => rfl
      · simp
    · exact .aside hq (by simp)

end Context

namespace Turn
variable {p : Nat} (t : Turn p) {c : Context} {request : Envelope}
  {result : Progress × Context × Hub}

theorem work_idle (h : t.taken (.idle c) = some request) : t.work (.idle c) =
    (Service.ofKind? request.kind).map fun service =>
      (request, c.serve t.received (.dispatcher p) t.now service request) := by
  simp only [work, h, Option.bind_eq_bind, Option.bind_some]
  cases Service.ofKind? request.kind <;> rfl

/-- An idle dispatcher works on the request that it takes. -/
theorem serve_of_work (hw : t.work (.idle c) = some (request, result)) :
    t.taken (.idle c) = some request ∧ ∃ service, Service.ofKind? request.kind = some service ∧
      c.serve t.received (.dispatcher p) t.now service request = result := by
  cases ht : t.taken (.idle c) with
  | none => simp [work, ht] at hw
  | some request' =>
    obtain ⟨service, hk, heq⟩ := Option.map_eq_some_iff.mp ((t.work_idle ht).symm.trans hw)
    obtain ⟨rfl, hserve⟩ := Prod.mk.inj heq
    exact ⟨rfl, service, hk, hserve⟩

end Turn

end Lobby
