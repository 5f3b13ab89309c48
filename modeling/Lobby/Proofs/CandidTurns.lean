import Lobby.Proofs.GrantedServices

/-! What the turns of a dispatcher tell its client. After each the player is in the room that the
answer grants, if it grants one, and otherwise where it was or nowhere. -/
namespace Lobby

structure Pending.Fits (pending : Pending) (h : Hub) : Prop where
  kind : pending.request.kind = pending.errand.kind
  cell : ∃ cell, h.rooms[pending.wait.room]? = some cell
  created {created : RoomSnapshot} : pending.errand = .create created →
    created.id = h.roomId pending.wait.room
  told {outcome : Outcome} : h.reply? pending.wait.ticket = some (.answered outcome) →
    outcome.room.id = h.roomId pending.wait.room

/-- A player whose request a room has answered is told of that room, and is in it if that is
granted. -/
theorem Context.follow_of_outcome (c : Context) {pending : Pending} {h h' : Hub}
    (hf : pending.Fits h) (hid : h'.roomId pending.wait.room = h.roomId pending.wait.room)
    {outcome : Outcome} (ha : h.reply? pending.wait.ticket = some (.answered outcome)) :
    ∃ c' h'' response,
      c.follow pending.request pending.errand pending.wait.room (.ended (.ok outcome), h') =
        (.answered response, c', h'') ∧
      c'.room = (response.grants? pending.request).getD c.room := by
  obtain ⟨request, errand, w⟩ := pending
  have hkind : request.kind = errand.kind := hf.kind
  have hroom : (c.concludeJoin h' w.room (.ok outcome)).1.room =
      if outcome.ret = .ok then some (h.roomId w.room) else c.room := by
    rw [concludeJoin, ← hid]
    split <;> rfl
  refine ⟨_, _, _, rfl, ?_⟩
  cases errand with
  | create created =>
    have hcreated : created.id = h.roomId w.room := hf.created rfl
    refine hroom.trans ?_
    simp only [errandResponse, Response.code, Response.grants?, Envelope.entering, hkind,
      Errand.kind]
    split <;> simp [*]
  | join =>
    have htold : outcome.room.id = h.roomId w.room := hf.told ha
    refine hroom.trans ?_
    simp only [errandResponse, Response.code, Response.grants?, Envelope.entering, hkind,
      Errand.kind]
    split <;> simp [*]
  | leave =>
    rw [Response.grants_of_not_entering (by simp [Envelope.entering, hkind, Errand.kind])]
    rfl

namespace Turn
variable {p : Nat} (t : Turn p) (d : Dispatching)

def answered : Option (Envelope × Response) :=
  match t.work d with
  | some (request, .answered response, _) => some (request, response)
  | _ => none

/-- What the turn tells a client of its room, if it tells anything. A request to leave that can be
read ends its stay, and an answer that grants a create or a join begins one in the room that it
carries. -/
def tells : Option (Option RoomId) :=
  if (t.taken d).any Envelope.leaving then some none
  else (t.answered d).bind fun answer => answer.2.grants? answer.1

def roomAfter : Option (Option RoomId) := (t.next d).context?.map (·.room)

variable {d} {c : Context} {request : Envelope} {result : Progress × Context × Hub}

private theorem roomAfter_of_work
    (hw : t.work d = some (request, result)) : t.roomAfter d = some result.2.1.room := by
  rw [roomAfter, next, t.step_of_work d hw]
  obtain ⟨progress, c, h⟩ := result
  cases progress <;> rfl

private theorem answered_of_work {progress : Progress} {c' : Context} {h : Hub}
    (hw : t.work d = some (request, progress, c', h)) {answer : Envelope × Response} :
    t.answered d = some answer ↔ answer.1 = request ∧ progress = .answered answer.2 := by
  rw [answered, hw]
  obtain ⟨request', response'⟩ := answer
  cases progress <;> simp [eq_comm]

/-- An answer that grants nothing tells nothing. -/
private theorem no_grant {room : Option RoomId}
    (hw : t.work d = some (request, result)) (hh : Context.Holds room request result) :
    ((t.answered d).bind fun answer => answer.2.grants? answer.1) = none := by
  cases ha : t.answered d with
  | none => rfl
  | some answer =>
    obtain ⟨hrequest, hprogress⟩ := (t.answered_of_work hw).mp ha
    rw [Option.bind_some, hrequest]
    exact hh.response hprogress

private theorem roomAfter_of_no_work (hc : d.context? = some c) (hw : t.work d = none) :
    t.roomAfter d = some c.room := by
  rw [roomAfter, next]
  rcases t.step_of_no_work d hw with ⟨hstep, -⟩ | ⟨-, hstep | ⟨c', rfl, hstep⟩⟩ <;> rw [hstep]
  · exact congrArg (Option.map Context.room) hc
  · exact congrArg (Option.map Context.room) hc
  · obtain rfl := Option.some.inj hc
    rfl

private theorem tells_of_no_work (hw : t.work d = none) : t.tells d = none := by
  rw [tells, answered, hw]
  simp only [Option.bind_none, ite_eq_right_iff]
  intro hleaving
  obtain ⟨request, ht, hl⟩ := Option.any_eq_true _ _ |>.mp hleaving
  cases d with
  | busy | ended => contradiction
  | idle c =>
    -- requests to leave are served
    rw [t.work_idle ht, Option.map_eq_none_iff] at hw
    simp only [Envelope.leaving, Bool.and_eq_true, decide_eq_true_eq] at hl
    simp [hl.1, Service.ofKind?] at hw

private theorem roomAfter_of_holds {room : Option RoomId}
    (hw : t.work d = some (request, result)) (hh : Context.Holds room request result) :
    t.roomAfter d = some room ∧ t.tells d = if (t.taken d).any Envelope.leaving then some none
      else none := by
  rw [t.roomAfter_of_work hw, hh.room, tells, t.no_grant hw hh]
  exact ⟨rfl, rfl⟩

private theorem roomAfter_idle (hw : t.work (.idle c) = some (request, result)) :
    t.roomAfter (.idle c) = some ((t.tells (.idle c)).getD c.room) := by
  obtain ⟨ht, service, hk, rfl⟩ := t.serve_of_work hw
  have hh := Context.holds_serve c t.received (.dispatcher p) t.now hk
  obtain ⟨hroom, htells⟩ := t.roomAfter_of_holds hw hh
  rw [hroom, htells, ht, Option.any_some]
  split <;> rfl

private theorem roomAfter_busy {pending : Pending} (hfits : pending.Fits t.hub) :
    t.roomAfter (.busy c pending) = some ((t.tells (.busy c pending)).getD c.room) := by
  have hw : t.work (.busy c pending) = some (pending.request,
      if t.expired then t.lapse c pending else c.resume t.hub t.now pending) := rfl
  have quiet (hh : Context.Holds c.room pending.request
      (if t.expired then t.lapse c pending else c.resume t.hub t.now pending)) :
      t.roomAfter (.busy c pending) = some ((t.tells (.busy c pending)).getD c.room) := by
    obtain ⟨hroom, htells⟩ := t.roomAfter_of_holds hw hh
    rw [hroom, htells]
    rfl
  cases hexp : t.expired with
  | true =>
    apply quiet
    rw [if_pos hexp]
    exact Context.holds_follow c _ _ _ (by simp [Hub.expire, Hub.conclude])
  | false =>
    by_cases hout : ∃ outcome, (t.hub.resume pending.wait t.now).1 = .ended (.ok outcome)
    · obtain ⟨outcome, hout⟩ := hout
      have hb : t.hub.Brings (fun _ _ => True) (fun _ _ => True)
          (t.hub.resume pending.wait t.now).2 := (Hub.Brings.refl _ _ _).resume _ _
      obtain ⟨cell, hc⟩ := hfits.cell
      obtain ⟨c', h', response, hfollow, hroom⟩ := c.follow_of_outcome hfits (hb.roomId hc)
        (Hub.answered_of_resume hout)
      rw [if_neg (by simp [hexp]), Context.resume, ← Prod.mk.eta (p := t.hub.resume _ _), hout,
        hfollow] at hw
      have ha : t.answered (.busy c pending) = some (pending.request, response) :=
        (t.answered_of_work hw).mpr ⟨rfl, rfl⟩
      rw [t.roomAfter_of_work hw, tells, ha]
      exact congrArg some hroom
    · apply quiet
      rw [if_neg (by simp [hexp])]
      exact Context.holds_follow c _ _ _ (not_exists.mp hout)

/-- What a turn tells the client is where it leaves the player, and a turn that tells nothing leaves
it where it was. -/
theorem roomAfter_eq (hc : d.context? = some c)
    (hfits : ∀ pending, d = .busy c pending → pending.Fits t.hub) :
    t.roomAfter d = some ((t.tells d).getD c.room) := by
  cases hw : t.work d with
  | none =>
    rw [t.roomAfter_of_no_work hc hw, t.tells_of_no_work hw]
    rfl
  | some work =>
    obtain ⟨request, result⟩ := work
    cases d with
    | ended => contradiction
    | idle c' =>
      obtain rfl := Option.some.inj hc
      exact t.roomAfter_idle hw
    | busy c' pending =>
      obtain rfl := Option.some.inj hc
      exact t.roomAfter_busy (hfits pending rfl)

/-- What is answered at once is what has been taken. -/
private theorem request_of_answered {answer : Envelope × Response}
    (ht : t.taken d = some request) (ha : t.answered d = some answer) : answer.1 = request := by
  cases d with
  | busy | ended => contradiction
  | idle c =>
    cases hk : Service.ofKind? request.kind with
    | none => simp [answered, t.work_idle ht, hk] at ha
    | some service =>
      have hw := t.work_idle ht
      rw [hk, Option.map_some] at hw
      exact ((t.answered_of_work hw).mp ha).1

/-- An answer that grants a create or a join comes from a room, and carries one. -/
private theorem answered_granted {body : RoomResponse}
    (ha : t.answered d = some (request, .room body)) (hin : request.entering = true)
    (hok : body.ret = .ok) : t.taken d = none ∧ body.room.isSome := by
  cases hw : t.work d with
  | none => simp [answered, hw] at ha
  | some work =>
    obtain ⟨request', progress, c', h⟩ := work
    obtain ⟨rfl, hp⟩ := (t.answered_of_work hw).mp ha
    cases d with
    | ended => contradiction
    | idle c =>
      obtain ⟨-, service, hk, hserve⟩ := t.serve_of_work hw
      have hh := Context.holds_serve c t.received (.dispatcher p) t.now hk
      rw [hserve] at hh
      have hnone := hh.response hp
      simp [Response.grants?, hin, hok] at hnone
    | busy c pending =>
      have hresult := (Prod.mk.inj (Option.some.inj hw)).2
      refine ⟨rfl, ?_⟩
      have hfst : (if t.expired then t.lapse c pending else c.resume t.hub t.now pending).1 =
          .answered (.room body) := (congrArg Prod.fst hresult).trans hp
      split at hfst
      · exact Context.follow_granted hfst hok
      · exact Context.follow_granted hfst hok

/-- What holds of a turn that finds the player's state to be `c`. -/
structure Candid (d : Dispatching) (c : Context) : Prop where
  /-- The turn leaves the player where it tells the client, or where it was. -/
  room : t.roomAfter d = some ((t.tells d).getD c.room)
  granted {request : Envelope} {body : RoomResponse} :
    t.answered d = some (request, .room body) → request.entering = true → body.ret = .ok →
      ∃ room, body.room = some room ∧ t.roomAfter d = some (some room.id)
  refused {request : Envelope} {body : RoomResponse} :
    t.answered d = some (request, .room body) → request.entering = true → body.ret ≠ .ok →
      t.roomAfter d = some c.room
  /-- A player that is in a room already is told so, and rooms, their identities and requests are
  left alone. -/
  occupied {request : Envelope} : t.taken d = some request → request.entering = true →
    request.answerable = true → c.room.isSome →
      t.answered d = some (request, .code .playerAlreadyInRoom none) ∧
        ∃ players outboxes signals,
          (t.step d).2.2 = { t.hub with players, outboxes, signals }
  others {request : Envelope} : t.taken d = some request →
    request.kind ∈ [.loginRequest, .getRoomListRequest, .moveRequest] →
      t.roomAfter d = some c.room

private theorem not_leaving_of_entering (hin : request.entering = true) :
    request.leaving = false := by
  rw [Envelope.entering] at hin
  rw [Envelope.leaving]
  cases hk : request.kind <;> simp [hk] at hin ⊢

private theorem exists_respond (c : Context) (h : Hub) (request : Envelope) (response : Response) :
    ∃ outboxes signals, (c.respond h request response).2 = { h with outboxes, signals } := by
  rw [Context.respond]
  split
  · rename_i message _
    have hpost : ∃ outboxes signals,
        (h.post c.outbox message).2 = { h with outboxes, signals } := by
      rw [Hub.post]
      split <;> exact ⟨_, _, rfl⟩
    generalize h.post c.outbox message = result at hpost ⊢
    obtain ⟨_ | _, h'⟩ := result <;> exact hpost
  · exact ⟨_, _, rfl⟩

private theorem occupied_turn (hc : d.context? = some c) (ht : t.taken d = some request)
    (hin : request.entering = true) (hread : request.answerable = true) (hroom : c.room.isSome) :
    t.answered d = some (request, .code .playerAlreadyInRoom none) ∧
      ∃ players outboxes signals, (t.step d).2.2 = { t.hub with players, outboxes, signals } := by
  cases d with
  | busy | ended => contradiction
  | idle c' =>
    obtain rfl := Option.some.inj hc
    obtain ⟨service, hk⟩ : ∃ service, Service.ofKind? request.kind = some service := by
      rw [Envelope.entering] at hin
      cases hk : request.kind <;> simp [hk] at hin <;> exact ⟨_, rfl⟩
    have hw := t.work_idle ht
    rw [hk, Option.map_some, Context.serve_occupied _ _ _ hk hin hread hroom] at hw
    refine ⟨(t.answered_of_work hw).mpr ⟨rfl, rfl⟩, ?_⟩
    rw [t.step_of_work _ hw]
    obtain ⟨signals, hreceived⟩ := t.received_eq
    obtain ⟨outboxes, signals', hrespond⟩ :=
      exists_respond c' t.received request (.code .playerAlreadyInRoom none)
    refine ⟨t.received.players, outboxes, signals', hrespond.trans ?_⟩
    rw [hreceived]
    rfl

theorem candid (hc : d.context? = some c)
    (hfits : ∀ pending, d = .busy c pending → pending.Fits t.hub) : t.Candid d c := by
  have hroom := t.roomAfter_eq hc hfits
  refine ⟨hroom, ?_, ?_, t.occupied_turn hc, ?_⟩
  · intro request body ha hin hok
    obtain ⟨ht, hsome⟩ := t.answered_granted ha hin hok
    obtain ⟨room, hr⟩ := Option.isSome_iff_exists.mp hsome
    refine ⟨room, hr, ?_⟩
    rw [hroom, tells, ht, ha]
    simp [Response.grants?, hin, hok, hr]
  · intro request body ha hin hret
    have hnone : Response.grants? request (.room body) = none := by simp [Response.grants?, hret]
    have htells : t.tells d = none := by
      rw [tells, ha, Option.bind_some, hnone, ite_eq_right_iff]
      intro hleaving
      -- what is taken and answered at one turn is no leave
      obtain ⟨request', ht, hl⟩ := Option.any_eq_true _ _ |>.mp hleaving
      obtain rfl := t.request_of_answered ht ha
      simp [not_leaving_of_entering hin] at hl
    rw [hroom, htells]
    rfl
  · intro request ht hkind
    obtain ⟨hleaving, hentering⟩ : request.leaving = false ∧ request.entering = false := by
      simp only [List.mem_cons, List.not_mem_nil, or_false] at hkind
      rcases hkind with hk | hk | hk <;> simp [Envelope.leaving, Envelope.entering, hk]
    have htells : t.tells d = none := by
      rw [tells, ht, Option.any_some, if_neg (by simp [hleaving]), Option.bind_eq_none_iff]
      intro answer ha
      rw [t.request_of_answered ht ha]
      exact Response.grants_of_not_entering hentering
    rw [hroom, htells]
    rfl

/-- A dispatcher that waits after a turn has waited before, or has made its request at the turn. -/
theorem busy_cases {c' : Context} {pending : Pending} (hb : t.next d = .busy c' pending)
    (A : Ticket → Outcome → Prop) :
    (∃ c before, d = .busy c before ∧ pending.request = before.request ∧
      pending.errand = before.errand ∧ pending.wait.ticket = before.wait.ticket ∧
      pending.wait.room = before.wait.room) ∨
    ∃ c hub, d = .idle c ∧ t.hub.Brings (fun _ _ => True) A hub ∧
      pending.Begins (.dispatcher p) hub (t.step d).2.2 := by
  rw [next] at hb
  cases hw : t.work d with
  | none =>
    rcases t.step_of_no_work d hw with ⟨hstep, -⟩ | ⟨-, hstep | ⟨c, rfl, hstep⟩⟩ <;>
      rw [hstep] at hb
    · obtain rfl : d = .busy c' pending := hb
      contradiction
    · obtain rfl : d = .busy c' pending := hb
      contradiction
    · contradiction
  | some work =>
    obtain ⟨request, progress, c₁, h⟩ := work
    rw [t.step_of_work d hw] at hb ⊢
    cases progress with
    | answered | unreadable => contradiction
    | pending pending₁ =>
      obtain ⟨rfl, rfl⟩ := Dispatching.busy.inj hb
      cases d with
      | ended => contradiction
      | idle c =>
        obtain ⟨-, service, hk, hserve⟩ := t.serve_of_work hw
        obtain ⟨hub, hbrings, hbegins⟩ := Context.begins_serve hk (congrArg Prod.fst hserve) A
        rw [hserve] at hbegins
        have hreceived : t.hub.Brings (fun _ _ => True) A t.received :=
          (Hub.Brings.refl _ _ t.hub).apart t.apart_received
        exact .inr ⟨c, hub, rfl, hreceived.trans hbrings, hbegins⟩
      | busy c before =>
        have hresult := Prod.mk.inj (Option.some.inj hw)
        refine .inl ⟨c, before, rfl, ?_⟩
        have hp : (if t.expired then t.lapse c before else c.resume t.hub t.now before).1 =
            .pending pending₁ := congrArg Prod.fst hresult.2
        split at hp
        · simp [lapse, Hub.expire, Hub.conclude, Context.follow] at hp
        · rw [Context.resume] at hp
          rcases hcourse : t.hub.resume before.wait t.now with ⟨w | answer, h'⟩ <;>
            rw [hcourse] at hp
          · obtain rfl := Progress.pending.inj hp
            have hfst := congrArg Prod.fst hcourse
            exact ⟨rfl, rfl, Hub.resume_ticket _ hfst, Hub.resume_room hfst⟩
          · contradiction

end Turn

end Lobby
