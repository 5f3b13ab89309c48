import Lobby.Proofs.CarefulServices

/-! The rooms that may list a player without its knowledge. A dispatcher keeps them apart from the
room that the player is in, and forgets one of them only once there is nothing left to settle. -/
namespace Lobby

theorem Hub.Apart.gains {h h' : Hub} {P : Event Ticket → Prop} (ha : h.Apart h') : h.Gains h' P :=
  Hub.gains_of_rooms ha.rooms

namespace Turn
variable {p : Nat} (t : Turn p) {d : Dispatching} {c c' : Context} {request : Envelope}
  {result : Progress × Context × Hub} {pending : Pending}

structure AsksIn (c : Context) (pending : Pending) : Prop where
  errand : pending.errand ≠ .leave
  asks : ∃ hub : Hub, hub.requestJoin (.dispatcher p) pending.wait.room c.replyTimeout t.now c.id
    c.profile = (.waiting pending.wait, (t.step (.idle c)).2.2)

structure Grants (pending : Pending) (id : RoomId) : Prop where
  errand : pending.errand ≠ .leave
  room : t.hub.roomId pending.wait.room = id
  answer : ∃ outcome, t.hub.reply? pending.wait.ticket = some (.answered outcome) ∧
    outcome.ret = .ok

/-- What a turn makes of the rooms that a player's state tells of. -/
structure Settles (d : Dispatching) (c c' : Context) : Prop where
  gains : t.hub.Gains (t.step d).2.2 fun _ => True
  /-- No leave that nobody waits for is queued for a player that is in a room, be it that it was in
  one and has not asked to leave, or that it has come to be in one. -/
  spares : c'.room.isSome ∨ (c.room.isSome ∧ (t.taken d).any Envelope.leaving = false) →
    t.hub.Gains (t.step d).2.2 (· ≠ ⟨c.id, .leave none⟩)
  /-- A room is forgotten once it gets a leave, is no longer registered, or grants a join. -/
  forgets {id : RoomId} : id ∈ c.unconfirmed → id ∉ c'.unconfirmed →
    t.hub.Frees (t.step d).2.2 c.id id ∨
      ∃ pending, d = .busy c pending ∧ t.Grants pending id ∧ c'.room = some id

def Continues (d : Dispatching) (c c' : Context) (pending : Pending) : Prop :=
  (∃ before, d = .busy c before ∧ c' = c ∧ pending.errand = before.errand ∧
      pending.wait.ticket = before.wait.ticket ∧ pending.wait.room = before.wait.room) ∨
    (d = .idle c ∧ (pending.errand ≠ .leave → c'.unconfirmed ⊆ c.unconfirmed ∧ t.AsksIn c pending))

private theorem context?_of_work (hw : t.work d = some (request, result)) :
    (t.next d).context? = some result.2.1 := by
  rw [next, t.step_of_work d hw]
  obtain ⟨progress, c, h⟩ := result
  cases progress <;> rfl

private theorem apart_of_work (hw : t.work d = some (request, result)) :
    result.2.2.Apart (t.step d).2.2 := by
  rw [t.step_of_work d hw]
  obtain ⟨progress, c, h⟩ := result
  cases progress with
  | answered response => exact c.apart_respond h request response
  | _ => exact .refl h

private theorem pending_of_work (hw : t.work d = some (request, result))
    (hb : t.next d = .busy c' pending) :
    result.1 = .pending pending ∧ result.2.1 = c' ∧ (t.step d).2.2 = result.2.2 := by
  rw [next, t.step_of_work d hw] at hb
  rw [t.step_of_work d hw]
  obtain ⟨progress, c, h⟩ := result
  cases progress with
  | answered | unreadable => contradiction
  | pending pending₁ =>
    obtain ⟨rfl, rfl⟩ := Dispatching.busy.inj hb
    exact ⟨rfl, rfl, rfl⟩

private theorem settles_of_apart (ha : t.hub.Apart (t.step d).2.2) : t.Settles d c c :=
  ⟨ha.gains, fun _ => ha.gains, fun hmem hnot => absurd hmem hnot⟩

private theorem settles_idle (ht : c.Tidy) (hw : t.work (.idle c) = some (request, result)) :
    result.2.1.Tidy ∧ t.Settles (.idle c) c result.2.1 ∧
      ∀ pending, t.next (.idle c) = .busy result.2.1 pending →
        result.2.1.room = none ∧ t.Continues (.idle c) c result.2.1 pending := by
  obtain ⟨htaken, service, hk, rfl⟩ := t.serve_of_work hw
  have hcareful : c.Careful t.received (.dispatcher p) t.now request
      (c.serve t.received (.dispatcher p) t.now service request) := Context.careful_serve ht hk
  have hreceived {P : Event Ticket → Prop} : t.hub.Gains t.received P := t.apart_received.gains
  have hsent := t.apart_of_work hw
  refine ⟨hcareful.tidy, ⟨?_, fun hin => ?_, fun hmem hnot => .inl ?_⟩, fun pending hb => ?_⟩
  · exact (hreceived.trans hcareful.gains).trans hsent.gains
  · rw [htaken, Option.any_some] at hin
    exact (hreceived.trans (hcareful.spares hin)).trans hsent.gains
  · have hindex (id : RoomId) : t.received.room? id = t.hub.room? id :=
      congrArg (List.lookup id) t.apart_received.roomIndex
    exact ((hcareful.frees hmem hnot).before (P := fun _ => True) hsent.gains).after
      (P := fun _ => True) hreceived fun r hr => (hindex _).trans hr
  · obtain ⟨hp, -, hhub⟩ := t.pending_of_work hw hb
    obtain ⟨hroom, hasks⟩ := hcareful.waits hp
    refine ⟨hroom, .inr ⟨rfl, fun hne => ?_⟩⟩
    obtain ⟨hsub, hub, hrequest⟩ := hasks hne
    exact ⟨hsub, hne, hub, hhub ▸ hrequest⟩

private theorem settles_busy (ht : c.Tidy) (hroom : c.room = none)
    (hw : t.work (.busy c pending) = some (request, result)) :
    result.2.1.Tidy ∧ t.Settles (.busy c pending) c result.2.1 ∧
      ∀ pending', t.next (.busy c pending) = .busy result.2.1 pending' →
        result.2.1.room = none ∧ t.Continues (.busy c pending) c result.2.1 pending' := by
  obtain ⟨course, rfl, hgains, hok, hwaits⟩ : ∃ course : Course × Hub,
      result = c.follow pending.request pending.errand pending.wait.room course ∧
      t.hub.Gains course.2 (fun _ => True) ∧
      (∀ outcome, course.1 = .ended (.ok outcome) →
        t.hub.reply? pending.wait.ticket = some (.answered outcome) ∧
          course.2 = t.hub.closeReply pending.wait.ticket) ∧
      ∀ w, course.1 = .waiting w → w.ticket = pending.wait.ticket ∧ w.room = pending.wait.room := by
    have hresult := (Prod.mk.inj (Option.some.inj hw)).2
    cases hexp : t.expired with
    | true =>
      rw [if_pos hexp] at hresult
      exact ⟨t.hub.expire pending.wait, hresult.symm, t.hub.gains_expire _,
        by simp [Hub.expire, Hub.conclude], by simp [Hub.expire, Hub.conclude]⟩
    | false =>
      rw [if_neg (by simp [hexp])] at hresult
      exact ⟨t.hub.resume pending.wait t.now, hresult.symm, t.hub.gains_resume _ _,
        fun outcome => Hub.resume_of_ok,
        fun w hw => ⟨t.hub.resume_ticket hw, Hub.resume_room hw⟩⟩
  have hgoes := Context.goesOn_follow hroom ht.once pending.request pending.errand
    pending.wait.room course
  have hsent := t.apart_of_work hw
  refine ⟨hgoes.tidy, ⟨(hgains.trans hgoes.gains).trans hsent.gains, fun hin => ?_,
    fun hmem hnot => .inr ?_⟩, fun pending' hb => ?_⟩
  · -- the answer that lets the player in is all that it takes from the room
    have hin := hin.resolve_right (by simp [hroom])
    obtain ⟨⟨outcome, hout⟩, hsame⟩ := hgoes.entered hin
    have hclosed : t.hub.Gains course.2 (· ≠ ⟨c.id, .leave none⟩) := by
      rw [(hok outcome hout).2]
      exact Hub.gains_of_rooms rfl
    exact (hsame ▸ hclosed).trans hsent.gains
  · obtain ⟨herrand, ⟨outcome, hout, hret⟩, hid, hin⟩ := hgoes.kept hmem hnot
    obtain ⟨hreply, hhub⟩ := hok outcome hout
    rw [hhub] at hid
    exact ⟨pending, rfl, ⟨herrand, hid, outcome, hreply, hret⟩, hin⟩
  · obtain ⟨hp, -, -⟩ := t.pending_of_work hw hb
    obtain ⟨w, hcourse, rfl, hresult⟩ := hgoes.waits hp
    obtain ⟨hticket, hwroom⟩ := hwaits w hcourse
    have hsame := congrArg Prod.fst hresult
    exact ⟨(congrArg Context.room hsame).trans hroom,
      .inl ⟨pending, rfl, hsame, rfl, hticket, hwroom⟩⟩

/-- Each turn leaves the player's state tidy and settles what it forgets. -/
theorem settles (hc : d.context? = some c) (ht : c.Tidy)
    (hbusy : ∀ pending, d = .busy c pending → c.room = none) :
    ∃ c', (t.next d).context? = some c' ∧ c'.Tidy ∧ t.Settles d c c' ∧
      ∀ pending, t.next d = .busy c' pending → c'.room = none ∧ t.Continues d c c' pending := by
  cases hw : t.work d with
  | none =>
    have idles (hsame : (t.next d).context? = some c) (ha : t.hub.Apart (t.step d).2.2)
        (hnot : ∀ c pending, t.next d ≠ .busy c pending) :
        ∃ c', (t.next d).context? = some c' ∧ c'.Tidy ∧ t.Settles d c c' ∧
          ∀ pending, t.next d = .busy c' pending → c'.room = none ∧ t.Continues d c c' pending :=
      ⟨c, hsame, ht, t.settles_of_apart ha, fun pending hb => absurd hb (hnot c pending)⟩
    have hfree : ∀ c pending, d ≠ .busy c pending := by
      rintro c pending rfl
      contradiction
    rcases t.step_of_no_work d hw with ⟨hstep, -⟩ | ⟨-, hstep | ⟨c₁, rfl, hstep⟩⟩
    · refine idles ?_ ?_ ?_ <;> simp only [next, hstep]
      · exact hc
      · exact t.apart_received
      · exact hfree
    · refine idles ?_ ?_ ?_ <;> simp only [next, hstep]
      · exact hc
      · exact .refl _
      · exact hfree
    · refine idles ?_ ?_ ?_ <;> simp only [next, hstep]
      · exact hc
      · exact t.hub.apart_endDuty p
      · simp [Session.endDispatcher]
  | some work =>
    obtain ⟨request, result⟩ := work
    refine ⟨result.2.1, t.context?_of_work hw, ?_⟩
    cases d with
    | ended => contradiction
    | idle c₁ =>
      obtain rfl := Option.some.inj hc
      exact t.settles_idle ht hw
    | busy c₁ pending =>
      obtain rfl := Option.some.inj hc
      exact t.settles_busy ht (hbusy pending rfl) hw

end Turn

namespace Dispatching
variable {p : Nat} {start : Dispatching} {turns : List (Turn p)} {c : Context}

/-- The dispatcher waits for a room that it has asked in at an earlier turn, when the player knew of
all the unsettled rooms that it knows of now. -/
structure Asked (start : Dispatching) (turns : List (Turn p)) (c : Context) (pending : Pending) :
    Prop where
  turn : ∃ (before : List (Turn p)) (t : Turn p) (between : List (Turn p)) (earlier : Context)
    (first : Pending), turns = before ++ t :: between ∧ start.after before = .idle earlier ∧
      c.unconfirmed ⊆ earlier.unconfirmed ∧ t.AsksIn earlier first ∧
      first.wait.ticket = pending.wait.ticket ∧ first.wait.room = pending.wait.room

structure Tracks (start : Dispatching) (turns : List (Turn p)) (c : Context) : Prop where
  context : (start.after turns).context? = some c
  tidy : c.Tidy
  outside {pending : Pending} : start.after turns = .busy c pending → c.room = none
  asked {pending : Pending} : start.after turns = .busy c pending → pending.errand ≠ .leave →
    start.Asked turns c pending

theorem after_concat (start : Dispatching) (turns : List (Turn p)) (t : Turn p) :
    start.after (turns ++ [t]) = t.next (start.after turns) := by
  rw [after, after, List.foldl_append]
  rfl

theorem Tracks.next (hk : start.Tracks turns c) (t : Turn p) :
    ∃ c', start.Tracks (turns ++ [t]) c' ∧ t.Settles (start.after turns) c c' := by
  obtain ⟨c', hc', htidy, hsettles, hbusy⟩ :=
    t.settles hk.context hk.tidy fun pending hb => hk.outside hb
  rw [← after_concat] at hc' hbusy
  refine ⟨c', ⟨hc', htidy, fun hb => (hbusy _ hb).1, fun {pending} hb hne => ?_⟩, hsettles⟩
  rcases (hbusy pending hb).2 with
    ⟨before, hbefore, rfl, herrand, hticket, hroom⟩ | ⟨hidle, hasks⟩
  · obtain ⟨earlierTurns, t₀, between, earlier, first, hsplit, hidle, hsub, hasks, hfirst⟩ :=
      (hk.asked hbefore (herrand ▸ hne)).turn
    refine ⟨earlierTurns, t₀, between ++ [t], earlier, first, by simp [hsplit], hidle, hsub, hasks,
      ?_⟩
    rwa [hticket, hroom]
  · obtain ⟨hsub, hasks⟩ := hasks hne
    exact ⟨turns, t, [], c, pending, rfl, hidle, hsub, hasks, rfl, rfl⟩

theorem Tracks.run (hk : start.Tracks ([] : List (Turn p)) c) (turns : List (Turn p)) :
    ∃ c', start.Tracks turns c' := by
  induction turns using List.reverseRecOn with
  | nil => exact ⟨c, hk⟩
  | append_singleton turns t ih =>
    obtain ⟨c', hk'⟩ := ih
    obtain ⟨c'', hk'', -⟩ := hk'.next t
    exact ⟨c'', hk''⟩

/-- A player's unsettled rooms are tracked. Whatever the dispatcher finds at its turns, it knows of
no unsettled room twice, nor of the player's own room as unsettled. And each turn from then on
settles what it forgets, and spares the room that the player is in. -/
theorem unsettled_rooms_tracked (id : PlayerId) (name : String) (position : Position)
    (outbox replyTimeout : Nat) (turns : List (Turn p)) :
    let start := Dispatching.idle { id, name, position, outbox, replyTimeout }
    ∃ c, start.Tracks turns c ∧ c.memberships = c.room.toList ++ c.unconfirmed ∧
      c.memberships.Nodup ∧
      ∀ t : Turn p, ∃ c', start.Tracks (turns ++ [t]) c' ∧ t.Settles (start.after turns) c c' := by
  intro start
  have hstart : start.Tracks ([] : List (Turn p)) { id, name, position, outbox, replyTimeout } := by
    refine ⟨rfl, Context.tidy_of_outside rfl List.nodup_nil, ?_, ?_⟩
    · exact fun _ => rfl
    · rintro pending ⟨⟩
  obtain ⟨c, hk⟩ := hstart.run turns
  obtain ⟨hmemberships, hnodup⟩ := hk.tidy.memberships_eq
  exact ⟨c, hk, hmemberships, hnodup, hk.next⟩

end Dispatching

end Lobby
