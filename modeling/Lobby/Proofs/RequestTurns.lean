import Lobby.Proofs.EventMovements

/-! Where the answers to requests come from. Only a room that handles an event answers it, and only
the turns of a session's dispatcher and supervisor make requests in its name. -/
namespace Lobby

namespace Hub
variable {h h' : Hub} {r : Nat} {cell : RoomCell}

/-- An answer that a room gives when it handles an event. -/
def Gives (h : Hub) (listener : Ticket → Listener) (r : Nat) (e : Event Ticket) (t : Ticket)
    (outcome : Outcome) : Prop :=
  ∃ cell room effects, h.rooms[r]? = some cell ∧
    cell.room.handle h.reactions listener h.player? e = some (room, effects) ∧
    .answer t outcome ∈ effects

/-- Whatever its reactions, a room answers an event's own requester, and shows it itself. -/
theorem Gives.of_room {listener : Ticket → Listener} {e : Event Ticket} {t : Ticket}
    {outcome : Outcome} (hg : h.Gives listener r e t outcome) (hc : h.rooms[r]? = some cell) :
    e.reply? = some t ∧ outcome.room.id = cell.room.id := by
  obtain ⟨cell', room, effects, hc', hhandle, hmem⟩ := hg
  obtain rfl := Option.some.inj (hc.symm.trans hc')
  let o : Occasion Ticket := ⟨e, listener, h.player?⟩
  rw [Room.handle] at hhandle
  split at hhandle
  · rename_i kind _
    by_cases hk : kind = e.kind
    · subst hk
      obtain rfl : cell.room.effects o = effects := congrArg Prod.snd (Option.some.inj hhandle)
      obtain ⟨hreply, hroom⟩ := cell.room.answer_of_mem_effects o hmem
      refine ⟨hreply, ?_⟩
      rw [hroom]
      exact (cell.room.meet_keeps o).1
    · -- an event of another kind is not answered
      have hnone : (cell.room.react kind listener h.player? e).2 = [] := by
        obtain ⟨player, body⟩ := e
        cases kind <;> cases body <;> first | rfl | exact absurd rfl hk
      obtain rfl := congrArg Prod.snd (Option.some.inj hhandle)
      rw [hnone] at hmem
      contradiction
  · contradiction
  · obtain rfl := congrArg Prod.snd (Option.some.inj hhandle)
    contradiction

/-- No answers come of an event but those that its room gives. -/
theorem brings_handleEvent (N : Nat → Event Ticket → Prop) (h : Hub) (listener : Ticket → Listener)
    (r : Nat) (e : Event Ticket) :
    h.Brings N (h.Gives listener r e) (h.handleEvent listener r e) := by
  have hb : h.Brings N (h.Gives listener r e) h := .refl _ _ h
  rw [handleEvent]
  split
  · rename_i cell hc
    split
    · rename_i room effects hr
      have hset : h.Brings N (h.Gives listener r e) (h.setRoom r { cell with room }) :=
        hb.setRoom hc (Room.header_handle hr) fun _ => .inl
      apply Brings.discardEvent
      exact hset.applyAll fun t outcome ha => ⟨cell, room, effects, hc, hr, ha⟩
    · exact (hb.discardEvent e).stopRoom r
  · exact hb

/-- Taking an event touches nothing but the mailbox that it comes from. -/
theorem parts_of_takeEvent {e : Event Ticket} (ht : h.takeEvent? r = some (e, h')) :
    ∃ cell events signals, h.rooms[r]? = some cell ∧ e ∈ cell.events.pile ∧
      (∀ e' ∈ events.pile, e' ∈ cell.events.pile) ∧
      h' = { h.setRoom r { cell with events } with signals } := by
  obtain ⟨cell, next, events, signals, hc, -, hr, rfl⟩ := exists_of_drawEvent ht
  have hpile : ∀ e' ∈ events.pile, e' ∈ cell.events.pile := by
    intro e' he'
    exact Mailbox.mem_pile_receive (by rw [hr]; exact he')
  exact ⟨cell, events, signals, hc, Mailbox.mem_pile_of_received hr, hpile, rfl⟩

theorem brings_takeEvent {e : Event Ticket} (N : Nat → Event Ticket → Prop)
    (A : Ticket → Outcome → Prop) (ht : h.takeEvent? r = some (e, h')) : h.Brings N A h' := by
  obtain ⟨cell, events, signals, hc, -, hpile, rfl⟩ := parts_of_takeEvent ht
  have hset : h.Brings N A (h.setRoom r { cell with events }) :=
    (Brings.refl N A h).setEvents hc hpile
  exact hset.of_rooms rfl rfl (Nat.le_refl _) fun _ _ => .inl

theorem holds_of_takeEvent {e : Event Ticket} (ht : h.takeEvent? r = some (e, h')) :
    h.Holds r e := by
  obtain ⟨cell, events, signals, hc, he, -⟩ := parts_of_takeEvent ht
  exact ⟨cell, hc, he⟩

/-- A room's turn is spent on the event that it takes. Without one the room does nothing, or
stops. -/
theorem stepRoom_cases (h : Hub) (r : Nat) :
    (∃ e h', h.takeEvent? r = some (e, h') ∧
      (h.stepRoom r).2 = h'.handleEvent h'.listener r e) ∨
      h.takeEvent? r = none ∧ ((h.stepRoom r).2 = h ∨ (h.stepRoom r).2 = h.stopRoom r) := by
  rw [stepRoom, takeEvent?, drawEvent?]
  cases hc : h.rooms[r]? with
  | none => exact .inr ⟨rfl, .inl rfl⟩
  | some cell =>
    simp only
    cases hstopped : cell.stopped with
    | true => exact .inr ⟨rfl, .inl rfl⟩
    | false =>
      cases hcancelled : cell.cancelled with
      | true => exact .inr ⟨rfl, .inr rfl⟩
      | false =>
        simp only [Bool.or_self, Bool.false_eq_true, if_false]
        rcases cell.events.receive with ⟨_ | _ | _, next, events⟩
        · exact .inl ⟨_, _, rfl, rfl⟩
        · exact .inr ⟨rfl, .inl rfl⟩
        · exact .inr ⟨rfl, .inr rfl⟩

section
variable {owner : Task} {timeout now : Nat} {event : Ticket → Event Ticket} {w w' : Wait}

private theorem awaitAnswer_cases (hw : (h.awaitAnswer w now).1 = .waiting w') :
    ∃ turn, w' = { w with stage := .answer, began := now, turn } := by
  rw [awaitAnswer] at hw
  simp only at hw
  split at hw
  · contradiction
  · exact ⟨_, (Course.waiting.inj hw).symm⟩

/-- A request waits for the room that it was made to, under the next ticket. -/
theorem exists_of_request_waiting (hw : (h.request owner r timeout now event).1 = .waiting w) :
    w.room = r ∧ w.ticket = ⟨owner, h.nextSerial⟩ ∧ ∃ cell, h.rooms[r]? = some cell := by
  rw [request] at hw
  simp only [freshSerial] at hw
  split at hw
  · rename_i cell hc
    split at hw
    · obtain ⟨turn, rfl⟩ := awaitAnswer_cases hw
      exact ⟨rfl, rfl, cell, hc⟩
    · split at hw
      · contradiction
      · obtain rfl := Course.waiting.inj hw
        exact ⟨rfl, rfl, cell, hc⟩
    · contradiction
  · contradiction

/-- A request goes on as it is as long as its stage has time, or goes on from its slot to the
answer. -/
theorem resume_cases (hw : (h.resume w now).1 = .waiting w') :
    w' = w ∧ now < w.deadline ∨
      w.stage = .slot ∧ ∃ turn, w' = { w with stage := .answer, began := now, turn } := by
  have late (hw : (if w.deadline ≤ now then h.expire w else (.waiting w, h)).1 = .waiting w') :
      w' = w ∧ now < w.deadline := by
    split at hw
    · contradiction
    · exact ⟨(Course.waiting.inj hw).symm, Nat.lt_of_not_le ‹_›⟩
  rw [resume] at hw
  split at hw
  · rename_i hstage
    split at hw
    · split at hw
      · exact .inr ⟨hstage, awaitAnswer_cases hw⟩
      · contradiction
      · exact .inl (late hw)
    · contradiction
  · split at hw
    · contradiction
    · exact .inl (late hw)
    · contradiction

theorem resume_room (hw : (h.resume w now).1 = .waiting w') : w'.room = w.room := by
  rcases resume_cases hw with ⟨rfl, -⟩ | ⟨-, turn, rfl⟩ <;> rfl

/-- Only the event of a request bears the ticket of the request. -/
theorem holds_request {q : Nat} {e : Event Ticket}
    (hn : ∀ {q e t}, h.Holds q e → e.reply? = some t → t.serial < h.nextSerial)
    (he : ∀ t, (event t).reply? = some t)
    (hh : (h.request owner r timeout now event).2.Holds q e)
    (ht : e.reply? = some ⟨owner, h.nextSerial⟩) : q = r ∧ e = event ⟨owner, h.nextSerial⟩ := by
  have hb : h.Brings (fun q e => q = r ∧ e = event ⟨owner, h.nextSerial⟩) (fun _ _ => True)
      (h.request owner r timeout now event).2 :=
    (Brings.refl _ _ h).request owner r timeout now he ⟨rfl, rfl⟩
  rcases hb.holds hh ht with hh | ⟨-, -, hnew⟩
  · exact absurd (hn hh ht) (Nat.lt_irrefl _)
  · exact hnew

/-- Nobody has an answer before the room has turned to the request. -/
theorem not_answered_request {outcome : Outcome}
    (hn : ∀ {t outcome}, h.reply? t = some (.answered outcome) → t.serial < h.nextSerial)
    (he : ∀ t, (event t).reply? = some t) :
    (h.request owner r timeout now event).2.reply? ⟨owner, h.nextSerial⟩ ≠
      some (.answered outcome) := by
  intro ha
  have hb : h.Brings (fun _ _ => True) (fun _ _ => False)
      (h.request owner r timeout now event).2 :=
    (Brings.refl _ _ h).request owner r timeout now he trivial
  exact (hb.answered ha).elim (fun ha => absurd (hn ha) (Nat.lt_irrefl _)) id

end

/-- Nobody but rooms brings answers, and tasks make requests in their own names. -/
theorem enduring_brings {owner : Task}
    (hN : ∀ r e t, e.reply? = some t → t.owner = owner → N r e) (player : PlayerId)
    (A : Ticket → Outcome → Prop) (h : Hub) : Enduring player owner (h.Brings N A ·) where
  offer hb _ he := hb.offerEvent _ he
  request hb he := hb.request _ _ _ _ (fun t => (he t).2) (hN _ _ _ (he _).2 rfl)
  resume hb _ := hb.resume _ _
  expire hb _ := hb.expire _
  create hb := hb.createRoom _
  apart hb ha := hb.apart ha

end Hub

namespace Session
variable {s : Session} {h : Hub} {n : Nat} {Q : Hub → Prop}

private theorem apart_hear (s : Session) (h : Hub) (n : Nat) (e : Envelope) :
    h.Apart (s.hear h n e).2.2 := by
  have hstay : s.Alike s := ⟨rfl, rfl, rfl, rfl⟩
  rw [hear]
  split
  · exact .refl h
  · split
    · split
      · exact (aside_endReader hstay (.refl h)).hub
      · exact (aside_deliver hstay _ e).hub
    · exact .refl h

private theorem apart_drain (s : Session) (h : Hub) (n : Nat) : h.Apart (s.drain h n).2.2 := by
  rw [drain]
  split
  · exact .refl h
  · split
    · exact h.apart_endDuty n
    · split
      · exact h.apart_endDuty n
      · split
        · exact ⟨rfl, rfl, rfl, rfl, Nat.le_refl _⟩
        · exact .refl h
        · exact h.apart_endDuty n

private theorem apart_mute (s : Session) (h : Hub) (n : Nat) : h.Apart (s.mute h n).2.2 := by
  rw [mute]
  split
  · exact .refl h
  · exact h.apart_endDuty n

def turn? (s : Session) (h : Hub) (n : Nat) (act : Act) : Option (Turn n) :=
  match hp : h.players[n]? with
  | some _ =>
    match act, s.dispatching with
    | .dispatch now, _ => some (s.turn hp now)
    | .lapse, .busy .. => some (s.lastTurn hp)
    | _, _ => none
  | none => none

theorem Sound.perform_of_turn (hs : s.Sound n) {t : Turn n} {act : Act}
    (ht : s.turn? h n act = some t) :
    t.session = s ∧ t.hub = h ∧ s.perform h n act = t.step s.dispatching := by
  rw [turn?] at ht
  split at ht
  · rename_i cell hp
    split at ht
    · obtain rfl := Option.some.inj ht
      exact ⟨rfl, rfl, (step_turn hs hp _).symm⟩
    · rename_i c pending hb
      obtain rfl := Option.some.inj ht
      refine ⟨rfl, rfl, ?_⟩
      rw [step_lastTurn hs hp hb, Session.perform, Session.lapse, hp, hb]
    · contradiction
  · contradiction

private theorem dispatch_of_no_turn {now : Nat} (ht : s.turn? h n (.dispatch now) = none) :
    s.stepDispatcher h n now = (false, s, h) := by
  rw [turn?] at ht
  split at ht
  · contradiction
  · rename_i hp
    exact s.stepDispatcher_of_absent hp now

private theorem lapse_of_no_turn (ht : s.turn? h n .lapse = none) :
    s.lapse h n = (false, s, h) := by
  rw [Session.lapse]
  split
  · rename_i cell c pending hp hb
    rw [turn?] at ht
    split at ht
    · rw [hb] at ht
      contradiction
    · rename_i hp'
      rw [hp] at hp'
      contradiction
  · rfl

theorem Sound.dispatching_of_no_turn (hs : s.Sound n) {act : Act} (ht : s.turn? h n act = none) :
    (s.perform h n act).2.1.dispatching = s.dispatching := by
  cases act with
  | read => exact (aside_stepReader s h n).session.dispatching
  | write => exact (aside_stepWriter s h n).session.dispatching
  | dispatch now => rw [Session.perform, dispatch_of_no_turn ht]
  | lapse => rw [Session.perform, lapse_of_no_turn ht]
  | supervise now =>
    obtain ⟨next, hn, -⟩ := hs.supervise h now
    rw [Session.perform, hn]
  | depart =>
    rw [Session.perform, Session.depart]
    split <;> rfl
  | stream change => rfl
  | hear e => exact (alike_hear s h n e).dispatching
  | drain => exact (alike_drain s h n).dispatching
  | mute => exact (alike_mute s h n).dispatching

/-- Readers and writers have no part in rooms. -/
theorem apart_perform (s : Session) {act : Act} (ht : s.turn? h n act = none)
    (hsupervise : ∀ now, act ≠ .supervise now) (hdepart : act ≠ .depart) :
    h.Apart (s.perform h n act).2.2 := by
  cases act with
  | read => exact (aside_stepReader s h n).hub
  | write => exact (aside_stepWriter s h n).hub
  | dispatch now =>
    rw [Session.perform, dispatch_of_no_turn ht]
    exact .refl h
  | lapse =>
    rw [Session.perform, lapse_of_no_turn ht]
    exact .refl h
  | supervise now => exact absurd rfl (hsupervise now)
  | depart => exact absurd rfl hdepart
  | stream change => exact .refl h
  | hear e => exact apart_hear s h n e
  | drain => exact apart_drain s h n
  | mute => exact apart_mute s h n

/-- What endures the session's own supervisor endures all that happens to it but turns of its
dispatcher. -/
theorem Sound.rest_enduring (hs : s.Sound n) {act : Act} (ht : s.turn? h n act = none)
    (hQ : Hub.Enduring s.id (.supervisor n) Q) (hq : Q h) : Q (s.perform h n act).2.2 := by
  cases act with
  | supervise now => exact (stepSupervisor_enduring hs hQ hq now).1
  | depart =>
    rw [Session.perform, Session.depart]
    split
    · exact hQ.expire hq (hs.waiting ‹_›)
    · exact hq
  | _ => exact hQ.apart hq (s.apart_perform ht (by simp) (by simp))

/-- What endures the session's own dispatcher and supervisor endures all that happens to it. -/
theorem Sound.perform_enduring (hs : s.Sound n)
    (hdispatch : Hub.Enduring s.id (.dispatcher n) Q)
    (hsupervise : Hub.Enduring s.id (.supervisor n) Q) (hq : Q h) (act : Act) :
    Q (s.perform h n act).2.2 := by
  cases ht : s.turn? h n act with
  | none => exact hs.rest_enduring ht hsupervise hq
  | some t =>
    obtain ⟨-, rfl, hstep⟩ := hs.perform_of_turn ht
    rw [hstep]
    exact (t.step_enduring hs.dispatching hdispatch hq).1

end Session

end Lobby
