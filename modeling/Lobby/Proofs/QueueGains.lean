import Lobby.Proofs.Bystanders
import Lobby.Proofs.DispatchAnswers
import Lobby.Proofs.Receptions

/-! What comes into the mailboxes of rooms, and in which order: what is queued there stays in front,
and a room is freed of a player by a leave that is queued behind all that came before. -/
namespace Lobby

namespace Mailbox
variable {τ α : Type} (m : Mailbox τ α) (message : α)

theorem queue_offer : (m.offer message).2.queue =
    m.queue ++ if (m.offer message).1.isOk then [message] else [] := by
  rw [offer]
  cases m.closed <;> cases m.isFull <;> simp [Except.isOk, Except.toBool]

theorem queue_send (name : τ) : (m.send name message).2.queue =
    m.queue ++ if (m.send name message).1 = .accepted then [message] else [] := by
  rw [send]
  cases m.closed <;> cases m.isFull <;> simp

theorem exists_queue_settle [DecidableEq τ] (name : τ) :
    ∃ new, (m.settle name).2.queue = m.queue ++ new := by
  rw [settle]
  split
  · exact ⟨[], by simp⟩
  · split
    · exact ⟨_, rfl⟩
    · exact ⟨[], by simp⟩

end Mailbox

namespace Hub
variable {h h' h'' : Hub} {P : Event Ticket → Prop} {r : Nat} {cell : RoomCell}

/-- Rooms' mailboxes gain events of some kind behind all that is queued there. -/
def Gains (h h' : Hub) (P : Event Ticket → Prop) : Prop :=
  ∀ r, ∃ new, h'.queue r = h.queue r ++ new ∧ ∀ e ∈ new, P e

def Gets (h h' : Hub) (r : Nat) (e : Event Ticket) : Prop :=
  ∃ new, h'.queue r = h.queue r ++ new ∧ e ∈ new

theorem gains_of_queue (hq : ∀ r, h'.queue r = h.queue r) : h.Gains h' P := fun r =>
  ⟨[], by simp [hq r], by simp⟩

theorem Gains.refl (h : Hub) : h.Gains h P := gains_of_queue fun _ => rfl

theorem gains_of_rooms (hr : h'.rooms = h.rooms) : h.Gains h' P :=
  gains_of_queue fun r => by rw [queue, queue, hr]

theorem Gains.trans (hg : h.Gains h' P) (hg' : h'.Gains h'' P) : h.Gains h'' P := by
  intro r
  obtain ⟨new, heq, hnew⟩ := hg r
  obtain ⟨new', heq', hnew'⟩ := hg' r
  refine ⟨new ++ new', by rw [heq', heq, List.append_assoc], fun e he => ?_⟩
  exact (List.mem_append.mp he).elim (hnew e) (hnew' e)

theorem Gains.mono {Q : Event Ticket → Prop} (hg : h.Gains h' P) (hPQ : ∀ e, P e → Q e) :
    h.Gains h' Q := by
  intro r
  obtain ⟨new, heq, hnew⟩ := hg r
  exact ⟨new, heq, fun e he => hPQ e (hnew e he)⟩

theorem Gets.after {e : Event Ticket} (hg : h.Gains h' P) (hget : h'.Gets h'' r e) :
    h.Gets h'' r e := by
  obtain ⟨new, heq, -⟩ := hg r
  obtain ⟨new', heq', he⟩ := hget
  exact ⟨new ++ new', by rw [heq', heq, List.append_assoc], List.mem_append_right _ he⟩

theorem Gets.before {e : Event Ticket} (hget : h.Gets h' r e) (hg : h'.Gains h'' P) :
    h.Gets h'' r e := by
  obtain ⟨new, heq, he⟩ := hget
  obtain ⟨new', heq', -⟩ := hg r
  exact ⟨new ++ new', by rw [heq', heq, List.append_assoc], List.mem_append_left _ he⟩

theorem queue_setRoom (hc : h.rooms[r]? = some cell) (events : Mailbox Ticket (Event Ticket))
    (s : Nat) : (h.setRoom r { cell with events }).queue s =
      if s = r then events.queue else h.queue s := by
  have hlt := (Array.getElem?_eq_some_iff.mp hc).1
  rw [queue, queue, setRoom]
  by_cases hs : s = r
  · simp [hs, hlt]
  · simp [hs, Array.getElem?_setIfInBounds_ne (Ne.symm hs)]

/-- A room's mailbox gains what is put behind its queue. -/
theorem gains_setRoom (hc : h.rooms[r]? = some cell) {events : Mailbox Ticket (Event Ticket)}
    {new : List (Event Ticket)} (hq : events.queue = cell.events.queue ++ new)
    (hnew : ∀ e ∈ new, P e) : h.Gains (h.setRoom r { cell with events }) P := by
  intro s
  rw [queue_setRoom hc]
  split
  · rename_i hs
    refine ⟨new, ?_, hnew⟩
    rw [hq, hs, queue, hc, Option.map_some, Option.getD_some]
  · exact ⟨[], by simp, by simp⟩

theorem gains_offerEvent (h : Hub) (r : Nat) {e : Event Ticket} (he : P e) :
    h.Gains (h.offerEvent r e).2 P := by
  rw [offerEvent]
  cases hc : h.rooms[r]? with
  | none => exact .refl h
  | some cell =>
    have hq := cell.events.queue_offer e
    simp only
    generalize cell.events.offer e = result at hq ⊢
    rcases result with ⟨fault | _, events⟩
    · have hset := gains_setRoom (P := P) hc (hq.trans (congrArg _ (if_neg Bool.false_ne_true)))
        (by simp)
      cases fault <;> exact hset
    · have hset := gains_setRoom hc (hq.trans (congrArg _ (if_pos rfl))) (by simpa using he)
      exact hset.trans (gains_of_rooms rfl)

/-- An event that a room takes is the last in its queue. -/
theorem gets_offerEvent {e : Event Ticket} (hok : (h.offerEvent r e).1.isOk = true) :
    h.Gets (h.offerEvent r e).2 r e := by
  rw [offerEvent] at hok ⊢
  cases hc : h.rooms[r]? with
  | none => simp [hc, Except.isOk, Except.toBool] at hok
  | some cell =>
    have hq := cell.events.queue_offer e
    simp only [hc] at hok ⊢
    generalize cell.events.offer e = result at hq hok ⊢
    rcases result with ⟨fault | _, events⟩
    · cases fault <;> contradiction
    · have hhere : h.queue r = cell.events.queue := by rw [queue, hc]; rfl
      refine ⟨[e], ?_, List.mem_singleton_self e⟩
      refine (queue_setRoom hc events r).trans ?_
      rw [if_pos rfl, hhere, hq]
      rfl

theorem gains_expire (h : Hub) (w : Wait) : h.Gains (h.expire w).2 P := by
  rw [expire]
  refine Gains.trans ?_ (gains_of_rooms rfl)
  split
  · rename_i cell _ hc
    obtain ⟨next, granted, waiting, hwith, -⟩ := cell.events.exists_withdraw w.ticket
    have hset : h.Gains (h.setRoom w.room
        { cell with events := { cell.events with granted, waiting } }) P :=
      gains_setRoom hc (List.append_nil _).symm (by simp)
    rw [hwith]
    cases next with
    | some t => exact hset.trans (gains_of_rooms rfl)
    | none => exact hset
  · exact .refl h

theorem gains_awaitAnswer (h : Hub) (w : Wait) (now : Nat) :
    h.Gains (h.awaitAnswer w now).2 P := by
  have hsignal : h.Gains (h.freshSerial.2.signal (.arrived (.room w.room))) P := gains_of_rooms rfl
  rw [awaitAnswer]
  simp only
  split
  · exact hsignal.trans (gains_expire _ _)
  · exact hsignal

theorem gains_request (h : Hub) (owner : Task) (r timeout now : Nat)
    {event : Ticket → Event Ticket} (he : ∀ t, P (event t)) :
    h.Gains (h.request owner r timeout now event).2 P := by
  have hopen : h.Gains (h.freshSerial.2.openReply ⟨owner, h.nextSerial⟩) P := gains_of_rooms rfl
  rw [request]
  simp only [freshSerial] at hopen ⊢
  generalize ({ h with nextSerial := h.nextSerial + 1 } : Hub).openReply ⟨owner, h.nextSerial⟩ = h'
    at hopen ⊢
  refine hopen.trans ?_
  cases hc : h'.rooms[r]? with
  | none => exact gains_of_rooms rfl
  | some cell =>
    have hq := cell.events.queue_send (event ⟨owner, h.nextSerial⟩) ⟨owner, h.nextSerial⟩
    simp only
    generalize cell.events.send ⟨owner, h.nextSerial⟩ (event ⟨owner, h.nextSerial⟩) = result
      at hq ⊢
    rcases result with ⟨_ | _ | _, events⟩
    · have hset := gains_setRoom hc (hq.trans (congrArg _ (if_pos rfl))) (by simpa using he _)
      exact hset.trans (gains_awaitAnswer _ _ now)
    · have hset := gains_setRoom (P := P) hc (hq.trans (congrArg _ (if_neg (by simp)))) (by simp)
      simp only
      split
      · exact hset.trans (gains_expire _ _)
      · exact hset
    · exact gains_of_rooms rfl

theorem gains_resume (h : Hub) (w : Wait) (now : Nat) :
    h.Gains (h.resume w now).2 fun _ => True := by
  have late : h.Gains (if w.deadline ≤ now then h.expire w else (.waiting w, h)).2
      fun _ => True := by
    split
    · exact gains_expire h w
    · exact .refl h
  rw [resume]
  split
  · cases hc : h.rooms[w.room]? with
    | none => exact gains_of_rooms rfl
    | some cell =>
      obtain ⟨new, hq⟩ := cell.events.exists_queue_settle w.ticket
      simp only
      generalize cell.events.settle w.ticket = result at hq ⊢
      rcases result with ⟨_ | _ | _, events⟩
      · exact (gains_setRoom hc hq (by simp)).trans (gains_awaitAnswer _ _ now)
      · exact late
      · exact (gains_setRoom hc hq (by simp)).trans (gains_of_rooms rfl)
  · split
    · exact gains_of_rooms rfl
    · exact late
    · exact gains_of_rooms rfl

/-- A room that is new has nothing in its mailbox, and those that are registered stay so. -/
theorem gains_createRoom (h : Hub) (name : String) : h.Gains (h.createRoom name).2 P := by
  apply gains_of_queue
  intro r
  simp only [createRoom, takeRoomId, openRoom]
  split
  · rfl
  · rw [queue, queue, signal, Array.getElem?_push]
    split
    · rename_i hr
      subst hr
      simp [Mailbox.ofCapacity]
    · rfl

theorem room?_createRoom {id : RoomId} (hr : h.room? id = some r) (name : String) :
    (h.createRoom name).2.room? id = some r := by
  simp only [createRoom, takeRoomId, openRoom]
  split
  · exact hr
  · rename_i hfree
    have hne : id ≠ ⟨h.nextRoom⟩ := by
      rintro rfl
      rw [show h.room? ⟨h.nextRoom⟩ = none from hfree] at hr
      contradiction
    exact (lookup_insertRoom hfree id _).trans ((if_neg hne).trans hr)

/-- A room that is registered gets a player's leave that nobody waits for; one that is not
registered needs none. -/
def Frees (h h' : Hub) (player : PlayerId) (id : RoomId) : Prop :=
  h.room? id = none ∨ ∃ r, h.room? id = some r ∧ h.Gets h' r ⟨player, .leave none⟩

theorem Frees.after {player : PlayerId} {id : RoomId} (hg : h.Gains h' P)
    (hindex : ∀ r, h.room? id = some r → h'.room? id = some r) (hf : h'.Frees h'' player id) :
    h.Frees h'' player id := by
  cases hroom : h.room? id with
  | none => exact .inl hroom
  | some r =>
    have hroom' := hindex r hroom
    rcases hf with hnone | ⟨r', hr', hget⟩
    · rw [hroom'] at hnone
      contradiction
    · obtain rfl := Option.some.inj (hroom'.symm.trans hr')
      exact .inr ⟨r, hroom, hget.after hg⟩

theorem Frees.before {player : PlayerId} {id : RoomId} (hf : h.Frees h' player id)
    (hg : h'.Gains h'' P) : h.Frees h'' player id :=
  hf.imp_right fun ⟨r, hroom, hget⟩ => ⟨r, hroom, hget.before hg⟩

theorem room?_offerEvent (h : Hub) (r : Nat) (e : Event Ticket) (id : RoomId) :
    (h.offerEvent r e).2.room? id = h.room? id := by
  rw [offerEvent]
  split
  · split <;> rfl
  · rfl

end Hub

end Lobby
