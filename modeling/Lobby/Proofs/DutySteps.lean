import Lobby.Proofs.DispatcherTurns

/-! What the duties of a session do to the hub, and what they leave of the session. -/
namespace Lobby

/-- A change of the hub that rooms, their registry and replies have no part in. -/
structure Hub.Apart (h h' : Hub) : Prop where
  reactions : h'.reactions = h.reactions
  rooms : h'.rooms = h.rooms
  roomIndex : h'.roomIndex = h.roomIndex
  replies : h'.replies = h.replies
  nextSerial : h.nextSerial ≤ h'.nextSerial

namespace Hub
variable {h h' h'' : Hub}

theorem Apart.refl (h : Hub) : h.Apart h := ⟨rfl, rfl, rfl, rfl, Nat.le_refl _⟩

theorem Apart.trans (ha : h.Apart h') (ha' : h'.Apart h'') : h.Apart h'' :=
  ⟨ha'.reactions.trans ha.reactions, ha'.rooms.trans ha.rooms, ha'.roomIndex.trans ha.roomIndex,
    ha'.replies.trans ha.replies, Nat.le_trans ha.nextSerial ha'.nextSerial⟩

theorem apart_signal (h : Hub) (s : Signal) : h.Apart (h.signal s) :=
  ⟨rfl, rfl, rfl, rfl, Nat.le_refl _⟩

theorem apart_setPlayer (h : Hub) (p : Nat) (cell : PlayerCell) : h.Apart (h.setPlayer p cell) :=
  ⟨rfl, rfl, rfl, rfl, Nat.le_refl _⟩

theorem apart_cancelPlayer (h : Hub) (p : Nat) : h.Apart (h.cancelPlayer p) := by
  rw [cancelPlayer]
  split
  · split
    · exact .refl h
    · exact (apart_setPlayer h p _).trans (apart_signal _ _)
  · exact .refl h

theorem apart_removePlayer (h : Hub) (id : PlayerId) : h.Apart (h.removePlayer id).2 := by
  rw [removePlayer]
  split
  · rename_i p _
    have ha := h.apart_cancelPlayer p
    exact ⟨ha.reactions, ha.rooms, ha.roomIndex, ha.replies, ha.nextSerial⟩
  · exact .refl h

theorem apart_openPlayer {h h' : Hub} {id : PlayerId} {config : PlayerConfig} {p : Nat}
    {created : Bool} (ho : h.openPlayer id config = (p, created, h')) : h.Apart h' := by
  rw [openPlayer] at ho
  split at ho <;> cases ho
  · exact .refl h
  · exact ⟨rfl, rfl, rfl, rfl, Nat.le_refl _⟩

theorem apart_post (h : Hub) (p : Nat) (message : Envelope) : h.Apart (h.post p message).2 := by
  rw [post]
  split
  · exact ⟨rfl, rfl, rfl, rfl, Nat.le_refl _⟩
  · exact ⟨rfl, rfl, rfl, rfl, Nat.le_refl _⟩

theorem apart_endDuty (h : Hub) (p : Nat) : h.Apart (Session.endDuty h p) :=
  (h.apart_cancelPlayer p).trans (apart_signal _ _)

end Hub

theorem Context.apart_respond (c : Context) (h : Hub) (request : Envelope) (response : Response) :
    h.Apart (c.respond h request response).2 := by
  rw [respond]
  split
  · rename_i message _
    have ha := h.apart_post c.outbox message
    generalize h.post c.outbox message = result at ha ⊢
    obtain ⟨_ | _, h'⟩ := result <;> exact ha
  · exact .refl h

theorem Turn.apart_received {p : Nat} (t : Turn p) : t.hub.Apart t.received := by
  obtain ⟨signals, hr⟩ := t.received_eq
  rw [hr]
  exact ⟨rfl, rfl, rfl, rfl, Nat.le_refl _⟩

namespace Session

structure Alike (s s' : Session) : Prop where
  id : s'.id = s.id
  handlers : s'.handlers = s.handlers
  dispatching : s'.dispatching = s.dispatching
  supervising : s'.supervising = s.supervising

structure Aside (s : Session) (h : Hub) (step : Step) : Prop where
  session : s.Alike step.2.1
  hub : h.Apart step.2.2

variable {s s' : Session} {h : Hub} {p : Nat}

theorem aside_stay (goesOn : Bool) (hs : s.Alike s') :
    s.Aside h (goesOn, s', h) :=
  ⟨hs, .refl h⟩

theorem aside_endReader (hs : s.Alike s') {h' : Hub} (ha : h.Apart h') :
    s.Aside h (s'.endReader h' p) :=
  ⟨⟨hs.id, hs.handlers, hs.dispatching, hs.supervising⟩, ha.trans (h'.apart_endDuty p)⟩

theorem aside_deliver (hs : s.Alike s') (cell : PlayerCell) (e : Envelope) :
    s.Aside h (s'.deliver h p cell e) := by
  rw [deliver]
  split
  · split
    · exact ⟨hs, (h.apart_setPlayer p _).trans (Hub.apart_signal _ _)⟩
    · exact ⟨hs, h.apart_setPlayer p _⟩
    · exact aside_endReader hs (.refl h)
  · have hfresh : h.Apart h.freshSerial.2 := ⟨rfl, rfl, rfl, rfl, Nat.le_succ _⟩
    simp only
    split
    · exact ⟨hs, (hfresh.trans (Hub.apart_setPlayer _ p _)).trans (Hub.apart_signal _ _)⟩
    · exact ⟨⟨hs.id, hs.handlers, hs.dispatching, hs.supervising⟩,
        hfresh.trans (Hub.apart_setPlayer _ p _)⟩
    · exact aside_endReader hs hfresh

private theorem aside_readNext (cell : PlayerCell) : s.Aside h (s.readNext h p cell) := by
  rw [readNext]
  split
  · simp only
    split
    · refine aside_deliver ?_ cell _
      exact ⟨rfl, rfl, rfl, rfl⟩
    · exact aside_stay _ ⟨rfl, rfl, rfl, rfl⟩
  · exact aside_endReader ⟨rfl, rfl, rfl, rfl⟩ (.refl h)
  · split
    · split
      · exact aside_endReader ⟨rfl, rfl, rfl, rfl⟩ (.refl h)
      · exact aside_stay _ ⟨rfl, rfl, rfl, rfl⟩
    · exact aside_stay _ ⟨rfl, rfl, rfl, rfl⟩

theorem aside_stepReader (s : Session) (h : Hub) (p : Nat) : s.Aside h (s.stepReader h p) := by
  rw [stepReader]
  split
  · exact aside_stay _ ⟨rfl, rfl, rfl, rfl⟩
  · split
    · exact aside_stay _ ⟨rfl, rfl, rfl, rfl⟩
    · split
      · exact aside_endReader ⟨rfl, rfl, rfl, rfl⟩ (h.apart_setPlayer p _)
      · split
        · exact ⟨⟨rfl, rfl, rfl, rfl⟩, (h.apart_setPlayer p _).trans (Hub.apart_signal _ _)⟩
        · exact aside_endReader ⟨rfl, rfl, rfl, rfl⟩ (h.apart_setPlayer p _)
        · exact aside_stay _ ⟨rfl, rfl, rfl, rfl⟩
    · split
      · exact aside_endReader ⟨rfl, rfl, rfl, rfl⟩ (.refl h)
      · exact aside_readNext _

theorem aside_endWriter : s.Aside h (s.endWriter h p) :=
  ⟨⟨rfl, rfl, rfl, rfl⟩, h.apart_endDuty p⟩

theorem aside_stepWriter (s : Session) (h : Hub) (p : Nat) : s.Aside h (s.stepWriter h p) := by
  rw [stepWriter]
  split
  · exact aside_stay _ ⟨rfl, rfl, rfl, rfl⟩
  · split
    · exact aside_endWriter
    · rw [writeNext]
      split
      · exact aside_endWriter
      · split
        · simp only
          split <;> exact ⟨⟨rfl, rfl, rfl, rfl⟩, ⟨rfl, rfl, rfl, rfl, Nat.le_refl _⟩⟩
        · exact aside_stay _ ⟨rfl, rfl, rfl, rfl⟩
        · exact aside_endWriter
  · split
    · exact aside_endWriter
    · split
      · exact aside_endWriter
      · split <;> exact aside_stay _ ⟨rfl, rfl, rfl, rfl⟩

end Session

/-- A property of the hub that lasts through whatever a task does in a player's name, and through
everything else that is away from the rooms. -/
structure Hub.Enduring (player : PlayerId) (owner : Task) (Q : Hub → Prop) : Prop
    extends Hub.Lasting player owner Q where
  apart {h h' : Hub} : Q h → h.Apart h' → Q h'

structure Dispatching.Proper (d : Dispatching) (m : Nat) (id : PlayerId) : Prop where
  context {c : Context} : d.context? = some c → c.id = id
  owner {c : Context} {pending : Pending} : d = .busy c pending →
    pending.wait.ticket.owner = .dispatcher m

namespace Turn
variable {p : Nat} (t : Turn p) {d : Dispatching} {id : PlayerId} {Q : Hub → Prop}

private theorem dispatched_enduring (s : Session) {c : Context}
    {request : Envelope} {result : Progress × Context × Hub}
    (hQ : Hub.Enduring c.id (.dispatcher p) Q)
    (hr : c.Serves Q (.dispatcher p) request result) :
    Q (s.dispatched request result).2.2 ∧
      ∃ d, (s.dispatched request result).2.1 = { s with dispatching := d } ∧ d.Proper p c.id := by
  obtain ⟨progress, c', h⟩ := result
  cases progress with
  | unreadable => exact absurd rfl hr.readable
  | answered response =>
    refine ⟨hQ.apart hr.hub (c'.apart_respond h request response), .idle c', rfl, ?_, by simp⟩
    rintro _ ⟨⟩
    exact hr.id
  | pending pending =>
    refine ⟨hr.hub, .busy c' pending, rfl, ?_, ?_⟩
    · rintro _ ⟨⟩
      exact hr.id
    · rintro _ _ ⟨⟩
      exact (hr.pending pending rfl).2

/-- What a dispatcher does at its turn endures. -/
theorem step_enduring (hd : d.Proper p id) (hQ : Hub.Enduring id (.dispatcher p) Q)
    (hq : Q t.hub) :
    Q (t.step d).2.2 ∧
      ∃ d', (t.step d).2.1 = { t.seat d with dispatching := d' } ∧ d'.Proper p id := by
  have hreceived : Q t.received := hQ.apart hq t.apart_received
  cases hw : t.work d with
  | none =>
    rcases t.step_of_no_work d hw with ⟨hstep, -⟩ | ⟨-, hstep | ⟨c, rfl, hstep⟩⟩ <;> rw [hstep]
    · exact ⟨hreceived, d, rfl, hd⟩
    · exact ⟨hq, d, rfl, hd⟩
    · exact ⟨hQ.apart hq (t.hub.apart_endDuty p), .ended (some c), rfl, hd.context, by simp⟩
  | some work =>
    obtain ⟨request, result⟩ := work
    have hlast (c : Context) (hc : d.context? = some c) : Hub.Enduring c.id (.dispatcher p) Q :=
      (hd.context hc).symm ▸ hQ
    obtain ⟨c, hc, hserve⟩ := t.work_serves (fun c hc => (hlast c hc).toLasting)
      (fun c pending => hd.owner) hq hreceived hw
    rw [t.step_of_work d hw]
    split at hserve
    · rename_i hu
      obtain ⟨rfl, -⟩ := hu
      subst hserve
      exact ⟨hreceived, .idle c, rfl, hd⟩
    · have hdone := dispatched_enduring (t.seat d) (hlast c hc) hserve
      rwa [hd.context hc] at hdone

end Turn

namespace Session
variable {s : Session} {h : Hub} {p : Nat} {Q : Hub → Prop}

/-- A session as it runs: it has the usual handlers, its dispatcher and its supervisor wait in their
own names, and the supervisor leaves rooms only after the dispatcher has ended. -/
structure Sound (s : Session) (m : Nat) : Prop where
  handlers : s.handlers = .standard
  dispatching : s.dispatching.Proper m s.id
  waiting {w : Wait} {rooms : List RoomId} : s.supervising = .waiting w rooms →
    w.ticket.owner = .supervisor m
  order : s.supervising = .starting ∨ s.supervising = .joining ∨ ∃ c, s.dispatching = .ended c

private theorem sound_supervising (hs : s.Sound p) {next : Supervising}
    (hw : ∀ w rooms, next = .waiting w rooms → w.ticket.owner = .supervisor p)
    (ho : next = .starting ∨ next = .joining ∨ ∃ c, s.dispatching = .ended c) :
    ({ s with supervising := next } : Session).Sound p :=
  ⟨hs.handlers, hs.dispatching, hw _ _, ho⟩

theorem apart_tearDown (s : Session) (h : Hub) (p : Nat) :
    h.Apart (s.tearDown h p).2.2 := by
  have remove {h' : Hub} (ha : h.Apart h') : h.Apart
      (({ h' with outboxes := h'.outboxes.modify p (·.discard) } : Hub).removePlayer s.id).2 := by
    have hbox : h.Apart { h' with outboxes := h'.outboxes.modify p (·.discard) } :=
      ⟨ha.reactions, ha.rooms, ha.roomIndex, ha.replies, ha.nextSerial⟩
    exact hbox.trans (Hub.apart_removePlayer _ s.id)
  rw [tearDown]
  cases h.players[p]? with
  | some cell => exact remove (h.apart_setPlayer p _)
  | none => exact remove (.refl h)

private theorem leaveNext_enduring (hs : s.Sound p) (hd : ∃ c, s.dispatching = .ended c)
    (hQ : Hub.Enduring s.id (.supervisor p) Q) (hq : Q h) (now : Nat) (rooms : List RoomId) :
    Q (s.leaveNext h p now rooms).2.2 ∧
      ∃ next, (s.leaveNext h p now rooms).2.1 = { s with supervising := next } ∧
        ({ s with supervising := next } : Session).Sound p := by
  have leaving (rooms : List RoomId) :
      ({ s with supervising := .leaving rooms } : Session).Sound p :=
    sound_supervising hs (by simp) (.inr (.inr hd))
  cases rooms with
  | nil =>
    exact ⟨hQ.apart hq (apart_tearDown s h p), .ended, rfl,
      sound_supervising hs (by simp) (.inr (.inr hd))⟩
  | cons id rooms =>
    rw [leaveNext]
    split
    · exact ⟨hq, .leaving rooms, rfl, leaving rooms⟩
    · rename_i r _
      have hreq : Q (h.requestLeave (.supervisor p) r h.config.replyTimeout now s.id).2 :=
        hQ.request hq fun t => ⟨rfl, rfl⟩
      split
      · rename_i wait h' heq
        rw [heq] at hreq
        refine ⟨hreq, .waiting wait rooms, rfl, sound_supervising hs ?_ (.inr (.inr hd))⟩
        rintro _ _ ⟨⟩
        exact Hub.request_owner _ (congrArg Prod.fst heq)
      · rename_i heq
        rw [heq] at hreq
        exact ⟨hreq, .leaving rooms, rfl, leaving rooms⟩

/-- What a supervisor does to the hub at its turn endures, and it leaves the dispatcher alone. -/
theorem stepSupervisor_enduring (hs : s.Sound p) (hQ : Hub.Enduring s.id (.supervisor p) Q)
    (hq : Q h) (now : Nat) :
    Q (s.stepSupervisor h p now).2.2 ∧
      ∃ next, (s.stepSupervisor h p now).2.1 = { s with supervising := next } ∧
        ({ s with supervising := next } : Session).Sound p := by
  have ended (h₁ : s.supervising ≠ .starting) (h₂ : s.supervising ≠ .joining) :
      ∃ c, s.dispatching = .ended c := by
    rcases hs.order with h | h | h
    · exact absurd h h₁
    · exact absurd h h₂
    · exact h
  have stay : s = { s with supervising := s.supervising } := rfl
  rw [stepSupervisor]
  split
  · exact ⟨hq, s.supervising, stay, stay ▸ hs⟩
  · refine ⟨?_, .joining, rfl, sound_supervising hs (by simp) (.inr (.inl rfl))⟩
    exact hQ.apart hq (((h.apart_signal _).trans (Hub.apart_signal _ _)).trans
      (Hub.apart_signal _ _))
  · split
    · rename_i hended
      have hd : ∃ c, s.dispatching = .ended c := by
        simp only [Bool.and_eq_true, dispatcherEnded] at hended
        revert hended
        cases s.dispatching <;> simp
      exact ⟨hq, _, rfl, sound_supervising hs (by simp) (.inr (.inr hd))⟩
    · exact ⟨hq, s.supervising, stay, stay ▸ hs⟩
  · rename_i rooms hsup
    exact leaveNext_enduring hs (ended (by simp [hsup]) (by simp [hsup])) hQ hq now rooms
  · rename_i wait rooms hsup
    have hd := ended (by simp [hsup]) (by simp [hsup])
    have hres : Q (h.resume wait now).2 := hQ.resume hq (hs.waiting hsup)
    split
    · rename_i wait' h' heq
      rw [heq] at hres
      refine ⟨hres, .waiting wait' rooms, rfl, sound_supervising hs ?_ (.inr (.inr hd))⟩
      rintro _ _ ⟨⟩
      rw [Hub.resume_ticket _ (congrArg Prod.fst heq), hs.waiting hsup]
    · rename_i heq
      rw [heq] at hres
      exact ⟨hres, .leaving rooms, rfl, sound_supervising hs (by simp) (.inr (.inr hd))⟩

end Session

end Lobby
