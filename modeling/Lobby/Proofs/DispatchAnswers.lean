import Mathlib.Data.List.Forall2
import Mathlib.Data.List.Induction
import Lobby.Proofs.DispatcherTurns

/-! A dispatcher answers the requests that it can read, each once and in the order of their
arrival, whatever it finds when it comes to its turn. -/
namespace Lobby

namespace Hub

private theorem robust_outboxes (boxes : Outboxes) : Robust fun h => h.outboxes = boxes where
  signal hb := hb
  setEvents hb _ := hb
  freshSerial hb := hb
  openReply hb := hb
  closeReply hb := hb
  createRoom hb := by
    refine Eq.trans ?_ hb
    simp only [createRoom, takeRoomId, openRoom]
    split <;> rfl

private theorem lasting_outboxes (player : PlayerId) (owner : Task) (boxes : Outboxes) :
    Lasting player owner fun h => h.outboxes = boxes :=
  (robust_outboxes boxes).lasting player owner

end Hub

theorem Session.outboxes_endDuty (h : Hub) (p : Nat) :
    (endDuty h p).outboxes = h.outboxes := by
  simp only [endDuty, Hub.signal, Hub.cancelPlayer]
  split
  · split <;> rfl
  · rfl

def Dispatching.underWay : Dispatching → List Envelope
  | .busy _ pending => [pending.request]
  | _ => []

def Dispatching.after {p : Nat} (d : Dispatching) (turns : List (Turn p)) : Dispatching :=
  turns.foldl (fun d t => t.next d) d

def Dispatching.taken {p : Nat} : Dispatching → List (Turn p) → List Envelope
  | _, [] => []
  | d, t :: rest => (t.taken d).toList ++ (t.next d).taken rest

def Dispatching.offered {p : Nat} : Dispatching → List (Turn p) → List Envelope
  | _, [] => []
  | d, t :: rest => (t.offered d).toList ++ (t.next d).offered rest

/-- A response belongs to a request: its kind is the one above, and it goes to the same client
under the same serial. -/
def Envelope.Answers (request response : Envelope) : Prop :=
  response.kind.number = request.kind.number + 1 ∧ response.clientId = request.clientId ∧
    response.serial = request.serial

theorem Envelope.exists_response {request : Envelope} (h : request.answerable) (data : List UInt8) :
    ∃ response, request.responseTo? data = some response ∧ request.Answers response := by
  rw [answerable] at h
  cases hk : request.kind <;> rw [hk] at h <;> try contradiction
  all_goals
    simp only [responseTo?, hk, Answers]
    exact ⟨_, rfl, rfl, rfl, rfl⟩

theorem Turn.outboxes_received {p : Nat} (t : Turn p) : t.received.outboxes = t.hub.outboxes := by
  obtain ⟨signals, hr⟩ := t.received_eq
  rw [hr]
  rfl

/-- A dispatcher waits in its own name, on a request that can be answered, and it writes to one
outbox. -/
structure Dispatching.Sound (d : Dispatching) (p box : Nat) : Prop where
  answerable : ∀ e ∈ d.underWay, e.answerable
  owner (c : Context) (pending : Pending) : d = .busy c pending →
    pending.wait.ticket.owner = .dispatcher p
  outbox (c : Context) : d.context? = some c → c.outbox = box

theorem Dispatching.sound_idle {p box : Nat} {c : Context} (h : c.outbox = box) :
    (Dispatching.idle c).Sound p box := by
  refine ⟨by simp [underWay], by simp, ?_⟩
  rintro c' ⟨⟩
  exact h

namespace Turn
variable {p : Nat} (t : Turn p) {d : Dispatching} {box : Nat}

/-- Until a turn has an answer, it leaves the outboxes alone. -/
theorem work_spec (hd : d.Sound p box) {request : Envelope} {result : Progress × Context × Hub}
    (h : t.work d = some (request, result)) :
    ∃ c, d.context? = some c ∧
      if request.answerable then
        c.Serves (·.outboxes = t.hub.outboxes) (.dispatcher p) request result
      else d = .idle c ∧ result = (.unreadable, c, t.received) := by
  obtain ⟨c, hc, hspec⟩ := t.work_serves (fun c _ => Hub.lasting_outboxes c.id _ _) hd.owner rfl
    t.outboxes_received h
  refine ⟨c, hc, ?_⟩
  cases ha : request.answerable with
  | true => simpa [ha] using hspec
  | false =>
    have hidle : d = .idle c := by
      cases d with
      | idle => rw [Option.some.inj hc]
      | ended => contradiction
      | busy c' pending =>
        obtain ⟨rfl, -⟩ : pending.request = request ∧ _ = result := by
          simpa [work] using h
        simp [hd.answerable pending.request List.mem_cons_self] at ha
    rw [if_pos ⟨hidle, ha⟩] at hspec
    exact ⟨hidle, hspec⟩

private theorem outboxes_post (h : Hub) (box : Nat) (message : Envelope) :
    (h.post box message).2.outboxes = (h.outboxes.offer box message).2 := by
  rw [Hub.post]
  generalize h.outboxes.offer box message = result
  obtain ⟨_ | _, boxes⟩ := result <;> rfl

private theorem answerable_of_service {e : Envelope} (h : Service.ofKind? e.kind = none) :
    e.answerable = false := by
  rw [Envelope.answerable]
  cases hk : e.kind <;> rw [hk] at h <;> first | rfl | contradiction

/-- Work is done on the request under way, or else on the one just taken. -/
theorem requests_of_work {request : Envelope} {result : Progress × Context × Hub}
    (h : t.work d = some (request, result)) : d.underWay ++ (t.taken d).toList = [request] := by
  cases d with
  | ended => contradiction
  | busy c pending =>
    obtain ⟨rfl, -⟩ : pending.request = request ∧ _ = result := by
      simpa [work] using h
    rfl
  | idle c =>
    simp only [work, Option.bind_eq_bind, Option.bind_eq_some_iff] at h
    obtain ⟨e, he, service, -, hr⟩ := h
    obtain ⟨rfl, -⟩ := Prod.mk.inj (Option.some.inj hr)
    rw [he]
    rfl

/-- Without work, there is no request that can be answered. -/
theorem requests_of_no_work (h : t.work d = none) :
    (d.underWay ++ (t.taken d).toList).filter Envelope.answerable = [] := by
  cases d with
  | ended => rfl
  | busy => contradiction
  | idle c =>
    cases he : t.taken (.idle c) with
    | none => rfl
    | some e =>
      have hs : Service.ofKind? e.kind = none := by
        cases hs : Service.ofKind? e.kind with
        | none => rfl
        | some service => simp [work, he, hs] at h
      simp [Dispatching.underWay, answerable_of_service hs]

/-- A response goes to the player's outbox and nowhere else. -/
private theorem outboxes_dispatched (s : Session) (c : Context) (h : Hub) {request : Envelope}
    {response : Response} {message : Envelope}
    (hm : request.responseTo? response.encode = some message) :
    (s.dispatched request (.answered response, c, h)).2.2.outboxes =
      (h.outboxes.offer c.outbox message).2 := by
  simp only [Session.dispatched, Context.respond, hm]
  have hpost := outboxes_post h c.outbox message
  generalize h.post c.outbox message = sent at hpost
  obtain ⟨_ | _, h'⟩ := sent <;> exact hpost

/-- A turn answers the request under way, or keeps it; it offers nothing but that answer. -/
theorem sound_next (hd : d.Sound p box) :
    (t.next d).Sound p box ∧
      (∃ done, (d.underWay ++ (t.taken d).toList).filter Envelope.answerable =
          done ++ (t.next d).underWay ∧
        List.Forall₂ Envelope.Answers done (t.offered d).toList) ∧
      (t.step d).2.2.outboxes =
        (t.offered d).elim t.hub.outboxes fun e => (t.hub.outboxes.offer box e).2 := by
  cases hw : t.work d with
  | none =>
    rw [t.requests_of_no_work hw, offered, hw, next]
    -- a dispatcher without work has nothing under way
    have hu : d.underWay = [] := by
      cases d with
      | busy => contradiction
      | _ => rfl
    rcases t.step_of_no_work d hw with ⟨hstep, -⟩ | ⟨-, hstep | ⟨c, rfl, hstep⟩⟩ <;> rw [hstep]
    · exact ⟨hd, ⟨[], by simp [seat, hu], .nil⟩, t.outboxes_received⟩
    · exact ⟨hd, ⟨[], by simp [seat, hu], .nil⟩, rfl⟩
    · refine ⟨⟨by simp [Session.endDispatcher, Dispatching.underWay], ?_, hd.outbox⟩,
        ⟨[], rfl, .nil⟩, Session.outboxes_endDuty _ _⟩
      simp [Session.endDispatcher]
  | some work =>
    obtain ⟨request, result⟩ := work
    obtain ⟨c, hc, hspec⟩ := t.work_spec hd hw
    have hbox := hd.outbox c hc
    rw [t.requests_of_work hw, offered, hw, next, t.step_of_work d hw]
    split at hspec
    · rename_i ha
      obtain ⟨progress, c', h'⟩ := result
      have hc' : c'.outbox = box := hspec.outbox.trans hbox
      have hb : h'.outboxes = t.hub.outboxes := hspec.hub
      cases progress with
      | unreadable => exact absurd rfl hspec.readable
      | pending pending =>
        obtain ⟨hr, how⟩ := hspec.pending pending rfl
        refine ⟨⟨?_, ?_, ?_⟩, ⟨[], ?_, .nil⟩, hb⟩
        · simpa [Session.dispatched, Dispatching.underWay, hr] using ha
        · rintro c'' pending' h
          cases h
          exact how
        · rintro c'' h
          cases h
          exact hc'
        · simp [Session.dispatched, Dispatching.underWay, ha, hr]
      | answered response =>
        obtain ⟨message, hm, hans⟩ := Envelope.exists_response ha response.encode
        refine ⟨Dispatching.sound_idle hc', ⟨[request], ?_, ?_⟩, ?_⟩
        · simp [Session.dispatched, Dispatching.underWay, ha]
        · simpa [hm] using hans
        · rw [outboxes_dispatched _ c' h' hm, hb, hc']
          simp [hm]
    · rename_i ha
      obtain ⟨rfl, rfl⟩ := hspec
      refine ⟨Dispatching.sound_idle hbox, ⟨[], ?_, .nil⟩, t.outboxes_received⟩
      simp [Session.dispatched, Dispatching.underWay, ha]

/-- What cannot be answered is taken and forgotten. -/
theorem step_of_unanswerable (hd : d.Sound p box) {e : Envelope} (he : t.taken d = some e)
    (ha : e.answerable = false) :
    t.offered d = none ∧ (t.step d).2 = (t.seat d, t.received) := by
  rw [offered]
  cases hw : t.work d with
  | none =>
    rcases t.step_of_no_work d hw with ⟨hstep, -⟩ | ⟨hnone, -⟩
    · exact ⟨rfl, by rw [hstep]⟩
    · simp [hnone] at he
  | some work =>
    obtain ⟨request, result⟩ := work
    have hreq := t.requests_of_work hw
    obtain ⟨c, hc, hspec⟩ := t.work_spec hd hw
    rw [he, Option.toList_some] at hreq
    obtain ⟨hu, hreq⟩ := List.append_eq_singleton_iff.mp hreq |>.resolve_right (by simp)
    obtain rfl : e = request := by simpa using hreq
    rw [if_neg (by simp [ha])] at hspec
    obtain ⟨rfl, rfl⟩ := hspec
    rw [t.step_of_work _ hw]
    exact ⟨rfl, rfl⟩

end Turn

namespace Outboxes

/-- A message that an outbox refuses is in no queue afterwards. -/
theorem queues_of_refused {boxes : Outboxes} {i : Nat} {message : Envelope}
    {fault : MailboxFault} (h : (boxes.offer i message).1 = .error fault) (j : Nat) :
    (boxes.offer i message).2[j]?.map (·.queue) = boxes[j]?.map (·.queue) := by
  rw [offer] at h ⊢
  split
  · rename_i box hbox
    simp only [hbox] at h
    have hq : (box.offer message).2.queue = box.queue := by
      rw [Mailbox.offer] at h ⊢
      split
      · rfl
      · split
        · rfl
        · simp_all
    simp only [Array.getElem?_setIfInBounds]
    split
    · rename_i hij
      subst hij
      split <;> simp_all
    · rfl
  · rfl

end Outboxes

/-- Once the time for a stage is up, a request ends or has just reached its second stage. -/
theorem Hub.resume_late (h : Hub) {w : Wait} {now : Nat} (hw : w.deadline ≤ now) :
    (∃ answer, (h.resume w now).1 = .ended answer) ∨
      ∃ w', (h.resume w now).1 = .waiting w' ∧ w'.stage = .answer ∧
        w'.deadline = now + w.timeout := by
  rw [resume]
  cases hs : w.stage with
  | slot =>
    simp only
    split
    · split
      · rw [awaitAnswer]
        simp only [freshSerial]
        split
        · exact .inl ⟨_, rfl⟩
        · exact .inr ⟨_, rfl, rfl, rfl⟩
      · exact .inl ⟨_, rfl⟩
      · rw [if_pos hw]
        exact .inl ⟨_, rfl⟩
    · exact .inl ⟨_, rfl⟩
  | answer =>
    simp only [hw, if_true]
    split <;> exact .inl ⟨_, rfl⟩

/-- Once the time for an answer is up, a request ends. -/
theorem Hub.resume_late_answer (h : Hub) {w : Wait} {now : Nat} (hs : w.stage = .answer)
    (hw : w.deadline ≤ now) : ∃ answer, (h.resume w now).1 = .ended answer := by
  simp only [resume, hs, hw, if_true]
  split <;> exact ⟨_, rfl⟩

namespace Turn
variable {p : Nat} (t : Turn p)

/-- A dispatcher whose wait ends has answered, and is ready for the next message. -/
theorem next_of_ended {c : Context} {pending : Pending}
    (h : t.expired = false →
      ∃ answer, (t.hub.resume pending.wait t.now).1 = .ended answer) :
    ∃ c', t.next (.busy c pending) = .idle c' := by
  rw [next, t.step_of_work (.busy c pending) rfl]
  cases he : t.expired with
  | true => exact ⟨_, rfl⟩
  | false =>
    obtain ⟨answer, ha⟩ := h he
    simp only [Bool.false_eq_true, if_false, Context.resume]
    generalize t.hub.resume pending.wait t.now = course at ha ⊢
    obtain ⟨_, h'⟩ := course
    cases ha
    exact ⟨_, rfl⟩

/-- A dispatcher that waits is done with its request after two late turns at most. -/
theorem next_of_late {c : Context} {pending : Pending} (h : pending.wait.deadline ≤ t.now)
    (t' : Turn p) (h' : t.now + pending.wait.timeout ≤ t'.now) :
    (∃ c', t.next (.busy c pending) = .idle c') ∨
      ∃ c', t'.next (t.next (.busy c pending)) = .idle c' := by
  rcases t.hub.resume_late h with hended | ⟨w', hw', hs, hd⟩
  · exact .inl (t.next_of_ended fun _ => hended)
  cases he : t.expired with
  | true => exact .inl (t.next_of_ended (by simp [he]))
  | false =>
    have hbusy : t.next (.busy c pending) = .busy c { pending with wait := w' } := by
      rw [next, t.step_of_work (.busy c pending) rfl]
      simp only [he, Bool.false_eq_true, if_false, Context.resume]
      generalize t.hub.resume pending.wait t.now = course at hw' ⊢
      obtain ⟨_, h'⟩ := course
      cases hw'
      rfl
    rw [hbusy]
    exact .inr (t'.next_of_ended fun _ =>
      t'.hub.resume_late_answer hs (by rw [hd]; exact h'))

end Turn

structure Turn.Proper {p : Nat} (t : Turn p) (d : Dispatching) (box : Nat) : Prop where
  /-- The outboxes change by the response that the turn offers, and by nothing else. -/
  outboxes : (t.step d).2.2.outboxes =
    (t.offered d).elim t.hub.outboxes fun e => (t.hub.outboxes.offer box e).2
  /-- A message that cannot be answered is taken out of the inbound mailbox, and nothing else
  changes. -/
  skips (e : Envelope) : t.taken d = some e → e.answerable = false →
    t.offered d = none ∧ (t.step d).2.1 = t.seat d ∧
      ∃ signals, (t.step d).2.2 =
        { t.hub.setPlayer p { t.cell with inbound := t.cell.inbound.receive.2.2 } with signals }
  /-- A response that the outbox refuses is lost, and the dispatcher goes on without it. -/
  loses (e : Envelope) (fault : MailboxFault) : t.offered d = some e →
    (t.hub.outboxes.offer box e).1 = .error fault →
      (∃ c, t.next d = .idle c) ∧
        ∀ i : Nat, (t.step d).2.2.outboxes[i]?.map (·.queue) = t.hub.outboxes[i]?.map (·.queue)
  /-- A request that waits for a room is answered within two turns once its times are up. -/
  finishes (c : Context) (pending : Pending) : d = .busy c pending →
    pending.wait.deadline ≤ t.now → ∀ t' : Turn p, t.now + pending.wait.timeout ≤ t'.now →
      (∃ c', t.next d = .idle c') ∨ ∃ c', t'.next (t.next d) = .idle c'

theorem Dispatching.Sound.proper {d : Dispatching} {p box : Nat} (hd : d.Sound p box)
    (t : Turn p) : t.Proper d box := by
  refine ⟨(t.sound_next hd).2.2, ?_, ?_, ?_⟩
  · intro e he ha
    obtain ⟨hnone, hstep⟩ := t.step_of_unanswerable hd he ha
    rw [hstep]
    exact ⟨hnone, rfl, t.received_eq⟩
  · intro e fault he hfault
    refine ⟨?_, ?_⟩
    · rw [Turn.offered] at he
      cases hw : t.work d with
      | none => simp [hw] at he
      | some work =>
        obtain ⟨request, progress, c, h⟩ := work
        rw [Turn.next, t.step_of_work d hw]
        cases progress with
        | answered response => exact ⟨c, rfl⟩
        | _ => simp [hw] at he
    · intro i
      rw [(t.sound_next hd).2.2, he]
      exact Outboxes.queues_of_refused hfault i
  · rintro c pending rfl h t' h'
    exact t.next_of_late h t' h'

theorem Dispatching.Sound.run {d : Dispatching} {p box : Nat} (hd : d.Sound p box)
    (turns : List (Turn p)) :
    (d.after turns).Sound p box ∧
      ∃ answered, d.underWay ++ (d.taken turns).filter Envelope.answerable =
          answered ++ (d.after turns).underWay ∧
        List.Forall₂ Envelope.Answers answered (d.offered turns) := by
  induction turns generalizing d with
  | nil => exact ⟨hd, [], by simp [taken, after], .nil⟩
  | cons t rest ih =>
    obtain ⟨hnext, ⟨done, heq, hdone⟩, -⟩ := t.sound_next hd
    obtain ⟨hafter, answered, heq', hans⟩ := ih hnext
    refine ⟨hafter, done ++ answered, ?_, List.rel_append hdone hans⟩
    have hself : d.underWay.filter Envelope.answerable = d.underWay :=
      List.filter_eq_self.mpr hd.answerable
    rw [List.filter_append, hself] at heq
    rw [taken, List.filter_append, ← List.append_assoc, heq, List.append_assoc, heq',
      List.append_assoc]
    rfl

/-- However the others act and the times are, a dispatcher answers the requests that it takes and
can read one by one in their order, up to the one under way, and each answer belongs to its
request; and every turn after that is proper. -/
theorem Dispatching.answers_in_order {p : Nat} (c : Context) (turns : List (Turn p)) :
    (∃ answered,
      ((Dispatching.idle c).taken turns).filter Envelope.answerable =
          answered ++ ((Dispatching.idle c).after turns).underWay ∧
        List.Forall₂ Envelope.Answers answered ((Dispatching.idle c).offered turns)) ∧
      ∀ t : Turn p, t.Proper ((Dispatching.idle c).after turns) c.outbox := by
  obtain ⟨hafter, hans⟩ := (sound_idle (c := c) rfl).run turns
  exact ⟨hans, hafter.proper⟩

end Lobby
