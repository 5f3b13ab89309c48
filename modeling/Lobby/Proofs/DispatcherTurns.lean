import Lobby.Proofs.MailboxSteps
import Lobby.Proofs.ServiceSteps

/-! A dispatcher's turns: what it finds, which request it works on, and where that leaves it. -/
namespace Lobby

def Dispatching.context? : Dispatching → Option Context
  | .idle c | .busy c _ => some c
  | .ended c => c

/-- What the dispatcher of player number `p` finds when its turn comes: the rest of its session and
the hub as all others have left them, the time, and whether the time it may wait is up at just
this moment. -/
structure Turn (p : Nat) where
  session : Session
  hub : Hub
  cell : PlayerCell
  present : hub.players[p]? = some cell
  now : Nat
  expired : Bool

namespace Turn
variable {p : Nat} (t : Turn p) (d : Dispatching)

def seat : Session := { t.session with dispatching := d, handlers := .standard }

/-- A wait that is over: the dispatcher goes on without an answer. -/
def lapse (c : Context) (pending : Pending) : Progress × Context × Hub :=
  c.follow pending.request pending.errand pending.wait.room (t.hub.expire pending.wait)

def step : Session.Step :=
  match t.expired, d with
  | true, .busy c pending => (t.seat d).dispatched pending.request (t.lapse c pending)
  | _, _ => (t.seat d).stepDispatcher t.hub p t.now

def next : Dispatching := (t.step d).2.1.dispatching

def taken : Option Envelope :=
  match d with
  | .idle _ => if t.cell.cancelled then none else t.cell.inbound.queue.head?
  | _ => none

def received : Hub :=
  let (_, next, inbound) := t.cell.inbound.receive
  let h := t.hub.setPlayer p { t.cell with inbound }
  match next with
  | some ticket => h.signal (.settled ticket.owner)
  | none => h

def work : Option (Envelope × Progress × Context × Hub) :=
  match d with
  | .idle c => do
    let request ← t.taken d
    let service ← Service.ofKind? request.kind
    return (request, c.serve t.received (.dispatcher p) t.now service request)
  | .busy c pending =>
    some (pending.request,
      if t.expired then t.lapse c pending else c.resume t.hub t.now pending)
  | .ended _ => none

def offered : Option Envelope :=
  match t.work d with
  | some (request, .answered response, _) => request.responseTo? response.encode
  | _ => none

/-- Taking a message touches nothing but the player's inbound mailbox. -/
theorem received_eq : ∃ signals,
    t.received =
      { t.hub.setPlayer p { t.cell with inbound := t.cell.inbound.receive.2.2 } with signals } := by
  rw [received]
  generalize t.cell.inbound.receive = result
  obtain ⟨-, _ | ticket, inbound⟩ := result
  · exact ⟨t.hub.signals, rfl⟩
  · exact ⟨.settled ticket.owner :: t.hub.signals, rfl⟩

theorem handlers_standard (k : MessageKind) :
    Handlers.standard.get? k = (Service.ofKind? k).map Handler.serve := by
  cases k <;> rfl

/-- A turn with work to do is spent on it. -/
theorem step_of_work {request : Envelope} {result : Progress × Context × Hub}
    (h : t.work d = some (request, result)) : t.step d = (t.seat d).dispatched request result := by
  obtain ⟨session, hub, cell, present, now, expired⟩ := t
  cases d with
  | ended => contradiction
  | busy c pending =>
    obtain ⟨rfl, rfl⟩ : pending.request = request ∧ _ = result := by
      simpa [work] using h
    cases expired
    · simp [step, seat, Session.stepDispatcher, present]
    · rfl
  | idle c =>
    simp only [work, Option.bind_eq_bind, Option.bind_eq_some_iff] at h
    obtain ⟨e, he, service, hs, hr⟩ := h
    obtain ⟨rfl, rfl⟩ := Prod.mk.inj (Option.some.inj hr)
    simp only [taken] at he
    split at he
    · contradiction
    rename_i hc
    obtain ⟨rest, hq⟩ := List.head?_eq_some_iff.mp he
    have hg : (Handlers.standard.get? e.kind) = some (.serve service) := by
      simp [handlers_standard, hs]
    obtain ⟨slot, inbound, hm⟩ : ∃ slot inbound,
        cell.inbound.receive = (.message e, slot, inbound) := ⟨_, _, Mailbox.receive_cons hq⟩
    cases slot <;>
      simp [step, seat, Session.stepDispatcher, present, hc, Session.dispatchNext, hm, hg, received]

/-- A turn without work leaves the dispatcher where it was, with the same message skipped if it
took one, or ends it. -/
theorem step_of_no_work (h : t.work d = none) :
    (t.step d = (true, t.seat d, t.received) ∧ (t.taken d).isSome) ∨
      (t.taken d = none ∧ ((t.step d).2 = (t.seat d, t.hub) ∨
        ∃ c, d = .idle c ∧ t.step d = (t.seat d).endDispatcher t.hub p c)) := by
  obtain ⟨session, hub, cell, present, now, expired⟩ := t
  cases d with
  | ended c =>
    refine .inr ⟨rfl, .inl ?_⟩
    simp [step, seat, Session.stepDispatcher, present]
  | busy c pending => contradiction
  | idle c =>
    simp only [step, seat, Session.stepDispatcher, present, taken]
    by_cases hc : cell.cancelled
    · simp [hc]
    simp only [hc, Bool.false_eq_true, if_false]
    cases hq : cell.inbound.queue with
    | nil =>
      refine .inr ⟨rfl, ?_⟩
      rcases Mailbox.receive_nil hq with hr | hr
      · exact .inl (by simp only [Session.dispatchNext, hr])
      · exact .inr ⟨c, rfl, by simp only [Session.dispatchNext, hr]⟩
    | cons e rest =>
      have hs : Service.ofKind? e.kind = none := by
        cases hs : Service.ofKind? e.kind with
        | none => rfl
        | some service => simp [work, taken, hc, hq, hs] at h
      have hg : Handlers.standard.get? e.kind = none := by
        simp [handlers_standard, hs]
      refine .inl ⟨?_, rfl⟩
      obtain ⟨slot, inbound, hm⟩ : ∃ slot inbound,
          cell.inbound.receive = (.message e, slot, inbound) := ⟨_, _, Mailbox.receive_cons hq⟩
      cases slot <;> simp [Session.dispatchNext, hm, hg, received]

/-- What a turn does for a request lasts, unless the request cannot be read. -/
theorem work_serves {d : Dispatching} {Q : Hub → Prop}
    (hQ : ∀ c, d.context? = some c → Hub.Lasting c.id (.dispatcher p) Q)
    (howner : ∀ c pending, d = .busy c pending → pending.wait.ticket.owner = .dispatcher p)
    (hhub : Q t.hub) (hreceived : Q t.received) {request : Envelope}
    {result : Progress × Context × Hub} (h : t.work d = some (request, result)) :
    ∃ c, d.context? = some c ∧
      if d = .idle c ∧ request.answerable = false then result = (.unreadable, c, t.received)
      else c.Serves Q (.dispatcher p) request result := by
  cases d with
  | ended => contradiction
  | busy c pending =>
    obtain ⟨rfl, rfl⟩ : pending.request = request ∧ _ = result := by
      simpa [work] using h
    have hw := howner c pending rfl
    refine ⟨c, rfl, ?_⟩
    rw [if_neg (by simp)]
    split
    · exact Context.lapse_spec (hQ c rfl) hhub hw
    · exact Context.resume_spec (hQ c rfl) hhub t.now hw
  | idle c =>
    simp only [work, Option.bind_eq_bind, Option.bind_eq_some_iff] at h
    obtain ⟨e, -, service, hs, hr⟩ := h
    obtain ⟨rfl, rfl⟩ := Prod.mk.inj (Option.some.inj hr)
    refine ⟨c, rfl, ?_⟩
    have hserve := Context.serve_spec (hQ c rfl) hreceived t.now hs
    cases ha : e.answerable with
    | true => simpa [ha] using hserve
    | false => simpa [ha] using hserve

end Turn

end Lobby
