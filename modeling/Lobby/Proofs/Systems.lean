import Lobby.Proofs.RoomTurns

/-! A system of any number of sessions and rooms whose tasks run in any order. Waits may end
without an answer at any moment, and a room that has found somebody waiting for a join may handle
it later. -/
namespace Lobby

structure System where
  hub : Hub := {}
  sessions : Array Session := #[]
  /-- The joins that rooms have begun to handle. -/
  hands : Hands := fun _ => none

namespace System

inductive Visit (p : PlayerId) (h : Hub) : Hub → Prop
  | offer (r : Nat) {e : Event Ticket} (he : e.player ≠ p) (hr : e.reply? = none) :
      Visit p h (h.offerEvent r e).2
  | request (r timeout now : Nat) {player : PlayerId} {event : Ticket → Event Ticket}
      (hp : player ≠ p) (he : ∀ t, (event t).player = player ∧ (event t).reply? = some t) :
      Visit p h (h.request .visitor r timeout now event).2
  | resume {w : Wait} (hw : w.ticket.owner = .visitor) (now : Nat) : Visit p h (h.resume w now).2
  | expire {w : Wait} (hw : w.ticket.owner = .visitor) : Visit p h (h.expire w).2

def after (σ : System) (n : Nat) (step : Session.Step) : System :=
  { σ with hub := step.2.2, sessions := σ.sessions.setIfInBounds n step.2.1 }

/-- One step of a system in which rooms go on, and in which only its own session acts in a player's
name. -/
inductive Step (p : PlayerId) (σ : System) : System → Prop
  | read {n : Nat} {s : Session} (hs : σ.sessions[n]? = some s) :
      Step p σ (σ.after n (s.stepReader σ.hub n))
  | write {n : Nat} {s : Session} (hs : σ.sessions[n]? = some s) :
      Step p σ (σ.after n (s.stepWriter σ.hub n))
  | dispatch {n : Nat} {s : Session} (hs : σ.sessions[n]? = some s) (now : Nat) :
      Step p σ (σ.after n (s.stepDispatcher σ.hub n now))
  /-- The time of a dispatcher's request is up, even if the answer is there. -/
  | lapse {n : Nat} {s : Session} {cell : PlayerCell} {c : Context} {pending : Pending}
      (hs : σ.sessions[n]? = some s) (hp : σ.hub.players[n]? = some cell)
      (hb : s.dispatching = .busy c pending) :
      Step p σ (σ.after n (s.dispatched pending.request
        (c.follow pending.request pending.errand pending.wait.room (σ.hub.expire pending.wait))))
  | supervise {n : Nat} {s : Session} (hs : σ.sessions[n]? = some s) (now : Nat) :
      Step p σ (σ.after n (s.stepSupervisor σ.hub n now))
  | depart {n : Nat} {s : Session} {w : Wait} {rooms : List RoomId}
      (hs : σ.sessions[n]? = some s) (hw : s.supervising = .waiting w rooms) :
      Step p σ (σ.after n (true, { s with supervising := .leaving rooms }, (σ.hub.expire w).2))
  | room {r : Nat} (hfree : σ.hands r = none) : Step p σ { σ with hub := (σ.hub.stepRoom r).2 }
  /-- A room takes a join and finds that somebody waits for the answer. -/
  | take {r : Nat} {e : Event Ticket} {t : Ticket} {h : Hub} (hfree : σ.hands r = none)
      (ht : σ.hub.takeEvent? r = some (e, h)) (hk : e.kind = .join) (hr : e.reply? = some t)
      (hw : h.listener t = .waiting) :
      Step p σ { σ with hub := h, hands := Function.update σ.hands r (some e) }
  | conclude {r : Nat} {e : Event Ticket} (hhand : σ.hands r = some e) :
      Step p σ { σ with
        hub := σ.hub.handleEvent σ.hub.lateListener r e
        hands := Function.update σ.hands r none }
  | connect {id : PlayerId} {config : PlayerConfig} (window : Option Nat) {m : Nat} {h : Hub}
      (ho : σ.hub.openPlayer id config = (m, true, h)) :
      Step p σ { σ with
        hub := h
        sessions := σ.sessions.push (.start m id config .standard window) }
  | stream {n : Nat} {s : Session} (hs : σ.sessions[n]? = some s) (f : Stream → Stream) :
      Step p σ (σ.after n (true, { s with stream := f s.stream }, σ.hub))
  | openRoom (id : RoomId) (name : String) : Step p σ { σ with hub := (σ.hub.openRoom id name).2.2 }
  | createRoom (name : String) : Step p σ { σ with hub := (σ.hub.createRoom name).2 }
  | visit {h : Hub} (hv : Visit p σ.hub h) : Step p σ { σ with hub := h }
  /-- Whatever else happens has no part in rooms and replies. -/
  | aside {h : Hub} (ha : σ.hub.Apart h) : Step p σ { σ with hub := h }

abbrev Leads (p : PlayerId) : System → System → Prop := Relation.ReflTransGen (Step p)

def Reachable (p : PlayerId) (σ : System) : Prop :=
  ∃ config : RoomConfig, Leads p { hub := { config } } σ

structure Sound (σ : System) : Prop where
  session {n : Nat} {s : Session} : σ.sessions[n]? = some s → s.Sound n
  hand {r : Nat} {e : Event Ticket} : σ.hands r = some e → e.kind = .join

variable {σ σ' : System} {p : PlayerId} {n m : Nat} {s s' : Session} {h : Hub} {goesOn : Bool}

theorem getElem?_after (hs : σ.sessions[n]? = some s) (step : Session.Step) (m : Nat) :
    (σ.after n step).sessions[m]? = if m = n then some step.2.1 else σ.sessions[m]? := by
  have hlt := (Array.getElem?_eq_some_iff.mp hs).1
  rw [after, Array.getElem?_setIfInBounds]
  by_cases hm : n = m
  · subst hm
    simp [hlt]
  · simp [hm, Ne.symm hm]

end System

namespace Session
variable {s s' : Session} {h : Hub} {n : Nat} {cell : PlayerCell}

theorem Alike.sound (ha : s.Alike s') (hs : s.Sound n) : s'.Sound n := by
  refine ⟨ha.handlers.trans hs.handlers, ?_, ?_, ?_⟩
  · rw [ha.dispatching, ha.id]
    exact hs.dispatching
  · rw [ha.supervising]
    exact hs.waiting
  · rw [ha.supervising, ha.dispatching]
    exact hs.order

def Departing (s : Session) : Prop := s.supervising ≠ .starting ∧ s.supervising ≠ .joining

theorem Alike.departing (ha : s.Alike s') (hs : s.Departing) : s'.Departing := by
  rwa [Departing, ha.supervising]

/-- The supervisor waits for the dispatcher to end. -/
theorem Sound.ended_of_departing (hs : s.Sound n) (hd : s.Departing) :
    ∃ c, s.dispatching = .ended c := by
  rcases hs.order with h | h | h
  · exact absurd h hd.1
  · exact absurd h hd.2
  · exact h

theorem Departing.supervise (hs : s.Departing) (h : Hub) (n now : Nat) :
    (s.stepSupervisor h n now).2.1.Departing := by
  rw [stepSupervisor]
  split
  · exact hs
  · exact absurd ‹_› hs.1
  · exact absurd ‹_› hs.2
  · rename_i rooms _
    cases rooms with
    | nil => exact ⟨by simp [leaveNext, tearDown], by simp [leaveNext, tearDown]⟩
    | cons id rooms =>
      rw [leaveNext]
      split
      · exact ⟨by simp, by simp⟩
      · split <;> exact ⟨by simp, by simp⟩
  · split <;> exact ⟨by simp, by simp⟩

/-- Before it takes the player off its rooms, a supervisor has nothing to do with them. -/
theorem apart_supervise (hs : ¬ s.Departing) (h : Hub) (n now : Nat) :
    h.Apart (s.stepSupervisor h n now).2.2 := by
  have hbefore : s.supervising = .starting ∨ s.supervising = .joining := by
    by_contra hneither
    rw [not_or] at hneither
    exact hs hneither
  rcases hbefore with hsup | hsup
  · simp only [stepSupervisor, hsup]
    exact ((h.apart_signal _).trans (Hub.apart_signal _ _)).trans (Hub.apart_signal _ _)
  · simp only [stepSupervisor, hsup]
    split <;> exact .refl h

def turn (s : Session) (hp : h.players[n]? = some cell) (now : Nat) : Turn n :=
  ⟨s, h, cell, hp, now, false⟩

/-- The turn of a dispatcher whose time is up. -/
def lastTurn (s : Session) (hp : h.players[n]? = some cell) : Turn n :=
  ⟨s, h, cell, hp, 0, true⟩

private theorem seat_dispatching (hs : s.Sound n) (hp : h.players[n]? = some cell) (now : Nat)
    (expired : Bool) : (⟨s, h, cell, hp, now, expired⟩ : Turn n).seat s.dispatching = s := by
  rw [Turn.seat, ← hs.handlers]

/-- A dispatcher whose player has no cell does nothing. -/
theorem stepDispatcher_of_absent (s : Session) (hp : h.players[n]? = none) (now : Nat) :
    s.stepDispatcher h n now = (false, s, h) := by
  simp [stepDispatcher, hp]

theorem step_turn (hs : s.Sound n) (hp : h.players[n]? = some cell) (now : Nat) :
    (s.turn hp now).step s.dispatching = s.stepDispatcher h n now := by
  have hseat := seat_dispatching hs hp now false
  rw [turn]
  cases hd : s.dispatching <;> rw [hd] at hseat <;> simp only [Turn.step, hseat]

theorem step_lastTurn (hs : s.Sound n) (hp : h.players[n]? = some cell) {c : Context}
    {pending : Pending} (hb : s.dispatching = .busy c pending) :
    (s.lastTurn hp).step s.dispatching = s.dispatched pending.request
      (c.follow pending.request pending.errand pending.wait.room (h.expire pending.wait)) := by
  have hseat := seat_dispatching hs hp 0 true
  rw [hb] at hseat ⊢
  exact congrArg (fun s' : Session => s'.dispatched pending.request (c.follow pending.request
    pending.errand pending.wait.room (h.expire pending.wait))) hseat

theorem enduring_true (player : PlayerId) (owner : Task) :
    Hub.Enduring player owner fun _ => True :=
  ⟨⟨fun _ _ _ => trivial, fun _ _ => trivial, fun _ _ => trivial, fun _ _ => trivial,
    fun _ => trivial⟩, fun _ _ => trivial⟩

/-- A dispatcher that has ended does nothing. -/
theorem step_ended (t : Turn n) (c : Option Context) :
    (t.step (.ended c)).2 = (t.seat (.ended c), t.hub) := by
  rcases t.step_of_no_work (.ended c) rfl with ⟨-, h⟩ | ⟨-, h | ⟨c', h, -⟩⟩
  · contradiction
  · exact h
  · contradiction

/-- A turn keeps the session as it runs, and the duties other than the dispatcher as they are. -/
theorem Sound.turn (hs : s.Sound n) {t : Turn n} (ht : t.session = s) :
    ∃ d, (t.step s.dispatching).2.1 = { s with dispatching := d } ∧
      ({ s with dispatching := d } : Session).Sound n := by
  obtain ⟨-, d, hd, hproper⟩ :=
    t.step_enduring hs.dispatching (enduring_true s.id (.dispatcher n)) trivial
  have hseat : ({ t.seat s.dispatching with dispatching := d } : Session) =
      { s with dispatching := d } := by
    rw [Turn.seat, ht, ← hs.handlers]
  refine ⟨d, hd.trans hseat, hs.handlers, hproper, hs.waiting, ?_⟩
  rcases hs.order with h | h | ⟨c, hc⟩
  · exact .inl h
  · exact .inr (.inl h)
  · refine .inr (.inr ⟨c, ?_⟩)
    rw [hc, step_ended] at hd
    exact (congrArg Session.dispatching hd).symm

theorem Sound.supervise (hs : s.Sound n) (h : Hub) (now : Nat) :
    ∃ next, (s.stepSupervisor h n now).2.1 = { s with supervising := next } ∧
      ({ s with supervising := next } : Session).Sound n :=
  (stepSupervisor_enduring hs (enduring_true s.id (.supervisor n)) trivial now).2

theorem Sound.depart (hs : s.Sound n) {w : Wait} {rooms : List RoomId}
    (hw : s.supervising = .waiting w rooms) :
    ({ s with supervising := .leaving rooms } : Session).Sound n := by
  refine ⟨hs.handlers, hs.dispatching, by simp, ?_⟩
  rcases hs.order with h | h | h
  · simp [hw] at h
  · simp [hw] at h
  · exact .inr (.inr h)

theorem sound_start (m : Nat) (id : PlayerId) (config : PlayerConfig) (window : Option Nat) :
    (Session.start m id config .standard window).Sound n := by
  refine ⟨rfl, ⟨?_, by simp [start]⟩, by simp [start], .inl rfl⟩
  rintro _ ⟨⟩
  rfl

end Session

namespace System
variable {σ σ' : System} {p : PlayerId} {n : Nat} {s : Session}

inductive Moves (σ : System) (sessions : Array Session) : Prop
  | still (h : sessions = σ.sessions)
  | one {n : Nat} {s s' : Session} (hs : σ.sessions[n]? = some s) (sound : s'.Sound n)
      (h : sessions = σ.sessions.setIfInBounds n s') (id : s'.id = s.id)
      (departing : s.Departing → s'.Departing)
  | more {s : Session} (sound : s.Sound σ.sessions.size) (h : sessions = σ.sessions.push s)

private theorem Sound.move_turn (hσ : σ.Sound) (hs : σ.sessions[n]? = some s) {t : Turn n}
    (ht : t.session = s) {step : Session.Step} (hstep : t.step s.dispatching = step) :
    σ.Moves (σ.after n step).sessions := by
  obtain ⟨d, hd, hsound⟩ := (hσ.session hs).turn ht
  rw [hstep] at hd
  exact .one hs hsound (congrArg (σ.sessions.setIfInBounds n) hd) rfl id

theorem Sound.moves (hσ : σ.Sound) (hstep : Step p σ σ') : σ.Moves σ'.sessions := by
  cases hstep with
  | @read n s hs =>
    have ha := (Session.aside_stepReader s σ.hub n).session
    exact .one hs (ha.sound (hσ.session hs)) rfl ha.id ha.departing
  | @write n s hs =>
    have ha := (Session.aside_stepWriter s σ.hub n).session
    exact .one hs (ha.sound (hσ.session hs)) rfl ha.id ha.departing
  | @dispatch n s hs now =>
    cases hp : σ.hub.players[n]? with
    | none =>
      rw [s.stepDispatcher_of_absent hp now]
      exact .one hs (hσ.session hs) rfl rfl id
    | some cell =>
      exact hσ.move_turn hs rfl (Session.step_turn (hσ.session hs) hp now)
  | lapse hs hp hb => exact hσ.move_turn hs rfl (Session.step_lastTurn (hσ.session hs) hp hb)
  | @supervise n s hs now =>
    obtain ⟨next, hn, hsound⟩ := (hσ.session hs).supervise σ.hub now
    refine .one hs hsound (congrArg (σ.sessions.setIfInBounds n) hn) rfl fun hd => ?_
    exact hn ▸ hd.supervise σ.hub n now
  | depart hs hw => exact .one hs ((hσ.session hs).depart hw) rfl rfl fun _ => ⟨by simp, by simp⟩
  | @stream n s hs f =>
    have ha : s.Alike { s with stream := f s.stream } := ⟨rfl, rfl, rfl, rfl⟩
    exact .one hs (ha.sound (hσ.session hs)) rfl rfl id
  | connect window ho => exact .more (Session.sound_start _ _ _ _) rfl
  | _ => exact .still rfl

/-- Every session after a step is as it runs. -/
theorem Moves.sound {sessions : Array Session} (hm : σ.Moves sessions) (hσ : σ.Sound)
    {m : Nat} (hs : sessions[m]? = some s) : s.Sound m := by
  cases hm with
  | still h => exact hσ.session (h ▸ hs)
  | one _ sound h =>
    rw [h, Array.getElem?_setIfInBounds] at hs
    split at hs
    · rename_i hnm
      subst hnm
      split at hs
      · obtain rfl := Option.some.inj hs
        exact sound
      · contradiction
    · exact hσ.session hs
  | more sound h =>
    rw [h, Array.getElem?_push] at hs
    split at hs
    · rename_i hsize
      obtain rfl := Option.some.inj hs
      exact hsize ▸ sound
    · exact hσ.session hs

theorem join_of_update (hσ : σ.Sound) {q r : Nat} {hand : Option (Event Ticket)}
    {e : Event Ticket} (hk : ∀ e, hand = some e → e.kind = .join)
    (he : Function.update σ.hands q hand r = some e) : e.kind = .join := by
  by_cases hrq : r = q
  · subst hrq
    rw [Function.update_self] at he
    exact hk e he
  · rw [Function.update_of_ne hrq] at he
    exact hσ.hand he

theorem Sound.step (hσ : σ.Sound) (hstep : Step p σ σ') : σ'.Sound := by
  refine ⟨(hσ.moves hstep).sound hσ, ?_⟩
  intro r e he
  cases hstep with
  | take hfree ht hk =>
    refine join_of_update hσ ?_ he
    rintro _ ⟨⟩
    exact hk
  | conclude => exact join_of_update hσ (by simp) he
  | _ => exact hσ.hand he

theorem Sound.leads (hσ : σ.Sound) (hl : Leads p σ σ') : σ'.Sound := by
  induction hl with
  | refl => exact hσ
  | tail _ hstep ih => exact ih.step hstep

theorem sound_initial (config : RoomConfig) : ({ hub := { config } } : System).Sound :=
  ⟨by simp, by simp⟩

theorem Reachable.step (hr : Reachable p σ) (hstep : Step p σ σ') : Reachable p σ' := by
  obtain ⟨config, hl⟩ := hr
  exact ⟨config, hl.tail hstep⟩

theorem Reachable.sound (hr : Reachable p σ) : σ.Sound := by
  obtain ⟨config, hl⟩ := hr
  exact (sound_initial config).leads hl

end System

end Lobby
