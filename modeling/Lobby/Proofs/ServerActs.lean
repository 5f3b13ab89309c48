import Lobby.Proofs.Systems

/-! Everything that can happen to a server, as data: sessions take their turns, rooms handle events,
and visitors act on players and rooms directly. -/
namespace Lobby

namespace Hub

inductive Call where
  | openRoom (id : RoomId) (name : String)
  | createRoom (name : String)
  | removeRoom (id : RoomId)
  | cancelRoom (room : Nat)
  | removePlayer (id : PlayerId)
  | cancelPlayer (player : Nat)
  | offer (room : Nat) (event : Event Ticket)
  | request (room timeout now : Nat) (event : Ticket → Event Ticket)
  | resume (wait : Wait) (now : Nat)
  | expire (wait : Wait)

def call (h : Hub) : Call → Hub
  | .openRoom id name => (h.openRoom id name).2.2
  | .createRoom name => (h.createRoom name).2
  | .removeRoom id => (h.removeRoom id).2
  | .cancelRoom r => h.cancelRoom r
  | .removePlayer id => (h.removePlayer id).2
  | .cancelPlayer n => h.cancelPlayer n
  | .offer r event => (h.offerEvent r event).2
  | .request r timeout now event => (h.request .visitor r timeout now event).2
  | .resume w now => (h.resume w now).2
  | .expire w => (h.expire w).2

end Hub

namespace Session

inductive Act where
  | read
  | write
  | dispatch (now : Nat)
  /-- The time of the dispatcher's request is up, even if the answer is there. -/
  | lapse
  | supervise (now : Nat)
  | depart
  | stream (change : Stream → Stream)
  | hear (e : Envelope)
  | drain
  | mute

variable (s : Session) (h : Hub) (n : Nat)

def lapse : Step :=
  match h.players[n]?, s.dispatching with
  | some _, .busy c pending => s.dispatched pending.request
      (c.follow pending.request pending.errand pending.wait.room (h.expire pending.wait))
  | _, _ => (false, s, h)

def depart : Step :=
  match s.supervising with
  | .waiting w rooms => (true, { s with supervising := .leaving rooms }, (h.expire w).2)
  | _ => (false, s, h)

/-- A reader that has cut a frame by itself gives the envelope to the dispatcher. -/
def hear (e : Envelope) : Step :=
  match h.players[n]? with
  | none => (false, s, h)
  | some cell =>
    match s.reading with
    | .ready => if cell.cancelled then s.endReader h n else s.deliver h n cell e
    | _ => (false, s, h)

def drain : Step :=
  if s.writerEnded then (false, s, h)
  else if h.isCancelled n then s.endWriter h n
  else
    match h.outboxes[n]? with
    | none => s.endWriter h n
    | some box =>
      match box.receive with
      | (.message _, _, box) => (true, s, { h with outboxes := h.outboxes.setIfInBounds n box })
      | (.empty, _, _) => (false, s, h)
      | (.disconnected, _, _) => s.endWriter h n

def mute : Step :=
  if s.writerEnded then (false, s, h) else s.endWriter h n

def perform : Act → Step
  | .read => s.stepReader h n
  | .write => s.stepWriter h n
  | .dispatch now => s.stepDispatcher h n now
  | .lapse => s.lapse h n
  | .supervise now => s.stepSupervisor h n now
  | .depart => s.depart h
  | .stream change => (true, { s with stream := change s.stream }, h)
  | .hear e => s.hear h n e
  | .drain => s.drain h n
  | .mute => s.mute h n

private theorem deliver_decoder (s : Session) (decoder : Frame.Decoder) (h : Hub) (n : Nat)
    (cell : PlayerCell) (e : Envelope) : ({ s with decoder } : Session).deliver h n cell e =
      ((s.deliver h n cell e).1, { (s.deliver h n cell e).2.1 with decoder },
        (s.deliver h n cell e).2.2) := by
  rw [deliver, deliver]
  cases s.config.overflow with
  | dropNewest =>
    simp only
    generalize cell.inbound.offer e = result
    obtain ⟨fault | _, inbound⟩ := result
    · cases fault <;> rfl
    · rfl
  | wait =>
    simp only
    generalize cell.inbound.send _ e = result
    obtain ⟨delivery, inbound⟩ := result
    cases delivery <;> rfl

/-- What a reader does when it cuts a frame with an envelope is to hear that. -/
theorem stepReader_hub_of_payload {s : Session} {payload : List UInt8} {decoder : Frame.Decoder}
    {e : Envelope} (hr : s.reading = .ready) (hnext : s.decoder.next = (.payload payload, decoder))
    (he : Wire.decode? payload = some e) (h : Hub) (n : Nat) :
    (s.stepReader h n).2.2 = (s.hear h n e).2.2 ∧
      (s.stepReader h n).2.1.reading = (s.hear h n e).2.1.reading := by
  rw [stepReader, hear, hr]
  cases h.players[n]? with
  | none => exact ⟨rfl, rfl⟩
  | some cell =>
    simp only [readNext, hnext, he]
    split
    · exact ⟨rfl, rfl⟩
    · rw [deliver_decoder]
      exact ⟨rfl, rfl⟩

/-- What a writer does to others is to take a message, to come to its end, or nothing. -/
theorem stepWriter_hub (s : Session) (h : Hub) (n : Nat) :
    ∃ step ∈ [(false, s, h), s.drain h n, s.mute h n], (s.stepWriter h n).2.2 = step.2.2 ∧
      (s.stepWriter h n).2.1.writerEnded = step.2.1.writerEnded := by
  have hmute (hgo : s.writerEnded = false) :
      ∃ step ∈ [(false, s, h), s.drain h n, s.mute h n], (s.endWriter h n).2.2 = step.2.2 ∧
        (s.endWriter h n).2.1.writerEnded = step.2.1.writerEnded := by
    refine ⟨s.mute h n, by simp, ?_⟩
    rw [mute, if_neg (by simp [hgo])]
    exact ⟨rfl, rfl⟩
  have hstay : ∃ step ∈ [(false, s, h), s.drain h n, s.mute h n], h = step.2.2 ∧
      s.writerEnded = step.2.1.writerEnded := ⟨(false, s, h), by simp, rfl, rfl⟩
  rw [stepWriter]
  -- Only an idle writer looks into the outbox.
  cases hw : s.writing with
  | ended => exact hstay
  | idle =>
    have hgo : s.writerEnded = false := by simp [writerEnded, hw]
    by_cases hstop : h.isCancelled n = true
    · simp only [if_pos hstop]
      exact hmute hgo
    simp only [if_neg hstop, writeNext]
    cases hb : h.outboxes[n]? with
    | none => exact hmute hgo
    | some box =>
      have hdrain : s.drain h n = match box.receive with
          | (.message _, _, box) =>
            (true, s, { h with outboxes := h.outboxes.setIfInBounds n box })
          | (.empty, _, _) => (false, s, h)
          | (.disconnected, _, _) => s.endWriter h n := by
        rw [drain, if_neg (by simp [hgo]), if_neg hstop, hb]
      simp only
      generalize box.receive = result at hdrain ⊢
      obtain ⟨received, next, rest⟩ := result
      cases received with
      | empty => exact hstay
      | disconnected => exact hmute hgo
      | message e =>
        refine ⟨s.drain h n, by simp, ?_⟩
        rw [hdrain]
        simp only
        split
        · exact ⟨rfl, by simp [writerEnded, hw]⟩
        · exact ⟨rfl, rfl⟩
  | sending rest =>
    have hgo : s.writerEnded = false := by simp [writerEnded, hw]
    simp only
    split
    · exact hmute hgo
    split
    · exact hmute hgo
    split
    · exact ⟨(false, s, h), by simp, rfl, by simp [writerEnded, hw]⟩
    · exact ⟨(false, s, h), by simp, rfl, by simp [writerEnded, hw]⟩

end Session

namespace System

inductive Act where
  | session (n : Nat) (act : Session.Act)
  | room (r : Nat)
  /-- A room takes a join and finds that somebody waits for the answer. -/
  | take (r : Nat)
  | conclude (r : Nat)
  | connect (id : PlayerId) (config : PlayerConfig) (window : Option Nat)
  | call (c : Hub.Call)

/-- A room begins with its next event, if that is a join whose answer is waited for. -/
def takeUp (σ : System) (r : Nat) : System :=
  match σ.hands r, σ.hub.takeEvent? r with
  | none, some (e, hub) =>
    if e.kind = .join ∧ e.reply?.any (fun t => hub.listener t = .waiting) then
      { σ with hub, hands := Function.update σ.hands r (some e) }
    else σ
  | _, _ => σ

def perform (σ : System) : Act → System
  | .session n act =>
    match σ.sessions[n]? with
    | some s => σ.after n (s.perform σ.hub n act)
    | none => σ
  | .room r => if σ.hands r = none then { σ with hub := (σ.hub.stepRoom r).2 } else σ
  | .take r => σ.takeUp r
  | .conclude r =>
    match σ.hands r with
    | some e =>
      { σ with
        hub := σ.hub.handleEvent σ.hub.lateListener r e
        hands := Function.update σ.hands r none }
    | none => σ
  | .connect id config window =>
    match σ.hub.openPlayer id config with
    | (n, true, hub) =>
      { σ with hub, sessions := σ.sessions.push (.start n id config .standard window) }
    | (_, false, _) => σ
  | .call c => { σ with hub := σ.hub.call c }

def performAll (σ : System) (acts : List Act) : System := acts.foldl perform σ

def initial (config : RoomConfig) (reactions : Reactions) : System :=
  { hub := { config, reactions } }

end System

namespace Session
variable {s : Session} {h : Hub} {n : Nat}

theorem alike_hear (s : Session) (h : Hub) (n : Nat) (e : Envelope) :
    s.Alike (s.hear h n e).2.1 := by
  have hstay : s.Alike s := ⟨rfl, rfl, rfl, rfl⟩
  rw [hear]
  split
  · exact hstay
  · split
    · split
      · exact (aside_endReader hstay (.refl h)).session
      · exact (aside_deliver hstay _ e).session
    · exact hstay

theorem alike_drain (s : Session) (h : Hub) (n : Nat) : s.Alike (s.drain h n).2.1 := by
  have hstay : s.Alike s := ⟨rfl, rfl, rfl, rfl⟩
  rw [drain]
  split
  · exact hstay
  · split
    · exact aside_endWriter.session
    · split
      · exact aside_endWriter.session
      · split
        · exact hstay
        · exact hstay
        · exact aside_endWriter.session

theorem alike_mute (s : Session) (h : Hub) (n : Nat) : s.Alike (s.mute h n).2.1 := by
  rw [mute]
  split
  · exact ⟨rfl, rfl, rfl, rfl⟩
  · exact aside_endWriter.session

theorem Sound.dispatch (hs : s.Sound n) (h : Hub) (now : Nat) :
    ∃ d, (s.stepDispatcher h n now).2.1 = { s with dispatching := d } ∧
      ({ s with dispatching := d } : Session).Sound n := by
  cases hp : h.players[n]? with
  | none =>
    rw [s.stepDispatcher_of_absent hp now]
    exact ⟨s.dispatching, rfl, hs⟩
  | some cell =>
    have hturn := hs.turn (t := s.turn hp now) rfl
    rwa [step_turn hs hp now] at hturn

theorem Sound.lapse (hs : s.Sound n) (h : Hub) :
    ∃ d, (s.lapse h n).2.1 = { s with dispatching := d } ∧
      ({ s with dispatching := d } : Session).Sound n := by
  rw [Session.lapse]
  split
  · rename_i cell c pending hp hb
    have hturn := hs.turn (t := s.lastTurn hp) rfl
    rwa [step_lastTurn hs hp hb] at hturn
  · exact ⟨s.dispatching, rfl, hs⟩

/-- Whatever happens to a session leaves it as it runs. -/
theorem Sound.perform (hs : s.Sound n) (h : Hub) (act : Act) : (s.perform h n act).2.1.Sound n := by
  cases act with
  | read => exact (aside_stepReader s h n).session.sound hs
  | write => exact (aside_stepWriter s h n).session.sound hs
  | dispatch now =>
    obtain ⟨d, hd, hsound⟩ := hs.dispatch h now
    exact hd ▸ hsound
  | lapse =>
    obtain ⟨d, hd, hsound⟩ := hs.lapse h
    exact hd ▸ hsound
  | supervise now =>
    obtain ⟨next, hn, hsound⟩ := hs.supervise h now
    exact hn ▸ hsound
  | depart =>
    rw [Session.perform, Session.depart]
    split
    · exact hs.depart ‹_›
    · exact hs
  | stream change =>
    have ha : s.Alike { s with stream := change s.stream } := ⟨rfl, rfl, rfl, rfl⟩
    exact ha.sound hs
  | hear e => exact (alike_hear s h n e).sound hs
  | drain => exact (alike_drain s h n).sound hs
  | mute => exact (alike_mute s h n).sound hs

end Session

namespace System
variable {σ : System}

private theorem sound_after (hσ : σ.Sound) {n : Nat} {s : Session} (hs : σ.sessions[n]? = some s)
    {step : Session.Step} (hstep : step.2.1.Sound n) : (σ.after n step).Sound := by
  refine ⟨fun {m s'} hs' => ?_, hσ.hand⟩
  rw [getElem?_after hs] at hs'
  split at hs'
  · rename_i hm
    obtain rfl := Option.some.inj hs'
    exact hm ▸ hstep
  · exact hσ.session hs'

theorem Sound.perform (hσ : σ.Sound) (act : Act) : (σ.perform act).Sound := by
  cases act with
  | session n act =>
    rw [System.perform]
    split
    · rename_i s hs
      exact sound_after hσ hs ((hσ.session hs).perform σ.hub act)
    · exact hσ
  | room r =>
    rw [System.perform]
    split
    · exact ⟨hσ.session, hσ.hand⟩
    · exact hσ
  | take r =>
    rw [System.perform, takeUp]
    split
    · split
      · rename_i hjoin
        refine ⟨hσ.session, join_of_update hσ ?_⟩
        rintro _ ⟨⟩
        exact hjoin.1
      · exact hσ
    · exact hσ
  | conclude r =>
    rw [System.perform]
    split
    · exact ⟨hσ.session, join_of_update hσ (by simp)⟩
    · exact hσ
  | connect id config window =>
    rw [System.perform]
    split
    · refine ⟨fun {m s} hs => ?_, hσ.hand⟩
      rw [Array.getElem?_push] at hs
      split at hs
      · obtain rfl := Option.some.inj hs
        exact Session.sound_start _ _ _ _
      · exact hσ.session hs
    · exact hσ
  | call c => exact ⟨hσ.session, hσ.hand⟩

theorem Sound.performAll (hσ : σ.Sound) (acts : List Act) : (σ.performAll acts).Sound := by
  induction acts generalizing σ with
  | nil => exact hσ
  | cons act rest ih => exact ih (hσ.perform act)

theorem sound_start (config : RoomConfig) (reactions : Reactions) :
    (initial config reactions).Sound :=
  ⟨by simp [initial], by simp [initial]⟩

end System

end Lobby
