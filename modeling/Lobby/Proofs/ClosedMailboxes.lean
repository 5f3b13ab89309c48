import Lobby.Proofs.Disguises
import Lobby.Proofs.RoomNotices

/-! What is over stays over: mailboxes of players that have closed refuse whatever comes, players
that were asked to stop are not asked to go on, and duties that have ended do not begin again. -/
namespace Lobby

structure PlayerCell.Wanes (cell cell' : PlayerCell) : Prop where
  id : cell'.id = cell.id
  cancelled : cell.cancelled = true → cell'.cancelled = true
  inbound : cell.inbound.closed = true → cell'.inbound.closed = true

theorem PlayerCell.Wanes.refl (cell : PlayerCell) : cell.Wanes cell :=
  ⟨rfl, fun h => h, fun h => h⟩

namespace Hub
variable {h h' h'' : Hub} {n : Nat} {cell cell' : PlayerCell}

structure Wanes (h h' : Hub) : Prop where
  player {n : Nat} {cell : PlayerCell} : h.players[n]? = some cell →
    ∃ cell', h'.players[n]? = some cell' ∧ cell.Wanes cell'
  outbox {n : Nat} {box : Outbox} : h.outboxes[n]? = some box →
    ∃ box', h'.outboxes[n]? = some box' ∧ (box.closed = true → box'.closed = true)

namespace Wanes

theorem refl (h : Hub) : h.Wanes h :=
  ⟨fun hp => ⟨_, hp, .refl _⟩, fun hb => ⟨_, hb, fun h => h⟩⟩

theorem trans (hw : h.Wanes h') (hw' : h'.Wanes h'') : h.Wanes h'' := by
  constructor
  · intro n cell hp
    obtain ⟨cell', hp', hc⟩ := hw.player hp
    obtain ⟨cell'', hp'', hc'⟩ := hw'.player hp'
    exact ⟨cell'', hp'', hc'.id.trans hc.id, fun h => hc'.cancelled (hc.cancelled h),
      fun h => hc'.inbound (hc.inbound h)⟩
  · intro n box hb
    obtain ⟨box', hb', hc⟩ := hw.outbox hb
    obtain ⟨box'', hb'', hc'⟩ := hw'.outbox hb'
    exact ⟨box'', hb'', fun h => hc' (hc h)⟩

/-- A change that leaves players and outboxes alone. -/
theorem of_eq (hw : h.Wanes h') (hplayers : h''.players = h'.players)
    (houtboxes : h''.outboxes = h'.outboxes) : h.Wanes h'' :=
  hw.trans ⟨fun hp => ⟨_, hplayers ▸ hp, .refl _⟩, fun hb => ⟨_, houtboxes ▸ hb, fun h => h⟩⟩

theorem signal (hw : h.Wanes h') (s : Signal) : h.Wanes (h'.signal s) := hw.of_eq rfl rfl

theorem setPlayer (hw : h.Wanes h') (hp : h'.players[n]? = some cell) (hc : cell.Wanes cell') :
    h.Wanes (h'.setPlayer n cell') := by
  refine hw.trans ⟨fun {m old} hold => ?_, fun hb => ⟨_, hb, fun h => h⟩⟩
  rw [Hub.setPlayer, Array.getElem?_setIfInBounds]
  split
  · rename_i hnm
    subst hnm
    obtain rfl := Option.some.inj (hp.symm.trans hold)
    exact ⟨cell', if_pos (Array.getElem?_eq_some_iff.mp hp).1, hc⟩
  · exact ⟨old, hold, .refl _⟩

theorem setInbound (hw : h.Wanes h') (hp : h'.players[n]? = some cell)
    {inbound : Mailbox Ticket Envelope} (hc : inbound.closed = cell.inbound.closed) :
    h.Wanes (h'.setPlayer n { cell with inbound }) :=
  hw.setPlayer hp ⟨rfl, fun h => h, fun h => hc.trans h⟩

theorem setOutbox (hw : h.Wanes h') {box box' : Outbox} (hb : h'.outboxes[n]? = some box)
    (hc : box.closed = true → box'.closed = true) :
    h.Wanes { h' with outboxes := h'.outboxes.setIfInBounds n box' } := by
  refine hw.trans ⟨fun hp => ⟨_, hp, .refl _⟩, fun {m old} hold => ?_⟩
  rw [Array.getElem?_setIfInBounds]
  split
  · rename_i hnm
    subst hnm
    obtain rfl := Option.some.inj (hb.symm.trans hold)
    exact ⟨box', if_pos (Array.getElem?_eq_some_iff.mp hb).1, hc⟩
  · exact ⟨old, hold, fun h => h⟩

theorem post (hw : h.Wanes h') (i : Nat) (message : Envelope) : h.Wanes (h'.post i message).2 := by
  have hoffer : h'.Wanes { h' with outboxes := (h'.outboxes.offer i message).2 } := by
    refine ⟨fun hp => ⟨_, hp, .refl _⟩, fun {m box} hb => ?_⟩
    simp only
    rw [Outboxes.getElem?_offer, hb]
    split
    · exact ⟨_, rfl, fun hc => (box.closed_offer message).trans hc⟩
    · exact ⟨box, rfl, fun h => h⟩
  refine hw.trans (hoffer.of_eq ?_ ?_)
  · rw [Hub.post]
    split <;> rfl
  · rw [Hub.post]
    split <;> rename_i heq <;> exact (congrArg Prod.snd heq).symm

theorem cancelPlayer (hw : h.Wanes h') (n : Nat) : h.Wanes (h'.cancelPlayer n) := by
  rw [Hub.cancelPlayer]
  split
  · rename_i cell hp
    split
    · exact hw
    · have hc : cell.Wanes { cell with cancelled := true } := ⟨rfl, fun _ => rfl, fun h => h⟩
      exact (hw.setPlayer hp hc).signal _
  · exact hw

theorem removePlayer (hw : h.Wanes h') (id : PlayerId) : h.Wanes (h'.removePlayer id).2 := by
  rw [Hub.removePlayer]
  split
  · exact (hw.cancelPlayer _).of_eq rfl rfl
  · exact hw

theorem openPlayer (hw : h.Wanes h') (id : PlayerId) (config : PlayerConfig) :
    h.Wanes (h'.openPlayer id config).2.2 := by
  have push {α : Type} {xs : Array α} {i : Nat} {x : α} (y : α) (hx : xs[i]? = some x) :
      (xs.push y)[i]? = some x := by
    rw [Array.getElem?_push, if_neg (Array.getElem?_eq_some_iff.mp hx).1.ne]
    exact hx
  rw [Hub.openPlayer]
  split
  · exact hw
  · apply Wanes.signal
    exact hw.trans ⟨fun hp => ⟨_, push _ hp, .refl _⟩, fun hb => ⟨_, push _ hb, fun h => h⟩⟩

end Wanes

theorem wanes_openRoom (h : Hub) (id : RoomId) (name : String) :
    h.Wanes (h.openRoom id name).2.2 := by
  rw [openRoom]
  split
  · exact .refl h
  · exact (Wanes.refl h).of_eq rfl rfl

theorem wanes_cancelRoom (h : Hub) (r : Nat) : h.Wanes (h.cancelRoom r) := by
  rw [cancelRoom]
  split
  · split
    · exact .refl h
    · exact (Wanes.refl h).of_eq rfl rfl
  · exact .refl h

theorem wanes_removeRoom (h : Hub) (id : RoomId) : h.Wanes (h.removeRoom id).2 := by
  rw [removeRoom]
  split
  · exact (h.wanes_cancelRoom _).of_eq rfl rfl
  · exact .refl h

theorem robust_wanes (h : Hub) : Robust h.Wanes where
  signal hw := hw.signal _
  setEvents hw _ := hw.of_eq rfl rfl
  freshSerial hw := hw.of_eq rfl rfl
  openReply hw := hw.of_eq rfl rfl
  closeReply hw := hw.of_eq rfl rfl
  createRoom {h' name} hw := by
    have htake : h'.Wanes h'.takeRoomId.2 := (Wanes.refl h').of_eq rfl rfl
    exact (hw.trans htake).trans (wanes_openRoom _ _ name)

theorem steady_wanes (h : Hub) : Steady h.Wanes where
  signal hw := hw.signal _
  setRoom hw _ _ _ := hw.of_eq rfl rfl
  settleReply hw := by
    rw [settleReply]
    split
    · exact hw.of_eq rfl rfl
    · exact hw
  post hw := hw.post _ _

end Hub

namespace Session
variable {s s' : Session} {h h' : Hub} {n : Nat} {cell : PlayerCell}

structure Wanes (s s' : Session) : Prop where
  reading : s.reading = .ended → s'.reading = .ended
  writing : s.writing = .ended → s'.writing = .ended
  dispatching {c : Option Context} : s.dispatching = .ended c → s'.dispatching = .ended c

theorem Wanes.of_eq (hr : s'.reading = s.reading) (hw : s'.writing = s.writing)
    (hd : s'.dispatching = s.dispatching) : s.Wanes s' :=
  ⟨fun h => hr.trans h, fun h => hw.trans h, fun h => hd.trans h⟩

theorem Wanes.refl (s : Session) : s.Wanes s := .of_eq rfl rfl rfl

theorem Wanes.trans {s'' : Session} (hw : s.Wanes s') (hw' : s'.Wanes s'') : s.Wanes s'' :=
  ⟨fun h => hw'.reading (hw.reading h), fun h => hw'.writing (hw.writing h),
    fun h => hw'.dispatching (hw.dispatching h)⟩

structure Ebbs (s : Session) (h : Hub) (step : Step) : Prop where
  session : s.Wanes step.2.1
  hub : h.Wanes step.2.2

private theorem ebbs_stay (s : Session) (h : Hub) (goesOn : Bool) : s.Ebbs h (goesOn, s, h) :=
  ⟨.refl s, .refl h⟩

private theorem wanes_endDuty (hw : h.Wanes h') (n : Nat) : h.Wanes (endDuty h' n) :=
  (hw.cancelPlayer n).signal _

private theorem ebbs_endReader (hs : s.Wanes s') (hw : h.Wanes h') :
    s.Ebbs h (s'.endReader h' n) :=
  ⟨⟨fun _ => rfl, hs.writing, hs.dispatching⟩, wanes_endDuty hw n⟩

private theorem ebbs_endWriter (hw : h.Wanes h') : s.Ebbs h (s.endWriter h' n) :=
  ⟨⟨fun h => h, fun _ => rfl, fun h => h⟩, wanes_endDuty hw n⟩

private theorem ebbs_deliver (hr : s.reading = .ready) (decoder : Frame.Decoder)
    (hp : h.players[n]? = some cell) (e : Envelope) :
    s.Ebbs h (({ s with decoder } : Session).deliver h n cell e) := by
  have hs : s.Wanes { s with decoder } := .of_eq rfl rfl rfl
  rw [deliver]
  split
  · have hset {result : Except MailboxFault Unit} {inbound : Mailbox Ticket Envelope}
        (ho : cell.inbound.offer e = (result, inbound)) :
        h.Wanes (h.setPlayer n { cell with inbound }) :=
      (Hub.Wanes.refl h).setInbound hp
        ((congrArg (·.2.closed) ho).symm.trans (cell.inbound.closed_offer e))
    split
    · exact ⟨hs, (hset ‹_›).signal _⟩
    · exact ⟨hs, hset ‹_›⟩
    · exact ebbs_endReader hs (.refl h)
  · have hfresh : h.Wanes h.freshSerial.2 := (Hub.Wanes.refl h).of_eq rfl rfl
    have hset {result : Mailbox.Delivery} {inbound : Mailbox Ticket Envelope}
        (ho : cell.inbound.send ⟨.reader n, h.nextSerial⟩ e = (result, inbound)) :
        h.Wanes (h.freshSerial.2.setPlayer n { cell with inbound }) :=
      hfresh.setInbound hp ((congrArg (·.2.closed) ho).symm.trans (cell.inbound.closed_send _ e))
    simp only
    split
    · exact ⟨hs, (hset ‹_›).signal _⟩
    · exact ⟨⟨by simp [hr], fun h => h, fun h => h⟩, hset ‹_›⟩
    · exact ebbs_endReader hs hfresh

private theorem ebbs_readNext (hr : s.reading = .ready) (hp : h.players[n]? = some cell) :
    s.Ebbs h (s.readNext h n cell) := by
  rw [readNext]
  split
  · rename_i decoder _
    simp only
    split
    · exact ebbs_deliver hr decoder hp _
    · exact ⟨.of_eq rfl rfl rfl, .refl h⟩
  · exact ebbs_endReader (.refl s) (.refl h)
  · split
    · split
      · exact ebbs_endReader (.refl s) (.refl h)
      · exact ebbs_stay s h _
    · exact ⟨.of_eq rfl rfl rfl, .refl h⟩

private theorem ebbs_read (s : Session) (h : Hub) (n : Nat) : s.Ebbs h (s.stepReader h n) := by
  rw [stepReader]
  split
  · exact ebbs_stay s h _
  · rename_i cell hp
    split
    · exact ebbs_stay s h _
    · rename_i name hr
      have hset {result : Mailbox.Standing} {inbound : Mailbox Ticket Envelope}
          (ho : cell.inbound.settle name = (result, inbound)) :
          h.Wanes (h.setPlayer n { cell with inbound }) :=
        (Hub.Wanes.refl h).setInbound hp
          ((congrArg (·.2.closed) ho).symm.trans (cell.inbound.closed_settle name))
      split
      · exact ebbs_endReader (.refl s) ((Hub.Wanes.refl h).setInbound hp
          (cell.inbound.closed_withdraw name))
      · split
        · exact ⟨⟨by simp [hr], fun h => h, fun h => h⟩, (hset ‹_›).signal _⟩
        · exact ebbs_endReader (.refl s) (hset ‹_›)
        · exact ebbs_stay s h _
    · rename_i hr
      split
      · exact ebbs_endReader (.refl s) (.refl h)
      · exact ebbs_readNext hr hp

private theorem ebbs_hear (s : Session) (h : Hub) (n : Nat) (e : Envelope) :
    s.Ebbs h (s.hear h n e) := by
  rw [hear]
  split
  · exact ebbs_stay s h _
  · rename_i cell hp
    split
    · rename_i hr
      split
      · exact ebbs_endReader (.refl s) (.refl h)
      · exact ebbs_deliver hr s.decoder hp e
    · exact ebbs_stay s h _

private theorem wanes_receive {box box' : Outbox} (hb : h.outboxes[n]? = some box)
    {received : Mailbox.Received Envelope} {next : Option Empty}
    (hr : box.receive = (received, next, box')) :
    h.Wanes { h with outboxes := h.outboxes.setIfInBounds n box' } :=
  (Hub.Wanes.refl h).setOutbox hb fun hc =>
    (congrArg (·.2.2.closed) hr).symm.trans (box.closed_receive.trans hc)

private theorem ebbs_drain (s : Session) (h : Hub) (n : Nat) : s.Ebbs h (s.drain h n) := by
  rw [drain]
  split
  · exact ebbs_stay s h _
  · split
    · exact ebbs_endWriter (.refl h)
    · split
      · exact ebbs_endWriter (.refl h)
      · split
        · exact ⟨.refl s, wanes_receive ‹_› ‹_›⟩
        · exact ebbs_stay s h _
        · exact ebbs_endWriter (.refl h)

private theorem ebbs_mute (s : Session) (h : Hub) (n : Nat) : s.Ebbs h (s.mute h n) := by
  rw [mute]
  split
  · exact ebbs_stay s h _
  · exact ebbs_endWriter (.refl h)

private theorem ebbs_write (s : Session) (h : Hub) (n : Nat) : s.Ebbs h (s.stepWriter h n) := by
  rw [stepWriter]
  split
  · exact ebbs_stay s h _
  · rename_i hw
    split
    · exact ebbs_endWriter (.refl h)
    · rw [writeNext]
      split
      · exact ebbs_endWriter (.refl h)
      · split
        · simp only
          split
          · exact ⟨⟨fun h => h, by simp [hw], fun h => h⟩, wanes_receive ‹_› ‹_›⟩
          · exact ⟨.refl s, wanes_receive ‹_› ‹_›⟩
        · exact ebbs_stay s h _
        · exact ebbs_endWriter (.refl h)
  · rename_i rest hw
    split
    · exact ebbs_endWriter (.refl h)
    · split
      · exact ebbs_endWriter (.refl h)
      · split <;> exact ⟨⟨fun h => h, by simp [hw], fun h => h⟩, .refl h⟩

private theorem wanes_dispatched (s : Session) (request : Envelope)
    {result : Progress × Context × Hub} (hw : h.Wanes result.2.2) :
    h.Wanes (s.dispatched request result).2.2 := by
  obtain ⟨progress, c, h'⟩ := result
  cases progress with
  | answered response =>
    simp only [dispatched, Context.respond]
    split
    · rename_i message _
      have hpost := hw.post c.outbox message
      generalize h'.post c.outbox message = posted at hpost ⊢
      obtain ⟨_ | _, h''⟩ := posted <;> exact hpost
    · exact hw
  | pending | unreadable => exact hw

private theorem wanes_turn (t : Turn n) {d : Dispatching} (hd : d.Proper n s.id) :
    t.hub.Wanes (t.step d).2.2 := by
  have hreceived : t.hub.Wanes t.received := by
    obtain ⟨signals, hr⟩ := t.received_eq
    rw [hr]
    exact ((Hub.Wanes.refl t.hub).setInbound t.present t.cell.inbound.closed_receive).of_eq rfl rfl
  cases hw : t.work d with
  | none =>
    rcases t.step_of_no_work d hw with ⟨hstep, -⟩ | ⟨-, hstep | ⟨c, rfl, hstep⟩⟩ <;> rw [hstep]
    · exact hreceived
    · exact .refl _
    · exact wanes_endDuty (.refl _) n
  | some work =>
    obtain ⟨request, result⟩ := work
    obtain ⟨c, -, hserve⟩ := t.work_serves
      (fun c _ => (Hub.robust_wanes t.hub).lasting c.id (.dispatcher n))
      (fun c pending => hd.owner) (.refl _) hreceived hw
    rw [t.step_of_work d hw]
    refine wanes_dispatched _ _ ?_
    split at hserve
    · subst hserve
      exact hreceived
    · exact hserve.hub

private theorem ebbs_turn (hs : s.Sound n) {t : Turn n} (ht : t.session = s) :
    s.Ebbs t.hub (t.step s.dispatching) := by
  obtain ⟨d, hd, -⟩ := hs.turn ht
  refine ⟨⟨by simp [hd], by simp [hd], fun {c} hc => ?_⟩, wanes_turn t hs.dispatching⟩
  rw [hc, step_ended]
  rfl

private theorem ebbs_dispatch (hs : s.Sound n) (h : Hub) (now : Nat) :
    s.Ebbs h (s.stepDispatcher h n now) := by
  cases hp : h.players[n]? with
  | none =>
    rw [s.stepDispatcher_of_absent hp now]
    exact ebbs_stay s h _
  | some cell =>
    have hturn := ebbs_turn hs (t := s.turn hp now) rfl
    rwa [step_turn hs hp now] at hturn

private theorem ebbs_lapse (hs : s.Sound n) (h : Hub) : s.Ebbs h (s.lapse h n) := by
  rw [lapse]
  split
  · rename_i cell c pending hp hb
    have hturn := ebbs_turn hs (t := s.lastTurn hp) rfl
    rwa [step_lastTurn hs hp hb] at hturn
  · exact ebbs_stay s h _

private theorem wanes_tearDown (s : Session) (h : Hub) (n : Nat) :
    h.Wanes (s.tearDown h n).2.2 := by
  have close {h' : Hub} (hw : h.Wanes h') :
      h.Wanes { h' with outboxes := h'.outboxes.modify n (·.discard) } := by
    refine hw.trans ⟨fun hp => ⟨_, hp, .refl _⟩, fun {m box} hb => ?_⟩
    simp only
    rw [Array.getElem?_modify, hb]
    split
    · exact ⟨_, rfl, fun _ => rfl⟩
    · exact ⟨box, rfl, fun h => h⟩
  rw [tearDown]
  apply Hub.Wanes.removePlayer
  apply close
  split
  · rename_i cell hp
    exact (Hub.Wanes.refl h).setPlayer hp ⟨rfl, fun h => h, fun _ => rfl⟩
  · exact .refl h

private theorem ebbs_supervise (s : Session) (h : Hub) (n now : Nat) :
    s.Ebbs h (s.stepSupervisor h n now) := by
  have moves {next : Supervising} {h' : Hub} (goesOn : Bool) (hw : h.Wanes h') :
      s.Ebbs h (goesOn, { s with supervising := next }, h') := ⟨.of_eq rfl rfl rfl, hw⟩
  rw [stepSupervisor]
  split
  · exact ebbs_stay s h _
  · exact moves _ ((((Hub.Wanes.refl h).signal _).signal _).signal _)
  · split
    · exact moves _ (.refl h)
    · exact ebbs_stay s h _
  · rename_i rooms _
    cases rooms with
    | nil => exact ⟨.of_eq rfl rfl rfl, wanes_tearDown s h n⟩
    | cons id rooms =>
      rw [leaveNext]
      split
      · exact moves _ (.refl h)
      · rename_i r _
        have hw : h.Wanes (h.requestLeave (.supervisor n) r h.config.replyTimeout now s.id).2 :=
          (Hub.robust_wanes h).request (.refl h) _ _ _ _ _
        split <;> rename_i heq <;> rw [heq] at hw <;> exact moves _ hw
  · rename_i w rooms _
    have hw : h.Wanes (h.resume w now).2 := (Hub.robust_wanes h).resume (.refl h) w now
    split <;> rename_i heq <;> rw [heq] at hw <;> exact moves _ hw

private theorem ebbs_depart (s : Session) (h : Hub) : s.Ebbs h (s.depart h) := by
  rw [depart]
  split
  · exact ⟨.of_eq rfl rfl rfl, (Hub.robust_wanes h).expire (.refl h) _⟩
  · exact ebbs_stay s h _

theorem Sound.ebbs (hs : s.Sound n) (h : Hub) (act : Act) : s.Ebbs h (s.perform h n act) := by
  cases act with
  | read => exact ebbs_read s h n
  | write => exact ebbs_write s h n
  | dispatch now => exact ebbs_dispatch hs h now
  | lapse => exact ebbs_lapse hs h
  | supervise now => exact ebbs_supervise s h n now
  | depart => exact ebbs_depart s h
  | stream change => exact ⟨.of_eq rfl rfl rfl, .refl h⟩
  | hear e => exact ebbs_hear s h n e
  | drain => exact ebbs_drain s h n
  | mute => exact ebbs_mute s h n

end Session

namespace System
variable {σ σ' : System} {n : Nat} {s : Session}

structure Wanes (σ σ' : System) : Prop where
  hub : σ.hub.Wanes σ'.hub
  session {n : Nat} {s : Session} : σ.sessions[n]? = some s →
    ∃ s', σ'.sessions[n]? = some s' ∧ s'.id = s.id ∧ s.Wanes s'

theorem Wanes.refl (σ : System) : σ.Wanes σ := ⟨.refl _, fun hs => ⟨_, hs, rfl, .refl _⟩⟩

theorem Wanes.trans {σ'' : System} (hw : σ.Wanes σ') (hw' : σ'.Wanes σ'') : σ.Wanes σ'' := by
  refine ⟨hw.hub.trans hw'.hub, fun hs => ?_⟩
  obtain ⟨s', hs', hid, hsession⟩ := hw.session hs
  obtain ⟨s'', hs'', hid', hsession'⟩ := hw'.session hs'
  exact ⟨s'', hs'', hid'.trans hid, hsession.trans hsession'⟩

private theorem wanes_after (hσ : σ.Sound) (hs : σ.sessions[n]? = some s) (act : Session.Act) :
    σ.Wanes (σ.after n (s.perform σ.hub n act)) := by
  have hebbs := (hσ.session hs).ebbs σ.hub act
  refine ⟨hebbs.hub, fun {k s₁} hk => ?_⟩
  rw [getElem?_after hs]
  split
  · rename_i hkn
    subst hkn
    obtain rfl := Option.some.inj (hs.symm.trans hk)
    refine ⟨_, rfl, ?_, hebbs.session⟩
    rcases (hσ.session hs).treats σ.hub act with ⟨-, rest⟩ | ⟨-, rest, -⟩ | ⟨-, -, hs'⟩
    · exact rest.id
    · exact rest.id
    · rw [hs']
  · exact ⟨s₁, hk, rfl, .refl _⟩

private theorem wanes_call (h : Hub) (c : Hub.Call) : h.Wanes (h.call c) := by
  have robust := Hub.robust_wanes h
  have start := Hub.Wanes.refl h
  cases c with
  | openRoom id name => exact Hub.wanes_openRoom _ id name
  | createRoom name => exact robust.createRoom start
  | removeRoom id => exact Hub.wanes_removeRoom _ id
  | cancelRoom r => exact Hub.wanes_cancelRoom _ r
  | removePlayer id => exact start.removePlayer id
  | cancelPlayer n => exact start.cancelPlayer n
  | offer r e => exact robust.offerEvent start r e
  | request r timeout now event => exact robust.request start _ r timeout now event
  | resume w now => exact robust.resume start w now
  | expire w => exact robust.expire start w

theorem Sound.wanes (hσ : σ.Sound) (act : Act) : σ.Wanes (σ.perform act) := by
  have still {σ' : System} (hw : σ.hub.Wanes σ'.hub) (hs : σ'.sessions = σ.sessions) :
      σ.Wanes σ' := ⟨hw, fun h => ⟨_, hs ▸ h, rfl, .refl _⟩⟩
  have stay : σ.Wanes σ := .refl σ
  cases act with
  | session m act =>
    rw [System.perform]
    split
    · exact wanes_after hσ ‹_› act
    · exact stay
  | room r =>
    rw [System.perform]
    split
    · exact still ((Hub.steady_wanes _).stepRoom (.refl _) r) rfl
    · exact stay
  | take r =>
    rw [System.perform, takeUp]
    split
    · split
      · exact still ((Hub.steady_wanes _).takeEvent? (.refl _) ‹_›) rfl
      · exact stay
    · exact stay
  | conclude r =>
    rw [System.perform]
    split
    · exact still ((Hub.steady_wanes _).handleEvent (.refl _) _ r _) rfl
    · exact stay
  | connect id config window =>
    rw [System.perform]
    split
    · rename_i n hub ho
      have hw : σ.hub.Wanes hub := by
        have hopen := (Hub.Wanes.refl σ.hub).openPlayer id config
        rwa [ho] at hopen
      refine ⟨hw, fun {k s₁} hk => ⟨s₁, ?_, rfl, .refl _⟩⟩
      rw [Array.getElem?_push, if_neg (Array.getElem?_eq_some_iff.mp hk).1.ne]
      exact hk
    · exact stay
  | call c => exact still (wanes_call σ.hub c) rfl

theorem Sound.wanes_all (hσ : σ.Sound) (acts : List Act) : σ.Wanes (σ.performAll acts) := by
  induction acts generalizing σ with
  | nil => exact .refl σ
  | cons act rest ih => exact (hσ.wanes act).trans (ih (hσ.perform act))

end System

end Lobby
