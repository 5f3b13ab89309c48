import Lobby.Proofs.RoomRegistry
import Lobby.Proofs.ServerActs

/-! What single steps do to the registry of players. They leave it alone, or a duty that ends has
its player asked to stop, or a supervisor that comes to its end takes whoever bears the name of its
player out. -/
namespace Lobby

namespace Hub
variable {h h' h'' : Hub} {id p : PlayerId} {n m r : Nat}

def standing? (h : Hub) (n : Nat) : Option (PlayerId × Bool) :=
  h.players[n]?.map fun cell => (cell.id, cell.cancelled)

structure KeepsPlayers (h h' : Hub) : Prop where
  index : h'.playerIndex = h.playerIndex
  size : h'.players.size = h.players.size
  standing (n : Nat) : h'.standing? n = h.standing? n

theorem KeepsPlayers.refl (h : Hub) : h.KeepsPlayers h := ⟨rfl, rfl, fun _ => rfl⟩

theorem KeepsPlayers.trans (hk : h.KeepsPlayers h') (hk' : h'.KeepsPlayers h'') :
    h.KeepsPlayers h'' :=
  ⟨hk'.index.trans hk.index, hk'.size.trans hk.size,
    fun n => (hk'.standing n).trans (hk.standing n)⟩

theorem KeepsPlayers.player? (hk : h.KeepsPlayers h') (id : PlayerId) :
    h'.player? id = h.player? id := by
  rw [Hub.player?, Hub.player?, hk.index]

theorem keepsPlayers_openRoom (h : Hub) (id : RoomId) (name : String) :
    h.KeepsPlayers (h.openRoom id name).2.2 := by
  rw [openRoom]
  split <;> exact ⟨rfl, rfl, fun _ => rfl⟩

theorem keepsPlayers_cancelRoom (h : Hub) (r : Nat) : h.KeepsPlayers (h.cancelRoom r) := by
  rw [cancelRoom]
  split
  · split <;> exact ⟨rfl, rfl, fun _ => rfl⟩
  · exact .refl h

theorem keepsPlayers_removeRoom (h : Hub) (id : RoomId) : h.KeepsPlayers (h.removeRoom id).2 := by
  rw [removeRoom]
  split
  · exact (keepsPlayers_cancelRoom h _).trans ⟨rfl, rfl, fun _ => rfl⟩
  · exact .refl h

theorem robust_keepsPlayers (h : Hub) : Robust h.KeepsPlayers where
  signal hk := hk.trans ⟨rfl, rfl, fun _ => rfl⟩
  setEvents hk _ := hk.trans ⟨rfl, rfl, fun _ => rfl⟩
  freshSerial hk := hk.trans ⟨rfl, rfl, fun _ => rfl⟩
  openReply hk := hk.trans ⟨rfl, rfl, fun _ => rfl⟩
  closeReply hk := hk.trans ⟨rfl, rfl, fun _ => rfl⟩
  createRoom {h' name} hk := by
    have htake : h'.KeepsPlayers h'.takeRoomId.2 := ⟨rfl, rfl, fun _ => rfl⟩
    exact (hk.trans htake).trans (keepsPlayers_openRoom _ _ name)

theorem keepsPlayers_post (h : Hub) (i : Nat) (message : Envelope) :
    h.KeepsPlayers (h.post i message).2 := by
  rw [post]
  split <;> exact ⟨rfl, rfl, fun _ => rfl⟩

theorem steady_keepsPlayers (h : Hub) : Steady h.KeepsPlayers where
  signal hk := hk.trans ⟨rfl, rfl, fun _ => rfl⟩
  setRoom hk _ _ _ := hk.trans ⟨rfl, rfl, fun _ => rfl⟩
  settleReply hk := by
    rw [settleReply]
    split
    · exact hk.trans ⟨rfl, rfl, fun _ => rfl⟩
    · exact hk
  post hk := hk.trans (keepsPlayers_post _ _ _)

theorem keepsPlayers_setPlayer {cell : PlayerCell} (hp : h.players[n]? = some cell)
    (inbound : Mailbox Ticket Envelope) :
    h.KeepsPlayers (h.setPlayer n { cell with inbound }) := by
  refine ⟨rfl, Array.size_setIfInBounds, fun m => ?_⟩
  rw [standing?, standing?, setPlayer, Array.getElem?_setIfInBounds]
  split
  · rename_i hnm
    subst hnm
    split
    · rw [hp]
      rfl
    · rename_i hsize
      exact absurd (Array.getElem?_eq_some_iff.mp hp).1 hsize
  · rfl

theorem standing?_cancelPlayer (h : Hub) (n m : Nat) : (h.cancelPlayer n).standing? m =
    if m = n then (h.standing? m).map (·.1, true) else h.standing? m := by
  rw [cancelPlayer]
  cases hp : h.players[n]? with
  | none =>
    by_cases hm : m = n
    · subst hm
      simp [standing?, hp]
    · exact (if_neg hm).symm
  | some cell =>
    have hlt := (Array.getElem?_eq_some_iff.mp hp).1
    by_cases hm : m = n
    · subst hm
      simp only [if_pos]
      split
      · rename_i hc
        simp [standing?, hp, hc]
      · simp [standing?, signal, setPlayer, Array.getElem?_setIfInBounds_self_of_lt hlt, hp]
    · rw [if_neg hm]
      simp only
      split
      · rfl
      · simp [standing?, signal, setPlayer, Array.getElem?_setIfInBounds_ne (Ne.symm hm)]

theorem size_cancelPlayer (h : Hub) (n : Nat) :
    (h.cancelPlayer n).players.size = h.players.size := by
  rw [cancelPlayer]
  split
  · split
    · rfl
    · exact Array.size_setIfInBounds
  · rfl

theorem index_cancelPlayer (h : Hub) (n : Nat) :
    (h.cancelPlayer n).playerIndex = h.playerIndex := by
  rw [cancelPlayer]
  split
  · split <;> rfl
  · rfl

theorem KeepsPlayers.cancelPlayer (hk : h.KeepsPlayers h') (n : Nat) :
    (h.cancelPlayer n).KeepsPlayers (h'.cancelPlayer n) := by
  refine ⟨?_, ?_, fun m => ?_⟩
  · rw [index_cancelPlayer, index_cancelPlayer, hk.index]
  · rw [size_cancelPlayer, size_cancelPlayer, hk.size]
  · rw [standing?_cancelPlayer, standing?_cancelPlayer, hk.standing]

theorem KeepsPlayers.removePlayer (hk : h.KeepsPlayers h') (id : PlayerId) :
    (h.removePlayer id).2.KeepsPlayers (h'.removePlayer id).2 := by
  rw [Hub.removePlayer, Hub.removePlayer, hk.player?]
  split
  · rename_i n _
    have hc := hk.cancelPlayer n
    refine ⟨?_, hc.size, hc.standing⟩
    simp only
    rw [hc.index]
  · exact hk

theorem size_removePlayer (h : Hub) (id : PlayerId) :
    (h.removePlayer id).2.players.size = h.players.size := by
  rw [removePlayer]
  split
  · exact size_cancelPlayer h _
  · rfl

theorem player?_removePlayer (h : Hub) (id other : PlayerId) :
    (h.removePlayer id).2.player? other = if other = id then none else h.player? other := by
  rw [removePlayer]
  split
  · simp only [player?, index_cancelPlayer]
    split
    · rename_i ho
      subst ho
      rw [List.lookup_eq_none_iff]
      intro e he
      simpa using Ne.symm (of_decide_eq_true (List.mem_filter.mp he).2)
    · exact lookup_forget ‹_› _
  · rename_i hnone
    split
    · rename_i ho
      exact ho ▸ hnone
    · rfl

theorem player?_openPlayer {config : PlayerConfig} (hfree : h.player? id = none)
    (p : PlayerId) : (h.openPlayer id config).2.2.player? p =
      if p = id then some h.players.size else h.player? p := by
  rw [openPlayer, hfree]
  simp only [player?, signal, List.lookup_append]
  split
  · rename_i hp
    subst hp
    rw [player?] at hfree
    simp [hfree]
  · rename_i hp
    rw [List.lookup_cons, beq_false_of_ne hp]
    exact Option.or_none

end Hub

namespace Session
variable {s s' : Session} {h h' : Hub} {n : Nat}

def DutyOver (s : Session) : Prop :=
  s.reading = .ended ∨ s.writing = .ended ∨ ∃ c, s.dispatching = .ended c

instance (s : Session) : Decidable s.DutyOver :=
  decidable_of_iff (s.reading = .ended ∨ s.writing = .ended ∨ s.dispatcherEnded = true) (by
    rw [DutyOver, dispatcherEnded]
    cases s.dispatching <;> simp)

structure Remains (s s' : Session) : Prop where
  id : s'.id = s.id
  ended : s'.supervising = .ended ↔ s.supervising = .ended
  dutyOver : s.DutyOver → s'.DutyOver

theorem Remains.refl (s : Session) : s.Remains s := ⟨rfl, .rfl, fun h => h⟩

/-- What a step of a session does to the registry of players. -/
inductive Treats (s : Session) (h : Hub) (n : Nat) (step : Step) : Prop
  | keeps (hub : h.KeepsPlayers step.2.2) (rest : s.Remains step.2.1)
  | stops (hub : (h.cancelPlayer n).KeepsPlayers step.2.2) (rest : s.Remains step.2.1)
      (dutyOver : step.2.1.DutyOver)
  | leaves (hub : (h.removePlayer s.id).2.KeepsPlayers step.2.2)
      (before : s.supervising ≠ .ended) (session : step.2.1 = { s with supervising := .ended })

private theorem keepsPlayers_endDuty (hk : h.KeepsPlayers h') (n : Nat) :
    (h.cancelPlayer n).KeepsPlayers (endDuty h' n) :=
  (hk.cancelPlayer n).trans ⟨rfl, rfl, fun _ => rfl⟩

private theorem treats_stay (s : Session) (h : Hub) (n : Nat) (goesOn : Bool) :
    s.Treats h n (goesOn, s, h) :=
  .keeps (.refl h) (.refl s)

private theorem treats_endReader (hs : s.Remains s') (hk : h.KeepsPlayers h') :
    s.Treats h n (s'.endReader h' n) := by
  have hover : (s'.endReader h' n).2.1.DutyOver := .inl rfl
  exact .stops (keepsPlayers_endDuty hk n) ⟨hs.id, hs.ended, fun _ => hover⟩ hover

private theorem treats_endWriter (s : Session) (h : Hub) (n : Nat) :
    s.Treats h n (s.endWriter h n) := by
  have hover : (s.endWriter h n).2.1.DutyOver := .inr (.inl rfl)
  exact .stops (keepsPlayers_endDuty (.refl h) n) ⟨rfl, .rfl, fun _ => hover⟩ hover

private theorem treats_deliver (hr : s.reading = .ready) (decoder : Frame.Decoder)
    {cell : PlayerCell} (hp : h.players[n]? = some cell) (e : Envelope) :
    s.Treats h n (({ s with decoder } : Session).deliver h n cell e) := by
  have hs : s.Remains { s with decoder } := ⟨rfl, .rfl, fun h => h⟩
  rw [deliver]
  split
  · split
    · exact .keeps ((Hub.keepsPlayers_setPlayer hp _).trans ⟨rfl, rfl, fun _ => rfl⟩) hs
    · exact .keeps (Hub.keepsPlayers_setPlayer hp _) hs
    · exact treats_endReader hs (.refl h)
  · have hfresh : h.KeepsPlayers h.freshSerial.2 := ⟨rfl, rfl, fun _ => rfl⟩
    have hp' : h.freshSerial.2.players[n]? = some cell := hp
    simp only
    split
    · exact .keeps ((hfresh.trans (Hub.keepsPlayers_setPlayer hp' _)).trans
        ⟨rfl, rfl, fun _ => rfl⟩) hs
    · refine .keeps (hfresh.trans (Hub.keepsPlayers_setPlayer hp' _)) ⟨rfl, .rfl, fun hover => ?_⟩
      simpa [DutyOver, hr] using hover
    · exact treats_endReader hs hfresh

private theorem treats_readNext (hr : s.reading = .ready) {cell : PlayerCell}
    (hp : h.players[n]? = some cell) : s.Treats h n (s.readNext h n cell) := by
  rw [readNext]
  split
  · rename_i decoder _
    simp only
    split
    · exact treats_deliver hr decoder hp _
    · exact .keeps (.refl h) ⟨rfl, .rfl, fun h => h⟩
  · exact treats_endReader (.refl s) (.refl h)
  · split
    · split
      · exact treats_endReader (.refl s) (.refl h)
      · exact treats_stay s h n _
    · exact .keeps (.refl h) ⟨rfl, .rfl, fun h => h⟩

private theorem treats_read (s : Session) (h : Hub) (n : Nat) :
    s.Treats h n (s.stepReader h n) := by
  rw [stepReader]
  split
  · exact treats_stay s h n _
  · rename_i cell hp
    split
    · exact treats_stay s h n _
    · rename_i name hr
      split
      · exact treats_endReader (.refl s) (Hub.keepsPlayers_setPlayer hp _)
      · split
        · refine .keeps ((Hub.keepsPlayers_setPlayer hp _).trans ⟨rfl, rfl, fun _ => rfl⟩)
            ⟨rfl, .rfl, fun hover => ?_⟩
          simpa [DutyOver, hr] using hover
        · exact treats_endReader (.refl s) (Hub.keepsPlayers_setPlayer hp _)
        · exact treats_stay s h n _
    · rename_i hr
      split
      · exact treats_endReader (.refl s) (.refl h)
      · exact treats_readNext hr hp

private theorem treats_hear (s : Session) (h : Hub) (n : Nat) (e : Envelope) :
    s.Treats h n (s.hear h n e) := by
  rw [hear]
  split
  · exact treats_stay s h n _
  · rename_i cell hp
    split
    · rename_i hr
      split
      · exact treats_endReader (.refl s) (.refl h)
      · exact treats_deliver hr s.decoder hp e
    · exact treats_stay s h n _

private theorem treats_writeNext (hw : s.writing = .idle) : s.Treats h n (s.writeNext h n) := by
  rw [writeNext]
  split
  · exact treats_endWriter s h n
  · split
    · simp only
      split
      · refine .keeps ⟨rfl, rfl, fun _ => rfl⟩ ⟨rfl, .rfl, fun hover => ?_⟩
        simpa [DutyOver, hw] using hover
      · exact .keeps ⟨rfl, rfl, fun _ => rfl⟩ (.refl s)
    · exact treats_stay s h n _
    · exact treats_endWriter s h n

private theorem treats_write (s : Session) (h : Hub) (n : Nat) :
    s.Treats h n (s.stepWriter h n) := by
  rw [stepWriter]
  split
  · exact treats_stay s h n _
  · split
    · exact treats_endWriter s h n
    · exact treats_writeNext ‹_›
  · rename_i rest hw
    split
    · exact treats_endWriter s h n
    · split
      · exact treats_endWriter s h n
      · split <;>
        · refine .keeps (.refl h) ⟨rfl, .rfl, fun hover => ?_⟩
          simpa [DutyOver, hw] using hover

private theorem treats_drain (s : Session) (h : Hub) (n : Nat) : s.Treats h n (s.drain h n) := by
  rw [drain]
  split
  · exact treats_stay s h n _
  · split
    · exact treats_endWriter s h n
    · split
      · exact treats_endWriter s h n
      · split
        · exact .keeps ⟨rfl, rfl, fun _ => rfl⟩ (.refl s)
        · exact treats_stay s h n _
        · exact treats_endWriter s h n

private theorem treats_mute (s : Session) (h : Hub) (n : Nat) : s.Treats h n (s.mute h n) := by
  rw [mute]
  split
  · exact treats_stay s h n _
  · exact treats_endWriter s h n

private theorem keepsPlayers_respond (c : Context) (h : Hub) (request : Envelope)
    (response : Response) : h.KeepsPlayers (c.respond h request response).2 := by
  rw [Context.respond]
  split
  · rename_i message _
    have hk := Hub.keepsPlayers_post h c.outbox message
    generalize h.post c.outbox message = result at hk ⊢
    obtain ⟨_ | _, h'⟩ := result <;> exact hk
  · exact .refl h

private theorem keepsPlayers_dispatched (s : Session) (request : Envelope)
    {result : Progress × Context × Hub} (hk : h.KeepsPlayers result.2.2) :
    h.KeepsPlayers (s.dispatched request result).2.2 := by
  obtain ⟨progress, c, h'⟩ := result
  cases progress with
  | answered response => exact hk.trans (keepsPlayers_respond c h' request response)
  | pending | unreadable => exact hk

private theorem keepsPlayers_received (t : Turn n) : t.hub.KeepsPlayers t.received := by
  obtain ⟨signals, hr⟩ := t.received_eq
  rw [hr]
  exact (Hub.keepsPlayers_setPlayer t.present _).trans ⟨rfl, rfl, fun _ => rfl⟩

private theorem turn_cases (t : Turn n) {d : Dispatching} (hd : d.Proper n s.id) :
    t.hub.KeepsPlayers (t.step d).2.2 ∨ (∃ c, (t.step d).2.1.dispatching = .ended c) ∧
      (t.hub.cancelPlayer n).KeepsPlayers (t.step d).2.2 := by
  cases hw : t.work d with
  | none =>
    rcases t.step_of_no_work d hw with ⟨hstep, -⟩ | ⟨-, hstep | ⟨c, rfl, hstep⟩⟩ <;> rw [hstep]
    · exact .inl (keepsPlayers_received t)
    · exact .inl (.refl _)
    · exact .inr ⟨⟨_, rfl⟩, keepsPlayers_endDuty (.refl _) n⟩
  | some work =>
    obtain ⟨request, result⟩ := work
    obtain ⟨c, -, hserve⟩ := t.work_serves
      (fun c _ => (Hub.robust_keepsPlayers t.hub).lasting c.id (.dispatcher n))
      (fun c pending => hd.owner) (.refl _) (keepsPlayers_received t) hw
    rw [t.step_of_work d hw]
    refine .inl (keepsPlayers_dispatched _ _ ?_)
    split at hserve
    · subst hserve
      exact keepsPlayers_received t
    · exact hserve.hub

/-- A dispatcher's turn leaves the registry of players alone, or ends the dispatcher. -/
private theorem treats_turn (hs : s.Sound n) {t : Turn n} (ht : t.session = s) :
    s.Treats t.hub n (t.step s.dispatching) := by
  obtain ⟨d, hd, -⟩ := hs.turn ht
  have hover : s.DutyOver → (t.step s.dispatching).2.1.DutyOver := by
    rintro (hr | hw | ⟨c, hc⟩)
    · exact hd ▸ .inl hr
    · exact hd ▸ .inr (.inl hw)
    · rw [hc, step_ended]
      exact .inr (.inr ⟨c, rfl⟩)
  have hrest : s.Remains (t.step s.dispatching).2.1 :=
    ⟨by rw [hd], by rw [hd], hover⟩
  rcases turn_cases t hs.dispatching with hk | ⟨hended, hk⟩
  · exact .keeps hk hrest
  · exact .stops hk hrest (.inr (.inr hended))

private theorem treats_dispatch (hs : s.Sound n) (h : Hub) (now : Nat) :
    s.Treats h n (s.stepDispatcher h n now) := by
  cases hp : h.players[n]? with
  | none =>
    rw [s.stepDispatcher_of_absent hp now]
    exact treats_stay s h n _
  | some cell =>
    have hturn := treats_turn hs (t := s.turn hp now) rfl
    rwa [step_turn hs hp now] at hturn

private theorem treats_lapse (hs : s.Sound n) (h : Hub) : s.Treats h n (s.lapse h n) := by
  rw [lapse]
  split
  · rename_i cell c pending hp hb
    have hturn := treats_turn hs (t := s.lastTurn hp) rfl
    rwa [step_lastTurn hs hp hb] at hturn
  · exact treats_stay s h n _

private theorem treats_tearDown (s : Session) (h : Hub) (n : Nat)
    (hended : s.supervising ≠ .ended) : s.Treats h n (s.tearDown h n) := by
  have hremove {h' : Hub} (hk : h.KeepsPlayers h') : (h.removePlayer s.id).2.KeepsPlayers
      (({ h' with outboxes := h'.outboxes.modify n (·.discard) } : Hub).removePlayer s.id).2 := by
    have hbox : h.KeepsPlayers { h' with outboxes := h'.outboxes.modify n (·.discard) } :=
      hk.trans ⟨rfl, rfl, fun _ => rfl⟩
    exact hbox.removePlayer s.id
  refine .leaves ?_ hended rfl
  rw [tearDown]
  cases hp : h.players[n]? with
  | some cell => exact hremove (Hub.keepsPlayers_setPlayer hp _)
  | none => exact hremove (.refl h)

private theorem remains_supervising {next : Supervising} (hended : s.supervising ≠ .ended)
    (hnext : next ≠ .ended) : s.Remains { s with supervising := next } :=
  ⟨rfl, by simp [hended, hnext], fun h => h⟩

private theorem treats_leaveNext (hended : s.supervising ≠ .ended) (now : Nat)
    (rooms : List RoomId) : s.Treats h n (s.leaveNext h n now rooms) := by
  cases rooms with
  | nil => exact treats_tearDown s h n hended
  | cons id rooms =>
    rw [leaveNext]
    split
    · exact .keeps (.refl h) (remains_supervising hended (by simp))
    · rename_i r _
      have hk : h.KeepsPlayers
          (h.requestLeave (.supervisor n) r h.config.replyTimeout now s.id).2 :=
        (Hub.robust_keepsPlayers h).request (.refl h) _ _ _ _ _
      split <;> rename_i heq <;> rw [heq] at hk <;>
        exact .keeps hk (remains_supervising hended (by simp))

private theorem treats_supervise (s : Session) (h : Hub) (n now : Nat) :
    s.Treats h n (s.stepSupervisor h n now) := by
  rw [stepSupervisor]
  split
  · exact treats_stay s h n _
  · rename_i hsup
    exact .keeps ⟨rfl, rfl, fun _ => rfl⟩ (remains_supervising (by simp [hsup]) (by simp))
  · rename_i hsup
    split
    · exact .keeps (.refl h) (remains_supervising (by simp [hsup]) (by simp))
    · exact treats_stay s h n _
  · rename_i rooms hsup
    exact treats_leaveNext (by simp [hsup]) now rooms
  · rename_i w rooms hsup
    have hk : h.KeepsPlayers (h.resume w now).2 :=
      (Hub.robust_keepsPlayers h).resume (.refl h) w now
    split <;> rename_i heq <;> rw [heq] at hk <;>
      exact .keeps hk (remains_supervising (by simp [hsup]) (by simp))

private theorem treats_depart (s : Session) (h : Hub) (n : Nat) : s.Treats h n (s.depart h) := by
  rw [depart]
  split
  · rename_i w rooms hsup
    exact .keeps ((Hub.robust_keepsPlayers h).expire (.refl h) w)
      (remains_supervising (by simp [hsup]) (by simp))
  · exact treats_stay s h n _

theorem Sound.treats (hs : s.Sound n) (h : Hub) (act : Act) : s.Treats h n (s.perform h n act) := by
  cases act with
  | read => exact treats_read s h n
  | write => exact treats_write s h n
  | dispatch now => exact treats_dispatch hs h now
  | lapse => exact treats_lapse hs h
  | supervise now => exact treats_supervise s h n now
  | depart => exact treats_depart s h n
  | stream change => exact .keeps (.refl h) ⟨rfl, .rfl, fun h => h⟩
  | hear e => exact treats_hear s h n e
  | drain => exact treats_drain s h n
  | mute => exact treats_mute s h n

end Session

end Lobby
