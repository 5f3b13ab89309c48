import Lobby.Proofs.Farewells

/-! The end of a player's run. Its supervisor asks each room that may list the player to let it go,
and a room that answers has done so and told whoever is left. Then the mailboxes are closed, and the
player goes out of the registry. -/
namespace Lobby

private theorem nodup_eraseDups (ids : List RoomId) : ids.eraseDups.Nodup :=
  match ids with
  | [] => List.nodup_nil
  | id :: rest => by
    rw [List.eraseDups_cons, List.nodup_cons]
    exact ⟨by simp, nodup_eraseDups _⟩
termination_by ids.length
decreasing_by exact Nat.lt_succ_of_le (List.length_filter_le ..)

theorem Context.nodup_memberships (c : Context) : c.memberships.Nodup := nodup_eraseDups _

/-- The confirmed room comes first. -/
theorem Context.head_memberships {c : Context} {id : RoomId} (hroom : c.room = some id) :
    c.memberships.head? = some id := by
  simp [memberships, hroom, List.eraseDups_cons]

namespace Hub
variable {h h' : Hub} {n : Nat}

structure Shut (h : Hub) (n : Nat) : Prop where
  inbound : ∃ cell, h.players[n]? = some cell ∧ cell.inbound.closed = true
  outbox : ∃ box, h.outboxes[n]? = some box ∧ box.closed = true

theorem Shut.wanes (hs : h.Shut n) (hw : h.Wanes h') : h'.Shut n := by
  obtain ⟨⟨cell, hp, hinbound⟩, box, hb, houtbox⟩ := hs
  obtain ⟨cell', hp', hcell⟩ := hw.player hp
  obtain ⟨box', hb', hbox⟩ := hw.outbox hb
  exact ⟨⟨cell', hp', hcell.inbound hinbound⟩, box', hb', hbox houtbox⟩

structure Refuses (h : Hub) (n : Nat) : Prop where
  inbound : ∃ cell, h.players[n]? = some cell ∧ ∀ message name,
    cell.inbound.offer message = (.error (.closed cell.inbound.label), cell.inbound) ∧
      cell.inbound.send name message = (.refused, cell.inbound)
  outbox : ∃ box, h.outboxes[n]? = some box ∧ ∀ message,
    (h.post n message).1 = .error (.closed box.label)

theorem Shut.refuses (hs : h.Shut n) : h.Refuses n := by
  obtain ⟨⟨cell, hp, hinbound⟩, box, hb, houtbox⟩ := hs
  refine ⟨⟨cell, hp, fun message name => ?_⟩, box, hb, fun message => ?_⟩
  · simp [Mailbox.offer, Mailbox.send, hinbound]
  · simp [post, Outboxes.offer, hb, Mailbox.offer, houtbox]

end Hub

/-- A supervisor that comes to its end closes the mailboxes of its player. -/
theorem Session.shut_tearDown (s : Session) {h : Hub} {n : Nat} {cell : PlayerCell} {box : Outbox}
    (hp : h.players[n]? = some cell) (hb : h.outboxes[n]? = some box) :
    (s.tearDown h n).2.2.Shut n := by
  have hlt := (Array.getElem?_eq_some_iff.mp hp).1
  simp only [tearDown, hp]
  refine Hub.Shut.wanes ⟨⟨{ cell with inbound := cell.inbound.discard }, ?_, rfl⟩,
    ⟨box.discard, ?_, rfl⟩⟩ ((Hub.Wanes.refl _).removePlayer s.id)
  · exact Array.getElem?_setIfInBounds_self_of_lt hlt
  · simp [Hub.setPlayer, Array.getElem?_modify, hb]

theorem Session.player?_tearDown (s : Session) (h : Hub) (n : Nat) :
    (s.tearDown h n).2.2.player? s.id = none := by
  rw [tearDown]
  exact (Hub.player?_removePlayer _ _ _).trans (if_pos rfl)

namespace System
variable {σ : System} {act : Act} {n r : Nat} {s : Session} {p : PlayerId} {t : Ticket}
  {outcome : Outcome} {id : RoomId}

structure LetsGo (σ : System) (act : Act) (r : Nat) (p : PlayerId) (n : Nat) (outcome : Outcome) :
    Prop where
  release : ∃ before after, σ.Release act r p outcome before after
  stays {later : List Act} : (∀ act ∈ later, act.Honest) →
    ((σ.perform act).performAll later).hub.Lacks r p ∨
      ∃ between act' rest, later = between ++ act' :: rest ∧
        ((σ.perform act).performAll between).Admits act' r p n

/-- A supervisor asks a room to let its player go. Whatever happens from then on, once there is an
answer for the supervisor to hear, the room has let the player go at some act since. -/
structure Asked (σ : System) (act : Act) (r : Nat) (p : PlayerId) (n : Nat) : Prop where
  asks : ∃ now, (σ.perform act).hub =
    (σ.hub.requestLeave (.supervisor n) r σ.hub.config.replyTimeout now p).2
  answered {later : List Act} {outcome : Outcome} : (∀ act ∈ later, act.Honest) →
    ((σ.perform act).performAll later).hub.reply? ⟨.supervisor n, σ.hub.nextSerial⟩ =
      some (.answered outcome) →
    ∃ between act' rest, later = between ++ act' :: rest ∧
      ((σ.perform act).performAll between).LetsGo act' r p n outcome

theorem Release.lacks {before after : Room} (hr : σ.Release act r p outcome before after) :
    (σ.perform act).hub.Lacks r p := by
  intro cell hc
  have hleft := hr.left
  rw [hc] at hleft
  obtain rfl := Option.some.inj hleft
  exact hr.gone

/-- The answer to the supervisor's request is the answer to a leave of its player. -/
private theorem Regular.letsGo_of_gives (hr : σ.Regular) (hs : σ.sessions[n]? = some s)
    {o : Option Context} (hended : s.dispatching = .ended o)
    (htrail : σ.Trail t r ⟨p, .leave (some t)⟩) (hact : act.Honest)
    (hg : σ.Gives act t outcome) : σ.LetsGo act r p n outcome := by
  obtain ⟨x, hx, hgives⟩ := hg
  obtain ⟨cell, room, effects, hc, -⟩ := id hgives
  obtain ⟨ht, -⟩ := hgives.of_room hc
  obtain ⟨rfl, hevent⟩ := htrail.only (holds_of_facing (facing_of_handling hx)) ht
  obtain ⟨before, after, hrelease⟩ := hr.release hx hevent hgives
  obtain ⟨s', hs', -, hwanes⟩ := (hr.sound.wanes act).session hs
  exact ⟨⟨before, after, hrelease⟩, fun hlater =>
    (hr.perform hact).lacks_all hs' (hwanes.dispatching hended) hrelease.lacks hlater⟩

private theorem Regular.trail_all (hr : σ.Regular) {e : Event Ticket} (htrail : σ.Trail t r e)
    {acts : List Act} (hacts : ∀ act ∈ acts, act.Honest) : (σ.performAll acts).Trail t r e := by
  induction acts generalizing σ with
  | nil => exact htrail
  | cons act rest ih =>
    have hact : act.Honest := hacts act List.mem_cons_self
    exact ih (hr.perform hact) ((hr.sound.onward hact).trail htrail)
      fun act h => hacts act (List.mem_cons_of_mem _ h)

/-- A supervisor asks a room that is registered, and passes over one that is not. -/
theorem Regular.turns_to (hr : σ.Regular) (hs : σ.sessions[n]? = some s)
    (hf : σ.farewell? n act = some id) :
    (σ.hub.room? id = none → (σ.perform act).hub = σ.hub) ∧
      ∀ r, σ.hub.room? id = some r → σ.Asked act r s.id n := by
  obtain ⟨s₁, now, rooms, hs₁, hsup, rfl, hhands, hhub⟩ := hub_of_farewell hf
  obtain rfl := Option.some.inj (hs.symm.trans hs₁)
  refine ⟨fun hnone => by rw [hhub, hnone], fun r hroom => ?_⟩
  rw [hroom] at hhub
  refine ⟨⟨now, hhub⟩, fun {later outcome} hlater ha => ?_⟩
  have hnext : (σ.perform (.session n (.supervise now))).Regular := hr.perform trivial
  have hnot : (σ.perform (.session n (.supervise now))).hub.reply?
      ⟨.supervisor n, σ.hub.nextSerial⟩ ≠ some (.answered outcome) := by
    rw [hhub]
    exact Hub.not_answered_request hr.numbered.answered fun _ => rfl
  obtain ⟨between, act', rest, rfl, hg⟩ := hnext.given_of_answered hlater hnot ha
  have hbetween : ∀ act ∈ between, act.Honest := fun act h => hlater act (List.mem_append_left _ h)
  have htrail := hnext.trail_all (hr.numbered.trail_request (.supervisor n) _ now (fun _ => rfl)
    hhub hhands) hbetween
  obtain ⟨o, hended⟩ := (hr.sound.session hs).ended_of_departing ⟨by simp [hsup], by simp [hsup]⟩
  obtain ⟨s', hs', -, hwanes⟩ :=
    ((hr.sound.wanes _).trans (hnext.sound.wanes_all between)).session hs
  exact ⟨between, act', rest, rfl, (hnext.performAll hbetween).letsGo_of_gives hs'
    (hwanes.dispatching hended) htrail (hlater act' (by simp)) hg⟩

/-- A player's run ends in order: its supervisor turns to the rooms that may list the player in the
course of some acts, to each of them once and to the confirmed one first, and comes to its end at
the next act. -/
structure Teardown (σ : System) (turns : List Act) (now : Nat) (p : PlayerId) (n : Nat)
    (c : Context) : Prop where
  rooms : farewells n σ turns = c.memberships
  once : (farewells n σ turns).Nodup
  all {id : RoomId} : id ∈ farewells n σ turns ↔ c.room = some id ∨ id ∈ c.unconfirmed
  first {id : RoomId} : c.room = some id → (farewells n σ turns).head? = some id
  turn {before after : List Act} {act : Act} {id : RoomId} : turns = before ++ act :: after →
    (σ.performAll before).farewell? n act = some id →
    ((σ.performAll before).hub.room? id = none →
      ((σ.performAll before).perform act).hub = (σ.performAll before).hub) ∧
    ∀ r, (σ.performAll before).hub.room? id = some r → (σ.performAll before).Asked act r p n
  /-- Nothing else is asked for in the supervisor's name. -/
  only {before after : List Act} {act : Act} {r : Nat} {e : Event Ticket} {t : Ticket} :
    turns = before ++ act :: after → ((σ.performAll before).perform act).Holds r e →
    e.reply? = some t → t.owner = .supervisor n → (σ.performAll before).Holds r e ∨
      ∃ id, (σ.performAll before).farewell? n act = some id ∧
        (σ.performAll before).hub.room? id = some r
  /-- The end comes at the next act and not before, with the player's way out of the registry. -/
  running : ¬ (σ.performAll turns).RunOver p n
  ended : ((σ.performAll turns).perform (.session n (.supervise now))).RunOver p n
  forgotten : ((σ.performAll turns).perform (.session n (.supervise now))).hub.player? p = none
  /-- What is over stays so, whoever comes under the name of the player. -/
  gone (later : List Act) :
    (((σ.performAll turns).perform (.session n (.supervise now))).performAll later).hub.Felled p n
  refuses (later : List Act) :
    (((σ.performAll turns).perform (.session n (.supervise now))).performAll later).hub.Refuses n

/-- What a supervisor does at its last turn. -/
private theorem Regular.last_turn (hr : σ.Regular) (hs : σ.sessions[n]? = some s)
    (hsup : s.supervising = .leaving []) (hcancelled : σ.hub.isCancelled n = true) (now : Nat) :
    let σ' := σ.perform (.session n (.supervise now))
    σ'.RunOver s.id n ∧ σ'.hub.player? s.id = none ∧ σ'.hub.isCancelled n = true ∧
      σ'.hub.Shut n := by
  intro σ'
  have hperform : σ' = σ.after n (s.tearDown σ.hub n) := by
    simp only [σ', System.perform, hs, Session.perform, Session.stepSupervisor, hsup,
      Session.leaveNext]
  obtain ⟨⟨cell, hp, -⟩, box, hb⟩ := hr.housed hs
  refine ⟨⟨{ s with supervising := .ended }, ?_, rfl, rfl⟩, ?_,
    (hr.sound.wanes _).hub.isCancelled hcancelled, ?_⟩
  · rw [hperform, getElem?_after hs, if_pos rfl]
    rfl
  · rw [hperform]
    exact s.player?_tearDown σ.hub n
  · rw [hperform]
    exact s.shut_tearDown hp hb

/-- A supervisor whose next turn is its last has turned to all rooms of its player. -/
private theorem Regular.teardown (hr : σ.Regular) {turns : List Act}
    (hturns : ∀ act ∈ turns, act.Honest) (hnone : σ.sessions[n]? = none)
    (hs : (σ.performAll turns).sessions[n]? = some s) (hsup : s.supervising = .leaving [])
    (now : Nat) : ∃ c, s.dispatching = .ended (some c) ∧ σ.Teardown turns now s.id n c := by
  have hbids : σ.Bids n [] := by rw [Bids, hnone]
  have hsaid := hbids.performAll hr.sound turns
  rw [Bids, hs] at hsaid
  cases hsaid with
  | waits hrooms => simp [hsup, Supervising.rooms?] at hrooms
  | @goes rooms hover hleft hall =>
    have hthen := hr.performAll hturns
    have hprefix {before after : List Act} {act : Act} (hsplit : turns = before ++ act :: after) :
        (σ.performAll before).Regular ∧ act.Honest := by
      subst hsplit
      exact ⟨hr.performAll fun act h => hturns act (List.mem_append_left _ h),
        hturns act (by simp)⟩
    obtain ⟨o, hended⟩ := hover.dispatching
    obtain ⟨hsome, hcancelled⟩ := hthen.attended.ended hs hended
    obtain ⟨c, rfl⟩ := Option.isSome_iff_exists.mp hsome
    obtain ⟨hrun, hforgotten, hstopped, hshut⟩ := hthen.last_turn hs hsup hcancelled now
    have hrooms : farewells n σ turns = c.memberships := by
      rw [hsup] at hleft
      obtain rfl : rooms = [] := (Option.some.inj hleft).symm
      simpa [Session.memberships, Session.context?, hended] using hall
    have hlast := hthen.sound.perform (.session n (.supervise now))
    refine ⟨c, hended, hrooms, ?_, ?_, ?_, ?_, ?_, ?_, hrun, hforgotten, fun later => ?_,
      fun later => ?_⟩
    · exact hrooms ▸ c.nodup_memberships
    · exact fun {id} => hrooms ▸ Hub.mem_memberships
    · exact fun hroom => hrooms ▸ Context.head_memberships hroom
    · intro before after act id hsplit hf
      obtain ⟨s', _, _, hs', -⟩ := hub_of_farewell hf
      obtain ⟨hbefore, -⟩ := hprefix hsplit
      obtain ⟨s'', hs'', hid, -⟩ := (hbefore.sound.wanes_all (act :: after)).session hs'
      rw [← performAll_append, ← hsplit, hs] at hs''
      obtain rfl := Option.some.inj hs''
      exact hid ▸ hbefore.turns_to hs' hf
    · intro before after act r e t hsplit hh ht howner
      obtain ⟨hbefore, hact⟩ := hprefix hsplit
      refine (hbefore.sound.farewell_of_request hact hh ht howner).imp_right ?_
      rintro ⟨id, hf, hroom, -⟩
      exact ⟨id, hf, hroom⟩
    · rintro ⟨s', hs', -, hended'⟩
      obtain rfl := Option.some.inj (hs.symm.trans hs')
      rw [hsup] at hended'
      contradiction
    · refine hlast.felled_all ⟨?_, hstopped⟩ later
      rw [hforgotten]
      simp
    · exact (hshut.wanes (hlast.wanes_all later).hub).refuses

/-- The end of every player's run is orderly. Once the duties of a player have ended, its supervisor
comes to its end when it goes on often enough, whatever rooms and others do, and then it has turned
to each room that may list the player, and a room that answers has let the player go. -/
theorem orderly_teardown (config : RoomConfig) {acts more : List Act}
    (hacts : ∀ act ∈ acts, act.Honest) (hmore : ∀ act ∈ more, act.Honest)
    (hs : ((initial config .standard).performAll acts).sessions[n]? = some s)
    (hover : s.DutiesOver) :
    let σ := initial config .standard
    (s.left ≤ dueTurns n (σ.performAll acts) more →
      (σ.performAll (acts ++ more)).RunOver s.id n) ∧
    ((σ.performAll (acts ++ more)).RunOver s.id n →
      ∃ turns now later c, acts ++ more = turns ++ .session n (.supervise now) :: later ∧
        s.dispatching = .ended (some c) ∧ σ.Teardown turns now s.id n c) := by
  intro σ
  have hr : σ.Regular := regular_initial config
  have hall : ∀ act ∈ acts ++ more, act.Honest := by
    intro act h
    exact (List.mem_append.mp h).elim (hacts act) (hmore act)
  have hnow := hr.performAll hacts
  refine ⟨fun hdue => ?_, fun hrun => ?_⟩
  · rw [performAll_append]
    exact hnow.sound.runOver_of_dueTurns hs hover hdue
  · have hnone : σ.sessions[n]? = none := rfl
    have hnot : ¬ σ.RunOver s.id n := by
      rintro ⟨s', hs', -⟩
      simp [hnone] at hs'
    obtain ⟨turns, now, later, s', hsplit, hs', hid, hsup⟩ := hr.sound.end_of_run hnot hrun
    have hturns : ∀ act ∈ turns, act.Honest := by
      intro act h
      exact hall act (hsplit ▸ List.mem_append_left _ h)
    obtain ⟨c, hended, hteardown⟩ := hr.teardown hturns hnone hs' hsup now
    refine ⟨turns, now, later, c, hsplit, ?_, hid ▸ hteardown⟩
    -- both states of the session leave the same behind, whichever is the earlier
    obtain ⟨o, ho⟩ := hover.dispatching
    obtain ⟨s₁, hs₁, -, hwanes⟩ := (hnow.sound.wanes_all more).session hs
    obtain ⟨s₂, hs₂, -, hwanes'⟩ :=
      ((hr.performAll hturns).sound.wanes_all (.session n (.supervise now) :: later)).session hs'
    rw [← performAll_append] at hs₁
    rw [← performAll_append, ← hsplit] at hs₂
    obtain rfl := Option.some.inj (hs₁.symm.trans hs₂)
    rw [ho, Dispatching.ended.inj ((hwanes.dispatching ho).symm.trans (hwanes'.dispatching hended))]

/-- Somebody makes a room and another one joins it. Then the connection of the first breaks. -/
private def hosting : List Act :=
  [.connect ⟨"ann"⟩ {} none, .connect ⟨"bob"⟩ {} none,
    .session 0 (.hear
      { kind := .createRoomRequest, data := Wire.encode (CreateRoomRequest.mk "attic") }),
    .session 0 (.dispatch 0), .room 0, .session 0 (.dispatch 0),
    .session 1 (.hear
      { kind := .joinRoomRequest, data := Wire.encode (JoinRoomRequest.mk none ⟨1⟩) }),
    .session 1 (.dispatch 0), .room 0, .session 1 (.dispatch 0),
    .session 0 .mute, .session 0 .read, .session 0 (.dispatch 0)]

private def parting : List Act :=
  List.replicate 3 (.session 0 (.supervise 0)) ++ .room 0 ::
    List.replicate 4 (.session 0 (.supervise 0))

private def hosted : System := (initial {} .standard).performAll hosting

theorem host_torn_down : ∃ (s : Session) (turns : List Act) (now : Nat) (c : Context),
    hosted.sessions[0]? = some s ∧ s.id = ⟨"ann"⟩ ∧ s.DutiesOver ∧
      (hosted.performAll parting).RunOver ⟨"ann"⟩ 0 ∧
      (initial {} .standard).Teardown turns now ⟨"ann"⟩ 0 c ∧ c.memberships = [⟨1⟩] := by
  have hover : hosted.sessions[0]?.map (fun s => decide (s.id = ⟨"ann"⟩ ∧ s.reading = .ended ∧
      s.writing = .ended ∧ s.dispatcherEnded = true ∧ s.memberships = [⟨1⟩] ∧
      s.left ≤ dueTurns 0 hosted parting)) = some true := by decide +kernel
  obtain ⟨s, hs, hover⟩ := Option.map_eq_some_iff.mp hover
  obtain ⟨hid, hreading, hwriting, hdispatcher, hrooms, hdue⟩ := of_decide_eq_true hover
  have hduties : s.DutiesOver := by
    refine ⟨hreading, hwriting, ?_⟩
    revert hdispatcher
    rw [Session.dispatcherEnded]
    cases s.dispatching <;> simp
  have hhosting : ∀ act ∈ hosting, act.Honest := by simp [hosting, Act.Honest]
  have hparting : ∀ act ∈ parting, act.Honest := by simp [parting, Act.Honest]
  obtain ⟨hrun, htorn⟩ := orderly_teardown {} hhosting hparting hs hduties
  rw [performAll_append] at hrun htorn
  obtain ⟨turns, now, later, c, -, hended, hteardown⟩ := htorn (hrun hdue)
  refine ⟨s, turns, now, c, hs, hid, hduties, hid ▸ hrun hdue, hid ▸ hteardown, ?_⟩
  simpa [Session.memberships, Session.context?, hended] using hrooms

end System

end Lobby
