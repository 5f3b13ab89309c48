import Lobby.Proofs.EndedDispatchers
import Lobby.Proofs.RoomAnswers

/-! What becomes of a player whose request to leave a room answers: it is a member no more, whoever
is left has been told, and only another join lets it in again. -/
namespace Lobby

namespace System
variable {σ σ' : System} {act : Act} {n r : Nat} {s : Session} {p : PlayerId} {t : Ticket}
  {outcome : Outcome}

structure Regular (σ : System) : Prop where
  sound : σ.Sound
  numbered : σ.Numbered
  attended : σ.Attended
  standard : σ.hub.reactions = .standard
  seated : σ.Seated
  housed {n : Nat} {s : Session} : σ.sessions[n]? = some s →
    (∃ cell, σ.hub.players[n]? = some cell ∧ cell.id = s.id) ∧ ∃ box, σ.hub.outboxes[n]? = some box

theorem regular_initial (config : RoomConfig) : (initial config .standard).Regular where
  sound := sound_start config .standard
  numbered := numbered_initial config .standard
  attended := attended_initial config .standard
  standard := rfl
  seated := rfl
  housed hs := by simp [initial] at hs

private theorem housed_connect (hr : σ.Regular) {id : PlayerId} {config : PlayerConfig} {m : Nat}
    {hub : Hub} (ho : σ.hub.openPlayer id config = (m, true, hub)) :
    (∃ cell, hub.players[σ.sessions.size]? = some cell ∧ cell.id = id) ∧
      ∃ box, hub.outboxes[σ.sessions.size]? = some box := by
  have hseat : σ.sessions.size = σ.hub.players.size := hr.seated
  have hroom : σ.sessions.size ≤ σ.hub.outboxes.size := by
    rcases Nat.eq_zero_or_pos σ.sessions.size with hzero | hpos
    · omega
    · obtain ⟨-, box, hb⟩ := hr.housed
        (Array.getElem?_eq_getElem (Nat.sub_lt hpos Nat.one_pos))
      have hlt := (Array.getElem?_eq_some_iff.mp hb).1
      omega
  rw [Hub.openPlayer] at ho
  split at ho
  · simp at ho
  · obtain rfl := (Prod.mk.inj (Prod.mk.inj ho).2).2
    constructor
    · rw [hseat]
      exact ⟨_, Array.getElem?_push_size, rfl⟩
    · have hlt : σ.sessions.size < (σ.hub.outboxes.push
          (Mailbox.ofCapacity (id.text ++ "/outbound") config.outboundCapacity)).size := by
        rw [Array.size_push]
        omega
      exact ⟨_, Array.getElem?_eq_getElem hlt⟩

theorem Regular.perform (hr : σ.Regular) (hact : act.Honest) : (σ.perform act).Regular where
  sound := hr.sound.perform act
  numbered := (hr.sound.onward hact).numbered hr.numbered
  attended := hr.attended.perform hr.sound hact
  standard := (hr.sound.onward hact).hub.reactions.trans hr.standard
  seated := hr.sound.seated hr.seated act
  housed {n s'} hs' := by
    have keep {s : Session} (hs : σ.sessions[n]? = some s) (hid : s'.id = s.id) :
        (∃ cell, (σ.perform act).hub.players[n]? = some cell ∧ cell.id = s'.id) ∧
          ∃ box, (σ.perform act).hub.outboxes[n]? = some box := by
      obtain ⟨⟨cell, hp, hcell⟩, box, hb⟩ := hr.housed hs
      obtain ⟨cell', hp', hwanes⟩ := (hr.sound.wanes act).hub.player hp
      obtain ⟨box', hb', -⟩ := (hr.sound.wanes act).hub.outbox hb
      exact ⟨⟨cell', hp', hwanes.id.trans (hcell.trans hid.symm)⟩, box', hb'⟩
    by_cases hold : n < σ.sessions.size
    · obtain ⟨s₁, hs₁, hid, -⟩ := (hr.sound.wanes act).session (Array.getElem?_eq_getElem hold)
      obtain rfl := Option.some.inj (hs'.symm.trans hs₁)
      exact keep (Array.getElem?_eq_getElem hold) hid
    · rcases session_cases hs' with hs | ⟨s, -, hs, -⟩ | ⟨m, id, config, window, rfl, -⟩
      · exact absurd (Array.getElem?_eq_some_iff.mp hs).1 hold
      · exact absurd (Array.getElem?_eq_some_iff.mp hs).1 hold
      · rw [System.perform] at hs' ⊢
        split at hs'
        · rename_i m hub ho
          rw [Array.getElem?_push] at hs'
          split at hs'
          · rename_i hn
            obtain rfl := Option.some.inj hs'
            subst hn
            exact housed_connect hr ho
          · exact absurd (Array.getElem?_eq_some_iff.mp hs').1 hold
        · exact absurd (Array.getElem?_eq_some_iff.mp hs').1 hold

theorem Regular.performAll (hr : σ.Regular) {acts : List Act} (hacts : ∀ act ∈ acts, act.Honest) :
    (σ.performAll acts).Regular := by
  induction acts generalizing σ with
  | nil => exact hr
  | cons act rest ih =>
    exact ih (hr.perform (hacts act List.mem_cons_self))
      fun act h => hacts act (List.mem_cons_of_mem _ h)

theorem performAll_append (σ : System) (first rest : List Act) :
    σ.performAll (first ++ rest) = (σ.performAll first).performAll rest :=
  List.foldl_append

/-- A room takes an event from its mailbox without touching anything else. -/
theorem of_facing {h : Hub} {e : Event Ticket} (hf : σ.facing? r = some (e, h)) :
    h.outboxes = σ.hub.outboxes ∧ h.replies = σ.hub.replies ∧ h.reactions = σ.hub.reactions := by
  rw [facing?] at hf
  split at hf
  · obtain ⟨-, rfl⟩ := Prod.mk.inj (Option.some.inj hf)
    exact ⟨rfl, rfl, rfl⟩
  · obtain ⟨cell, events, signals, -, -, -, rfl⟩ := Hub.parts_of_takeEvent hf
    exact ⟨rfl, rfl, rfl⟩

theorem hub_of_handling {x : Handling} (hx : σ.handling? act = some x) :
    (σ.perform act).hub = x.hub.handleEvent x.listener x.room x.event := by
  cases act with
  | room r =>
    rw [handling?] at hx
    split at hx
    · rename_i hfree
      obtain ⟨⟨e, h⟩, ht, rfl⟩ := Option.map_eq_some_iff.mp hx
      rw [System.perform, if_pos hfree]
      rcases σ.hub.stepRoom_cases r with ⟨e', h', ht', hstep⟩ | ⟨hnone, -⟩
      · obtain ⟨rfl, rfl⟩ := Prod.mk.inj (Option.some.inj (ht.symm.trans ht'))
        exact hstep
      · rw [ht] at hnone
        contradiction
    · contradiction
  | conclude r =>
    obtain ⟨e, he, rfl⟩ := Option.map_eq_some_iff.mp hx
    simp only [System.perform, he]
  | _ => contradiction

theorem listens_of_handling {x : Handling} (hx : σ.handling? act = some x) :
    x.hub.Listens x.listener := by
  cases act with
  | room r =>
    rw [handling?] at hx
    split at hx
    · obtain ⟨⟨e, h⟩, ht, rfl⟩ := Option.map_eq_some_iff.mp hx
      exact h.listens_listener
    · contradiction
  | conclude r =>
    obtain ⟨e, he, rfl⟩ := Option.map_eq_some_iff.mp hx
    exact σ.hub.listens_lateListener
  | _ => contradiction

/-- An answer has come from a room that has given it at some act. -/
theorem Regular.given_of_answered (hr : σ.Regular) {acts : List Act}
    (hacts : ∀ act ∈ acts, act.Honest) (hnot : σ.hub.reply? t ≠ some (.answered outcome))
    (ha : (σ.performAll acts).hub.reply? t = some (.answered outcome)) :
    ∃ before act after, acts = before ++ act :: after ∧
      (σ.performAll before).Gives act t outcome := by
  induction acts using List.reverseRecOn with
  | nil => exact absurd ha hnot
  | append_singleton before act ih =>
    have hbefore : ∀ act ∈ before, act.Honest := fun act h => hacts act (List.mem_append_left _ h)
    rw [performAll_append] at ha
    rcases ((hr.performAll hbefore).sound.brings (hacts act (by simp))).answered ha with ha | hg
    · obtain ⟨first, act', after, rfl, hg⟩ := ih hbefore ha
      exact ⟨first, act', after ++ [act], by simp, hg⟩
    · exact ⟨before, act, [], rfl, hg⟩

end System

namespace Room
variable {ρ : Type} (room : Room)

private theorem outcome_of_mem_answer {listener : ρ → Listener} {reply : Option ρ}
    {ret : ResultCode} {t : ρ} {outcome : Outcome}
    (h : .answer t outcome ∈ room.answer listener reply ret) : outcome = ⟨ret, room.snapshot⟩ := by
  rw [answer.eq_def] at h
  split at h
  · split at h
    · contradiction
    · exact (Effect.answer.inj (List.mem_singleton.mp h)).2
  · contradiction

/-- What a room answers to a leave. -/
theorem answer_of_leave {listener : ρ → Listener} {lookup : PlayerId → Option Nat} {p : PlayerId}
    {reply : Option ρ} {t : ρ} {outcome : Outcome}
    (h : .answer t outcome ∈ room.effects ⟨⟨p, .leave reply⟩, listener, lookup⟩) :
    outcome = ⟨if room.hasMember p then .ok else .playerNotFound, (room.erase p).snapshot⟩ := by
  have hroom := (room.answer_of_mem_effects _ h).2
  rw [meet_leave] at hroom
  suffices hret : outcome.ret = if room.hasMember p then .ok else .playerNotFound by
    rw [← hroom, ← hret]
  simp only [effects, react, Event.kind, leave] at h
  split at h
  · rename_i hmember
    rw [if_pos hmember]
    rcases List.mem_append.mp h with h | h
    · obtain ⟨i, -, hpost⟩ := List.mem_map.mp h
      contradiction
    · exact congrArg Outcome.ret (outcome_of_mem_answer _ h)
  · rename_i hmember
    rw [if_neg hmember]
    exact congrArg Outcome.ret (outcome_of_mem_answer _ h)

end Room

namespace System
variable {σ : System} {act : Act} {n r : Nat} {p : PlayerId} {t : Ticket} {outcome : Outcome}

/-- A room answers a player's request to leave at some act. -/
structure Release (σ : System) (act : Act) (r : Nat) (p : PlayerId) (outcome : Outcome)
    (before after : Room) : Prop where
  found : (σ.hub.rooms[r]?).map (·.room) = some before
  left : ((σ.perform act).hub.rooms[r]?).map (·.room) = some after
  erased : after = before.erase p
  gone : after.hasMember p = false
  /-- If the player was a member, all that are left are offered the notice of the room as it is
  now. -/
  told : ∃ effects : List (Effect Ticket),
    (σ.perform act).hub.outboxes = Effect.deliverAll σ.hub.outboxes effects ∧
    effects.filterMap Effect.post? =
      if before.hasMember p then after.members.map fun e => (e.2.outbox, after.snapshot.notice)
      else []
  answer : outcome = ⟨if before.hasMember p then .ok else .playerNotFound, after.snapshot⟩

theorem Regular.release (hr : σ.Regular) {x : Handling} (hx : σ.handling? act = some x)
    (he : x.event = ⟨p, .leave (some t)⟩)
    (hg : x.hub.Gives x.listener x.room x.event t outcome) :
    ∃ before after, σ.Release act x.room p outcome before after := by
  obtain ⟨room, event, listener, h⟩ := x
  simp only at he hg ⊢
  subst he
  have hf := facing_of_handling hx
  have hperform := hub_of_handling hx
  obtain ⟨hboxes, -, hreactions⟩ := of_facing hf
  have hstandard : h.reactions = .standard := hreactions.trans hr.standard
  obtain ⟨cell, after, effects, hc, hhandle, hmem⟩ := hg
  obtain ⟨cell₀, hc₀, hroom⟩ := exists_room_of_facing hf hc
  let o : Occasion Ticket := ⟨⟨p, .leave (some t)⟩, listener, h.player?⟩
  rw [hstandard, cell.room.handle_standard] at hhandle
  obtain ⟨rfl, rfl⟩ : cell.room.meet o = after ∧ cell.room.effects o = effects :=
    Prod.mk.inj (Option.some.inj hhandle)
  have hleft : cell.room.meet o = cell.room.erase p := cell.room.meet_leave ..
  refine ⟨cell.room, cell.room.meet o, ?_, ?_, hleft, cell.room.hasMember_meet_of_leave o rfl,
    ⟨cell.room.effects o, ?_, ?_⟩, ?_⟩
  · rw [hc₀, hroom]
    rfl
  · rw [hperform, (Hub.beside_handleEvent hstandard hc listener _).rooms, Hub.getElem?_setRoom hc,
      if_pos rfl]
    rfl
  · rw [hperform, ← hboxes]
    exact Hub.outboxes_handleEvent hstandard hc listener _
  · rw [Room.posts_effects, Room.recipients_eq, hleft]
    simp only [o, Occasion.alters, List.map_map]
    rfl
  · rw [hleft]
    exact cell.room.answer_of_leave hmem

end System

/-- Whoever becomes a member has asked to join, and whoever has asked on its behalf still waits. -/
theorem Room.join_of_hasMember {ρ : Type} {room : Room} {o : Occasion ρ} {p : PlayerId}
    (hout : room.hasMember p = false) (hin : (room.meet o).hasMember p = true) :
    o.event.player = p ∧ o.event.kind = .join ∧
      ∀ t, o.event.reply? = some t → o.listener t = .waiting := by
  by_cases hb : o.event.bindsTo p = true
  · obtain ⟨⟨player, body⟩, listener, lookup⟩ := o
    simp only [Event.bindsTo, Bool.and_eq_true, decide_eq_true_eq] at hb
    obtain ⟨rfl, hkind⟩ := hb
    cases body with
    | chat | move => contradiction
    | leave reply =>
      rw [room.hasMember_meet_of_leave _ rfl] at hin
      contradiction
    | join profile reply =>
      refine ⟨rfl, rfl, ?_⟩
      rintro t rfl
      by_contra hgone
      rw [room.meet_of_gone _ rfl hgone, hout] at hin
      contradiction
  · rw [room.hasMember_meet_of_other _ (by simpa using hb), hout] at hin
    contradiction

namespace Hub
variable {h h' : Hub} {r q : Nat} {p : PlayerId}

def Lacks (h : Hub) (r : Nat) (p : PlayerId) : Prop :=
  ∀ cell, h.rooms[r]? = some cell → cell.room.hasMember p = false

namespace Lacks

theorem of_rooms (hl : h.Lacks r p) (hrooms : h'.rooms = h.rooms) : h'.Lacks r p :=
  fun cell hc => hl cell (hrooms ▸ hc)

theorem setRoom (hl : h.Lacks r p) {cell cell' : RoomCell} (hc : h.rooms[q]? = some cell)
    (hm : q = r → cell.room.hasMember p = false → cell'.room.hasMember p = false) :
    (h.setRoom q cell').Lacks r p := by
  intro now hnow
  rw [getElem?_setRoom hc] at hnow
  split at hnow
  · rename_i hq
    obtain rfl := Option.some.inj hnow
    exact hm hq.symm (hl cell (hq ▸ hc))
  · exact hl now hnow

/-- A change of anything about a room but its members. -/
theorem setCell (hl : h.Lacks r p) {cell cell' : RoomCell} (hc : h.rooms[q]? = some cell)
    (hroom : cell'.room = cell.room) : (h.setRoom q cell').Lacks r p :=
  hl.setRoom hc fun _ hm => hroom ▸ hm

theorem openRoom (hl : h.Lacks r p) (id : RoomId) (name : String) :
    (h.openRoom id name).2.2.Lacks r p := by
  rw [Hub.openRoom]
  split
  · exact hl
  · intro cell hc
    simp only [Hub.signal, Array.getElem?_push] at hc
    split at hc
    · obtain rfl := Option.some.inj hc
      rfl
    · exact hl cell hc

theorem createRoom (hl : h.Lacks r p) (name : String) : (h.createRoom name).2.Lacks r p := by
  have htaken : h.takeRoomId.2.Lacks r p := hl.of_rooms rfl
  exact htaken.openRoom h.takeRoomId.1 name

theorem cancelRoom (hl : h.Lacks r p) (q : Nat) : (h.cancelRoom q).Lacks r p := by
  rw [Hub.cancelRoom]
  split
  · rename_i cell hc
    split
    · exact hl
    · have hset : (h.setRoom q { cell with cancelled := true }).Lacks r p := hl.setCell hc rfl
      exact hset.of_rooms rfl
  · exact hl

theorem removeRoom (hl : h.Lacks r p) (id : RoomId) : (h.removeRoom id).2.Lacks r p := by
  rw [Hub.removeRoom]
  split
  · exact (hl.cancelRoom _).of_rooms rfl
  · exact hl

theorem stopRoom (hl : h.Lacks r p) (q : Nat) : (h.stopRoom q).Lacks r p := by
  rw [Hub.stopRoom]
  split
  · rename_i cell hc
    refine List.foldlRecOn (motive := fun h : Hub => h.Lacks r p) _ _ ?_ fun h hl e _ => ?_
    · refine List.foldlRecOn (motive := fun h : Hub => h.Lacks r p) _ _ ?_ fun h hl w _ =>
        hl.of_rooms rfl
      exact hl.setCell hc rfl
    · exact hl.of_rooms (beside_discardEvent h e).rooms
  · exact hl

theorem takeEvent (hl : h.Lacks r p) {e : Event Ticket} (ht : h.takeEvent? q = some (e, h')) :
    h'.Lacks r p := by
  obtain ⟨cell, events, signals, hc, -, -, rfl⟩ := parts_of_takeEvent ht
  have hset : (h.setRoom q { cell with events }).Lacks r p := hl.setCell hc rfl
  exact hset.of_rooms rfl

/-- A player that a room lacks becomes a member only at a join of its own that somebody may still
wait for. -/
theorem handleEvent (hl : h.Lacks r p) (hs : h.reactions = .standard)
    (listener : Ticket → Listener) (q : Nat) (e : Event Ticket) :
    (h.handleEvent listener q e).Lacks r p ∨ q = r ∧ e.player = p ∧ e.kind = .join ∧
      ∀ t, e.reply? = some t → listener t = .waiting := by
  cases hc : h.rooms[q]? with
  | none =>
    rw [Hub.handleEvent, hc]
    exact .inl hl
  | some cell =>
    let o : Occasion Ticket := ⟨e, listener, h.player?⟩
    have hrooms := (beside_handleEvent hs hc listener e).rooms
    by_cases hjoin : q = r ∧ (cell.room.meet o).hasMember p = true
    · obtain ⟨rfl, hin⟩ := hjoin
      exact .inr ⟨rfl, Room.join_of_hasMember (hl cell hc) hin⟩
    · refine .inl (Lacks.of_rooms (hl.setRoom hc fun hq _ => ?_) hrooms)
      simpa [hq] using hjoin

end Lacks

theorem robust_lacks (r : Nat) (p : PlayerId) : Robust (·.Lacks r p) where
  signal hl := hl.of_rooms rfl
  setEvents hl hc := hl.setCell hc rfl
  freshSerial hl := hl.of_rooms rfl
  openReply hl := hl.of_rooms rfl
  closeReply hl := hl.of_rooms rfl
  createRoom hl := hl.createRoom _

theorem enduring_lacks (player : PlayerId) (owner : Task) (r : Nat) (p : PlayerId) :
    Enduring player owner (·.Lacks r p) where
  toLasting := (robust_lacks r p).lasting player owner
  apart hl ha := hl.of_rooms ha.rooms

end Hub

namespace System
variable {σ : System} {act : Act} {n r : Nat} {p : PlayerId} {s : Session} {o : Option Context}

/-- A room turns at an act to a player's join, and that is not a request of a certain dispatcher. -/
def Admits (σ : System) (act : Act) (r : Nat) (p : PlayerId) (n : Nat) : Prop :=
  ∃ x, σ.handling? act = some x ∧ x.room = r ∧ x.event.player = p ∧ x.event.kind = .join ∧
    ∀ t, x.event.reply? = some t → t.owner ≠ .dispatcher n

private theorem lacks_call (hl : σ.hub.Lacks r p) (c : Hub.Call) : (σ.hub.call c).Lacks r p := by
  have robust := Hub.robust_lacks r p
  cases c with
  | openRoom id name => exact hl.openRoom id name
  | createRoom name => exact hl.createRoom name
  | removeRoom id => exact hl.removeRoom id
  | cancelRoom q => exact hl.cancelRoom q
  | removePlayer id => exact hl.of_rooms (σ.hub.apart_removePlayer id).rooms
  | cancelPlayer m => exact hl.of_rooms (σ.hub.apart_cancelPlayer m).rooms
  | offer q e => exact robust.offerEvent hl q e
  | request q timeout now event => exact robust.request hl _ q timeout now event
  | resume w now => exact robust.resume hl w now
  | expire w => exact robust.expire hl w

/-- Rooms that handle nothing let nobody in. -/
private theorem lacks_of_no_handling (hr : σ.Regular) (hl : σ.hub.Lacks r p)
    (hx : σ.handling? act = none) : (σ.perform act).hub.Lacks r p := by
  cases act with
  | session m a =>
    rw [System.perform]
    split
    · exact (hr.sound.session ‹_›).perform_enduring (Hub.enduring_lacks _ _ r p)
        (Hub.enduring_lacks _ _ r p) hl a
    · exact hl
  | room q =>
    rw [System.perform]
    split
    · rename_i hfree
      rw [handling?, if_pos hfree, Option.map_eq_none_iff] at hx
      rcases σ.hub.stepRoom_cases q with ⟨e, h, ht, -⟩ | ⟨-, hstep | hstep⟩
      · rw [hx] at ht
        contradiction
      · rw [hstep]
        exact hl
      · rw [hstep]
        exact hl.stopRoom q
    · exact hl
  | take q =>
    rw [System.perform, takeUp]
    split
    · split
      · exact hl.takeEvent ‹_›
      · exact hl
    · exact hl
  | conclude q =>
    rw [handling?, Option.map_eq_none_iff] at hx
    simp only [System.perform, hx]
    exact hl
  | connect id config window =>
    rw [System.perform]
    split
    · exact hl.of_rooms (Hub.apart_openPlayer ‹_›).rooms
    · exact hl
  | call c => exact lacks_call hl c

/-- A player that a room lacks once its dispatcher has ended gets in only at somebody else's
request. -/
theorem Regular.lacks_or_admits (hr : σ.Regular) (hs : σ.sessions[n]? = some s)
    (hended : s.dispatching = .ended o) (hl : σ.hub.Lacks r p) (act : Act) :
    (σ.perform act).hub.Lacks r p ∨ σ.Admits act r p n := by
  cases hx : σ.handling? act with
  | none => exact .inl (lacks_of_no_handling hr hl hx)
  | some x =>
    have hf := facing_of_handling hx
    obtain ⟨-, hreplies, hreactions⟩ := of_facing hf
    have hl' : x.hub.Lacks r p := by
      rw [facing?] at hf
      split at hf
      · exact (Prod.mk.inj (Option.some.inj hf)).2 ▸ hl
      · exact hl.takeEvent hf
    rw [hub_of_handling hx]
    refine (hl'.handleEvent (hreactions.trans hr.standard) x.listener x.room x.event).imp_right ?_
    rintro ⟨hroom, hplayer, hkind, hwaits⟩
    refine ⟨x, hx, hroom, hplayer, hkind, fun t ht howner => ?_⟩
    -- the dispatcher that has ended waits for nothing
    have hawaited := (listens_of_handling hx t).mp (hwaits t ht)
    rw [Hub.reply?, hreplies] at hawaited
    obtain ⟨s₁, hs₁, hawaits⟩ := hr.attended.heeds t hawaited n howner
    obtain rfl := Option.some.inj (hs.symm.trans hs₁)
    obtain ⟨c, pending, hbusy, -⟩ := hawaits howner
    rw [hended] at hbusy
    contradiction

/-- In the course of a run, too. -/
theorem Regular.lacks_all (hr : σ.Regular) (hs : σ.sessions[n]? = some s)
    (hended : s.dispatching = .ended o) (hl : σ.hub.Lacks r p) {acts : List Act}
    (hacts : ∀ act ∈ acts, act.Honest) :
    (σ.performAll acts).hub.Lacks r p ∨ ∃ before act after, acts = before ++ act :: after ∧
      (σ.performAll before).Admits act r p n := by
  induction acts generalizing σ s with
  | nil => exact .inl hl
  | cons act rest ih =>
    rcases hr.lacks_or_admits hs hended hl act with hl' | hadmits
    · obtain ⟨s', hs', -, hwanes⟩ := (hr.sound.wanes act).session hs
      rcases ih (hr.perform (hacts act List.mem_cons_self)) hs' (hwanes.dispatching hended) hl'
        fun act h => hacts act (List.mem_cons_of_mem _ h) with hl'' | ⟨before, act', after, rfl, ha⟩
      · exact .inl hl''
      · exact .inr ⟨act :: before, act', after, rfl, ha⟩
    · exact .inr ⟨[], act, rest, rfl, hadmits⟩

end System

end Lobby
