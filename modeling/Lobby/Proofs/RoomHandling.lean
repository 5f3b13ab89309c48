import Lobby.Proofs.RoomHistory
import Lobby.Proofs.RoomViews

/-! What a room does with one event: to the player it names, to its requester, and to nobody
else. -/
namespace Lobby

namespace Room
variable {ρ : Type} (room : Room) (o : Occasion ρ) {p : PlayerId}

/-- Only joins and leaves change who is a member. -/
theorem hasMember_meet_of_other (h : o.event.bindsTo p = false) :
    (room.meet o).hasMember p = room.hasMember p := by
  rw [hasMember_eq, hasMember_eq, profile?_meet]
  split
  · rename_i hp
    obtain ⟨⟨player, body⟩, listener, lookup⟩ := o
    subst hp
    cases body with
    | join | leave => simp [Event.bindsTo, Event.kind] at h
    | chat | move => simp [Occasion.gist, EventBody.map, nextProfile]
  · rfl

theorem hasMember_meet_of_leave {reply : Option ρ} (h : o.event = ⟨p, .leave reply⟩) :
    (room.meet o).hasMember p = false := by
  simp [hasMember_eq, profile?_meet, h, Occasion.gist, EventBody.map, nextProfile]

/-- A join whose requester has gone, before or while the room looks the player up, changes
nothing. -/
theorem meet_of_gone {profile : Profile} {requester : ρ}
    (h : o.event = ⟨p, .join profile (some requester)⟩) (hl : o.listener requester ≠ .waiting) :
    room.meet o = room := by
  obtain ⟨event, listener, lookup⟩ := o
  subst h
  have ha : room.admission? listener lookup p (some requester) = none := by
    rw [admission?]
    split
    · rfl
    · rw [if_neg]
      simpa using hl
  have hm := join_room room listener lookup p profile (some requester)
  rw [ha] at hm
  exact hm

/-- A join whose requester waits makes a member of whom the directory knows. -/
theorem hasMember_meet_of_join {profile : Profile} {requester : ρ}
    (h : o.event = ⟨p, .join profile (some requester)⟩) (hl : o.listener requester = .waiting) :
    (room.meet o).hasMember p = (room.hasMember p || (o.lookup p).isSome) := by
  rw [hasMember_eq, hasMember_eq, profile?_meet]
  simp only [h, Occasion.gist, EventBody.map, nextProfile, if_true, Option.map_some, hl]
  cases room.profile? p <;> cases o.lookup p <;> simp

def effects : List (Effect ρ) := (room.react o.event.kind o.listener o.lookup o.event).2

private theorem outcome?_notify (exclude : PlayerId) :
    Effect.outcome? (room.notify (ρ := ρ) exclude) = none := by
  rw [Effect.outcome?, List.findSome?_eq_none_iff]
  intro effect he
  obtain ⟨i, -, rfl⟩ := List.mem_map.mp he
  rfl

theorem not_mem_notify (exclude : PlayerId) (requester : ρ) (outcome : Outcome) :
    .answer requester outcome ∉ room.notify (ρ := ρ) exclude := by
  intro h
  obtain ⟨i, -, hi⟩ := List.mem_map.mp h
  contradiction

private theorem mem_answer {listener : ρ → Listener} {reply : Option ρ} {ret : ResultCode}
    {requester : ρ} {outcome : Outcome}
    (h : .answer requester outcome ∈ room.answer listener reply ret) :
    reply = some requester ∧ outcome.room = room.snapshot := by
  rw [answer.eq_def] at h
  split at h
  · split at h
    · contradiction
    · rw [List.mem_singleton] at h
      cases h
      exact ⟨rfl, rfl⟩
  · contradiction

/-- Only the requester of an event is answered, and is shown the room as the event leaves it. -/
theorem answer_of_mem_effects {requester : ρ} {outcome : Outcome}
    (h : .answer requester outcome ∈ room.effects o) :
    o.event.reply? = some requester ∧ outcome.room = (room.meet o).snapshot := by
  obtain ⟨⟨player, body⟩, listener, lookup⟩ := o
  cases body with
  | chat => contradiction
  | move profile =>
    simp only [effects, react, Event.kind, move] at h
    split at h
    · exact absurd h (not_mem_notify _ _ _ _)
    · contradiction
  | leave reply =>
    simp only [effects, meet, react, Event.kind, leave] at h ⊢
    split at h
    · rename_i hm
      rw [if_pos hm]
      exact mem_answer _ ((List.mem_append.mp h).resolve_left (not_mem_notify _ _ _ _))
    · rename_i hm
      rw [if_neg hm]
      exact mem_answer _ h
  | join profile reply =>
    rcases room.join_cases listener lookup player profile reply with
      ⟨outbox, -, hj⟩ | ⟨-, effects, hj, rfl | ⟨heard, ret, -, rfl⟩⟩ <;>
      simp only [Room.effects, Room.meet, react, Event.kind, hj] at h ⊢
    · exact mem_answer _ ((List.mem_append.mp h).resolve_right (not_mem_notify _ _ _ _))
    · contradiction
    · exact mem_answer _ h

theorem reply_of_mem_effects {requester : ρ} {outcome : Outcome}
    (h : .answer requester outcome ∈ room.effects o) : o.event.reply? = some requester :=
  (room.answer_of_mem_effects o h).1

/-- A join whose requester waits is answered, and granted if it makes a new member. -/
theorem outcome_of_join {profile : Profile} {requester : ρ}
    (h : o.event = ⟨p, .join profile (some requester)⟩) (hl : o.listener requester = .waiting) :
    ∃ outcome, Effect.outcome? (room.effects o) = some outcome ∧
      (outcome.ret = .ok ↔ room.hasMember p = false ∧ (o.lookup p).isSome) := by
  obtain ⟨event, listener, lookup⟩ := o
  subst h
  simp only at hl
  have hears : answerable listener (some requester) = true := by simp [answerable, hl]
  have stays : answerable (fun t => (listener t).afterLookup) (some requester) = true := by
    simp [answerable, hl, Listener.afterLookup]
  simp only [effects, react, Event.kind, join, hears, stays, Bool.not_true, Bool.false_eq_true,
    if_false]
  cases hm : room.hasMember p with
  | true =>
    refine ⟨⟨.playerAlreadyInRoom, room.snapshot⟩, ?_, by simp⟩
    simp [answer, hl, Effect.outcome?]
  | false =>
    cases hp : lookup p with
    | none =>
      refine ⟨⟨.playerNotFound, room.snapshot⟩, ?_, by simp⟩
      simp [answer, hl, Effect.outcome?, Listener.afterLookup]
    | some outbox =>
      refine ⟨⟨.ok, (room.insert p ⟨profile, outbox⟩).snapshot⟩, ?_, by simp⟩
      simp [answer, hl, Effect.outcome?, Listener.afterLookup]

/-- A leave whose requester waits is answered. -/
theorem outcome_of_leave {requester : ρ} (h : o.event = ⟨p, .leave (some requester)⟩)
    (hl : o.listener requester = .waiting) :
    ∃ outcome, Effect.outcome? (room.effects o) = some outcome := by
  obtain ⟨event, listener, lookup⟩ := o
  subst h
  simp only at hl
  simp only [effects, react, Event.kind, leave, answer, hl]
  have hnotify := outcome?_notify (ρ := ρ) (room.erase p) p
  rw [Effect.outcome?] at hnotify
  split
  · rw [Effect.outcome?, List.findSome?_append, hnotify]
    exact ⟨_, rfl⟩
  · exact ⟨_, rfl⟩

/-- Whoever waits for an answer gets one. -/
theorem exists_outcome {requester : ρ} (h : o.event.reply? = some requester)
    (hl : o.listener requester = .waiting) :
    ∃ outcome, Effect.outcome? (room.effects o) = some outcome := by
  obtain ⟨⟨player, body⟩, listener, lookup⟩ := o
  cases body with
  | chat | move => contradiction
  | leave reply =>
    obtain rfl : reply = some requester := h
    exact room.outcome_of_leave _ rfl hl
  | join profile reply =>
    obtain rfl : reply = some requester := h
    obtain ⟨outcome, ho, -⟩ := room.outcome_of_join _ rfl hl
    exact ⟨outcome, ho⟩

end Room

def Reply.after (effects : List (Effect Ticket)) : Reply :=
  match Effect.outcome? effects with
  | some outcome => .answered outcome
  | none => .abandoned

namespace Hub
variable {h : Hub} {hands : Hands} {p : PlayerId} {n : Nat}

structure Beside (h h' : Hub) : Prop where
  reactions : h'.reactions = h.reactions
  rooms : h'.rooms = h.rooms
  roomIndex : h'.roomIndex = h.roomIndex
  nextSerial : h'.nextSerial = h.nextSerial

theorem Beside.refl (h : Hub) : h.Beside h := ⟨rfl, rfl, rfl, rfl⟩

theorem Beside.trans {h h' h'' : Hub} (hb : h.Beside h') (hb' : h'.Beside h'') : h.Beside h'' :=
  ⟨hb'.reactions.trans hb.reactions, hb'.rooms.trans hb.rooms, hb'.roomIndex.trans hb.roomIndex,
    hb'.nextSerial.trans hb.nextSerial⟩

private theorem beside_settleReply (h : Hub) (t : Ticket) (reply : Reply) :
    h.Beside (h.settleReply t reply) := by
  rw [settleReply]
  split <;> exact ⟨rfl, rfl, rfl, rfl⟩

private theorem beside_apply (h : Hub) (effect : Effect Ticket) : h.Beside (h.apply effect) := by
  cases effect with
  | answer t outcome => exact beside_settleReply h t _
  | post i message =>
    rw [apply, post]
    split <;> exact ⟨rfl, rfl, rfl, rfl⟩

private theorem beside_applyAll (h : Hub) (effects : List (Effect Ticket)) :
    h.Beside (h.applyAll effects) := by
  induction effects generalizing h with
  | nil => exact .refl h
  | cons effect rest ih => exact (beside_apply h effect).trans (ih (h.apply effect))

/-- Takes the next event from a room's mailbox, unless the room is past taking any. -/
def drawEvent? (past : RoomCell → Bool) (h : Hub) (r : Nat) : Option (Event Ticket × Hub) :=
  match h.rooms[r]? with
  | some cell =>
    if past cell then none
    else
      match cell.events.receive with
      | (.message event, next, events) =>
        let h := h.setRoom r { cell with events }
        some (event, match next with
          | some t => h.signal (.settled t.owner)
          | none => h)
      | _ => none
  | none => none

/-- Taking an event touches nothing but the mailbox that it comes from. -/
theorem exists_of_drawEvent {past : RoomCell → Bool} {h h' : Hub} {r : Nat} {e : Event Ticket}
    (hd : h.drawEvent? past r = some (e, h')) :
    ∃ cell next events signals, h.rooms[r]? = some cell ∧ past cell = false ∧
      cell.events.receive = (.message e, next, events) ∧
      h' = { h.setRoom r { cell with events } with signals } := by
  rw [drawEvent?] at hd
  split at hd
  · rename_i cell hc
    split at hd
    · contradiction
    · rename_i hpast
      split at hd
      · rename_i event next events hr
        obtain ⟨rfl, rfl⟩ := Prod.mk.inj (Option.some.inj hd)
        refine ⟨cell, next, events, ?_⟩
        cases next with
        | some t => exact ⟨.settled t.owner :: h.signals, hc, eq_false_of_ne_true hpast, hr, rfl⟩
        | none => exact ⟨h.signals, hc, eq_false_of_ne_true hpast, hr, rfl⟩
      · contradiction
  · contradiction

theorem beside_discardEvent (h : Hub) (e : Event Ticket) : h.Beside (h.discardEvent e) := by
  rw [discardEvent]
  split
  · exact beside_settleReply h _ _
  · exact .refl h

private theorem outboxes_settleReply (h : Hub) (t : Ticket) (reply : Reply) :
    (h.settleReply t reply).outboxes = h.outboxes := by
  rw [settleReply]
  split <;> rfl

theorem outboxes_discardEvent (h : Hub) (e : Event Ticket) :
    (h.discardEvent e).outboxes = h.outboxes := by
  rw [discardEvent]
  split
  · exact outboxes_settleReply h _ _
  · rfl

theorem reply?_discardEvent (h : Hub) (e : Event Ticket) (t : Ticket) :
    (h.discardEvent e).reply? t =
      if e.reply? = some t ∧ h.reply? t = some .awaited then some .abandoned else h.reply? t := by
  rw [discardEvent]
  cases hr : e.reply? with
  | none => simp
  | some s =>
    simp only [reply?_settleReply, Option.some.injEq]
    by_cases hs : s = t
    · simp [hs]
    · simp [hs, Ne.symm hs]

private theorem reply?_post (h : Hub) (i : Nat) (message : Envelope) (t : Ticket) :
    (h.apply (.post i message)).reply? t = h.reply? t := by
  rw [apply, post]
  split <;> rfl

private theorem reply?_answer (h : Hub) (s t : Ticket) (outcome : Outcome) :
    (h.apply (.answer s outcome)).reply? t =
      if t = s ∧ h.reply? s = some .awaited then some (.answered outcome) else h.reply? t :=
  reply?_settleReply h s t _

/-- A reply that nobody waits for, or that is not answered, stays as it is. -/
private theorem reply?_applyAll_of_other (h : Hub) {t : Ticket} {effects : List (Effect Ticket)}
    (he : h.reply? t ≠ some .awaited ∨ ∀ outcome, .answer t outcome ∉ effects) :
    (h.applyAll effects).reply? t = h.reply? t := by
  induction effects generalizing h with
  | nil => rfl
  | cons effect rest ih =>
    have hone : (h.apply effect).reply? t = h.reply? t := by
      cases effect with
      | post i message => exact reply?_post h i message t
      | answer s outcome =>
        rw [reply?_answer, if_neg]
        rintro ⟨rfl, ha⟩
        rcases he with he | he
        · exact he ha
        · exact he outcome List.mem_cons_self
    refine (ih (h.apply effect) ?_).trans hone
    rcases he with he | he
    · exact .inl (hone ▸ he)
    · exact .inr fun outcome hm => he outcome (List.mem_cons_of_mem _ hm)

/-- The first answer to a reply that is awaited settles it. -/
private theorem reply?_applyAll_of_awaited (h : Hub) {t : Ticket} {effects : List (Effect Ticket)}
    (ha : h.reply? t = some .awaited)
    (he : ∀ s outcome, .answer s outcome ∈ effects → s = t) :
    (h.applyAll effects).reply? t =
      some ((Effect.outcome? effects).elim .awaited .answered) := by
  induction effects generalizing h with
  | nil => exact ha
  | cons effect rest ih =>
    cases effect with
    | post i message =>
      exact ih (h.apply (.post i message)) ((reply?_post h i message t).trans ha)
        fun s outcome hm => he s outcome (List.mem_cons_of_mem _ hm)
    | answer s outcome =>
      obtain rfl := he s outcome List.mem_cons_self
      have hone : (h.apply (.answer s outcome)).reply? s = some (.answered outcome) := by
        simp [reply?_answer, ha]
      have hrest : ((h.apply (.answer s outcome)).applyAll rest).reply? s =
          (h.apply (.answer s outcome)).reply? s :=
        reply?_applyAll_of_other _ (.inl (by simp [hone]))
      exact hrest.trans hone

/-- Handling an event settles the reply to it, if that is still awaited, and no other. -/
theorem reply?_handleEvent (hs : h.reactions = .standard) {r : Nat} {cell : RoomCell}
    (hc : h.rooms[r]? = some cell) (listener : Ticket → Listener) (e : Event Ticket) (t : Ticket) :
    (h.handleEvent listener r e).reply? t =
      if e.reply? = some t ∧ h.reply? t = some .awaited then
        some (.after (cell.room.effects ⟨e, listener, h.player?⟩))
      else h.reply? t := by
  have hmem {s : Ticket} {outcome : Outcome}
      (hm : .answer s outcome ∈ cell.room.effects ⟨e, listener, h.player?⟩) : e.reply? = some s :=
    cell.room.reply_of_mem_effects _ hm
  rw [handleEvent, hc]
  simp only [hs, cell.room.handle_standard]
  generalize hset : h.setRoom r
    { cell with room := (cell.room.react e.kind listener h.player? e).1 } = h'
  have hreply (s : Ticket) : h'.reply? s = h.reply? s := by
    rw [← hset]
    rfl
  change ((h'.applyAll (cell.room.effects ⟨e, listener, h.player?⟩)).discardEvent e).reply? t = _
  generalize cell.room.effects ⟨e, listener, h.player?⟩ = effects at hmem
  rw [reply?_discardEvent]
  by_cases hawaited : e.reply? = some t ∧ h.reply? t = some .awaited
  · obtain ⟨hr, ha⟩ := hawaited
    have happly := reply?_applyAll_of_awaited h' ((hreply t).trans ha)
      fun s outcome hm => Option.some.inj ((hmem hm).symm.trans hr)
    rw [happly, Reply.after]
    cases Effect.outcome? effects <;> simp [hr, ha]
  · have happly : (h'.applyAll effects).reply? t = h.reply? t := by
      refine (reply?_applyAll_of_other h' ?_).trans (hreply t)
      rw [hreply]
      by_cases hr : e.reply? = some t
      · exact .inl fun ha => hawaited ⟨hr, ha⟩
      · exact .inr fun outcome hm => hr (hmem hm)
    simp [happly, hawaited]

theorem beside_handleEvent (hs : h.reactions = .standard) {r : Nat} {cell : RoomCell}
    (hc : h.rooms[r]? = some cell) (listener : Ticket → Listener) (e : Event Ticket) :
    (h.setRoom r { cell with room := cell.room.meet ⟨e, listener, h.player?⟩ }).Beside
      (h.handleEvent listener r e) := by
  rw [handleEvent, hc]
  simp only [hs, cell.room.handle_standard]
  generalize hset : h.setRoom r
    { cell with room := (cell.room.react e.kind listener h.player? e).1 } = h'
  have hset' : h.setRoom r { cell with room := cell.room.meet ⟨e, listener, h.player?⟩ } = h' :=
    hset
  rw [hset']
  exact (beside_applyAll h' _).trans (beside_discardEvent _ e)

private theorem outboxes_applyAll (h : Hub) (effects : List (Effect Ticket)) :
    (h.applyAll effects).outboxes = Effect.deliverAll h.outboxes effects := by
  induction effects generalizing h with
  | nil => rfl
  | cons effect rest ih =>
    have hone : (h.apply effect).outboxes = effect.deliver h.outboxes := by
      cases effect with
      | answer t outcome => exact outboxes_settleReply h t _
      | post i message =>
        rw [apply, post, Effect.deliver]
        split
        · rename_i heq
          rw [heq]
          rfl
        · rename_i heq
          rw [heq]
    have hrest := ih (h.apply effect)
    rwa [hone] at hrest

/-- Handling an event puts what the room sends into the outboxes. -/
theorem outboxes_handleEvent (hs : h.reactions = .standard) {r : Nat} {cell : RoomCell}
    (hc : h.rooms[r]? = some cell) (listener : Ticket → Listener) (e : Event Ticket) :
    (h.handleEvent listener r e).outboxes =
      Effect.deliverAll h.outboxes (cell.room.effects ⟨e, listener, h.player?⟩) := by
  rw [handleEvent, hc]
  simp only [hs, cell.room.handle_standard]
  exact (outboxes_discardEvent ..).trans (outboxes_applyAll
    (h.setRoom r { cell with room := (cell.room.react e.kind listener h.player? e).1 }) _)

theorem Live.handleEvent (hl : h.Live) {r : Nat} {cell : RoomCell} (hc : h.rooms[r]? = some cell)
    (listener : Ticket → Listener) (e : Event Ticket) : (h.handleEvent listener r e).Live := by
  have hb := beside_handleEvent hl.reactions hc listener e
  have hrun := hl.running hc
  have hset : (h.setRoom r { cell with room := cell.room.meet ⟨e, listener, h.player?⟩ }).Live :=
    hl.setRoom hc ⟨hrun.cancelled, hrun.stopped, hrun.closed, hrun.senders⟩
      (cell.room.meet_keeps ⟨e, listener, h.player?⟩).1
  exact hset.congr hb.rooms hb.roomIndex hb.reactions

theorem size_handleEvent (hl : h.Live) {r : Nat} {cell : RoomCell} (hc : h.rooms[r]? = some cell)
    (listener : Ticket → Listener) (e : Event Ticket) :
    (h.handleEvent listener r e).rooms.size = h.rooms.size := by
  rw [(beside_handleEvent hl.reactions hc listener e).rooms]
  exact Array.size_setIfInBounds

/-- Handling an event changes who is a member of the room, and the reply to the event. -/
theorem outlook_handleEvent (hl : h.Live) {r : Nat} {cell : RoomCell}
    (hc : h.rooms[r]? = some cell) (listener : Ticket → Listener) (e : Event Ticket) :
    (h.handleEvent listener r e).outlook hands p n =
      { (h.outlook hands p n).modify r fun v =>
          { v with listed := (cell.room.meet ⟨e, listener, h.player?⟩).hasMember p } with
        reply? := (h.handleEvent listener r e).reply? } := by
  have hb := beside_handleEvent hl.reactions hc listener e
  have hid := (cell.room.meet_keeps ⟨e, listener, h.player?⟩).1
  have hroom : (h.handleEvent listener r e).room? = h.room? := by
    funext id
    rw [room?, room?, hb.roomIndex]
    rfl
  simp only [outlook, Outlook.modify, hroom, hb.rooms, hb.nextSerial, getElem?_setRoom hc]
  congr 1
  funext s
  split
  · rename_i hs
    subst hs
    simp only [hc, Option.map_some, RoomCell.view, hid]
  · rfl

/-- An event that concerns somebody else is handled without the player's noticing. -/
theorem Live.spares_handleEvent (hl : h.Live) {r : Nat} {cell : RoomCell}
    (hc : h.rooms[r]? = some cell) (listener : Ticket → Listener) {e : Event Ticket}
    (he : e.concerns p n = false) : Spares hands p n h (h.handleEvent listener r e) := by
  have hb := beside_handleEvent hl.reactions hc listener e
  rw [Event.concerns, Bool.or_eq_false_iff] at he
  obtain ⟨hbinds, howner⟩ := he
  have hrun := hl.running hc
  have hset : Spares hands p n h
      (h.setRoom r { cell with room := cell.room.meet ⟨e, listener, h.player?⟩ }) := by
    refine hl.spares_setRoom hc ⟨hrun.cancelled, hrun.stopped, hrun.closed, hrun.senders⟩ ?_
    simp only [RoomCell.view, (cell.room.meet_keeps ⟨e, listener, h.player?⟩).1,
      cell.room.hasMember_meet_of_other ⟨e, listener, h.player?⟩ hbinds]
  refine hset.trans (hset.live.spares_of_rooms hb.rooms hb.roomIndex hb.reactions ?_ ?_)
  · intro t ht
    rw [reply?_handleEvent hl.reactions hc, if_neg]
    · rfl
    · rintro ⟨hr, -⟩
      simp [hr, ht] at howner
  · rw [hb.nextSerial]

end Hub

end Lobby
