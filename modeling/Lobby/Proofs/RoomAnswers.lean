import Lobby.Proofs.RoomConvergence
import Lobby.Proofs.SlowClients

/-! What a room answers to a join or a leave: it answers with what it has done, and a join that it
does not grant it has not begun. -/
namespace Lobby
variable {ρ : Type}

/-- A join that is not to be granted: its requester has gone or goes before it is answered, or its
player is a member already, or the directory does not know the player. -/
def Occasion.Declined (room : Room) (o : Occasion ρ) : Prop :=
  (∃ requester, o.event.reply? = some requester ∧
    (o.listener requester = .gone ∨ o.listener requester = .leavesAtLookup)) ∨
  room.hasMember o.event.player = true ∨ o.lookup o.event.player = none

namespace Room
variable (room : Room) (o : Occasion ρ) {p : PlayerId} {requester : ρ}

theorem declined_iff {profile : Profile} {reply : Option ρ}
    (h : o.event = ⟨p, .join profile reply⟩) :
    o.Declined room ↔ room.admission? o.listener o.lookup p reply = none := by
  have heard : (∃ t, reply = some t ∧ (o.listener t = .gone ∨ o.listener t = .leavesAtLookup)) ↔
      ¬ (reply.all fun t => o.listener t = .waiting) = true := by
    cases reply with
    | none => simp
    | some t => cases hl : o.listener t <;> simp [hl]
  rw [Occasion.Declined, h, admission?]
  simp only [Event.reply?, heard]
  cases room.hasMember p with
  | true => simp
  | false =>
    by_cases hall : (reply.all fun t => o.listener t = .waiting) = true
    · simp [hall]
    · simp [hall]

theorem not_alters_of_declined {profile : Profile} {reply : Option ρ}
    (h : o.event = ⟨p, .join profile reply⟩) (hd : o.Declined room) : o.alters room = false := by
  rw [declined_iff room o h] at hd
  rw [Occasion.alters, h]
  simp [hd]

/-- Effects that post nothing leave every outbox as it is. -/
theorem deliverAll_of_no_posts (boxes : Outboxes) {effects : List (Effect ρ)}
    (h : effects.filterMap Effect.post? = []) : Effect.deliverAll boxes effects = boxes := by
  apply Array.ext_getElem?
  intro i
  rw [Effect.getElem?_deliverAll, Effect.offersTo, h]
  exact Option.map_id'

theorem deliverAll_of_not_alters (boxes : Outboxes) (h : o.alters room = false) :
    Effect.deliverAll boxes (room.effects o) = boxes := by
  apply deliverAll_of_no_posts
  rw [posts_effects, h]
  rfl

/-- A room handles a join by letting the player in, who was no member, or by doing nothing: then
the members, what they are known by, and every outbox with all it holds and has dropped are what
they were. The player is let in unless the join is declined. -/
theorem declined_join_changes_nothing (listener : ρ → Listener) (lookup : PlayerId → Option Nat)
    (boxes : Outboxes) (profile : Profile) (reply : Option ρ) :
    ∃ after effects,
      room.handle .standard listener lookup ⟨p, .join profile reply⟩ = some (after, effects) ∧
      (Occasion.Declined room ⟨⟨p, .join profile reply⟩, listener, lookup⟩ →
        after = room ∧ Effect.deliverAll boxes effects = boxes) ∧
      (¬ Occasion.Declined room ⟨⟨p, .join profile reply⟩, listener, lookup⟩ →
        room.hasMember p = false ∧
          ∃ outbox, lookup p = some outbox ∧ after = room.insert p ⟨profile, outbox⟩) := by
  let o : Occasion ρ := ⟨⟨p, .join profile reply⟩, listener, lookup⟩
  refine ⟨room.meet o, room.effects o, handle_standard room _ _ _, ?_, ?_⟩
  · intro hd
    have ha := not_alters_of_declined room o rfl hd
    exact ⟨room.meet_of_not_alters o ha, room.deliverAll_of_not_alters o boxes ha⟩
  · intro hd
    have hfree : room.hasMember p = false := by
      simpa using fun hm => hd (.inr (.inl hm))
    rw [declined_iff room o rfl] at hd
    obtain ⟨outbox, hadm⟩ := Option.ne_none_iff_exists'.mp hd
    refine ⟨hfree, outbox, lookup_of_admission hadm, ?_⟩
    rw [meet_join, hadm]

def verdict : ResultCode :=
  match o.event.kind, room.hasMember o.event.player, o.lookup o.event.player with
  | .join, true, _ => .playerAlreadyInRoom
  | .join, false, some _ => .ok
  | .join, false, none => .playerNotFound
  | _, true, _ => .ok
  | _, false, _ => .playerNotFound

private theorem answers_notify (exclude : PlayerId) :
    (room.notify (ρ := ρ) exclude).filterMap Effect.answer? = [] := by
  rw [List.filterMap_eq_nil_iff]
  intro effect he
  obtain ⟨i, -, rfl⟩ := List.mem_map.mp he
  rfl

private theorem answers_answer {listener : ρ → Listener} (hl : listener requester ≠ .gone)
    (ret : ResultCode) :
    (room.answer listener (some requester) ret).filterMap Effect.answer? =
      [(requester, ⟨ret, room.snapshot⟩)] := by
  rw [answer, if_neg hl]
  rfl

/-- Whoever waits for an answer gets one, and is shown the room as the event leaves it. -/
theorem answers_effects (h : o.event.reply? = some requester)
    (hl : o.listener requester = .waiting) :
    (room.effects o).filterMap Effect.answer? =
      [(requester, ⟨room.verdict o, (room.meet o).snapshot⟩)] := by
  obtain ⟨⟨player, body⟩, listener, lookup⟩ := o
  simp only at hl
  have hears : listener requester ≠ .gone := by simp [hl]
  have stays : (listener requester).afterLookup ≠ .gone := by simp [hl, Listener.afterLookup]
  cases body with
  | chat | move => contradiction
  | leave reply =>
    obtain rfl : reply = some requester := h
    simp only [effects, meet, verdict, react, Event.kind, leave]
    cases room.hasMember player with
    | true => simp [answers_notify, answers_answer _ hears]
    | false => simp [answers_answer _ hears]
  | join profile reply =>
    obtain rfl : reply = some requester := h
    have later (r : Room) (ret : ResultCode) :
        (r.answer (fun t => (listener t).afterLookup) (some requester) ret).filterMap
          Effect.answer? = [(requester, ⟨ret, r.snapshot⟩)] := by
      apply answers_answer
      exact stays
    simp only [effects, meet, verdict, react, Event.kind, join, answerable, Option.all_some]
    cases room.hasMember player with
    | true => simp [answers_answer _ hears, hears]
    | false =>
      cases lookup player with
      | none => simp [hears, later]
      | some outbox => simp [hears, stays, answers_notify, later]

/-- Answers of success, and no others, come with a change of the room. -/
theorem alters_iff_ok (h : o.event.reply? = some requester) (hl : o.listener requester = .waiting) :
    o.alters room = true ↔ room.verdict o = .ok := by
  obtain ⟨⟨player, body⟩, listener, lookup⟩ := o
  cases body with
  | chat | move => contradiction
  | leave reply =>
    simp only [Occasion.alters, verdict, Event.kind]
    cases room.hasMember player <;> simp
  | join profile reply =>
    obtain rfl : reply = some requester := h
    simp only at hl
    simp only [Occasion.alters, verdict, Event.kind, admission?, Option.all_some, hl]
    cases room.hasMember player <;> cases lookup player <;> simp

theorem mem_ids_snapshot : p ∈ room.snapshot.players.map (·.id) ↔ room.hasMember p = true := by
  rw [ids_snapshot, hasMember, member?, List.mem_map]
  induction room.members with
  | nil => simp
  | cons e rest ih =>
    obtain ⟨other, m⟩ := e
    by_cases h : p = other
    · simp [h]
    · rw [List.lookup_cons, beq_false_of_ne h, ← ih]
      simp [Ne.symm h]

/-- A join or a leave whose requester waits is answered, once, with the room as the event leaves
it. A join succeeds if it makes a new member, whom the directory knows; it fails for one who is
there already, and for one whom nobody knows, who alone does not appear in the answer. A leave
succeeds if it ends a membership; either way the answer lists the other members as they were. What
the other members are told of a success is what the requester is shown. -/
theorem answers_describe_room (h : o.event.reply? = some requester)
    (hl : o.listener requester = .waiting) :
    ∃ after effects outcome,
      room.handle .standard o.listener o.lookup o.event = some (after, effects) ∧
      effects.filterMap Effect.answer? = [(requester, outcome)] ∧
      outcome.room = after.snapshot ∧
      (o.event.kind = .join →
        (outcome.ret = .ok ↔
          room.hasMember o.event.player = false ∧ (o.lookup o.event.player).isSome) ∧
        (outcome.ret = .playerAlreadyInRoom ↔ room.hasMember o.event.player = true) ∧
        (outcome.ret = .playerNotFound ↔
          room.hasMember o.event.player = false ∧ o.lookup o.event.player = none) ∧
        (o.event.player ∈ outcome.room.players.map (·.id) ↔
          outcome.ret = .ok ∨ outcome.ret = .playerAlreadyInRoom)) ∧
      (o.event.kind = .leave →
        (outcome.ret = .ok ↔ room.hasMember o.event.player = true) ∧
        (outcome.ret = .playerNotFound ↔ room.hasMember o.event.player = false) ∧
        o.event.player ∉ outcome.room.players.map (·.id) ∧
        outcome.room.players = room.snapshot.players.filter (·.id ≠ o.event.player)) ∧
      effects.filterMap Effect.post? =
        if outcome.ret = .ok then
          (room.recipients o.event.player).map fun i => (i, outcome.room.notice)
        else [] := by
  refine ⟨room.meet o, room.effects o, ⟨room.verdict o, (room.meet o).snapshot⟩,
    handle_standard room _ _ _, room.answers_effects o h hl, rfl, ?_, ?_, ?_⟩
  · obtain ⟨⟨player, body⟩, listener, lookup⟩ := o
    intro hk
    cases body with
    | chat | move | leave => contradiction
    | join profile reply =>
      obtain rfl : reply = some requester := h
      rw [mem_ids_snapshot, hasMember_meet_of_join room _ rfl hl]
      simp only [verdict, Event.kind]
      cases room.hasMember player <;> cases lookup player <;> simp
  · obtain ⟨⟨player, body⟩, listener, lookup⟩ := o
    intro hk
    cases body with
    | chat | move | join => contradiction
    | leave reply =>
      have hleft := room.hasMember_meet_of_leave ⟨⟨player, .leave reply⟩, listener, lookup⟩ rfl
      rw [mem_ids_snapshot, hleft, snapshot_erase, meet_leave]
      simp only [verdict, Event.kind]
      cases room.hasMember player <;> simp
  · rw [posts_effects]
    simp only [alters_iff_ok room o h hl]

/-- A second player comes into a room and leaves it again. -/
theorem second_visitor_answered :
    ∃ after effects outcome final farewells parting,
      ((fresh ⟨1⟩ "hall").insert ⟨"a"⟩ ⟨{}, 0⟩).handle .standard (fun _ => .waiting) visitLookup
        ⟨⟨"b"⟩, .join {} (some ())⟩ = some (after, effects) ∧
      effects.filterMap Effect.answer? = [((), outcome)] ∧ outcome.ret = .ok ∧
      outcome.room = after.snapshot ∧ ⟨"b"⟩ ∈ outcome.room.players.map (·.id) ∧
      effects.filterMap Effect.post? = [(0, outcome.room.notice)] ∧
      after.handle .standard (fun _ => .waiting) visitLookup ⟨⟨"b"⟩, .leave (some ())⟩ =
        some (final, farewells) ∧
      farewells.filterMap Effect.answer? = [((), parting)] ∧ parting.ret = .ok ∧
      parting.room = final.snapshot ∧
      parting.room.players = outcome.room.players.filter (·.id ≠ ⟨"b"⟩) ∧
      farewells.filterMap Effect.post? =
        (after.recipients ⟨"b"⟩).map fun i => (i, parting.room.notice) := by
  obtain ⟨after, effects, outcome, hh, ha, hroom, hjoin, -, hposts⟩ :=
    answers_describe_room ((fresh ⟨1⟩ "hall").insert ⟨"a"⟩ ⟨{}, 0⟩)
      ⟨⟨⟨"b"⟩, .join {} (some ())⟩, fun _ => .waiting, visitLookup⟩ rfl rfl
  obtain ⟨hok, -, -, hlists⟩ := hjoin rfl
  have hret : outcome.ret = .ok := hok.mpr (by decide)
  rw [if_pos hret] at hposts
  have hlisted : ⟨"b"⟩ ∈ outcome.room.players.map (·.id) := hlists.mpr (.inl hret)
  have hmember : after.hasMember ⟨"b"⟩ = true := by
    rwa [hroom, mem_ids_snapshot] at hlisted
  obtain ⟨final, farewells, parting, hh', ha', hroom', -, hleave, hposts'⟩ :=
    answers_describe_room after ⟨⟨⟨"b"⟩, .leave (some ())⟩, fun _ => .waiting, visitLookup⟩ rfl rfl
  obtain ⟨hok', -, -, hrest⟩ := hleave rfl
  have hret' : parting.ret = .ok := hok'.mpr hmember
  rw [if_pos hret'] at hposts'
  rw [← hroom] at hrest
  exact ⟨after, effects, outcome, final, farewells, parting, hh, ha, hret, hroom, hlisted, hposts,
    hh', ha', hret', hroom', hrest, hposts'⟩

end Room

namespace Hub
variable {h : Hub}

/-- A room of the server that declines a join stays as it is, and so do all others and everybody's
outbox. -/
theorem handleEvent_of_declined (hs : h.reactions = .standard) {r : Nat} {cell : RoomCell}
    (hc : h.rooms[r]? = some cell) (listener : Ticket → Listener) {p : PlayerId}
    {profile : Profile} {reply : Option Ticket}
    (hd : Occasion.Declined cell.room ⟨⟨p, .join profile reply⟩, listener, h.player?⟩) :
    (h.handleEvent listener r ⟨p, .join profile reply⟩).rooms = h.rooms ∧
      (h.handleEvent listener r ⟨p, .join profile reply⟩).outboxes = h.outboxes := by
  have ha := Room.not_alters_of_declined cell.room _ rfl hd
  have hb := beside_handleEvent hs hc listener ⟨p, .join profile reply⟩
  constructor
  · rw [hb.rooms, Room.meet_of_not_alters _ _ ha]
    apply Array.ext_getElem?
    intro i
    rw [getElem?_setRoom hc]
    split
    · rename_i hi
      rw [hi, hc]
    · rfl
  · rw [outboxes_handleEvent hs hc, Room.deliverAll_of_not_alters _ _ _ ha]

end Hub

end Lobby
