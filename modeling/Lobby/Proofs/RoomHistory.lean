import Mathlib.Data.List.Induction
import Lobby.Proofs.RoomMembers

/-! What a room knows of a player is decided by that player's own events, in the order in which it
met them, and by what it found when it met them. -/
namespace Lobby
variable {ρ : Type}

/-- An event as a room meets it: how its requester stands then, and whom the directory knows. -/
structure Occasion (ρ : Type) where
  event : Event ρ
  listener : ρ → Listener
  lookup : PlayerId → Option Nat

def Room.after? (room : Room) (history : List (Occasion ρ)) : Option Room :=
  history.foldlM
    (fun room o => (room.handle .standard o.listener o.lookup o.event).map Prod.fst) room

/-- A join that a room grants: the player is no member yet and the directory knows it, and whoever
waits for the answer gets it. -/
def Occasion.Admits (room : Room) (o : Occasion ρ) (player : PlayerId) (profile : Profile) : Prop :=
  ∃ reply, o.event = ⟨player, .join profile reply⟩ ∧ room.hasMember player = false ∧
    (o.lookup player).isSome ∧ ∀ requester, reply = some requester → o.listener requester = .waiting

def Occasion.IsLeave (o : Occasion ρ) (player : PlayerId) : Prop :=
  ∃ reply, o.event = ⟨player, .leave reply⟩

def Occasion.move? (player : PlayerId) (o : Occasion ρ) : Option Profile :=
  match o.event with
  | ⟨q, .move profile⟩ => if q = player then some profile else none
  | _ => none

/-- A player's last profile in some events, if a join with another one comes before them. -/
def lastProfile (player : PlayerId) (joined : Profile) (history : List (Occasion ρ)) : Profile :=
  (history.filterMap (Occasion.move? player)).getLast?.getD joined

def EventBody.map {σ : Type} (f : ρ → σ) : EventBody ρ → EventBody σ
  | join profile reply => .join profile (reply.map f)
  | leave reply => .leave (reply.map f)
  | chat text => .chat text
  | move profile => .move profile

/-- All that matters of an event for what becomes of its player: what it asks for, how its
requester stands, and whether the directory knows the player. -/
def Occasion.gist (o : Occasion ρ) : EventBody Listener × Bool :=
  (o.event.body.map o.listener, (o.lookup o.event.player).isSome)

def trace (player : PlayerId) (history : List (Occasion ρ)) : List (EventBody Listener × Bool) :=
  (history.filter (·.event.player = player)).map Occasion.gist

def nextProfile (current : Option Profile) : EventBody Listener × Bool → Option Profile
  | (.join profile reply, known) =>
    if current.isNone && reply.all (· = .waiting) && known then some profile else current
  | (.leave _, _) => none
  | (.chat _, _) => current
  | (.move profile, _) => current.map fun _ => profile

namespace Room

def meet (room : Room) (o : Occasion ρ) : Room :=
  (room.react o.event.kind o.listener o.lookup o.event).1

/-- No event kills a room that reacts as is usual. -/
theorem after?_eq (room : Room) (history : List (Occasion ρ)) :
    room.after? history = some (history.foldl meet room) := by
  induction history generalizing room with
  | nil => rfl
  | cons o rest ih =>
    rw [after?, List.foldlM_cons, handle_standard]
    exact ih _

private theorem profile?_erase (room : Room) (player q : PlayerId) :
    (room.erase player).profile? q = if q = player then none else room.profile? q := by
  by_cases h : q = player <;> simp [profile?, h]

private theorem profile?_insert (room : Room) (player q : PlayerId) (m : Member) :
    (room.insert player m).profile? q =
      if q = player then some m.profile else room.profile? q := by
  by_cases h : q = player <;> simp [profile?, h]

private theorem admission?_isSome (room : Room) (listener : ρ → Listener)
    (lookup : PlayerId → Option Nat) (player : PlayerId) (reply : Option ρ) :
    (room.admission? listener lookup player reply).isSome =
      ((room.profile? player).isNone && (reply.map listener).all (· = .waiting) &&
        (lookup player).isSome) := by
  rw [admission?, hasMember_eq, Option.all_map]
  cases room.profile? player with
  | some _ => rfl
  | none =>
    simp only [Option.isSome_none, Bool.false_eq_true, if_false, Option.isNone_none, Bool.true_and]
    split
    · rename_i hr
      simpa using fun _ => hr
    · rename_i hr
      simpa using fun hr' => absurd hr' hr

theorem meet_join (room : Room) (listener : ρ → Listener)
    (lookup : PlayerId → Option Nat) (player : PlayerId) (profile : Profile) (reply : Option ρ) :
    room.meet ⟨⟨player, .join profile reply⟩, listener, lookup⟩ =
      match room.admission? listener lookup player reply with
      | some outbox => room.insert player ⟨profile, outbox⟩
      | none => room :=
  join_room room listener lookup player profile reply

theorem meet_leave (room : Room) (listener : ρ → Listener)
    (lookup : PlayerId → Option Nat) (player : PlayerId) (reply : Option ρ) :
    room.meet ⟨⟨player, .leave reply⟩, listener, lookup⟩ = room.erase player :=
  leave_room room listener player reply

theorem meet_move (room : Room) (listener : ρ → Listener)
    (lookup : PlayerId → Option Nat) (player : PlayerId) (profile : Profile) :
    room.meet ⟨⟨player, .move profile⟩, listener, lookup⟩ =
      match room.member? player with
      | some m => room.insert player { m with profile }
      | none => room :=
  move_room (ρ := ρ) room player profile

theorem profile?_meet (room : Room) (o : Occasion ρ) (q : PlayerId) :
    (room.meet o).profile? q =
      if q = o.event.player then nextProfile (room.profile? q) o.gist else room.profile? q := by
  obtain ⟨⟨player, body⟩, listener, lookup⟩ := o
  cases body with
  | join profile reply =>
    have hs := admission?_isSome room listener lookup player reply
    rw [meet_join]
    cases ha : room.admission? listener lookup player reply with
    | some outbox =>
      rw [ha] at hs
      simp only [profile?_insert]
      by_cases hq : q = player
      · subst hq
        simp [Occasion.gist, EventBody.map, nextProfile, ← hs]
      · simp [hq]
    | none =>
      rw [ha] at hs
      by_cases hq : q = player
      · subst hq
        simp [Occasion.gist, EventBody.map, nextProfile, ← hs]
      · simp [hq]
  | leave reply =>
    rw [meet_leave, profile?_erase]
    rfl
  | chat text => exact (ite_self _).symm
  | move profile =>
    rw [meet_move]
    cases hm : room.member? player with
    | some m =>
      simp only [profile?_insert]
      by_cases hq : q = player
      · subst hq
        simp [Occasion.gist, EventBody.map, nextProfile, profile?, hm]
      · simp [hq]
    | none =>
      by_cases hq : q = player
      · subst hq
        simp [Occasion.gist, EventBody.map, nextProfile, profile?, hm]
      · simp [hq]

/-- An event does nothing to the members, or puts its player in, or takes it off. -/
theorem meet_cases (room : Room) (o : Occasion ρ) :
    room.meet o = room ∨ (∃ m, room.meet o = room.insert o.event.player m) ∨
      room.meet o = room.erase o.event.player := by
  obtain ⟨⟨player, body⟩, listener, lookup⟩ := o
  cases body with
  | join profile reply =>
    rw [meet_join]
    cases room.admission? listener lookup player reply with
    | some outbox => exact .inr (.inl ⟨_, rfl⟩)
    | none => exact .inl rfl
  | leave reply => exact .inr (.inr (meet_leave room listener lookup player reply))
  | chat text => exact .inl rfl
  | move profile =>
    rw [meet_move]
    cases room.member? player with
    | some m => exact .inr (.inl ⟨_, rfl⟩)
    | none => exact .inl rfl

/-- What one event keeps of a room: its name, and the order of its members. -/
theorem meet_keeps (room : Room) (o : Occasion ρ) :
    (room.meet o).id = room.id ∧ (room.meet o).name = room.name ∧
      (room.Ordered → (room.meet o).Ordered) := by
  rcases meet_cases room o with h | ⟨m, h⟩ | h
  · rw [h]
    exact ⟨rfl, rfl, fun ho => ho⟩
  · rw [h]
    exact ⟨rfl, rfl, fun ho => ho.insert _ m⟩
  · rw [h]
    exact ⟨rfl, rfl, fun ho => ho.erase _⟩

def fresh (id : RoomId) (name : String) : Room := { id, name }

structure Shaped (room : Room) (id : RoomId) (name : String) (history : List (Occasion ρ)) :
    Prop where
  id_eq : room.id = id
  name_eq : room.name = name
  ordered : room.Ordered
  profile? (player : PlayerId) :
    room.profile? player = (trace player history).foldl nextProfile none

theorem shaped (id : RoomId) (name : String) (history : List (Occasion ρ)) :
    (history.foldl meet (fresh id name)).Shaped id name history := by
  induction history using List.reverseRecOn with
  | nil => exact ⟨rfl, rfl, List.Pairwise.nil, fun _ => rfl⟩
  | append_singleton history o ih =>
    rw [List.foldl_concat]
    obtain ⟨hid, hname, ho⟩ := meet_keeps (history.foldl meet (fresh id name)) o
    refine ⟨hid.trans ih.id_eq, hname.trans ih.name_eq, ho ih.ordered, ?_⟩
    intro player
    rw [profile?_meet, ih.profile?, trace, trace, List.filter_append, List.map_append,
      List.foldl_append]
    by_cases hp : o.event.player = player
    · simp [hp]
    · simp [hp, Ne.symm hp]

private theorem profile?_meet_of_leave {room : Room} {o : Occasion ρ} {player : PlayerId}
    (h : o.IsLeave player) : (room.meet o).profile? player = none := by
  obtain ⟨reply, he⟩ := h
  simp [profile?_meet, he, Occasion.gist, EventBody.map, nextProfile]

private theorem profile?_meet_of_member {room : Room} {o : Occasion ρ} {player : PlayerId}
    {profile : Profile} (hp : room.profile? player = some profile) (h : ¬ o.IsLeave player) :
    (room.meet o).profile? player = some ((o.move? player).getD profile) := by
  obtain ⟨⟨q, body⟩, listener, lookup⟩ := o
  rw [profile?_meet, hp]
  by_cases hq : player = q
  · subst hq
    cases body with
    | join | chat | move =>
      simp [Occasion.gist, EventBody.map, nextProfile, Occasion.move?]
    | leave reply => exact absurd ⟨reply, rfl⟩ h
  · cases body <;> simp [hq, Ne.symm hq, Occasion.move?]

private theorem profile?_meet_of_stranger {room : Room} {o : Occasion ρ} {player : PlayerId}
    (hp : room.profile? player = none) (profile : Profile) :
    (room.meet o).profile? player = some profile ↔ o.Admits room player profile := by
  have hm : room.hasMember player = false := by simp [hasMember_eq, hp]
  obtain ⟨⟨q, body⟩, listener, lookup⟩ := o
  rw [profile?_meet, hp, Occasion.Admits]
  by_cases hq : player = q
  · subst hq
    cases body with
    | join joined reply =>
      cases reply <;>
        simp [Occasion.gist, EventBody.map, nextProfile, hm, and_comm, and_assoc, and_left_comm]
    | leave | chat | move => simp [Occasion.gist, EventBody.map, nextProfile]
  · simp [hq, Ne.symm hq]

private theorem lastProfile_concat (player : PlayerId) (joined : Profile)
    (history : List (Occasion ρ)) (o : Occasion ρ) :
    lastProfile player joined (history ++ [o]) =
      (o.move? player).getD (lastProfile player joined history) := by
  rw [lastProfile, lastProfile, List.filterMap_append]
  cases h : o.move? player <;> simp [h]

/-- The last time a player was let in during some events, no leave of it came after; and this is
its profile since. -/
def Stays (room : Room) (history : List (Occasion ρ)) (player : PlayerId) (profile : Profile) :
    Prop :=
  ∃ before o after room₀ joined, history = before ++ o :: after ∧
    room.after? before = some room₀ ∧ o.Admits room₀ player joined ∧
    (∀ later ∈ after, ¬ later.IsLeave player) ∧ profile = lastProfile player joined after

private theorem profile?_iff_stays (room : Room) (h : ∀ player, room.profile? player = none)
    (history : List (Occasion ρ)) (player : PlayerId) (profile : Profile) :
    (history.foldl meet room).profile? player = some profile ↔
      room.Stays history player profile := by
  induction history using List.reverseRecOn generalizing profile with
  | nil => simp [h, Stays]
  | append_singleton history o ih =>
    rw [List.foldl_concat]
    constructor
    · intro hp
      cases hc : (history.foldl meet room).profile? player with
      | none =>
        -- the last event has let the player in
        have ha := (profile?_meet_of_stranger hc profile).mp hp
        exact ⟨history, o, [], _, profile, rfl, after?_eq room history, ha, by simp, rfl⟩
      | some current =>
        have hl : ¬ o.IsLeave player := by
          intro hl
          rw [profile?_meet_of_leave hl] at hp
          contradiction
        obtain ⟨before, o', after, room₀, joined, rfl, hb, ha, hn, rfl⟩ := (ih current).mp hc
        rw [profile?_meet_of_member hc hl] at hp
        refine ⟨before, o', after ++ [o], room₀, joined, by simp, hb, ha, ?_, ?_⟩
        · simpa [or_imp, forall_and] using ⟨hn, hl⟩
        · rw [lastProfile_concat]
          exact (Option.some.inj hp).symm
    · rintro ⟨before, o', after, room₀, joined, he, hb, ha, hn, rfl⟩
      rcases List.eq_nil_or_concat after with rfl | ⟨after, last, rfl⟩
      · obtain ⟨rfl, ho⟩ := List.append_inj' he rfl
        obtain rfl := (List.cons.inj ho).1
        rw [after?_eq, Option.some.injEq] at hb
        subst hb
        have hc : (history.foldl meet room).profile? player = none := by
          obtain ⟨_, _, hm, _⟩ := ha
          simpa [hasMember_eq] using hm
        exact (profile?_meet_of_stranger hc joined).mpr ha
      · rw [List.concat_eq_append] at he hn ⊢
        rw [← List.cons_append, ← List.append_assoc] at he
        obtain ⟨rfl, ho⟩ := List.append_inj' he rfl
        obtain rfl := (List.cons.inj ho).1
        have hn' : (∀ later ∈ after, ¬ later.IsLeave player) ∧ ¬ o.IsLeave player := by
          simpa [or_imp, forall_and] using hn
        have hc := (ih _).mpr ⟨before, o', after, room₀, joined, rfl, hb, ha, hn'.1, rfl⟩
        rw [profile?_meet_of_member hc hn'.2, lastProfile_concat]

/-- A room's state is decided by what it met of each player. Exactly those are members who stay
after their last admission, under the name and position of their last move since; the snapshot
lists them in ascending order of their octets, and the order in which the events of different
players came leaves no trace in it. -/
theorem snapshot_of_history (id : RoomId) (name : String) (history : List (Occasion ρ)) :
    ∃ room, (fresh id name).after? history = some room ∧
      room.snapshot.id = id ∧ room.snapshot.name = name ∧
      (∀ player, room.hasMember player = true ↔
        ∃ profile, (fresh id name).Stays history player profile) ∧
      (∀ info, info ∈ room.snapshot.players ↔
        ∃ profile, (fresh id name).Stays history info.id profile ∧
          info = listing info.id profile) ∧
      (room.snapshot.players.map (·.id)).Pairwise PlayerId.Before ∧
      (∀ other : List (Occasion ρ), (∀ player, trace player other = trace player history) →
        ∃ room', (fresh id name).after? other = some room' ∧ room'.snapshot = room.snapshot) := by
  have hs := shaped id name history
  have stays := profile?_iff_stays (fresh id name) (fun _ => rfl) history
  refine ⟨_, after?_eq _ _, hs.id_eq, hs.name_eq, ?_, ?_, hs.ordered.snapshot, ?_⟩
  · intro player
    simp only [hasMember_eq, Option.isSome_iff_exists, stays]
  · intro info
    simp only [hs.ordered.mem_snapshot_iff, stays]
  · intro other hother
    have ho := shaped id name other
    refine ⟨_, after?_eq _ _, snapshot_congr hs.ordered ho.ordered ?_ ?_ ?_⟩
    · rw [ho.id_eq, hs.id_eq]
    · rw [ho.name_eq, hs.name_eq]
    · intro player
      rw [ho.profile?, hs.profile?, hother]

end Room

end Lobby
