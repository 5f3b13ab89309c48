import Lobby.Proofs.RoomNotices

/-! What a member makes of the answer to its join and of the notices since: its view of the room
is up to date, but for its own entry. -/
namespace Lobby

structure RoomSnapshot.AgreeBut (p : PlayerId) (v w : RoomSnapshot) : Prop where
  id : v.id = w.id
  name : v.name = w.name
  ids : v.players.map (·.id) = w.players.map (·.id)
  others : v.players.filter (·.id ≠ p) = w.players.filter (·.id ≠ p)

theorem RoomSnapshot.AgreeBut.refl (p : PlayerId) (v : RoomSnapshot) : v.AgreeBut p v :=
  ⟨rfl, rfl, rfl, rfl⟩

theorem RoomSnapshot.AgreeBut.trans {p : PlayerId} {u v w : RoomSnapshot} (h : u.AgreeBut p v)
    (h' : v.AgreeBut p w) : u.AgreeBut p w :=
  ⟨h.id.trans h'.id, h.name.trans h'.name, h.ids.trans h'.ids, h.others.trans h'.others⟩

variable {ρ : Type}

def Episode.seen (e : Episode ρ) (i : Nat) : List RoomSnapshot :=
  (e.accepted i).map fun _ => e.after.snapshot

namespace Room

section
variable {room : Room} {o : Occasion ρ} {p : PlayerId} {m : Member}

theorem member?_meet_of_other (h : o.event.player ≠ p) :
    (room.meet o).member? p = room.member? p := by
  have herase := congrArg (member? · p) (room.erase_meet o)
  simpa [Ne.symm h] using herase

theorem meet_of_member_join {profile : Profile} {reply : Option ρ}
    (h : o.event = ⟨p, .join profile reply⟩) (hm : room.hasMember p = true) :
    room.meet o = room := by
  obtain ⟨event, listener, lookup⟩ := o
  subst h
  rw [meet_join, admission?, if_pos hm]

/-- A member that does not leave stays, under the same outbox. -/
theorem member?_meet_of_stays (hm : room.member? p = some m) (h : ¬ o.IsLeave p) :
    ∃ profile, (room.meet o).member? p = some { m with profile } := by
  by_cases hp : o.event.player = p
  · obtain ⟨⟨player, body⟩, listener, lookup⟩ := o
    subst hp
    cases body with
    | join profile reply =>
      rw [meet_of_member_join rfl (by simp [hasMember, hm])]
      exact ⟨m.profile, hm⟩
    | leave reply => exact absurd ⟨reply, rfl⟩ h
    | chat => exact ⟨m.profile, hm⟩
    | move profile =>
      rw [meet_move, hm]
      exact ⟨profile, by simp⟩
  · rw [member?_meet_of_other hp]
    exact ⟨m.profile, hm⟩

theorem ids_snapshot (room : Room) : room.snapshot.players.map (·.id) = room.members.map (·.1) := by
  rw [snapshot, List.map_map]
  rfl

theorem snapshot_erase (room : Room) (p : PlayerId) :
    room.snapshot.players.filter (·.id ≠ p) = (room.erase p).snapshot.players := by
  rw [snapshot, List.filter_map]
  rfl

/-- A member's own event that is not its leave changes at most its own entry. -/
theorem agreeBut_meet (hord : room.Ordered) (hm : room.member? p = some m) (h : ¬ o.IsLeave p)
    (hp : o.event.player = p) : room.snapshot.AgreeBut p (room.meet o).snapshot := by
  have hmem : room.hasMember p = true := by simp [hasMember, hm]
  obtain ⟨⟨player, body⟩, listener, lookup⟩ := o
  subst hp
  cases body with
  | join profile reply =>
    rw [meet_of_member_join rfl hmem]
    exact .refl _ _
  | leave reply => exact absurd ⟨reply, rfl⟩ h
  | chat => exact .refl _ _
  | move profile =>
    rw [meet_move, hm]
    refine ⟨rfl, rfl, ?_, ?_⟩
    · rw [ids_snapshot, ids_snapshot]
      exact (hord.map_insert hmem { m with profile }).symm
    · rw [snapshot_erase, snapshot_erase, erase_insert]

/-- Whoever stays a member is told of an event, or its view of the room is good still. -/
theorem agreeBut_or_told (hord : room.Ordered) (hm : room.member? p = some m) (h : ¬ o.IsLeave p) :
    room.snapshot.AgreeBut p (room.meet o).snapshot ∨
      Effect.offersTo (room.effects o) m.outbox ≠ [] := by
  by_cases hp : o.event.player = p
  · exact .inl (agreeBut_meet hord hm h hp)
  · by_cases ha : o.alters room = false
    · rw [room.meet_of_not_alters o ha]
      exact .inl (.refl _ _)
    · rw [Bool.not_eq_false] at ha
      have hbox : m.outbox ∈ room.recipients o.event.player := by
        refine List.mem_map.mpr ⟨(p, m), ?_, rfl⟩
        exact List.mem_filter.mpr ⟨(hord.mem_iff p m).mpr hm, by simpa using Ne.symm hp⟩
      refine .inr ?_
      rw [Effect.offersTo, posts_effects, if_pos ha]
      simpa using hbox

/-- A join that is answered with success lets the player in, and shows it the room as it is then. -/
theorem outcome_of_granted {profile : Profile} {requester : ρ} {outcome : Outcome}
    (h : o.event = ⟨p, .join profile (some requester)⟩)
    (ha : .answer requester outcome ∈ room.effects o) (hok : outcome.ret = .ok) :
    ∃ outbox, o.lookup p = some outbox ∧ (room.meet o).member? p = some ⟨profile, outbox⟩ ∧
      outcome.room = (room.meet o).snapshot := by
  obtain ⟨event, listener, lookup⟩ := o
  subst h
  simp only [effects, react, Event.kind] at ha
  rcases room.join_cases listener lookup p profile (some requester) with
    ⟨outbox, hadm, hj⟩ | ⟨-, answers, hj, hs⟩
  · refine ⟨outbox, lookup_of_admission hadm, ?_, ?_⟩
    · simp [meet_join, hadm]
    · rw [meet_join, hadm]
      rw [hj] at ha
      rcases List.mem_append.mp ha with ha | ha
      · simp only [answer] at ha
        split at ha
        · contradiction
        · rw [List.mem_singleton] at ha
          cases ha
          rfl
      · exact absurd ha (not_mem_notify _ _ _ _)
  · rw [hj] at ha
    rcases hs with rfl | ⟨heard, ret, hret, rfl⟩
    · contradiction
    · simp only [answer] at ha
      split at ha
      · contradiction
      · rw [List.mem_singleton] at ha
        cases ha
        exact absurd hok hret

end

theorem Plays.split {room last : Room} {before after : List (Episode ρ)}
    (h : room.Plays (before ++ after) last) :
    ∃ middle : Room, room.Plays before middle ∧ middle.Plays after last := by
  induction before generalizing room with
  | nil => exact ⟨room, .nil room, h⟩
  | cons e rest ih =>
    cases h with
    | cons handled plays =>
      obtain ⟨middle, hrest, hafter⟩ := ih plays
      exact ⟨middle, .cons handled hrest, hafter⟩

/-- The notices that an outbox takes carry what the room looks like at their events. -/
theorem accepted_eq_seen {room : Room} (scene : Scene ρ) (i : Nat) :
    (room.episode scene).accepted i =
      ((room.episode scene).seen i).map RoomSnapshot.notice := by
  have hoffers : ∀ message ∈ Effect.offersTo (room.episode scene).effects i,
      message = (room.episode scene).after.snapshot.notice := by
    intro message hm
    obtain ⟨offer, ho, rfl⟩ := List.mem_map.mp hm
    have hposts := (List.mem_filter.mp ho).1
    change offer ∈ (room.effects scene.occasion).filterMap Effect.post? at hposts
    rw [posts_effects] at hposts
    split at hposts
    · obtain ⟨j, -, rfl⟩ := List.mem_map.mp hposts
      rfl
    · contradiction
  have haccepted : ∀ message ∈ (room.episode scene).accepted i,
      message = (room.episode scene).after.snapshot.notice := by
    intro message hm
    rw [Episode.accepted] at hm
    cases hb : (room.episode scene).boxes[i]? with
    | none =>
      rw [hb] at hm
      contradiction
    | some box =>
      rw [hb] at hm
      exact hoffers message ((box.taken_sublist _).subset hm)
  calc (room.episode scene).accepted i
      = ((room.episode scene).accepted i).map fun message => message := (List.map_id' _).symm
    _ = ((room.episode scene).accepted i).map fun _ =>
          (room.episode scene).after.snapshot.notice := List.map_congr_left haccepted
    _ = ((room.episode scene).seen i).map RoomSnapshot.notice := by
          rw [Episode.seen, List.map_map]
          rfl

/-- The latest view after an event: the room as it is then, if an outbox takes a notice of it. -/
theorem getLast?_seen (e : Episode ρ) (i : Nat) (v : RoomSnapshot) :
    (e.seen i).getLast?.getD v = if e.accepted i = [] then v else e.after.snapshot := by
  rw [Episode.seen, List.getLast?_map]
  split
  · rename_i h
    rw [h]
    rfl
  · rename_i h
    rw [List.getLast?_eq_some_getLast h]
    rfl

/-- A good view stays good while its player stays and no notice to its outbox is refused. -/
theorem agreeBut_plays {room last : Room} {episodes : List (Episode ρ)} {p : PlayerId} {i : Nat}
    {v : RoomSnapshot} (h : room.Plays episodes last) (hord : room.Ordered)
    (hm : ∃ profile, room.member? p = some ⟨profile, i⟩) (hv : v.AgreeBut p room.snapshot)
    (hstays : ∀ e ∈ episodes, ¬ e.occasion.IsLeave p)
    (htaken : ∀ e ∈ episodes, e.accepted i = Effect.offersTo e.effects i) :
    last.hasMember p = true ∧
      ((episodes.flatMap (Episode.seen · i)).getLast?.getD v).AgreeBut p last.snapshot := by
  induction episodes generalizing room v with
  | nil =>
    cases h
    obtain ⟨profile, hm⟩ := hm
    exact ⟨by simp [hasMember, hm], hv⟩
  | cons e rest ih =>
    obtain ⟨profile, hm⟩ := hm
    obtain ⟨he, hrest⟩ := h.cases
    have hstay := hstays e List.mem_cons_self
    have hafter : room.meet e.occasion = e.after := (congrArg Episode.after he).symm
    have heffects : room.effects e.occasion = e.effects := (congrArg Episode.effects he).symm
    have hnext : ((e.seen i).getLast?.getD v).AgreeBut p (room.meet e.occasion).snapshot := by
      rw [getLast?_seen, htaken e List.mem_cons_self, hafter]
      split
      · rename_i hnone
        rcases agreeBut_or_told hord hm hstay with hgood | htold
        · exact hv.trans (hafter ▸ hgood)
        · exact absurd (heffects ▸ hnone) htold
      · exact .refl p _
    have hlast := ih hrest ((meet_keeps room e.occasion).2.2 hord)
      (member?_meet_of_stays hm hstay) hnext
      (fun e' he' => hstays e' (List.mem_cons_of_mem _ he'))
      (fun e' he' => htaken e' (List.mem_cons_of_mem _ he'))
    refine ⟨hlast.1, ?_⟩
    rw [List.flatMap_cons, List.getLast?_append]
    cases hviews : (rest.flatMap (Episode.seen · i)).getLast? with
    | none => simpa [hviews] using hlast.2
    | some view => simpa [hviews] using hlast.2

/-- A member's view converges to the room. Whoever has joined with an answer and stayed since, and
whose outbox has refused no notice in that time, has in the latest of the answer and the notices
the room as it is, but for its own entry. -/
theorem views_converge {id : RoomId} {name : String} {before after : List (Episode ρ)}
    {e : Episode ρ} {last : Room} {p : PlayerId} {profile : Profile} {requester : ρ}
    {outcome : Outcome} {i : Nat} (h : (fresh id name).Plays (before ++ e :: after) last)
    (hjoin : e.occasion.event = ⟨p, .join profile (some requester)⟩)
    (hanswer : .answer requester outcome ∈ e.effects) (hok : outcome.ret = .ok)
    (hbox : e.occasion.lookup p = some i)
    (hstays : ∀ later ∈ after, ¬ later.occasion.IsLeave p)
    (htaken : ∀ later ∈ after, later.accepted i = Effect.offersTo later.effects i) :
    last.hasMember p = true ∧
      after.flatMap (Episode.accepted · i) =
        (after.flatMap (Episode.seen · i)).map RoomSnapshot.notice ∧
      ((after.flatMap (Episode.seen · i)).getLast?.getD outcome.room).AgreeBut p last.snapshot := by
  obtain ⟨room, hbefore, hplays⟩ := h.split
  obtain ⟨hord, -⟩ := hbefore.each (P := Ordered) (Q := fun _ => True)
    (fun room o hr _ => (meet_keeps room o).2.2 hr) (fun _ _ => trivial) List.Pairwise.nil
  obtain ⟨he, hafter⟩ := hplays.cases
  have heffects : e.effects = room.effects e.occasion := congrArg Episode.effects he
  rw [heffects] at hanswer
  obtain ⟨outbox, hlookup, hmember, hview⟩ := outcome_of_granted hjoin hanswer hok
  obtain rfl := Option.some.inj (hlookup.symm.trans hbox)
  have hord' := (meet_keeps room e.occasion).2.2 hord
  have hgood : outcome.room.AgreeBut p (room.meet e.occasion).snapshot := by
    rw [hview]
    exact .refl p _
  obtain ⟨hlast, hagree⟩ :=
    agreeBut_plays hafter hord' ⟨profile, hmember⟩ hgood hstays htaken
  refine ⟨hlast, ?_, hagree⟩
  obtain ⟨-, heach⟩ := hafter.each (P := fun _ => True) (Q := fun _ => True)
    (fun _ _ _ _ => trivial) (fun _ _ => trivial) trivial
  rw [List.map_flatMap]
  apply List.flatMap_congr
  intro later hl
  rw [(heach later hl).2]
  exact accepted_eq_seen later.toScene outbox

/-- One player comes in and is answered, another comes in and moves, and the first moves too. -/
def encounter : List (Scene Unit) :=
  let boxes : Outboxes := #[.ofCapacity "a" 2, .ofCapacity "b" 2]
  let events : List (Event Unit) :=
    [⟨⟨"a"⟩, .join {} (some ())⟩, ⟨⟨"b"⟩, .join {} none⟩, ⟨⟨"b"⟩, .move { name := "B" }⟩,
      ⟨⟨"a"⟩, .move { name := "A" }⟩]
  events.map fun e => ⟨⟨e, fun _ => .waiting, visitLookup⟩, boxes⟩

theorem encounter_converges : ∃ (e : Episode Unit) (after : List (Episode Unit)) (last : Room)
    (outcome : Outcome), (fresh ⟨1⟩ "hall").Plays (e :: after) last ∧
      .answer () outcome ∈ e.effects ∧ outcome.ret = .ok ∧
      (∀ later ∈ after, later.accepted 0 = Effect.offersTo later.effects 0) ∧
      (after.flatMap (Episode.seen · 0)).length = 2 ∧
      ((after.flatMap (Episode.seen · 0)).getLast?.getD outcome.room).AgreeBut ⟨"a"⟩
        last.snapshot := by
  have hplays : (fresh ⟨1⟩ "hall").Plays ([] ++ (fresh ⟨1⟩ "hall").play encounter) _ :=
    (fresh ⟨1⟩ "hall").plays_play encounter
  have hstays : ∀ later ∈ ((fresh ⟨1⟩ "hall").play encounter).tail,
      ¬ later.occasion.IsLeave ⟨"a"⟩ := by
    rintro later hl ⟨reply, he⟩
    have hkind : later.occasion.event.kind = .leave := by rw [he]; rfl
    have hnone : ∀ later ∈ ((fresh ⟨1⟩ "hall").play encounter).tail,
        later.occasion.event.kind ≠ .leave := by decide +kernel
    exact hnone later hl hkind
  have htaken : ∀ later ∈ ((fresh ⟨1⟩ "hall").play encounter).tail,
      later.accepted 0 = Effect.offersTo later.effects 0 := by decide +kernel
  have hseen :
      (((fresh ⟨1⟩ "hall").play encounter).tail.flatMap (Episode.seen · 0)).length = 2 := by
    decide +kernel
  refine ⟨_, _, _, _, hplays, List.mem_cons_self, rfl, htaken, hseen, ?_⟩
  exact (views_converge hplays rfl List.mem_cons_self rfl rfl hstays htaken).2.2

end Room

end Lobby
