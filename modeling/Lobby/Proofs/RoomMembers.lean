import Mathlib.Data.List.Sort
import Mathlib.Data.List.Nodup
import Lobby.Proofs.IdentityOrder
import Lobby.Room.Basic

/-! The members of a room as a map from identities, and the snapshot that lists them. -/
namespace Lobby.Room

private theorem lookup_cons (player q : PlayerId) (m : Member) (rest : List (PlayerId × Member)) :
    ((player, m) :: rest).lookup q = if q = player then some m else rest.lookup q := by
  by_cases h : q = player
  · simp [h]
  · rw [List.lookup_cons, beq_false_of_ne h, if_neg h]

theorem lookup_insertMember (player q : PlayerId) (m : Member)
    (members : List (PlayerId × Member)) :
    (insertMember player m members).lookup q =
      if q = player then some m else members.lookup q := by
  induction members with
  | nil => simp [insertMember, lookup_cons]
  | cons e rest ih =>
    obtain ⟨other, n⟩ := e
    rw [insertMember]
    cases hc : player.compare other with
    | lt => simp only [lookup_cons]
    | eq =>
      obtain rfl := (PlayerId.compare_eq_iff _ _).mp hc
      simp only [lookup_cons]
      split <;> rfl
    | gt =>
      have hne : player ≠ other := ((PlayerId.compare_gt_iff _ _).mp hc).ne.symm
      simp only [lookup_cons, ih]
      by_cases h : q = player
      · subst h
        simp [hne]
      · simp [h]

@[simp] theorem member?_insert (room : Room) (player q : PlayerId) (m : Member) :
    (room.insert player m).member? q = if q = player then some m else room.member? q :=
  lookup_insertMember player q m room.members

@[simp] theorem member?_erase (room : Room) (player q : PlayerId) :
    (room.erase player).member? q = if q = player then none else room.member? q := by
  obtain ⟨id, name, members⟩ := room
  simp only [erase, member?]
  induction members with
  | nil => simp
  | cons e rest ih =>
    obtain ⟨other, n⟩ := e
    rw [List.filter_cons, lookup_cons]
    by_cases ho : other = player
    · subst ho
      simp only [ne_eq, not_true, decide_false, Bool.false_eq_true, if_false]
      by_cases h : q = other
      · simpa [h] using ih
      · simpa [h] using ih
    · simp only [ne_eq, ho, not_false_eq_true, decide_true, if_true, lookup_cons]
      by_cases h : q = other
      · simp [h, ho]
      · simpa [h] using ih

def Ordered (room : Room) : Prop :=
  room.members.Pairwise fun a b => a.1.Before b.1

theorem mem_insertMember {player : PlayerId} {m : Member} {e : PlayerId × Member}
    {members : List (PlayerId × Member)} (h : e ∈ insertMember player m members) :
    e = (player, m) ∨ e ∈ members := by
  induction members with
  | nil => simpa [insertMember] using h
  | cons f rest ih =>
    obtain ⟨other, n⟩ := f
    rw [insertMember] at h
    cases hc : player.compare other <;> rw [hc] at h
    · simpa using h
    · rcases List.mem_cons.mp h with h | h
      · exact .inl h
      · exact .inr (List.mem_cons_of_mem _ h)
    · rcases List.mem_cons.mp h with h | h
      · exact .inr (by simp [h])
      · exact (ih h).imp_right (List.mem_cons_of_mem _)

theorem Ordered.insert {room : Room} (h : room.Ordered) (player : PlayerId) (m : Member) :
    (room.insert player m).Ordered := by
  obtain ⟨id, name, members⟩ := room
  simp only [Ordered, Room.insert] at h ⊢
  induction members with
  | nil => simp [insertMember]
  | cons e rest ih =>
    obtain ⟨other, n⟩ := e
    obtain ⟨hlt, hrest⟩ := List.pairwise_cons.mp h
    rw [insertMember]
    cases hc : player.compare other with
    | lt =>
      have hb := (PlayerId.compare_lt_iff _ _).mp hc
      refine List.pairwise_cons.mpr ⟨?_, h⟩
      intro f hf
      rcases List.mem_cons.mp hf with rfl | hf
      · exact hb
      · exact hb.trans (hlt f hf)
    | eq =>
      obtain rfl := (PlayerId.compare_eq_iff _ _).mp hc
      exact List.pairwise_cons.mpr ⟨hlt, hrest⟩
    | gt =>
      refine List.pairwise_cons.mpr ⟨?_, ih hrest⟩
      intro f hf
      rcases mem_insertMember hf with rfl | hf
      · exact (PlayerId.compare_gt_iff _ _).mp hc
      · exact hlt f hf

theorem Ordered.erase {room : Room} (h : room.Ordered) (player : PlayerId) :
    (room.erase player).Ordered :=
  h.sublist List.filter_sublist

private theorem Ordered.nodup {room : Room} (h : room.Ordered) :
    (room.members.map (·.1)).Nodup := by
  rw [List.Nodup, List.pairwise_map]
  exact h.imp PlayerId.Before.ne

theorem Ordered.mem_iff {room : Room} (h : room.Ordered) (player : PlayerId) (m : Member) :
    (player, m) ∈ room.members ↔ room.member? player = some m := by
  have hn := h.nodup
  obtain ⟨id, name, members⟩ := room
  simp only [member?] at hn ⊢
  clear h
  induction members with
  | nil => simp
  | cons e rest ih =>
    obtain ⟨other, n⟩ := e
    obtain ⟨hnot, hrest⟩ := List.nodup_cons.mp hn
    rw [lookup_cons]
    by_cases hp : player = other
    · subst hp
      have hrest' : (player, m) ∉ rest := fun hm =>
        hnot (List.mem_map.mpr ⟨_, hm, rfl⟩)
      simp [hrest', eq_comm]
    · simp [hp, ih hrest]

/-- A room lists a player at most once. -/
theorem Ordered.filter_eq {room : Room} (h : room.Ordered) (player : PlayerId) :
    room.members.filter (·.1 = player) = ((room.member? player).map (player, ·)).toList := by
  have hn := h.nodup
  obtain ⟨id, name, members⟩ := room
  simp only [member?] at hn ⊢
  clear h
  induction members with
  | nil => rfl
  | cons e rest ih =>
    obtain ⟨other, n⟩ := e
    obtain ⟨hnot, hrest⟩ := List.nodup_cons.mp hn
    rw [List.filter_cons, lookup_cons]
    by_cases hp : player = other
    · subst hp
      have hnone : rest.filter (·.1 = player) = [] := by
        rw [List.filter_eq_nil_iff]
        intro e he
        have hne : e.1 ≠ player := fun h => hnot (List.mem_map.mpr ⟨e, he, h⟩)
        simpa using hne
      simp [hnone]
    · simp [hp, Ne.symm hp, ih hrest]

/-- What a room holds of a member can change without its place in the order. -/
theorem Ordered.map_insert {room : Room} (h : room.Ordered) {player : PlayerId}
    (hm : room.hasMember player = true) (m : Member) :
    (room.insert player m).members.map (·.1) = room.members.map (·.1) := by
  obtain ⟨id, name, members⟩ := room
  simp only [Ordered, Room.insert, hasMember, member?] at h hm ⊢
  induction members with
  | nil => simp at hm
  | cons e rest ih =>
    obtain ⟨other, n⟩ := e
    obtain ⟨hlt, hrest⟩ := List.pairwise_cons.mp h
    rw [lookup_cons] at hm
    rw [insertMember]
    cases hc : player.compare other with
    | lt =>
      -- nobody after a greater one can be the player
      have hb := (PlayerId.compare_lt_iff _ _).mp hc
      rw [if_neg hb.ne, Option.isSome_iff_exists] at hm
      obtain ⟨m', hm'⟩ := hm
      obtain ⟨before, after, rfl, -⟩ := List.lookup_eq_some_iff.mp hm'
      exact absurd rfl (hb.trans (hlt (player, m') (by simp))).ne
    | eq => simp [(PlayerId.compare_eq_iff _ _).mp hc]
    | gt =>
      have hne : player ≠ other := ((PlayerId.compare_gt_iff _ _).mp hc).ne.symm
      rw [if_neg hne] at hm
      simp [ih hrest hm]

def listing (player : PlayerId) (profile : Profile) : PlayerInfo :=
  { id := player, name := profile.name, position := profile.position }

def profile? (room : Room) (player : PlayerId) : Option Profile :=
  (room.member? player).map (·.profile)

theorem hasMember_eq (room : Room) (player : PlayerId) :
    room.hasMember player = (room.profile? player).isSome := by
  simp [hasMember, profile?]

theorem Ordered.mem_snapshot_iff {room : Room} (h : room.Ordered) (info : PlayerInfo) :
    info ∈ room.snapshot.players ↔
      ∃ profile, room.profile? info.id = some profile ∧ info = listing info.id profile := by
  simp only [snapshot, List.mem_map, profile?, Option.map_eq_some_iff]
  constructor
  · rintro ⟨⟨player, m⟩, hm, rfl⟩
    exact ⟨m.profile, ⟨m, (h.mem_iff player m).mp hm, rfl⟩, rfl⟩
  · rintro ⟨_, ⟨m, hm, rfl⟩, hi⟩
    exact ⟨(info.id, m), (h.mem_iff info.id m).mpr hm, hi.symm⟩

/-- A snapshot lists its players in strictly ascending order of identity. -/
theorem Ordered.snapshot {room : Room} (h : room.Ordered) :
    (room.snapshot.players.map (·.id)).Pairwise PlayerId.Before := by
  simp only [Room.snapshot, List.map_map, List.pairwise_map]
  exact h

/-- Rooms that know the same profiles under one identity look alike. -/
theorem snapshot_congr {room other : Room} (h : room.Ordered) (h' : other.Ordered)
    (hid : other.id = room.id) (hname : other.name = room.name)
    (hp : ∀ player, other.profile? player = room.profile? player) :
    other.snapshot = room.snapshot := by
  have hmem (info : PlayerInfo) : info ∈ other.snapshot.players ↔ info ∈ room.snapshot.players := by
    rw [h'.mem_snapshot_iff, h.mem_snapshot_iff, hp]
  have sorted {r : Room} (hr : r.Ordered) :
      r.snapshot.players.Pairwise fun a b => a.id.Before b.id := List.pairwise_map.mp hr.snapshot
  have nodup {r : Room} (hr : r.Ordered) : r.snapshot.players.Nodup :=
    (sorted hr).imp fun hab hne => hab.ne (congrArg PlayerInfo.id hne)
  have hplayers : other.snapshot.players = room.snapshot.players := by
    have hperm := (List.perm_ext_iff_of_nodup (nodup h') (nodup h)).mpr hmem
    refine hperm.eq_of_pairwise ?_ (sorted h') (sorted h)
    intro a b _ _ hab hba
    exact absurd rfl (hab.trans hba).ne
  rw [show other.snapshot = ⟨other.id, other.name, other.snapshot.players⟩ from rfl, hid, hname,
    hplayers]
  rfl

variable {ρ : Type}

theorem erase_of_not_member {room : Room} {player : PlayerId} (h : room.hasMember player = false) :
    room.erase player = room := by
  obtain ⟨id, name, members⟩ := room
  have hnone : members.lookup player = none := by simpa [hasMember, member?] using h
  simp only [erase, mk.injEq, true_and, List.filter_eq_self]
  intro e he
  have hne : player ≠ e.1 := by simpa using List.lookup_eq_none_iff.mp hnone e he
  simpa using hne.symm

/-- What a player has of its own in a room, the others do not see. -/
theorem erase_insert (room : Room) (player : PlayerId) (m : Member) :
    (room.insert player m).erase player = room.erase player := by
  obtain ⟨id, name, members⟩ := room
  simp only [erase, insert, mk.injEq, true_and]
  induction members with
  | nil => simp [insertMember]
  | cons e rest ih =>
    obtain ⟨other, n⟩ := e
    rw [insertMember]
    cases hc : player.compare other with
    | lt => rw [List.filter_cons_of_neg (by simp)]
    | eq =>
      obtain rfl := (PlayerId.compare_eq_iff _ _).mp hc
      rw [List.filter_cons_of_neg (by simp), List.filter_cons_of_neg (by simp)]
    | gt =>
      have hne : other ≠ player := ((PlayerId.compare_gt_iff _ _).mp hc).ne
      rw [List.filter_cons_of_pos (by simpa using hne),
        List.filter_cons_of_pos (by simpa using hne), ih]

theorem erase_erase (room : Room) (player : PlayerId) :
    (room.erase player).erase player = room.erase player := by
  simp [erase]

/-- No event kills a room that reacts as is usual. -/
theorem handle_standard (room : Room) (listener : ρ → Listener) (lookup : PlayerId → Option Nat)
    (event : Event ρ) :
    room.handle .standard listener lookup event =
      some (room.react event.kind listener lookup event) := by
  rw [handle, show Reactions.standard.get? event.kind = some (.standard event.kind) by
    cases event.kind <;> rfl]

def admission? (room : Room) (listener : ρ → Listener) (lookup : PlayerId → Option Nat)
    (player : PlayerId) (reply : Option ρ) : Option Nat :=
  if room.hasMember player then none
  else if reply.all fun requester => listener requester = .waiting then lookup player
  else none

theorem lookup_of_admission {room : Room} {listener : ρ → Listener}
    {lookup : PlayerId → Option Nat} {player : PlayerId} {reply : Option ρ} {outbox : Nat}
    (h : room.admission? listener lookup player reply = some outbox) :
    lookup player = some outbox := by
  rw [admission?] at h
  split at h
  · contradiction
  · split at h
    · exact h
    · contradiction

private theorem answerable_later (listener : ρ → Listener) (reply : Option ρ) :
    answerable (fun requester => (listener requester).afterLookup) reply =
      reply.all fun requester => listener requester = .waiting := by
  cases reply with
  | none => rfl
  | some requester => cases h : listener requester <;> simp [answerable, Listener.afterLookup, h]

/-- A join that is admitted adds the member, answers and tells the others. One that is not leaves
the room as it was, and at most answers with a failure. -/
theorem join_cases (room : Room) (listener : ρ → Listener) (lookup : PlayerId → Option Nat)
    (player : PlayerId) (profile : Profile) (reply : Option ρ) :
    (∃ outbox, room.admission? listener lookup player reply = some outbox ∧
        room.join listener lookup player profile reply =
          (room.insert player ⟨profile, outbox⟩,
            (room.insert player ⟨profile, outbox⟩).answer
                (fun requester => (listener requester).afterLookup) reply .ok ++
              (room.insert player ⟨profile, outbox⟩).notify player)) ∨
      room.admission? listener lookup player reply = none ∧
        ∃ effects, room.join listener lookup player profile reply = (room, effects) ∧
          (effects = [] ∨ ∃ heard ret, ret ≠ .ok ∧ effects = room.answer heard reply ret) := by
  rw [join, admission?]
  by_cases hm : room.hasMember player
  · refine .inr ⟨if_pos hm, ?_⟩
    simp only [hm, if_true]
    split
    · exact ⟨[], rfl, .inl rfl⟩
    · exact ⟨_, rfl, .inr ⟨_, _, by decide, rfl⟩⟩
  simp only [hm, Bool.false_eq_true, if_false, answerable_later]
  by_cases ha : answerable listener reply
  · simp only [ha, Bool.not_true, Bool.false_eq_true, if_false]
    cases hl : lookup player with
    | none => exact .inr ⟨ite_self _, _, rfl, .inr ⟨_, _, by decide, rfl⟩⟩
    | some outbox =>
      by_cases hw : reply.all fun requester => listener requester = .waiting
      · simp only [hw, if_true]
        exact .inl ⟨outbox, rfl, rfl⟩
      · simp only [hw, Bool.false_eq_true, if_false]
        refine .inr ⟨trivial, [], ?_, .inl rfl⟩
        rw [erase_insert, erase_of_not_member (by simpa using hm)]
  · -- who has gone before the lookup cannot be there after it
    have hw : (reply.all fun requester => listener requester = .waiting) = false := by
      cases reply with
      | none => simp [answerable] at ha
      | some requester =>
        have hgone : listener requester = .gone := by simpa [answerable] using ha
        simp [hgone]
    simp only [ha, hw, Bool.not_false, if_true, Bool.false_eq_true, if_false]
    exact .inr ⟨trivial, [], rfl, .inl rfl⟩

/-- A join adds the member or leaves the room as it was. -/
theorem join_room (room : Room) (listener : ρ → Listener) (lookup : PlayerId → Option Nat)
    (player : PlayerId) (profile : Profile) (reply : Option ρ) :
    (room.join listener lookup player profile reply).1 =
      match room.admission? listener lookup player reply with
      | some outbox => room.insert player ⟨profile, outbox⟩
      | none => room := by
  rcases room.join_cases listener lookup player profile reply with
    ⟨outbox, ha, hj⟩ | ⟨ha, effects, hj, -⟩ <;> rw [ha, hj]

/-- A leave takes the player off, if it is there. -/
theorem leave_room (room : Room) (listener : ρ → Listener) (player : PlayerId)
    (reply : Option ρ) : (room.leave listener player reply).1 = room.erase player := by
  rw [leave]
  split
  · rfl
  · rename_i hm
    exact (erase_of_not_member (by simpa using hm)).symm

/-- A move changes a member's profile. -/
theorem move_room (room : Room) (player : PlayerId) (profile : Profile) :
    (room.move (ρ := ρ) player profile).1 =
      match room.member? player with
      | some m => room.insert player { m with profile }
      | none => room := by
  rw [move]
  cases room.member? player <;> rfl

end Lobby.Room
