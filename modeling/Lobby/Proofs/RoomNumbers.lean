import Lobby.Proofs.RoomRegistry
import Lobby.Player.Service

/-! The registry of rooms under any number of callers. A creation and a removal take two turns at it
each, and the turns of others may fall between. Creations number their rooms from one on, and the
listing is of the rooms that are there; but somebody who asks for a room by its number may forestall
the creation that would have come to that number. -/
namespace Lobby

/-- A hub with a book of what callers have asked of its registry of rooms. -/
structure Roster where
  hub : Hub
  /-- The identities that creations have drawn, in that order. -/
  drawn : List RoomId := []
  /-- The creations that have drawn an identity and have yet to open their room. -/
  underWay : List (RoomId × String) := []
  /-- The rooms opened under identities that were free, and not forgotten since. -/
  present : List (RoomId × String) := []
  /-- The identities of those that somebody has asked for by identity. -/
  chosen : List RoomId := []
  /-- The identities of those that a removal has found and has yet to have forgotten. -/
  halted : List RoomId := []

namespace Roster

inductive Act where
  | draw (name : String)
  | enter (id : RoomId)
  | ask (id : RoomId) (name : String)
  | halt (id : RoomId)
  | forget (id : RoomId)
  | run (room : Nat)
  deriving DecidableEq, Repr

def holds (s : Roster) (id : RoomId) : Bool := s.present.any (·.1 = id)

def openRoom (s : Roster) (id : RoomId) (name : String) : Roster :=
  { s with
    hub := (s.hub.openRoom id name).2.2
    present := if s.holds id then s.present else s.present ++ [(id, name)] }

def perform (s : Roster) : Act → Roster
  | .draw name =>
    let (id, hub) := s.hub.takeRoomId
    { s with hub, drawn := s.drawn ++ [id], underWay := s.underWay ++ [(id, name)] }
  | .enter id =>
    match s.underWay.lookup id with
    | some name => { s.openRoom id name with underWay := s.underWay.filter (·.1 ≠ id) }
    | none => s
  | .ask id name =>
    { s.openRoom id name with chosen := if s.holds id then s.chosen else id :: s.chosen }
  | .halt id =>
    { s with hub := s.hub.haltRoom id, halted := if s.holds id then id :: s.halted else s.halted }
  | .forget id =>
    { s with
      hub := (s.hub.forgetRoom id).2
      present := s.present.filter (·.1 ≠ id)
      chosen := s.chosen.filter (· ≠ id)
      halted := s.halted.filter (· ≠ id) }
  | .run r => { s with hub := (s.hub.stepRoom r).2 }

def performAll (s : Roster) (acts : List Act) : Roster := acts.foldl perform s

def start (config : RoomConfig) (reactions : Reactions) : Roster :=
  { hub := { config, reactions } }

def numbers (n : Nat) : List RoomId := (List.range n).map fun k => ⟨UInt64.ofNat (k + 1)⟩

def Roomy (s : Roster) : Prop := s.drawn.length < 2 ^ 64 - 1

instance (s : Roster) : Decidable s.Roomy := inferInstanceAs (Decidable (_ < _))

/-- The book is right about the registry, and what is registered has been asked for, or was opened
by a creation that is over. -/
structure Sound (s : Roster) : Prop where
  indexed : s.hub.Indexed
  listed : (s.hub.roomIndex.map fun e => (e.1, (s.hub.header e.2).name)).Perm s.present
  next : s.hub.nextRoom = UInt64.ofNat (s.drawn.length + 1)
  drawn : s.drawn = numbers s.drawn.length
  underWay : ∀ w ∈ s.underWay, w.1 ∈ s.drawn
  chosen : ∀ id ∈ s.chosen, s.holds id = true
  halted : ∀ id ∈ s.halted, ∃ r, s.hub.room? id = some r ∧ s.hub.Halted r
  unasked : ∀ e ∈ s.hub.roomIndex, s.hub.Halted e.2 → e.1 ∈ s.halted
  origin : s.Roomy → ∀ e ∈ s.present, e.1 ∈ s.chosen ∨
    e.1 ∈ s.drawn ∧ ∀ w ∈ s.underWay, w.1 ≠ e.1

variable {s : Roster} {id : RoomId} {name : String}

theorem holds_iff : s.holds id = true ↔ ∃ e ∈ s.present, e.1 = id := by
  simp [holds]

private theorem sound_start (config : RoomConfig) (reactions : Reactions) :
    (start config reactions).Sound := by
  refine ⟨⟨.nil, by simp [start]⟩, .refl _, rfl, rfl, ?_, ?_, ?_, ?_, ?_⟩ <;> simp [start]

private theorem mem_numbers {n k : Nat} (hk : k + 1 < 2 ^ 64) (hn : n < 2 ^ 64 - 1)
    (h : (⟨UInt64.ofNat (k + 1)⟩ : RoomId) ∈ numbers n) : k < n := by
  obtain ⟨j, hj, he⟩ := List.mem_map.mp h
  have hnat := congrArg (fun id : RoomId => id.number.toNat) he
  simp only [UInt64.toNat_ofNat'] at hnat
  have hj' := List.mem_range.mp hj
  omega

namespace Sound

/-- The registry holds what the book says. -/
theorem room?_eq_none_iff (h : s.Sound) : s.hub.room? id = none ↔ s.holds id = false := by
  rw [Hub.room?_eq_none_iff, ← Bool.not_eq_true, holds_iff]
  constructor
  · rintro hfree ⟨e, he, rfl⟩
    obtain ⟨x, hx, hxe⟩ := List.mem_map.mp (h.listed.mem_iff.mpr he)
    exact hfree x hx (congrArg Prod.fst hxe)
  · rintro hnot e he rfl
    exact hnot ⟨_, h.listed.mem_iff.mp (List.mem_map_of_mem he), rfl⟩

theorem exists_room? (h : s.Sound) : s.holds id = true ↔ ∃ r, s.hub.room? id = some r := by
  rw [← Option.ne_none_iff_exists', ne_eq, h.room?_eq_none_iff, Bool.not_eq_false]

/-- The next identity is one that no creation has drawn. -/
theorem takeRoomId_not_mem (h : s.Sound) (hroomy : s.Roomy) :
    s.hub.takeRoomId.1 ∉ s.drawn := by
  intro hmem
  have hnext : s.hub.takeRoomId.1 = ⟨UInt64.ofNat (s.drawn.length + 1)⟩ := by
    rw [Hub.takeRoomId, h.next]
  rw [hnext, h.drawn, numbers, List.length_map, List.length_range] at hmem
  rw [Roomy] at hroomy
  exact (mem_numbers (by omega) hroomy hmem).false

private theorem keepsRooms (h : s.Sound) {hub : Hub} {halted : List RoomId}
    (hk : s.hub.KeepsRooms hub)
    (hasked : ∀ id ∈ halted, id ∈ s.halted ∨ ∃ r, s.hub.room? id = some r ∧ hub.Halted r)
    (hunasked : ∀ e ∈ s.hub.roomIndex, hub.Halted e.2 → e.1 ∈ halted) :
    ({ s with hub, halted } : Roster).Sound := by
  have hroom (id : RoomId) : hub.room? id = s.hub.room? id := by
    rw [Hub.room?, hk.index]
    rfl
  refine ⟨⟨?_, ?_⟩, ?_, hk.next.trans h.next, h.drawn, h.underWay, h.chosen, fun id hid => ?_,
    ?_, h.origin⟩
  · rw [hk.index]
    exact h.indexed.sorted
  · intro e he
    rw [hk.index] at he
    rw [hk.size, hk.header]
    exact h.indexed.known e he
  · simp only [hk.index, hk.header]
    exact h.listed
  · rcases hasked id hid with hid | ⟨r, hr, hhalted⟩
    · obtain ⟨r, hr, hhalted⟩ := h.halted id hid
      exact ⟨r, (hroom id).trans hr, hk.halted hhalted⟩
    · exact ⟨r, (hroom id).trans hr, hhalted⟩
  · rw [hk.index]
    exact hunasked

private theorem draw (h : s.Sound) (name : String) : (s.perform (.draw name)).Sound := by
  have hlength : (s.perform (.draw name)).drawn.length = s.drawn.length + 1 := by
    simp [perform, Hub.takeRoomId]
  refine ⟨⟨h.indexed.sorted, h.indexed.known⟩, h.listed, ?_, ?_, ?_, h.chosen, h.halted,
    h.unasked, ?_⟩
  · rw [hlength, UInt64.ofNat_add, ← h.next]
    rfl
  · rw [hlength, numbers, List.range_succ, List.map_append, ← numbers, ← h.drawn,
      List.map_singleton, ← h.next]
    rfl
  · intro w hw
    rcases List.mem_append.mp hw with hw | hw
    · exact List.mem_append_left _ (h.underWay w hw)
    · obtain rfl := List.mem_singleton.mp hw
      exact List.mem_append_right _ (List.mem_singleton.mpr rfl)
  · intro hroomy e he
    have hroomy' : s.Roomy := by
      rw [Roomy, hlength] at hroomy
      rw [Roomy]
      omega
    refine (h.origin hroomy' e he).imp_right ?_
    rintro ⟨hdrawn, hover⟩
    refine ⟨List.mem_append_left _ hdrawn, fun w hw => ?_⟩
    rcases List.mem_append.mp hw with hw | hw
    · exact hover w hw
    · obtain rfl := List.mem_singleton.mp hw
      exact fun hsame => h.takeRoomId_not_mem hroomy' (hsame ▸ hdrawn)

/-- Where a room is opened the book stays right, if the one who opens it is known. -/
private theorem opened (h : s.Sound) (id : RoomId) (name : String)
    {underWay : List (RoomId × String)} {chosen : List RoomId}
    (hunder : ∀ w ∈ underWay, w ∈ s.underWay) (hkeeps : ∀ id ∈ s.chosen, id ∈ chosen)
    (hchosen : ∀ other ∈ chosen, other ∈ s.chosen ∨ other = id)
    (horigin : s.holds id = false → id ∈ chosen ∨ id ∈ s.drawn ∧ ∀ w ∈ underWay, w.1 ≠ id) :
    ({ s.openRoom id name with underWay, chosen } : Roster).Sound := by
  have hold (hroomy : s.Roomy) {e : RoomId × String} (he : e ∈ s.present) :
      e.1 ∈ chosen ∨ e.1 ∈ s.drawn ∧ ∀ w ∈ underWay, w.1 ≠ e.1 :=
    (h.origin hroomy e he).imp (hkeeps _) fun ho => ⟨ho.1, fun w hw => ho.2 w (hunder w hw)⟩
  cases hr : s.hub.room? id with
  | some r =>
    have hholds : s.holds id = true := by
      rw [← Bool.not_eq_false, ← h.room?_eq_none_iff, hr]
      simp
    rw [openRoom, Hub.openRoom_of_taken hr, if_pos hholds]
    refine ⟨h.indexed, h.listed, h.next, h.drawn, fun w hw => h.underWay w (hunder w hw), ?_,
      h.halted, h.unasked, fun hroomy e he => hold hroomy he⟩
    intro other ho
    rcases hchosen other ho with ho | rfl
    · exact h.chosen other ho
    · exact hholds
  | none =>
    have hholds := h.room?_eq_none_iff.mp hr
    obtain ⟨hmakes, hindexed⟩ := h.indexed.makes_openRoom hr name
    rw [openRoom, hholds]
    refine ⟨hindexed, ?_, ?_, h.drawn, fun w hw => h.underWay w (hunder w hw), ?_, ?_, ?_, ?_⟩
    · have hold : s.hub.roomIndex.map
          (fun e => (e.1, ((s.hub.openRoom id name).2.2.header e.2).name)) =
            s.hub.roomIndex.map fun e => (e.1, (s.hub.header e.2).name) := by
        refine List.map_congr_left fun e he => ?_
        rw [hmakes.header_of_lt (h.indexed.known e he).1]
      refine ((Hub.perm_openRoom hr name).map _).trans ?_
      rw [List.map_cons, hold, hmakes.header_new]
      exact (h.listed.cons _).trans (List.perm_append_singleton _ _).symm
    · rw [Hub.openRoom, hr]
      exact h.next
    · intro other ho
      rw [holds_iff]
      rcases hchosen other ho with ho | rfl
      · obtain ⟨e, he, hid⟩ := holds_iff.mp (h.chosen other ho)
        exact ⟨e, List.mem_append_left _ he, hid⟩
      · exact ⟨_, List.mem_append_right _ List.mem_cons_self, rfl⟩
    · intro other ho
      obtain ⟨r, hr', cell, hc, hcancelled⟩ := h.halted other ho
      have hlt := (h.indexed.known _ (h.indexed.room?_eq_some_iff.mp hr')).1
      refine ⟨r, ?_, cell, (hmakes.others r hlt).trans hc, hcancelled⟩
      rw [hindexed.room?_eq_some_iff, (Hub.perm_openRoom hr name).mem_iff]
      exact List.mem_cons_of_mem _ (h.indexed.room?_eq_some_iff.mp hr')
    · rintro e he ⟨cell, hc, hcancelled⟩
      rcases List.mem_cons.mp ((Hub.perm_openRoom hr name).mem_iff.mp he) with rfl | he
      · -- the new room has been asked nothing
        obtain ⟨events, hnew, -⟩ := hmakes.cell
        obtain rfl := Option.some.inj (hnew.symm.trans hc)
        contradiction
      · have hlt := (h.indexed.known e he).1
        exact h.unasked e he ⟨cell, (hmakes.others e.2 hlt).symm.trans hc, hcancelled⟩
    · intro hroomy e he
      rcases List.mem_append.mp he with he | he
      · exact hold hroomy he
      · obtain rfl := List.mem_singleton.mp he
        exact horigin hholds

private theorem enter (h : s.Sound) (id : RoomId) : (s.perform (.enter id)).Sound := by
  rw [perform]
  split
  · rename_i name hname
    obtain ⟨before, after, hlist, -⟩ := List.lookup_eq_some_iff.mp hname
    have hmem : (id, name) ∈ s.underWay := by simp [hlist]
    -- The creation is over with this turn, so no other one comes to its number.
    refine h.opened id name (fun w hw => (List.mem_filter.mp hw).1) (fun _ hc => hc)
      (fun _ hc => .inl hc) fun _ => .inr ⟨h.underWay _ hmem, fun w hw => ?_⟩
    simpa using (List.mem_filter.mp hw).2
  · exact h

private theorem ask (h : s.Sound) (id : RoomId) (name : String) :
    (s.perform (.ask id name)).Sound := by
  rw [perform]
  cases hholds : s.holds id with
  | true =>
    refine h.opened id name (fun _ hw => hw) (fun _ hc => hc) (fun _ hc => .inl hc) fun hnot => ?_
    rw [hholds] at hnot
    contradiction
  | false =>
    refine h.opened id name (fun _ hw => hw) (fun _ hc => List.mem_cons_of_mem _ hc) ?_
      fun _ => .inl List.mem_cons_self
    intro other ho
    exact (List.mem_cons.mp ho).symm

private theorem halt (h : s.Sound) (id : RoomId) : (s.perform (.halt id)).Sound := by
  rw [Roster.perform]
  refine h.keepsRooms (s.hub.keepsRooms_haltRoom id) ?_ ?_
  · intro other ho
    split at ho
    · rename_i hholds
      rcases List.mem_cons.mp ho with rfl | ho
      · obtain ⟨r, hr⟩ := h.exists_room?.mp hholds
        exact .inr ⟨r, hr, h.indexed.halted_haltRoom hr⟩
      · exact .inl ho
    · exact .inl ho
  · intro e he hhalted
    rcases Hub.halted_of_haltRoom hhalted with hbefore | hr
    · have hmem := h.unasked e he hbefore
      split
      · exact List.mem_cons_of_mem _ hmem
      · exact hmem
    · -- the room found is registered under one identity only
      have hsame : e.1 = id := (h.indexed.known e he).2.symm.trans
        (h.indexed.known _ (h.indexed.room?_eq_some_iff.mp hr)).2
      rw [if_pos (h.exists_room?.mpr ⟨_, hr⟩), hsame]
      exact List.mem_cons_self

private theorem forget (h : s.Sound) (id : RoomId) : (s.perform (.forget id)).Sound := by
  rw [perform, Hub.forgetRoom_eq]
  refine ⟨⟨h.indexed.sorted.filter _, ?_⟩, ?_, h.next, h.drawn, h.underWay, ?_, ?_, ?_, ?_⟩
  · exact fun e he => h.indexed.known e (List.mem_filter.mp he).1
  · have hfilter := h.listed.filter (·.1 ≠ id)
    rwa [List.filter_map] at hfilter
  · intro other ho
    obtain ⟨hchosen, hne⟩ := List.mem_filter.mp ho
    obtain ⟨e, he, rfl⟩ := holds_iff.mp (h.chosen other hchosen)
    exact holds_iff.mpr ⟨e, List.mem_filter.mpr ⟨he, hne⟩, rfl⟩
  · intro other ho
    obtain ⟨hhalted, hne⟩ := List.mem_filter.mp ho
    obtain ⟨r, hr, hr'⟩ := h.halted other hhalted
    refine ⟨r, ?_, hr'⟩
    rw [Hub.room?, Hub.lookup_forget (by simpa using hne)]
    exact hr
  · intro e he hhalted
    obtain ⟨he, hne⟩ := List.mem_filter.mp he
    exact List.mem_filter.mpr ⟨h.unasked e he hhalted, hne⟩
  · intro hroomy e he
    obtain ⟨he, hne⟩ := List.mem_filter.mp he
    exact (h.origin hroomy e he).imp_left fun hc => List.mem_filter.mpr ⟨hc, hne⟩

theorem perform (h : s.Sound) (act : Act) : (s.perform act).Sound := by
  cases act with
  | draw name => exact h.draw name
  | enter id => exact h.enter id
  | ask id name => exact h.ask id name
  | halt id => exact h.halt id
  | forget id => exact h.forget id
  | run r =>
    exact h.keepsRooms (s.hub.keepsRooms_stepRoom r) (fun _ => .inl)
      fun e he hhalted => h.unasked e he (Hub.halted_of_stepRoom hhalted)

theorem performAll (h : s.Sound) (acts : List Act) : (s.performAll acts).Sound := by
  induction acts generalizing s with
  | nil => exact h
  | cons act rest ih => exact ih (h.perform act)

end Sound

/-- A registry whose rooms have all been opened by creations. -/
structure Orderly (s : Roster) : Prop where
  /-- The identities that creations have drawn are 1, 2, 3 and so on. -/
  numbered : s.drawn.map (·.number.toNat) = List.range' 1 s.drawn.length
  once : s.drawn.Nodup
  /-- A creation that nobody disturbs makes a room, under the next number. -/
  creates (name : String) : ∃ id : RoomId, id.number.toNat = s.drawn.length + 1 ∧
    s.hub.Makes id name (s.hub.createRoom name)
  /-- One that has drawn its number some time ago makes its room under that. -/
  enters : ∀ w ∈ s.underWay,
    s.hub.Makes w.1 w.2 ((s.hub.openRoom w.1 w.2).1, (s.hub.openRoom w.1 w.2).2.2)
  named : ∀ e ∈ s.present, ∃ r, s.hub.room? e.1 = some r ∧ s.hub.header r = .header e.1 e.2
  removes : ∀ e ∈ s.present, s.hub.Removes e.1 (s.hub.removeRoom e.1)
  spares (id : RoomId) : (∀ e ∈ s.present, e.1 ≠ id) → s.hub.removeRoom id = (none, s.hub)
  /-- What a removal that began some time ago gives back has been asked to stop just if it was there
  when that removal began, or another one. -/
  finishes : ∀ e ∈ s.present, ∃ r, (s.hub.forgetRoom e.1).1 = some r ∧
    (s.hub.Halted r ↔ e.1 ∈ s.halted)
  misses (id : RoomId) : (∀ e ∈ s.present, e.1 ≠ id) → s.hub.forgetRoom id = (none, s.hub)
  lists : s.hub.headers.Perm (s.present.map fun e => .header e.1 e.2)
  ascending : s.hub.headers.Pairwise fun a b => a.id.number < b.id.number
  /-- Whoever asks for the rooms is told that list. -/
  told (c : Context) (owner : Task) (now : Nat) (request : Envelope) :
    (Wire.decode? (α := GetRoomListRequest) request.data).isSome →
      c.serve s.hub owner now .listRooms request =
        (.answered (.rooms { ret := .ok, rooms := s.hub.headers }), c, s.hub)

namespace Sound

/-- The room of an identity that is free is made, if the registry is in order. -/
private theorem makes_openRoom (h : s.Sound) (hfree : s.holds id = false) (name : String) :
    s.hub.Makes id name ((s.hub.openRoom id name).1, (s.hub.openRoom id name).2.2) :=
  (h.indexed.makes_openRoom (h.room?_eq_none_iff.mpr hfree) name).1

private theorem makes_createRoom (h : s.Sound) (hfree : s.holds s.hub.takeRoomId.1 = false)
    (name : String) : s.hub.Makes s.hub.takeRoomId.1 name (s.hub.createRoom name) := by
  have hindexed : s.hub.takeRoomId.2.Indexed := ⟨h.indexed.sorted, h.indexed.known⟩
  obtain ⟨hmakes, -⟩ := hindexed.makes_openRoom (h.room?_eq_none_iff.mpr hfree) name
  exact ⟨hmakes.free, hmakes.new, hmakes.others, hmakes.registered, hmakes.cell, hmakes.spawned⟩

/-- A room stands under the number that a creation has come to only because somebody has asked for
it by that number. -/
private theorem mem_chosen (h : s.Sound) (hroomy : s.Roomy)
    (hcome : id = s.hub.takeRoomId.1 ∨ ∃ w ∈ s.underWay, w.1 = id) (hholds : s.holds id = true) :
    id ∈ s.chosen := by
  obtain ⟨e, he, rfl⟩ := holds_iff.mp hholds
  refine (h.origin hroomy e he).resolve_right fun ⟨hdrawn, hover⟩ => ?_
  rcases hcome with hnext | ⟨w, hw, hwe⟩
  · exact h.takeRoomId_not_mem hroomy (hnext ▸ hdrawn)
  · exact hover w hw hwe

private theorem room?_of_absent (h : s.Sound) (hnot : ∀ e ∈ s.present, e.1 ≠ id) :
    s.hub.room? id = none := by
  rw [h.room?_eq_none_iff, ← Bool.not_eq_true, holds_iff]
  rintro ⟨e, he, hid⟩
  exact hnot e he hid

private theorem header_eq (h : s.Sound) {e : RoomId × Nat} (he : e ∈ s.hub.roomIndex) :
    s.hub.header e.2 = .header e.1 (s.hub.header e.2).name := by
  obtain ⟨hlt, hid⟩ := h.indexed.known e he
  rw [← hid, Hub.header, Array.getElem?_eq_getElem hlt]
  rfl

private theorem exists_entry (h : s.Sound) {e : RoomId × String} (he : e ∈ s.present) :
    ∃ r, (e.1, r) ∈ s.hub.roomIndex ∧ s.hub.header r = .header e.1 e.2 := by
  obtain ⟨⟨id, r⟩, hx, rfl⟩ := List.mem_map.mp (h.listed.mem_iff.mpr he)
  exact ⟨r, hx, h.header_eq hx⟩

private theorem numbered (h : s.Sound) (hroomy : s.Roomy) :
    s.drawn.map (·.number.toNat) = List.range' 1 s.drawn.length := by
  rw [Roomy] at hroomy
  conv_lhs => rw [h.drawn, numbers, List.map_map]
  rw [List.range'_eq_map_range]
  refine List.map_congr_left fun k hk => ?_
  have hlt := List.mem_range.mp hk
  simp only [Function.comp_apply, UInt64.toNat_ofNat']
  omega

/-- A registry whose callers do not choose their numbers is orderly. -/
private theorem orderly (h : s.Sound) (hroomy : s.Roomy) (hchosen : s.chosen = []) :
    s.Orderly where
  numbered := h.numbered hroomy
  once := by
    refine List.Nodup.of_map (·.number.toNat) ?_
    rw [h.numbered hroomy]
    exact List.nodup_range'
  creates name := by
    have hfree : s.holds s.hub.takeRoomId.1 = false := by
      rw [← Bool.not_eq_true]
      intro hholds
      simpa [hchosen] using h.mem_chosen hroomy (.inl rfl) hholds
    refine ⟨s.hub.takeRoomId.1, ?_, h.makes_createRoom hfree name⟩
    rw [Roomy] at hroomy
    simp only [Hub.takeRoomId, h.next, UInt64.toNat_ofNat']
    omega
  enters w hw := by
    apply h.makes_openRoom
    rw [← Bool.not_eq_true]
    intro hholds
    simpa [hchosen] using h.mem_chosen hroomy (.inr ⟨w, hw, rfl⟩) hholds
  named e he := by
    obtain ⟨r, hr, hheader⟩ := h.exists_entry he
    exact ⟨r, h.indexed.room?_eq_some_iff.mpr hr, hheader⟩
  removes e he := by
    obtain ⟨r, hr, -⟩ := h.exists_entry he
    exact h.indexed.removes_removeRoom (h.indexed.room?_eq_some_iff.mpr hr)
  spares id hnot := Hub.removeRoom_of_free (h.room?_of_absent hnot)
  finishes e he := by
    obtain ⟨r, hr⟩ := h.exists_room?.mp (holds_iff.mpr ⟨e, he, rfl⟩)
    refine ⟨r, (Hub.forgetRoom_fst _ _).trans hr, ?_, fun hhalted => ?_⟩
    · exact h.unasked (e.1, r) (h.indexed.room?_eq_some_iff.mp hr)
    · obtain ⟨r', hr', hcancelled⟩ := h.halted e.1 hhalted
      exact Option.some.inj (hr'.symm.trans hr) ▸ hcancelled
  misses id hnot := by rw [Hub.forgetRoom, h.room?_of_absent hnot]
  lists := by
    have hheaders : s.hub.headers =
        (s.hub.roomIndex.map fun e => (e.1, (s.hub.header e.2).name)).map
          fun e => .header e.1 e.2 := by
      rw [Hub.headers, List.map_map]
      exact List.map_congr_left fun e he => h.header_eq he
    rw [hheaders]
    exact h.listed.map _
  ascending := by
    rw [Hub.headers, List.pairwise_map]
    refine h.indexed.sorted.imp_of_mem fun ha hb hlt => ?_
    rwa [(h.indexed.known _ ha).2, (h.indexed.known _ hb).2]
  told c owner now request hreads := by
    obtain ⟨body, hbody⟩ := Option.isSome_iff_exists.mp hreads
    simp only [Context.serve, Context.reading, hbody, Context.listRooms]

end Sound

private theorem chosen_performAll (hcalls : ∀ id name, .ask id name ∉ acts)
    (hnone : s.chosen = []) : (s.performAll acts).chosen = [] := by
  induction acts generalizing s with
  | nil => exact hnone
  | cons act rest ih =>
    have hrest (id : RoomId) (name : String) : .ask id name ∉ rest := fun h =>
      hcalls id name (List.mem_cons_of_mem _ h)
    refine ih hrest ?_
    cases act with
    | ask id name => exact absurd List.mem_cons_self (hcalls id name)
    | forget id => simp [perform, hnone]
    | enter id =>
      rw [perform]
      split <;> exact hnone
    | draw | halt | run => exact hnone

/-- Creations number their rooms from one on, no number is used twice, and the rooms listed are
those created and not removed, however the turns of creations and removals fall, as long as there
are numbers left. But a room that a removal has forgotten was asked to stop only if a removal has
begun since the room was there. -/
theorem creations_number_rooms (config : RoomConfig) (reactions : Reactions) {acts : List Act}
    (hcalls : ∀ id name, .ask id name ∉ acts)
    (hroomy : ((start config reactions).performAll acts).Roomy) :
    ((start config reactions).performAll acts).Orderly :=
  ((sound_start config reactions).performAll acts).orderly hroomy (chosen_performAll hcalls rfl)

/-- The second creation opens its room before the first, the room of the first is asked to stop and
forgotten, and a third creation has drawn its number. -/
private def crossing : List Act :=
  [.draw "hall", .draw "attic", .enter ⟨2⟩, .run 0, .enter ⟨1⟩, .halt ⟨1⟩, .draw "den", .forget ⟨1⟩]

theorem creations_number_rooms_crossing : ∃ s : Roster, s.Orderly ∧
    s.drawn = [⟨1⟩, ⟨2⟩, ⟨3⟩] ∧ s.underWay = [(⟨3⟩, "den")] ∧ s.present = [(⟨2⟩, "attic")] ∧
      s.hub.headers = [.header ⟨2⟩ "attic"] :=
  have hcalls : ∀ id name, .ask id name ∉ crossing := by simp [crossing]
  ⟨_, creations_number_rooms {} .standard hcalls (by decide +kernel), by decide +kernel⟩

/-- A removal that begins before the room is there gives the room back, and the room runs on. -/
theorem hall_runs_on :
    let s := (start {} .standard).performAll [.draw "hall", .halt ⟨1⟩, .enter ⟨1⟩]
    s.hub.headers = [.header ⟨1⟩ "hall"] ∧ (s.hub.forgetRoom ⟨1⟩).1 = some 0 ∧
      (s.perform (.forget ⟨1⟩)).hub.headers = [] ∧
      (s.perform (.forget ⟨1⟩)).hub.rooms[0]?.map (·.cancelled) = some false := by
  decide +kernel

/-- A creation makes a room of its own exactly when there is none of the number that it has come
to, and is given that room otherwise. As long as there are numbers left, there is one only if
somebody has asked for the room of that number. -/
theorem makes_room_unless_forestalled (config : RoomConfig) (reactions : Reactions)
    (acts : List Act) (name : String) :
    let s := (start config reactions).performAll acts
    let id := s.hub.takeRoomId.1
    (s.hub.Makes id name (s.hub.createRoom name) ↔ s.holds id = false) ∧
      (s.holds id = true → ∃ r < s.hub.rooms.size, s.hub.room? id = some r ∧
        s.hub.createRoom name = (r, s.hub.takeRoomId.2)) ∧
      (∀ w ∈ s.underWay,
        s.hub.Makes w.1 w.2 ((s.hub.openRoom w.1 w.2).1, (s.hub.openRoom w.1 w.2).2.2) ↔
          s.holds w.1 = false) ∧
      (s.Roomy → ∀ other, other = id ∨ (∃ w ∈ s.underWay, w.1 = other) →
        s.holds other = true → other ∈ s.chosen) := by
  intro s id
  have h : s.Sound := (sound_start config reactions).performAll acts
  refine ⟨⟨fun hm => h.room?_eq_none_iff.mp hm.free, fun hf => h.makes_createRoom hf name⟩, ?_,
    fun w _ => ⟨fun hm => h.room?_eq_none_iff.mp hm.free, fun hf => h.makes_openRoom hf w.2⟩,
    fun hroomy other hcome hholds => h.mem_chosen hroomy hcome hholds⟩
  intro hholds
  obtain ⟨r, hr⟩ := h.exists_room?.mp hholds
  have htaken : s.hub.takeRoomId.2.room? id = some r := hr
  refine ⟨r, (h.indexed.known _ (h.indexed.room?_eq_some_iff.mp hr)).1, hr, ?_⟩
  have hopen := Hub.openRoom_of_taken htaken name
  rw [Hub.createRoom]
  simp only
  rw [hopen]

private def foreseen : List Act := [.draw "hall", .enter ⟨1⟩, .ask ⟨2⟩ "lounge"]

theorem makes_room_unless_forestalled_foreseen :
    let s := (start {} .standard).performAll foreseen
    s.Roomy ∧ s.holds ⟨2⟩ = true ∧ (⟨2⟩ : RoomId) ∈ s.chosen ∧
      ∃ r < s.hub.rooms.size, s.hub.createRoom "attic" = (r, s.hub.takeRoomId.2) := by
  intro s
  have hroomy : s.Roomy := by decide +kernel
  have hnext : s.hub.takeRoomId.1 = ⟨2⟩ := by decide +kernel
  have hholds : s.holds s.hub.takeRoomId.1 = true := by decide +kernel
  obtain ⟨-, hgiven, -, hasked⟩ := makes_room_unless_forestalled {} .standard foreseen "attic"
  obtain ⟨r, hlt, -, hr⟩ := hgiven hholds
  have hchosen := hasked hroomy _ (.inl rfl) hholds
  rw [hnext] at hholds
  exact ⟨hroomy, hholds, hnext ▸ hchosen, r, hlt, hr⟩

/-- A creation that somebody has forestalled is given the other's room. -/
theorem attic_is_lounge :
    let s := (start {} .standard).performAll [.ask ⟨1⟩ "lounge"]
    s.hub.headers = [.header ⟨1⟩ "lounge"] ∧ (s.hub.createRoom "attic").1 = 0 ∧
      (s.hub.createRoom "attic").2.headers = [.header ⟨1⟩ "lounge"] ∧
      ∀ id, ¬ s.hub.Makes id "attic" (s.hub.createRoom "attic") := by
  refine ⟨by decide +kernel, by decide +kernel, by decide +kernel, fun id hmakes => ?_⟩
  have hnew := hmakes.new
  revert hnew
  decide +kernel

end Roster

end Lobby
