import Mathlib.Data.List.Perm.Basic
import Mathlib.Data.List.Nodup
import Lobby.Proofs.RoomCalls
import Lobby.Proofs.RoomTurns

/-! What single calls do to the registry of rooms: they find a room, make one, or ask one to stop
and forget it. -/
namespace Lobby

theorem Room.header_handle {ρ : Type} {room room' : Room} {reactions : Reactions}
    {listener : ρ → Listener} {lookup : PlayerId → Option Nat} {event : Event ρ}
    {effects : List (Effect ρ)}
    (h : room.handle reactions listener lookup event = some (room', effects)) :
    room'.header = room.header := by
  obtain ⟨player, body⟩ := event
  rw [handle] at h
  split at h
  · rename_i kind _
    obtain rfl := congrArg Prod.fst (Option.some.inj h)
    cases kind <;> cases body
    case join.join =>
      simp only [react, join]
      split
      · rfl
      split
      · rfl
      split
      · rfl
      · split <;> rfl
    case leave.leave =>
      simp only [react, leave]
      split <;> rfl
    case move.move =>
      simp only [react, move]
      split <;> rfl
    all_goals rfl
  · contradiction
  · obtain rfl := congrArg Prod.fst (Option.some.inj h)
    rfl

namespace Hub
variable {h h' h'' : Hub} {id : RoomId} {name : String} {r : Nat}

structure Steady (Q : Hub → Prop) : Prop where
  signal {h : Hub} {s : Signal} : Q h → Q (h.signal s)
  setRoom {h : Hub} {r : Nat} {cell cell' : RoomCell} : Q h → h.rooms[r]? = some cell →
    cell'.room.header = cell.room.header → cell'.cancelled = cell.cancelled →
      Q (h.setRoom r cell')
  settleReply {h : Hub} {t : Ticket} {reply : Reply} : Q h → Q (h.settleReply t reply)
  post {h : Hub} {i : Nat} {message : Envelope} : Q h → Q (h.post i message).2

namespace Steady
variable {Q : Hub → Prop}

private theorem discardEvent (hQ : Steady Q) (hq : Q h) (e : Event Ticket) :
    Q (h.discardEvent e) := by
  rw [Hub.discardEvent]
  split
  · exact hQ.settleReply hq
  · exact hq

private theorem apply (hQ : Steady Q) (hq : Q h) (effect : Effect Ticket) : Q (h.apply effect) := by
  cases effect with
  | answer t outcome => exact hQ.settleReply hq
  | post i message => exact hQ.post hq

private theorem foldl {α : Type} {f : Hub → α → Hub} (hf : ∀ {h}, Q h → ∀ x, Q (f h x))
    (l : List α) (hq : Q h) : Q (l.foldl f h) := by
  induction l generalizing h with
  | nil => exact hq
  | cons x rest ih => exact ih (hf hq x)

private theorem stopRoom (hQ : Steady Q) (hq : Q h) (r : Nat) : Q (h.stopRoom r) := by
  rw [Hub.stopRoom]
  split
  · rename_i cell hc
    exact foldl hQ.discardEvent _ (foldl (fun hq _ => hQ.signal hq) _ (hQ.setRoom hq hc rfl rfl))
  · exact hq

theorem handleEvent (hQ : Steady Q) (hq : Q h) (listener : Ticket → Listener) (r : Nat)
    (e : Event Ticket) : Q (h.handleEvent listener r e) := by
  rw [Hub.handleEvent]
  split
  · rename_i cell hc
    split
    · rename_i room effects hr
      have hset : Q (h.setRoom r { cell with room }) :=
        hQ.setRoom hq hc (Room.header_handle hr) rfl
      exact hQ.discardEvent (foldl hQ.apply _ hset) e
    · exact hQ.stopRoom (hQ.discardEvent hq e) r
  · exact hq

/-- A room's turn. -/
theorem stepRoom (hQ : Steady Q) (hq : Q h) (r : Nat) : Q (h.stepRoom r).2 := by
  rw [Hub.stepRoom]
  split
  · rename_i cell hc
    split
    · exact hq
    split
    · exact hQ.stopRoom hq r
    split
    · rename_i e next events _
      have hset : Q (h.setRoom r { cell with events }) := hQ.setRoom hq hc rfl rfl
      cases next with
      | some t => exact hQ.handleEvent (hQ.signal hset) _ r e
      | none => exact hQ.handleEvent hset _ r e
    · exact hq
    · exact hQ.stopRoom hq r
  · exact hq

theorem takeEvent? (hQ : Steady Q) (hq : Q h) {e : Event Ticket}
    (ht : h.takeEvent? r = some (e, h')) : Q h' := by
  rw [Hub.takeEvent?, Hub.drawEvent?] at ht
  split at ht
  · rename_i cell hc
    split at ht
    · contradiction
    split at ht
    · rename_i event next events _
      have hset : Q (h.setRoom r { cell with events }) := hQ.setRoom hq hc rfl rfl
      obtain ⟨-, rfl⟩ := Prod.mk.inj (Option.some.inj ht)
      cases next with
      | some t => exact hQ.signal hset
      | none => exact hset
    · contradiction
  · contradiction

end Steady

def Halted (h : Hub) (r : Nat) : Prop := ∃ cell, h.rooms[r]? = some cell ∧ cell.cancelled = true

/-- A change that the registry of rooms has no part in, nor the names of the rooms. Rooms asked to
stop stay so. -/
structure KeepsRooms (h h' : Hub) : Prop where
  index : h'.roomIndex = h.roomIndex
  next : h'.nextRoom = h.nextRoom
  size : h'.rooms.size = h.rooms.size
  header (r : Nat) : h'.header r = h.header r
  halted {r : Nat} : h.Halted r → h'.Halted r

theorem KeepsRooms.refl (h : Hub) : h.KeepsRooms h := ⟨rfl, rfl, rfl, fun _ => rfl, id⟩

theorem KeepsRooms.trans (hk : h.KeepsRooms h') (hk' : h'.KeepsRooms h'') : h.KeepsRooms h'' :=
  ⟨hk'.index.trans hk.index, hk'.next.trans hk.next, hk'.size.trans hk.size,
    fun r => (hk'.header r).trans (hk.header r), fun hr => hk'.halted (hk.halted hr)⟩

private theorem keepsRooms_setRoom {cell cell' : RoomCell} (hc : h.rooms[r]? = some cell)
    (hheader : cell'.room.header = cell.room.header)
    (hcancelled : cell.cancelled = true → cell'.cancelled = true) :
    h.KeepsRooms (h.setRoom r cell') := by
  refine ⟨rfl, rfl, Array.size_setIfInBounds, fun s => ?_, fun {s} hs => ?_⟩
  · rw [Hub.header, Hub.header, getElem?_setRoom hc]
    by_cases hs : s = r
    · subst hs
      simp [hc, hheader]
    · simp [hs]
  · obtain ⟨old, ho, hold⟩ := hs
    rw [Halted, getElem?_setRoom hc]
    by_cases hs : s = r
    · subst hs
      obtain rfl := Option.some.inj (hc.symm.trans ho)
      exact ⟨cell', if_pos rfl, hcancelled hold⟩
    · exact ⟨old, (if_neg hs).trans ho, hold⟩

private theorem steady_keepsRooms (h : Hub) : Steady h.KeepsRooms where
  signal hk := hk.trans ⟨rfl, rfl, rfl, fun _ => rfl, id⟩
  setRoom hk hc hheader hcancelled :=
    hk.trans (keepsRooms_setRoom hc hheader fun h => hcancelled.trans h)
  settleReply hk := by
    rw [Hub.settleReply]
    split
    · exact hk.trans ⟨rfl, rfl, rfl, fun _ => rfl, id⟩
    · exact hk
  post hk := by
    rw [Hub.post]
    split <;> exact hk.trans ⟨rfl, rfl, rfl, fun _ => rfl, id⟩

/-- A room's turn asks nobody to stop. -/
private theorem steady_halted (h : Hub) (s : Nat) :
    Steady fun h' => h'.Halted s → h.Halted s where
  signal hk := hk
  setRoom {h' r cell cell'} hk hc _ hcancelled := by
    rintro ⟨found, hfound, hstop⟩
    apply hk
    rw [getElem?_setRoom hc] at hfound
    split at hfound
    · rename_i hs
      obtain rfl := Option.some.inj hfound
      exact ⟨cell, hs ▸ hc, hcancelled.symm.trans hstop⟩
    · exact ⟨found, hfound, hstop⟩
  settleReply hk := by
    rw [Hub.settleReply]
    split <;> exact hk
  post hk := by
    rw [Hub.post]
    split <;> exact hk

theorem halted_of_stepRoom {s : Nat} (hs : (h.stepRoom r).2.Halted s) : h.Halted s :=
  (steady_halted h s).stepRoom id r hs

theorem keepsRooms_stepRoom (h : Hub) (r : Nat) : h.KeepsRooms (h.stepRoom r).2 :=
  (steady_keepsRooms h).stepRoom (.refl h) r

theorem keepsRooms_cancelRoom (h : Hub) (r : Nat) : h.KeepsRooms (h.cancelRoom r) := by
  rw [cancelRoom]
  split
  · rename_i cell hc
    split
    · exact .refl h
    · have hset : h.KeepsRooms (h.setRoom r { cell with cancelled := true }) :=
        keepsRooms_setRoom hc rfl fun _ => rfl
      exact (steady_keepsRooms h).signal hset
  · exact .refl h

/-- The first turn of a removal: whatever room is registered is asked to stop. -/
def haltRoom (h : Hub) (id : RoomId) : Hub :=
  match h.room? id with
  | some r => h.cancelRoom r
  | none => h

def forgetRoom (h : Hub) (id : RoomId) : Option Nat × Hub :=
  match h.room? id with
  | some r => (some r, { h with roomIndex := h.roomIndex.filter (·.1 ≠ id) })
  | none => (none, h)

theorem keepsRooms_haltRoom (h : Hub) (id : RoomId) : h.KeepsRooms (h.haltRoom id) := by
  rw [haltRoom]
  split
  · exact keepsRooms_cancelRoom h _
  · exact .refl h

/-- The second turn gives back what it finds. -/
theorem forgetRoom_fst (h : Hub) (id : RoomId) : (h.forgetRoom id).1 = h.room? id := by
  rw [forgetRoom]
  split <;> simp [*]

/-- A removal that nobody disturbs takes its turns one after the other. -/
theorem removeRoom_eq (h : Hub) (id : RoomId) :
    h.removeRoom id = (h.haltRoom id).forgetRoom id := by
  rw [removeRoom, haltRoom]
  cases hr : h.room? id with
  | none => rw [forgetRoom, hr]
  | some r =>
    have hr' : (h.cancelRoom r).room? id = some r := by
      rw [room?, (keepsRooms_cancelRoom h r).index]
      exact hr
    rw [forgetRoom, hr']

/-- What a call gives back is a room that it has made: the identity was free, and the room is none
of those before, bears the name, has no members, and is about to run. -/
structure Makes (h : Hub) (id : RoomId) (name : String) (result : Nat × Hub) : Prop where
  free : h.room? id = none
  new : result.1 = h.rooms.size
  others : ∀ s < h.rooms.size, result.2.rooms[s]? = h.rooms[s]?
  registered : result.2.room? id = some result.1
  cell : ∃ events, result.2.rooms[result.1]? = some { room := { id, name }, events } ∧
    events.queue = [] ∧ events.closed = false
  spawned : .started (.room result.1) ∈ result.2.signals

structure Removes (h : Hub) (id : RoomId) (result : Option Nat × Hub) : Prop where
  room : ∃ r cell, result.1 = some r ∧ h.room? id = some r ∧ h.rooms[r]? = some cell ∧
    result.2.rooms = h.rooms.setIfInBounds r { cell with cancelled := true }
  forgotten : result.2.room? id = none
  others : ∀ other ≠ id, result.2.room? other = h.room? other
  next : result.2.nextRoom = h.nextRoom

theorem Makes.header_of_lt {result : Nat × Hub} (hm : h.Makes id name result) {s : Nat}
    (hs : s < h.rooms.size) : result.2.header s = h.header s := by
  rw [header, header, hm.others s hs]

theorem Makes.header_new {result : Nat × Hub} (hm : h.Makes id name result) :
    result.2.header result.1 = .header id name := by
  obtain ⟨events, hc, -⟩ := hm.cell
  rw [header, hc]
  rfl

structure Indexed (h : Hub) : Prop where
  sorted : h.roomIndex.Pairwise fun a b => a.1.number < b.1.number
  known : ∀ e ∈ h.roomIndex, e.2 < h.rooms.size ∧ (h.header e.2).id = e.1

theorem room?_eq_none_iff : h.room? id = none ↔ ∀ e ∈ h.roomIndex, e.1 ≠ id := by
  simp only [room?, List.lookup_eq_none_iff, bne_iff_ne]
  exact forall₂_congr fun _ _ => ne_comm

theorem Indexed.room?_eq_some_iff (hi : h.Indexed) :
    h.room? id = some r ↔ (id, r) ∈ h.roomIndex := by
  have hsorted := hi.sorted
  rw [room?]
  generalize h.roomIndex = index at hsorted ⊢
  induction index with
  | nil => simp
  | cons e rest ih =>
    obtain ⟨other, s⟩ := e
    obtain ⟨hlt, hrest⟩ := List.pairwise_cons.mp hsorted
    by_cases ho : id = other
    · subst ho
      have habsent : (id, r) ∉ rest := fun hm => absurd (hlt _ hm) (UInt64.lt_irrefl _)
      simp [habsent, eq_comm]
    · rw [List.lookup_cons, beq_false_of_ne ho]
      simp [ih hrest, ho]

private theorem perm_insertRoom (id : RoomId) (r : Nat) (index : List (RoomId × Nat)) :
    (insertRoom id r index).Perm ((id, r) :: index) := by
  induction index with
  | nil => exact .refl _
  | cons e rest ih =>
    rw [insertRoom]
    split
    · exact .refl _
    · exact (ih.cons e).trans (.swap _ _ _)

private theorem sorted_insertRoom {index : List (RoomId × Nat)} (hfree : ∀ e ∈ index, e.1 ≠ id)
    (hsorted : index.Pairwise fun a b => a.1.number < b.1.number) (r : Nat) :
    (insertRoom id r index).Pairwise fun a b => a.1.number < b.1.number := by
  induction index with
  | nil => simp [insertRoom]
  | cons e rest ih =>
    obtain ⟨hlt, hrest⟩ := List.pairwise_cons.mp hsorted
    rw [insertRoom]
    split
    · rename_i hid
      refine List.pairwise_cons.mpr ⟨fun f hf => ?_, hsorted⟩
      rcases List.mem_cons.mp hf with rfl | hf
      · exact hid
      · exact UInt64.lt_trans hid (hlt f hf)
    · rename_i hid
      have hne : e.1.number ≠ id.number := fun h =>
        hfree e List.mem_cons_self (congrArg RoomId.mk h)
      have hbefore : e.1.number < id.number :=
        UInt64.lt_of_le_of_ne (UInt64.not_lt.mp hid) hne
      have hrest' := ih (fun f hf => hfree f (List.mem_cons_of_mem _ hf)) hrest
      refine List.pairwise_cons.mpr ⟨fun f hf => ?_, hrest'⟩
      rcases List.mem_cons.mp ((perm_insertRoom id r rest).mem_iff.mp hf) with rfl | hf
      · exact hbefore
      · exact hlt f hf

/-- A room forgotten leaves the others where they were. -/
theorem forgetRoom_eq (h : Hub) (id : RoomId) :
    (h.forgetRoom id).2 = { h with roomIndex := h.roomIndex.filter (·.1 ≠ id) } := by
  rw [forgetRoom]
  cases hr : h.room? id with
  | some r => rfl
  | none =>
    have hall : h.roomIndex.filter (·.1 ≠ id) = h.roomIndex :=
      List.filter_eq_self.mpr fun e he => by simpa using room?_eq_none_iff.mp hr e he
    simp only
    rw [hall]

theorem lookup_forget {κ : Type} [DecidableEq κ] {key other : κ} (hother : other ≠ key)
    (index : List (κ × Nat)) : (index.filter (·.1 ≠ key)).lookup other = index.lookup other := by
  induction index with
  | nil => rfl
  | cons e rest ih =>
    obtain ⟨a, s⟩ := e
    by_cases ha : a = key
    · subst ha
      rw [List.filter_cons_of_neg (by simp), List.lookup_cons, beq_false_of_ne hother, ih]
    · rw [List.filter_cons_of_pos (by simpa using ha), List.lookup_cons, List.lookup_cons, ih]

theorem perm_openRoom (hfree : h.room? id = none) (name : String) :
    (h.openRoom id name).2.2.roomIndex.Perm ((id, (h.openRoom id name).1) :: h.roomIndex) := by
  rw [openRoom, hfree]
  exact perm_insertRoom id _ _

/-- Under an identity that is taken, opening a room finds it. -/
theorem openRoom_of_taken (hr : h.room? id = some r) (name : String) :
    h.openRoom id name = (r, false, h) := by
  rw [openRoom, hr]

/-- Under an identity that is free, opening a room makes one. -/
theorem Indexed.makes_openRoom (hi : h.Indexed) (hfree : h.room? id = none) (name : String) :
    h.Makes id name ((h.openRoom id name).1, (h.openRoom id name).2.2) ∧
      (h.openRoom id name).2.2.Indexed := by
  have habsent := room?_eq_none_iff.mp hfree
  have hindexed : (h.openRoom id name).2.2.Indexed := by
    rw [openRoom, hfree]
    refine ⟨sorted_insertRoom habsent hi.sorted _, fun e he => ?_⟩
    rcases List.mem_cons.mp ((perm_insertRoom id _ _).mem_iff.mp he) with rfl | he
    · simp [signal, header, Room.header, RoomSnapshot.header]
    · obtain ⟨hlt, hid⟩ := hi.known e he
      have hold : e.2 ≠ h.rooms.size := hlt.ne
      simp only [signal, header, Array.size_push, Array.getElem?_push, if_neg hold] at hid ⊢
      exact ⟨by omega, hid⟩
  refine ⟨⟨hfree, ?_, ?_, ?_, ?_, ?_⟩, hindexed⟩
  · rw [openRoom, hfree]
  · intro s hs
    rw [openRoom, hfree]
    simp [signal, Array.getElem?_push, hs.ne]
  · rw [hindexed.room?_eq_some_iff, openRoom, hfree]
    exact (perm_insertRoom id _ _).mem_iff.mpr List.mem_cons_self
  · rw [openRoom, hfree]
    exact ⟨Mailbox.ofCapacity id.display h.config.eventCapacity, by simp [signal], rfl, rfl⟩
  · rw [openRoom, hfree]
    exact List.mem_cons_self

private theorem rooms_cancelRoom {cell : RoomCell} (hc : h.rooms[r]? = some cell) :
    (h.cancelRoom r).rooms = h.rooms.setIfInBounds r { cell with cancelled := true } := by
  rw [cancelRoom, hc]
  simp only
  split
  · rename_i hcancelled
    -- the room has been asked before
    apply Array.ext_getElem?
    intro s
    have hset := getElem?_setRoom hc { cell with cancelled := true } s
    rw [← show ({ cell with cancelled := true } : RoomCell) = cell by rw [← hcancelled]] at hc
    rw [setRoom] at hset
    rw [hset]
    split
    · rename_i hs
      rw [hs, hc]
    · rfl
  · rfl

/-- The first turn of a removal asks nobody to stop but whom it finds. -/
theorem halted_of_haltRoom {s : Nat} (hs : (h.haltRoom id).Halted s) :
    h.Halted s ∨ h.room? id = some s := by
  rw [haltRoom] at hs
  split at hs
  · rename_i r hr
    by_cases hsr : s = r
    · exact .inr (hsr ▸ hr)
    · left
      cases hc : h.rooms[r]? with
      | none =>
        rw [cancelRoom, hc] at hs
        exact hs
      | some cell =>
        rw [Halted, rooms_cancelRoom hc, Array.getElem?_setIfInBounds_ne (Ne.symm hsr)] at hs
        exact hs
  · exact .inl hs

/-- A room that is registered is asked to stop. -/
theorem Indexed.halted_haltRoom (hi : h.Indexed) (hr : h.room? id = some r) :
    (h.haltRoom id).Halted r := by
  have hlt := (hi.known _ (hi.room?_eq_some_iff.mp hr)).1
  have hrooms := rooms_cancelRoom (Array.getElem?_eq_getElem hlt)
  rw [haltRoom, hr, Halted]
  simp only
  rw [hrooms, Array.getElem?_setIfInBounds_self_of_lt hlt]
  exact ⟨_, rfl, rfl⟩

/-- A room that is registered is removed. -/
theorem Indexed.removes_removeRoom (hi : h.Indexed) (hr : h.room? id = some r) :
    h.Removes id (h.removeRoom id) := by
  have hlt := (hi.known _ (hi.room?_eq_some_iff.mp hr)).1
  have hc : h.rooms[r]? = some h.rooms[r] := Array.getElem?_eq_getElem hlt
  have hrooms := rooms_cancelRoom hc
  have hkeeps := keepsRooms_cancelRoom h r
  rw [removeRoom, hr]
  refine ⟨⟨r, h.rooms[r], rfl, hr, hc, hrooms⟩, ?_, fun other hother => ?_, hkeeps.next⟩
  · rw [room?_eq_none_iff]
    intro e he
    simpa using (List.mem_filter.mp he).2
  · rw [room?, room?, ← hkeeps.index]
    exact lookup_forget hother _

/-- A removal finds nothing under an identity that is free. -/
theorem removeRoom_of_free (hfree : h.room? id = none) : h.removeRoom id = (none, h) := by
  rw [removeRoom, hfree]

end Hub

end Lobby
