import Lobby.Proofs.RoomNotices

/-! What a broadcast does to the outboxes of a room's members and to all the others, and whom it
counts. -/
namespace Lobby

namespace Mailbox
variable {τ α : Type}

def takes (m : Mailbox τ α) : Bool := !m.closed && !m.isFull

theorem offer_of_takes {m : Mailbox τ α} (h : m.takes = true) (message : α) :
    m.offer message = (.ok (), { m with queue := m.queue ++ [message] }) := by
  simp only [takes, Bool.and_eq_true, Bool.not_eq_true'] at h
  simp [offer, h.1, h.2]

theorem offer_of_closed {m : Mailbox τ α} (h : m.closed = true) (message : α) :
    m.offer message = (.error (.closed m.label), m) := by
  rw [offer, if_pos h]

theorem offer_of_full {m : Mailbox τ α} (hopen : m.closed = false) (hfull : m.isFull = true)
    (message : α) :
    m.offer message = (.error (.full m.label), { m with dropped := m.dropped + 1 }) := by
  simp [offer, hopen, hfull]

end Mailbox

namespace Outboxes

def takes (boxes : Outboxes) (i : Nat) : Bool := boxes[i]?.any Mailbox.takes

@[simp] theorem size_offer (boxes : Outboxes) (i : Nat) (message : Envelope) :
    (boxes.offer i message).2.size = boxes.size := by
  rw [offer.eq_def]
  split
  · exact Array.size_setIfInBounds
  · rfl

theorem takes_offer {i j : Nat} (h : i ≠ j) (boxes : Outboxes) (message : Envelope) :
    (boxes.offer i message).2.takes j = boxes.takes j := by
  rw [takes, takes, getElem?_offer, if_neg h]

/-- An offer succeeds exactly if the outbox takes it. -/
theorem isOk_offer (boxes : Outboxes) (i : Nat) (message : Envelope) :
    (boxes.offer i message).1.isOk = boxes.takes i := by
  rw [offer.eq_def, takes]
  cases hb : boxes[i]? with
  | none => rfl
  | some box =>
    have hoffer : (box.offer message).1.isOk = box.takes := by
      rw [Mailbox.offer, Mailbox.takes]
      cases box.closed <;> cases box.isFull <;> rfl
    simpa using hoffer

variable (message : Envelope)

theorem offerAll_cons (i : Nat) (rest : List Nat) (boxes : Outboxes) :
    boxes.offerAll message (i :: rest) =
      (((boxes.offer i message).2.offerAll message rest).1 + (boxes.takes i).toNat,
        ((boxes.offer i message).2.offerAll message rest).2) := by
  have hok := isOk_offer boxes i message
  rw [offerAll]
  rcases hr : boxes.offer i message with ⟨_ | _, after⟩ <;> rw [hr] at hok <;>
    simp [← hok, Except.isOk, Except.toBool]

@[simp] theorem size_offerAll (is : List Nat) (boxes : Outboxes) :
    (boxes.offerAll message is).2.size = boxes.size := by
  induction is generalizing boxes with
  | nil => rfl
  | cons i rest ih => rw [offerAll_cons, ih, size_offer]

/-- An outbox is offered a message as often as it is named. -/
theorem getElem?_offerAll (is : List Nat) (boxes : Outboxes) (j : Nat) :
    (boxes.offerAll message is).2[j]? =
      boxes[j]?.map fun box => box.offerEach (List.replicate (is.count j) message) := by
  induction is generalizing boxes with
  | nil => simp [offerAll, Mailbox.offerEach]
  | cons i rest ih =>
    rw [offerAll_cons, ih, getElem?_offer, List.count_cons]
    by_cases h : i = j
    · simp [h, Mailbox.offerEach, List.replicate_succ, Function.comp_def]
    · simp [h]

/-- Of distinct outboxes, those that take a message as they stand are counted. -/
theorem offerAll_fst {is : List Nat} (hnodup : is.Nodup) (boxes : Outboxes) :
    (boxes.offerAll message is).1 = is.countP boxes.takes := by
  induction is generalizing boxes with
  | nil => rfl
  | cons i rest ih =>
    obtain ⟨hi, hrest⟩ := List.nodup_cons.mp hnodup
    have hsame : rest.countP (boxes.offer i message).2.takes = rest.countP boxes.takes := by
      apply List.countP_congr
      intro j hj
      have hij : i ≠ j := fun h => hi (h ▸ hj)
      rw [takes_offer hij]
    rw [offerAll_cons, ih hrest, hsame, List.countP_cons]
    cases boxes.takes i <;> rfl

/-- The outboxes that posts of one message leave are those that offers of it leave. -/
theorem deliverAll_posts {ρ : Type} (is : List Nat) (boxes : Outboxes) :
    Effect.deliverAll boxes (is.map fun i => (.post i message : Effect ρ)) =
      (boxes.offerAll message is).2 := by
  induction is generalizing boxes with
  | nil => rfl
  | cons i rest ih =>
    rw [offerAll_cons, ← ih]
    rfl

end Outboxes

namespace Room

variable (room : Room) (exclude : PlayerId) (message : Envelope) (boxes : Outboxes)

/-- A room tells its members how it looks by broadcasting it. -/
theorem deliverAll_notify {ρ : Type} :
    Effect.deliverAll boxes (room.notify (ρ := ρ) exclude) =
      (room.broadcast exclude room.stateMessage boxes).2 :=
  Outboxes.deliverAll_posts ..

/-- What it is for a message to go out to all members of a room but one: the outboxes before and
after it, and the number of members that it is said to have reached. -/
structure Spreads (before after : Outboxes) (reached : Nat) : Prop where
  size : after.size = before.size
  appended : ∀ p ∈ room.members, p.1 ≠ exclude → ∀ box : Outbox, before[p.2.outbox]? = some box →
    box.closed = false → box.isFull = false →
      after[p.2.outbox]? = some { box with queue := box.queue ++ [message] }
  dropped : ∀ p ∈ room.members, p.1 ≠ exclude → ∀ box : Outbox, before[p.2.outbox]? = some box →
    box.closed = false → box.isFull = true →
      after[p.2.outbox]? = some { box with dropped := box.dropped + 1 }
  shut : ∀ (i : Nat) (box : Outbox), before[i]? = some box → box.closed = true →
    after[i]? = some box
  excluded : ∀ p ∈ room.members, p.1 = exclude → after[p.2.outbox]? = before[p.2.outbox]?
  strangers : ∀ i : Nat, (∀ p ∈ room.members, p.2.outbox ≠ i) → after[i]? = before[i]?
  counted : reached = (room.members.filter (·.1 ≠ exclude)).countP (before.takes ·.2.outbox)

variable {room exclude}

/-- Whose outbox a broadcast offers to, if all members have outboxes of their own. -/
theorem mem_recipients_iff {p : PlayerId × Member}
    (hnodup : (room.members.map (·.2.outbox)).Nodup) (hp : p ∈ room.members) :
    p.2.outbox ∈ room.recipients exclude ↔ p.1 ≠ exclude := by
  constructor
  · intro h
    obtain ⟨q, hq, heq⟩ := List.mem_map.mp h
    obtain ⟨hq, hne⟩ := List.mem_filter.mp hq
    have hqp : q = p := List.inj_on_of_nodup_map hnodup hq hp heq
    simpa [hqp] using hne
  · intro h
    exact List.mem_map.mpr ⟨p, List.mem_filter.mpr ⟨hp, by simpa using h⟩, rfl⟩

theorem nodup_recipients (hnodup : (room.members.map (·.2.outbox)).Nodup) :
    (room.recipients exclude).Nodup :=
  hnodup.sublist (List.filter_sublist.map _)

/-- An outbox after a broadcast: offered the message once if it is a recipient's, and as it was
otherwise. -/
theorem getElem?_broadcast (hnodup : (room.members.map (·.2.outbox)).Nodup) (i : Nat) :
    (room.broadcast exclude message boxes).2[i]? =
      if i ∈ room.recipients exclude then boxes[i]?.map fun box => (box.offer message).2
      else boxes[i]? := by
  rw [broadcast, Outboxes.getElem?_offerAll, (nodup_recipients hnodup).count]
  split
  · rfl
  · simp [Mailbox.offerEach]

/-- A broadcast in a room whose members have distinct outboxes reaches each of them but the one
left out exactly once, where the outbox takes it, and touches nothing else. -/
theorem spreads_broadcast (hnodup : (room.members.map (·.2.outbox)).Nodup) :
    room.Spreads exclude message boxes (room.broadcast exclude message boxes).2
      (room.broadcast exclude message boxes).1 := by
  have hrecipient : ∀ p ∈ room.members, p.1 ≠ exclude → ∀ box : Outbox,
      boxes[p.2.outbox]? = some box →
        (room.broadcast exclude message boxes).2[p.2.outbox]? = some (box.offer message).2 := by
    intro p hp hne box hbox
    rw [getElem?_broadcast message boxes hnodup, if_pos ((mem_recipients_iff hnodup hp).mpr hne),
      hbox, Option.map_some]
  have hother : ∀ i : Nat, i ∉ room.recipients exclude →
      (room.broadcast exclude message boxes).2[i]? = boxes[i]? := by
    intro i hi
    rw [getElem?_broadcast message boxes hnodup, if_neg hi]
  refine ⟨Outboxes.size_offerAll .., ?appended, ?dropped, ?shut, ?excluded, ?strangers, ?counted⟩
  case appended =>
    intro p hp hne box hbox hopen hfull
    rw [hrecipient p hp hne box hbox,
      Mailbox.offer_of_takes (by simp [Mailbox.takes, hopen, hfull])]
  case dropped =>
    intro p hp hne box hbox hopen hfull
    rw [hrecipient p hp hne box hbox, Mailbox.offer_of_full hopen hfull]
  case shut =>
    intro i box hbox hclosed
    rw [getElem?_broadcast message boxes hnodup, hbox, Option.map_some,
      Mailbox.offer_of_closed hclosed, ite_self]
  case excluded =>
    intro p hp heq
    exact hother _ fun h => (mem_recipients_iff hnodup hp).mp h heq
  case strangers =>
    intro i hi
    apply hother
    intro h
    obtain ⟨p, hp, rfl⟩ := List.mem_map.mp h
    exact hi p (List.mem_filter.mp hp).1 rfl
  case counted =>
    rw [broadcast, Outboxes.offerAll_fst message (nodup_recipients hnodup), recipients,
      List.countP_map]
    rfl

def trio : Room where
  id := ⟨1⟩
  name := "hall"
  members := [(⟨"a"⟩, ⟨{}, 0⟩), (⟨"b"⟩, ⟨{}, 1⟩), (⟨"c"⟩, ⟨{}, 2⟩)]

/-- The third of these outboxes is full, the last one belongs to nobody of the three. -/
def trioBoxes (message : Envelope) : Outboxes :=
  #[.ofCapacity "a" 1, .ofCapacity "b" 1, { label := "c", capacity := 1, queue := [message] },
    .ofCapacity "d" 1]

theorem trio_spreads : (trio.members.map (·.2.outbox)).Nodup ∧
    trio.Spreads ⟨"a"⟩ trio.stateMessage (trioBoxes trio.stateMessage)
      (trio.broadcast ⟨"a"⟩ trio.stateMessage (trioBoxes trio.stateMessage)).2 1 := by
  have hnodup : (trio.members.map (·.2.outbox)).Nodup := by decide
  exact ⟨hnodup, spreads_broadcast trio.stateMessage (trioBoxes trio.stateMessage) hnodup⟩

end Room
end Lobby
