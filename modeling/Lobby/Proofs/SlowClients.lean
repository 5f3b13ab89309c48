import Mathlib.Data.List.Forall2
import Lobby.Proofs.RoomNotices

/-! What becomes of one player's outboxes is nobody else's concern: two runs of a room that differ
in nothing but these do the same to everybody else. -/
namespace Lobby

def SameBut (owner : Nat → PlayerId) (q : PlayerId) (i j : Nat) : Prop :=
  i = j ∨ owner i = q ∧ owner j = q

/-- Outboxes that are alike but for those of one player, which may be full, closed, or anything. -/
def Outboxes.AlikeBut (owner : Nat → PlayerId) (q : PlayerId) (boxes boxes' : Outboxes) : Prop :=
  ∀ i, owner i ≠ q → boxes'[i]? = boxes[i]?

def Member.AlikeBut (owner : Nat → PlayerId) (q : PlayerId) (e e' : PlayerId × Member) : Prop :=
  e'.1 = e.1 ∧ e'.2.profile = e.2.profile ∧ SameBut owner q e.2.outbox e'.2.outbox

structure Room.AlikeBut (owner : Nat → PlayerId) (q : PlayerId) (room room' : Room) : Prop where
  id : room'.id = room.id
  name : room'.name = room.name
  members : List.Forall₂ (Member.AlikeBut owner q) room.members room'.members

inductive Effect.AlikeBut {ρ : Type} (owner : Nat → PlayerId) (q : PlayerId) :
    Effect ρ → Effect ρ → Prop
  | answer (requester : ρ) (outcome : Outcome) :
      AlikeBut owner q (.answer requester outcome) (.answer requester outcome)
  | post {i j : Nat} (same : SameBut owner q i j) (message : Envelope) :
      AlikeBut owner q (.post i message) (.post j message)

variable {ρ : Type} {owner : Nat → PlayerId} {q : PlayerId}

theorem Outboxes.AlikeBut.offer {boxes boxes' : Outboxes} (h : boxes.AlikeBut owner q boxes')
    {i j : Nat} (hij : SameBut owner q i j) (message : Envelope) :
    (boxes.offer i message).2.AlikeBut owner q (boxes'.offer j message).2 := by
  intro k hk
  rw [getElem?_offer, getElem?_offer, h k hk]
  rcases hij with rfl | ⟨hi, hj⟩
  · rfl
  · -- neither outbox is the one that is looked at
    have hik : i ≠ k := fun h => hk (h ▸ hi)
    have hjk : j ≠ k := fun h => hk (h ▸ hj)
    rw [if_neg hik, if_neg hjk]

def Effect.answer? : Effect ρ → Option (ρ × Outcome)
  | .answer requester outcome => some (requester, outcome)
  | .post .. => none

namespace Effect
variable {effects effects' : List (Effect ρ)}

theorem alikeBut_deliverAll (h : List.Forall₂ (AlikeBut owner q) effects effects')
    {boxes boxes' : Outboxes} (hb : boxes.AlikeBut owner q boxes') :
    (deliverAll boxes effects).AlikeBut owner q (deliverAll boxes' effects') := by
  induction h generalizing boxes boxes' with
  | nil => exact hb
  | cons he _ ih =>
    apply ih
    cases he with
    | answer => exact hb
    | post same message => exact hb.offer same message

theorem answers_eq (h : List.Forall₂ (AlikeBut owner q) effects effects') :
    effects'.filterMap answer? = effects.filterMap answer? := by
  induction h with
  | nil => rfl
  | cons he _ ih =>
    cases he with
    | answer requester outcome => exact congrArg ((requester, outcome) :: ·) ih
    | post => exact ih

end Effect

namespace Room
variable {room room' : Room} {members members' : List (PlayerId × Member)}

private theorem alikeBut_lookup (h : List.Forall₂ (Member.AlikeBut owner q) members members')
    (p : PlayerId) : Option.Rel (fun m m' => Member.AlikeBut owner q (p, m) (p, m'))
      (members.lookup p) (members'.lookup p) := by
  induction h with
  | nil => exact .none
  | @cons e e' rest rest' he _ ih =>
    obtain ⟨other, m⟩ := e
    obtain ⟨other', m'⟩ := e'
    obtain ⟨hid, hmember⟩ := he
    obtain rfl : other' = other := hid
    rw [List.lookup_cons, List.lookup_cons]
    cases p == other' with
    | true => exact .some ⟨rfl, hmember⟩
    | false => exact ih

private theorem alikeBut_insertMember
    (h : List.Forall₂ (Member.AlikeBut owner q) members members') {p : PlayerId} {m m' : Member}
    (hm : Member.AlikeBut owner q (p, m) (p, m')) :
    List.Forall₂ (Member.AlikeBut owner q) (insertMember p m members)
      (insertMember p m' members') := by
  induction h with
  | nil => exact .cons hm .nil
  | @cons e e' rest rest' he hrest ih =>
    obtain ⟨other, n⟩ := e
    obtain ⟨other', n'⟩ := e'
    obtain rfl : other' = other := he.1
    rw [insertMember, insertMember]
    cases p.compare other' with
    | lt => exact .cons hm (.cons he hrest)
    | eq => exact .cons hm hrest
    | gt => exact .cons he ih

namespace AlikeBut

theorem member? (h : room.AlikeBut owner q room') (p : PlayerId) :
    Option.Rel (fun m m' => Member.AlikeBut owner q (p, m) (p, m')) (room.member? p)
      (room'.member? p) :=
  alikeBut_lookup h.members p

theorem hasMember (h : room.AlikeBut owner q room') (p : PlayerId) :
    room'.hasMember p = room.hasMember p := by
  have hm := h.member? p
  rw [Room.hasMember, Room.hasMember]
  generalize room.member? p = m at hm ⊢
  generalize room'.member? p = m' at hm ⊢
  cases hm <;> rfl

theorem insert (h : room.AlikeBut owner q room') {p : PlayerId} {m m' : Member}
    (hm : Member.AlikeBut owner q (p, m) (p, m')) :
    (room.insert p m).AlikeBut owner q (room'.insert p m') :=
  ⟨h.id, h.name, alikeBut_insertMember h.members hm⟩

theorem erase (h : room.AlikeBut owner q room') (p : PlayerId) :
    (room.erase p).AlikeBut owner q (room'.erase p) := by
  refine ⟨h.id, h.name, List.rel_filter ?_ h.members⟩
  intro e e' he
  simp [he.1]

theorem snapshot (h : room.AlikeBut owner q room') : room'.snapshot = room.snapshot := by
  have hplayers : List.Forall₂ Eq room.snapshot.players room'.snapshot.players := by
    refine List.rel_map ?_ h.members
    rintro ⟨p, m⟩ ⟨p', m'⟩ ⟨hid, hprofile, -⟩
    simp only at hid hprofile ⊢
    rw [hid, hprofile]
  rw [List.forall₂_eq_eq_eq] at hplayers
  simp only [Room.snapshot] at hplayers ⊢
  rw [h.id, h.name, hplayers]

theorem recipients (h : room.AlikeBut owner q room') (exclude : PlayerId) :
    List.Forall₂ (SameBut owner q) (room.recipients exclude) (room'.recipients exclude) := by
  rw [recipients_eq, recipients_eq]
  exact List.rel_map (fun _ _ he => he.2.2) (h.erase exclude).members

theorem notify (h : room.AlikeBut owner q room') (exclude : PlayerId) :
    List.Forall₂ (Effect.AlikeBut (ρ := ρ) owner q) (room.notify exclude)
      (room'.notify exclude) := by
  have hmessage : room'.stateMessage = room.stateMessage := by
    rw [stateMessage, stateMessage, h.snapshot]
  rw [Room.notify, Room.notify, hmessage]
  exact List.rel_map (fun _ _ hij => .post hij _) (h.recipients exclude)

theorem answer (h : room.AlikeBut owner q room') (listener : ρ → Listener) (reply : Option ρ)
    (ret : ResultCode) : List.Forall₂ (Effect.AlikeBut owner q) (room.answer listener reply ret)
      (room'.answer listener reply ret) := by
  rw [Room.answer.eq_def, Room.answer.eq_def, h.snapshot]
  split
  · split
    · exact .nil
    · exact .cons (.answer _ _) .nil
  · exact .nil

end AlikeBut

def ReactAlike (owner : Nat → PlayerId) (q : PlayerId) (x x' : Room × List (Effect ρ)) : Prop :=
  x.1.AlikeBut owner q x'.1 ∧ List.Forall₂ (Effect.AlikeBut owner q) x.2 x'.2

namespace AlikeBut

private theorem join (h : room.AlikeBut owner q room') (listener : ρ → Listener)
    {lookup lookup' : PlayerId → Option Nat}
    (hl : ∀ p, Option.Rel (SameBut owner q) (lookup p) (lookup' p)) (p : PlayerId)
    (profile : Profile) (reply : Option ρ) :
    ReactAlike owner q (room.join listener lookup p profile reply)
      (room'.join listener lookup' p profile reply) := by
  rw [Room.join, Room.join, h.hasMember]
  split
  · exact ⟨h, .nil⟩
  split
  · exact ⟨h, h.answer _ _ _⟩
  have hp := hl p
  generalize lookup p = found at hp ⊢
  generalize lookup' p = found' at hp ⊢
  cases hp with
  | none => exact ⟨h, h.answer _ _ _⟩
  | @some outbox outbox' same =>
    have hnew : Member.AlikeBut owner q (p, ⟨profile, outbox⟩) (p, ⟨profile, outbox'⟩) :=
      ⟨rfl, rfl, same⟩
    have hjoined := h.insert hnew
    simp only
    split
    · exact ⟨hjoined, List.rel_append (hjoined.answer _ _ _) (hjoined.notify _)⟩
    · exact ⟨hjoined.erase p, .nil⟩

private theorem leave (h : room.AlikeBut owner q room') (listener : ρ → Listener) (p : PlayerId)
    (reply : Option ρ) : ReactAlike owner q (room.leave listener p reply)
      (room'.leave listener p reply) := by
  rw [Room.leave, Room.leave, h.hasMember]
  split
  · have hleft := h.erase p
    exact ⟨hleft, List.rel_append (hleft.notify _) (hleft.answer _ _ _)⟩
  · exact ⟨h, h.answer _ _ _⟩

private theorem move (h : room.AlikeBut owner q room') (p : PlayerId) (profile : Profile) :
    ReactAlike (ρ := ρ) owner q (room.move p profile) (room'.move p profile) := by
  have hm := h.member? p
  rw [Room.move.eq_def, Room.move.eq_def]
  generalize room.member? p = m at hm ⊢
  generalize room'.member? p = m' at hm ⊢
  cases hm with
  | none => exact ⟨h, .nil⟩
  | @some m m' hmember =>
    have hnew : Member.AlikeBut owner q (p, { m with profile }) (p, { m' with profile }) :=
      ⟨rfl, rfl, hmember.2.2⟩
    have hmoved := h.insert hnew
    exact ⟨hmoved, hmoved.notify p⟩

/-- A room that handles an event, whatever its reactions, does so alike, or dies of it alike. -/
theorem handle (h : room.AlikeBut owner q room') (reactions : Reactions) (listener : ρ → Listener)
    {lookup lookup' : PlayerId → Option Nat}
    (hl : ∀ p, Option.Rel (SameBut owner q) (lookup p) (lookup' p)) (event : Event ρ) :
    Option.Rel (ReactAlike owner q) (room.handle reactions listener lookup event)
      (room'.handle reactions listener lookup' event) := by
  obtain ⟨p, body⟩ := event
  rw [Room.handle, Room.handle]
  split
  · rename_i kind _
    apply Option.Rel.some
    cases kind <;> cases body
    case join.join => exact h.join listener hl p _ _
    case leave.leave => exact h.leave listener p _
    case move.move => exact h.move p _
    all_goals exact ⟨h, .nil⟩
  · exact .none
  · exact .some ⟨h, .nil⟩

end AlikeBut

end Room

inductive Incident (ρ : Type) where
  | event (occasion : Occasion ρ)
  | elsewhere (change : Outboxes → Outboxes)

/-- Incidents of two runs that are alike but for one player's outboxes: the same event meets the
same requesters, and finds a player in both directories or in neither; others do the same to all
outboxes but that player's. -/
inductive Incident.AlikeBut (owner : Nat → PlayerId) (q : PlayerId) :
    Incident ρ → Incident ρ → Prop
  | event {event : Event ρ} {listener : ρ → Listener} {lookup lookup' : PlayerId → Option Nat}
      (known : ∀ p, Option.Rel (SameBut owner q) (lookup p) (lookup' p)) :
      AlikeBut owner q (.event ⟨event, listener, lookup⟩) (.event ⟨event, listener, lookup'⟩)
  | elsewhere {change change' : Outboxes → Outboxes}
      (others : ∀ boxes boxes' : Outboxes, boxes.AlikeBut owner q boxes' →
        (change boxes).AlikeBut owner q (change' boxes')) :
      AlikeBut owner q (.elsewhere change) (.elsewhere change')

structure Setting (ρ : Type) where
  room : Option Room
  boxes : Outboxes
  answers : List (ρ × Outcome) := []

namespace Setting

def play (reactions : Reactions) (s : Setting ρ) : Incident ρ → Setting ρ
  | .event o =>
    match s.room with
    | some room =>
      match room.handle reactions o.listener o.lookup o.event with
      | some (room, effects) =>
        { room := some room
          boxes := Effect.deliverAll s.boxes effects
          answers := s.answers ++ effects.filterMap Effect.answer? }
      | none => { s with room := none }
    | none => s
  | .elsewhere change => { s with boxes := change s.boxes }

def playAll (reactions : Reactions) (s : Setting ρ) (incidents : List (Incident ρ)) : Setting ρ :=
  incidents.foldl (play reactions) s

structure AlikeBut (owner : Nat → PlayerId) (q : PlayerId) (s s' : Setting ρ) : Prop where
  room : Option.Rel (Room.AlikeBut owner q) s.room s'.room
  boxes : s.boxes.AlikeBut owner q s'.boxes
  answers : s'.answers = s.answers

variable {s s' : Setting ρ}

/-- An incident keeps two settings alike. -/
theorem AlikeBut.play (h : s.AlikeBut owner q s') (reactions : Reactions) {x x' : Incident ρ}
    (hx : x.AlikeBut owner q x') :
    (s.play reactions x).AlikeBut owner q (s'.play reactions x') := by
  obtain ⟨room, boxes, answers⟩ := s
  obtain ⟨room', boxes', answers'⟩ := s'
  obtain ⟨hroom, hboxes, rfl⟩ := h
  cases hx with
  | elsewhere others => exact ⟨hroom, others _ _ hboxes, rfl⟩
  | @event event listener lookup lookup' known =>
    cases hroom with
    | none => exact ⟨.none, hboxes, rfl⟩
    | @some room room' hroom =>
      have hh := hroom.handle reactions listener known event
      simp only [Setting.play]
      generalize room.handle reactions listener lookup event = result at hh ⊢
      generalize room'.handle reactions listener lookup' event = result' at hh ⊢
      cases hh with
      | none => exact ⟨.none, hboxes, rfl⟩
      | some hreact =>
        exact ⟨.some hreact.1, Effect.alikeBut_deliverAll hreact.2 hboxes,
          congrArg (answers' ++ ·) (Effect.answers_eq hreact.2)⟩

theorem AlikeBut.playAll (h : s.AlikeBut owner q s') (reactions : Reactions)
    {incidents incidents' : List (Incident ρ)}
    (hx : List.Forall₂ (Incident.AlikeBut owner q) incidents incidents') :
    (s.playAll reactions incidents).AlikeBut owner q (s'.playAll reactions incidents') := by
  induction hx generalizing s s' with
  | nil => exact h
  | cons hone _ ih => exact ih (h.play reactions hone)

/-- A slow client, or one that has gone, does not affect the others. Two rooms that differ only in
the outboxes of one player, whose events meet the same requesters and directories that know the same
players, come to list the same members under the same names and positions, give the same answers,
and leave the same in every outbox of anybody else. That is so whatever the reactions of the
room. -/
theorem slow_client_unnoticed (reactions : Reactions) {room room' : Room} {boxes boxes' : Outboxes}
    (hroom : room.AlikeBut owner q room') (hboxes : boxes.AlikeBut owner q boxes')
    {incidents incidents' : List (Incident ρ)}
    (h : List.Forall₂ (Incident.AlikeBut owner q) incidents incidents') :
    (playAll reactions ⟨some room', boxes', []⟩ incidents').room.map Room.snapshot =
        (playAll reactions ⟨some room, boxes, []⟩ incidents).room.map Room.snapshot ∧
      (playAll reactions ⟨some room', boxes', []⟩ incidents').answers =
        (playAll reactions ⟨some room, boxes, []⟩ incidents).answers ∧
      ∀ i, owner i ≠ q →
        (playAll reactions ⟨some room', boxes', []⟩ incidents').boxes[i]? =
          (playAll reactions ⟨some room, boxes, []⟩ incidents).boxes[i]? := by
  have hstart : (⟨some room, boxes, []⟩ : Setting ρ).AlikeBut owner q ⟨some room', boxes', []⟩ :=
    ⟨.some hroom, hboxes, rfl⟩
  obtain ⟨hlast, hothers, hanswers⟩ := hstart.playAll reactions h
  refine ⟨?_, hanswers, hothers⟩
  generalize (playAll reactions ⟨some room, boxes, []⟩ incidents).room = last at hlast ⊢
  generalize (playAll reactions ⟨some room', boxes', []⟩ incidents').room = last' at hlast ⊢
  cases hlast with
  | none => rfl
  | some hroom => exact congrArg some hroom.snapshot

def stallOwner (i : Nat) : PlayerId :=
  if i = 0 then ⟨"a"⟩ else ⟨"b"⟩

def stallRoom (outbox : Nat) : Room where
  id := ⟨1⟩
  name := "hall"
  members := [(⟨"a"⟩, ⟨{}, 0⟩), (⟨"b"⟩, ⟨{}, outbox⟩)]

/-- `a` moves twice; then `b`, whose outboxes others have turned to, leaves and comes back. -/
def stall (change : Outboxes → Outboxes) (outbox : Nat) : List (Incident Nat) :=
  let lookup : PlayerId → Option Nat := fun p => if p = ⟨"a"⟩ then some 0 else some outbox
  let event := fun e => Incident.event ⟨e, fun _ => .waiting, lookup⟩
  [event ⟨⟨"a"⟩, .move { name := "A" }⟩, event ⟨⟨"a"⟩, .move { name := "AA" }⟩, .elsewhere change,
    event ⟨⟨"b"⟩, .leave (some 7)⟩, event ⟨⟨"b"⟩, .join { name := "B" } (some 8)⟩]

/-- `b` reads what comes to it, or has a closed outbox. -/
theorem slow_client_unnoticed_stall :
    let boxes : Outboxes := #[.ofCapacity "a" 4, .ofCapacity "b" 1]
    let boxes' : Outboxes :=
      #[.ofCapacity "a" 4, .ofCapacity "b" 1, (Mailbox.ofCapacity "b" 1).close]
    let read : Outboxes → Outboxes := fun boxes => boxes.modify 1 fun box => box.takeAll.2
    let swift := playAll .standard ⟨some (stallRoom 1), boxes, []⟩ (stall read 1)
    let stalled := playAll .standard ⟨some (stallRoom 2), boxes', []⟩ (stall id 2)
    (swift.boxes[1]?.map (·.dropped) = some 1 ∧ stalled.boxes[2]?.map (·.queue) = some [] ∧
      swift.boxes[0]?.map (·.queue.length) = some 2) ∧
    stalled.room.map Room.snapshot = swift.room.map Room.snapshot ∧
      stalled.answers = swift.answers ∧
      ∀ i, stallOwner i ≠ ⟨"b"⟩ → stalled.boxes[i]? = swift.boxes[i]? := by
  intro boxes boxes' read swift stalled
  have hother : ∀ i, stallOwner i ≠ ⟨"b"⟩ → i = 0 := by
    intro i hi
    by_contra h
    exact hi (if_neg h)
  have hboxes : boxes.AlikeBut stallOwner ⟨"b"⟩ boxes' := by
    intro i hi
    rw [hother i hi]
    rfl
  have hroom : (stallRoom 1).AlikeBut stallOwner ⟨"b"⟩ (stallRoom 2) :=
    ⟨rfl, rfl, .cons ⟨rfl, rfl, .inl rfl⟩ (.cons ⟨rfl, rfl, .inr ⟨rfl, rfl⟩⟩ .nil)⟩
  have hknown : ∀ p : PlayerId, Option.Rel (SameBut stallOwner ⟨"b"⟩)
      (if p = ⟨"a"⟩ then some 0 else some 1) (if p = ⟨"a"⟩ then some 0 else some 2) := by
    intro p
    split
    · exact .some (.inl rfl)
    · exact .some (.inr ⟨rfl, rfl⟩)
  have hread : (Incident.elsewhere (ρ := Nat) read).AlikeBut stallOwner ⟨"b"⟩ (.elsewhere id) := by
    refine .elsewhere fun boxes boxes' h i hi => ?_
    rw [id, h i hi, hother i hi]
    simp [read, Array.getElem?_modify]
  have hstall : List.Forall₂ (Incident.AlikeBut stallOwner ⟨"b"⟩) (stall read 1) (stall id 2) :=
    .cons (.event hknown) (.cons (.event hknown) (.cons hread (.cons (.event hknown)
      (.cons (.event hknown) .nil))))
  exact ⟨by decide +kernel, slow_client_unnoticed .standard hroom hboxes hstall⟩

end Setting

end Lobby
