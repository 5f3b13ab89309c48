import Lobby.Hub.Rendezvous
import Lobby.Proofs.MailboxSteps
import Lobby.Proofs.RoomMembers

/-! What the rooms hold of one player, and what each operation of the hub does to that. -/
namespace Lobby

def Event.bindsTo {ρ : Type} (e : Event ρ) (p : PlayerId) : Bool :=
  e.player = p && (e.kind = .join || e.kind = .leave)

/-- Whether an event has to do with the player of session number `n`: it binds the player to a room
or sets it free, or its answer goes to the dispatcher. -/
def Event.concerns (e : Event Ticket) (p : PlayerId) (n : Nat) : Bool :=
  e.bindsTo p || e.reply?.any fun t => t.owner = .dispatcher n

theorem Event.concerns_of_bindsTo {e : Event Ticket} {p : PlayerId} (h : e.bindsTo p = true)
    (n : Nat) : e.concerns p n = true := by
  simp [concerns, h]

def Task.ActsFor (owner : Task) (n : Nat) : Prop := owner = .dispatcher n ∨ owner = .supervisor n

instance (owner : Task) (n : Nat) : Decidable (owner.ActsFor n) :=
  inferInstanceAs (Decidable (_ ∨ _))

/-- What a room holds of a player: whether it lists it, and the events that concern it, those it has
taken or queued and those that wait for a slot. -/
structure View where
  id : RoomId
  listed : Bool
  events : List (Event Ticket)
  waits : List (Ticket × Event Ticket)

abbrev Hands := Nat → Option (Event Ticket)

def Mailbox.waitsOf (m : Mailbox Ticket (Event Ticket)) (p : PlayerId) (n : Nat) :
    List (Ticket × Event Ticket) :=
  m.underWay.filter fun w => w.1.owner.ActsFor n || w.2.concerns p n

def RoomCell.view (cell : RoomCell) (hand : Option (Event Ticket)) (p : PlayerId) (n : Nat) :
    View where
  id := cell.room.id
  listed := cell.room.hasMember p
  events := (hand.toList ++ cell.events.queue).filter (·.concerns p n)
  waits := cell.events.waitsOf p n

/-- All that a player's dispatcher depends on: the rooms as they stand to the player, the registry
of rooms, and the replies. -/
structure Outlook where
  view : Nat → Option View
  room? : RoomId → Option Nat
  reply? : Ticket → Option Reply
  nextSerial : Nat

def Hub.outlook (h : Hub) (hands : Hands) (p : PlayerId) (n : Nat) : Outlook where
  view r := h.rooms[r]?.map fun cell => cell.view (hands r) p n
  room? := h.room?
  reply? := h.reply?
  nextSerial := h.nextSerial

namespace Outlook

def modify (o : Outlook) (r : Nat) (f : View → View) : Outlook :=
  { o with view := fun s => if s = r then (o.view s).map f else o.view s }

def push (o : Outlook) (r : Nat) (e : Event Ticket) : Outlook :=
  o.modify r fun v => { v with events := v.events ++ [e] }

/-- Others act. They leave what the player knows as it is, and new rooms know nothing of it. -/
structure Grows (n : Nat) (o o' : Outlook) : Prop where
  kept {r : Nat} {v : View} : o.view r = some v → o'.view r = some v
  fresh {r : Nat} {v : View} : o'.view r = some v → o.view r = none →
    o.room? v.id = none ∧ v.listed = false ∧ v.events = [] ∧ v.waits = []
  room? {id : RoomId} {r : Nat} : o.room? id = some r → o'.room? id = some r
  reply? {t : Ticket} : t.owner = .dispatcher n → o'.reply? t = o.reply? t
  nextSerial : o.nextSerial ≤ o'.nextSerial

variable {n : Nat} {o o' o'' : Outlook}

theorem Grows.refl (n : Nat) (o : Outlook) : o.Grows n o :=
  ⟨id, fun h h' => by simp [h] at h', id, fun _ => rfl, Nat.le_refl _⟩

theorem Grows.trans (h : o.Grows n o') (h' : o'.Grows n o'') : o.Grows n o'' := by
  refine ⟨fun hv => h'.kept (h.kept hv), ?_, fun hr => h'.room? (h.room? hr),
    fun ht => (h'.reply? ht).trans (h.reply? ht), Nat.le_trans h.nextSerial h'.nextSerial⟩
  intro r v hv hnone
  cases hv' : o'.view r with
  | some v' =>
    obtain rfl := Option.some.inj ((h'.kept hv').symm.trans hv)
    exact h.fresh hv' hnone
  | none =>
    obtain ⟨hid, hfresh⟩ := h'.fresh hv hv'
    refine ⟨?_, hfresh⟩
    cases hid' : o.room? v.id with
    | none => rfl
    | some s => simp [h.room? hid'] at hid

structure Indexed (o : Outlook) : Prop where
  registered {r : Nat} {v : View} : o.view r = some v → o.room? v.id = some r
  indexed {id : RoomId} {r : Nat} : o.room? id = some r → ∃ v, o.view r = some v ∧ v.id = id

def Owned (n : Nat) (o : Outlook) : Prop :=
  ∀ r v w, o.view r = some v → w ∈ v.waits → w.1.owner.ActsFor n

theorem Grows.owned (h : o.Grows n o') (ho : o.Owned n) : o'.Owned n := by
  intro r v w hv hw
  cases hv' : o.view r with
  | some v' =>
    obtain rfl := Option.some.inj ((h.kept hv').symm.trans hv)
    exact ho r v' w hv' hw
  | none => simp [(h.fresh hv hv').2.2.2] at hw

end Outlook

structure RoomCell.Running (cell : RoomCell) : Prop where
  cancelled : cell.cancelled = false
  stopped : cell.stopped = false
  closed : cell.events.closed = false
  senders : cell.events.senders ≠ 0

structure Hub.Live (h : Hub) : Prop where
  reactions : h.reactions = Reactions.standard
  running {r : Nat} {cell : RoomCell} : h.rooms[r]? = some cell → cell.Running
  registered {r : Nat} {cell : RoomCell} : h.rooms[r]? = some cell →
    h.room? cell.room.id = some r
  indexed {id : RoomId} {r : Nat} : h.room? id = some r →
    ∃ cell, h.rooms[r]? = some cell ∧ cell.room.id = id

namespace Hub
variable {h : Hub} {hands : Hands} {p : PlayerId} {n : Nat}

theorem Live.congr {h' : Hub} (hl : h.Live) (hr : h'.rooms = h.rooms)
    (hi : h'.roomIndex = h.roomIndex) (hs : h'.reactions = h.reactions) : h'.Live := by
  obtain ⟨reactions, running, registered, indexed⟩ := hl
  simp only [room?] at registered indexed
  constructor <;> simp only [room?, hr, hi, hs] <;> assumption

theorem getElem?_setRoom {r : Nat} {cell : RoomCell} (hc : h.rooms[r]? = some cell)
    (cell' : RoomCell) (s : Nat) :
    (h.setRoom r cell').rooms[s]? = if s = r then some cell' else h.rooms[s]? := by
  have hlt := (Array.getElem?_eq_some_iff.mp hc).1
  rw [setRoom, Array.getElem?_setIfInBounds]
  by_cases hs : r = s
  · subst hs
    simp [hlt]
  · simp [hs, Ne.symm hs]

theorem Live.setRoom (hl : h.Live) {r : Nat} {cell cell' : RoomCell} (hc : h.rooms[r]? = some cell)
    (hrun : cell'.Running) (hid : cell'.room.id = cell.room.id) : (h.setRoom r cell').Live := by
  have hat := getElem?_setRoom hc cell'
  refine ⟨hl.reactions, ?_, ?_, ?_⟩
  · intro s other hs
    rw [hat] at hs
    split at hs
    · obtain rfl := Option.some.inj hs
      exact hrun
    · exact hl.running hs
  · intro s other hs
    rw [hat] at hs
    split at hs
    · obtain rfl := Option.some.inj hs
      rw [hid]
      rename_i heq
      subst heq
      exact hl.registered hc
    · exact hl.registered hs
  · intro id s hs
    obtain ⟨other, ho, hio⟩ := hl.indexed hs
    rw [hat]
    split
    · rename_i heq
      subst heq
      obtain rfl := Option.some.inj (hc.symm.trans ho)
      exact ⟨cell', rfl, hid.trans hio⟩
    · exact ⟨other, ho, hio⟩

theorem Live.setEvents (hl : h.Live) {r : Nat} {cell : RoomCell} (hc : h.rooms[r]? = some cell)
    {events : Mailbox Ticket (Event Ticket)} (hclosed : events.closed = cell.events.closed)
    (hsenders : events.senders = cell.events.senders) :
    (h.setRoom r { cell with events }).Live := by
  have hrun := hl.running hc
  refine hl.setRoom hc ?_ rfl
  exact ⟨hrun.cancelled, hrun.stopped, hclosed.trans hrun.closed, hsenders ▸ hrun.senders⟩

theorem view_outlook {r : Nat} {cell : RoomCell} (hc : h.rooms[r]? = some cell) :
    (h.outlook hands p n).view r = some (cell.view (hands r) p n) := by
  simp [outlook, hc]

theorem Live.coherent (hl : h.Live) : (h.outlook hands p n).Indexed := by
  constructor
  · intro r v hv
    obtain ⟨cell, hc, rfl⟩ := Option.map_eq_some_iff.mp hv
    exact hl.registered hc
  · intro id r hr
    obtain ⟨cell, hc, hid⟩ := hl.indexed hr
    exact ⟨_, view_outlook hc, hid⟩

theorem outlook_setRoom {r : Nat} {cell : RoomCell} (hc : h.rooms[r]? = some cell)
    (cell' : RoomCell) :
    (h.setRoom r cell').outlook hands p n =
      (h.outlook hands p n).modify r fun _ => cell'.view (hands r) p n := by
  simp only [outlook, Outlook.modify, getElem?_setRoom hc]
  congr 1
  funext s
  split
  · rename_i hs
    subst hs
    simp [hc]
  · rfl

theorem outlook_setRoom_of_view {r : Nat} {cell cell' : RoomCell} (hc : h.rooms[r]? = some cell)
    (hview : cell'.view (hands r) p n = cell.view (hands r) p n) :
    (h.setRoom r cell').outlook hands p n = h.outlook hands p n := by
  rw [outlook_setRoom hc, hview]
  simp only [outlook, Outlook.modify]
  congr 1
  funext s
  split
  · rename_i hs
    subst hs
    simp [hc]
  · rfl

theorem reply?_openReply (h : Hub) (t t' : Ticket) :
    (h.openReply t).reply? t' = if t' = t then some .awaited else h.reply? t' := by
  by_cases ht : t' = t
  · simp [openReply, reply?, ht]
  · simp [openReply, reply?, List.lookup_cons, beq_false_of_ne ht, ht]

theorem reply?_closeReply (h : Hub) (t t' : Ticket) :
    (h.closeReply t).reply? t' = if t' = t then none else h.reply? t' := by
  simp only [closeReply, reply?]
  induction h.replies with
  | nil => simp
  | cons e rest ih =>
    obtain ⟨s, reply⟩ := e
    rw [List.filter_cons]
    by_cases hs : s = t
    · subst hs
      simp only [ne_eq, not_true, decide_false, Bool.false_eq_true, if_false, ih]
      by_cases ht : t' = s
      · simp [ht]
      · simp [ht, List.lookup_cons, beq_false_of_ne ht]
    · simp only [ne_eq, hs, not_false_eq_true, decide_true, if_true, List.lookup_cons, ih]
      by_cases ht : t' = s
      · subst ht
        simp [hs]
      · simp [beq_false_of_ne ht]

private theorem lookup_settle (t t' : Ticket) (reply : Reply) (replies : List (Ticket × Reply)) :
    (replies.map fun e => if e.1 = t then (t, reply) else e).lookup t' =
      if t' = t then (replies.lookup t).map fun _ => reply else replies.lookup t' := by
  induction replies with
  | nil => simp
  | cons e rest ih =>
    obtain ⟨s, standing⟩ := e
    rw [List.map_cons]
    by_cases hs : s = t
    · subst hs
      by_cases ht : t' = s
      · simp [ht]
      · simp [List.lookup_cons, beq_false_of_ne ht, ih, ht]
    · simp only [hs, if_false, List.lookup_cons, ih, beq_false_of_ne (Ne.symm hs)]
      by_cases ht : t' = s
      · subst ht
        simp [hs]
      · simp [beq_false_of_ne ht]

theorem reply?_settleReply (h : Hub) (t t' : Ticket) (reply : Reply) :
    (h.settleReply t reply).reply? t' =
      if t' = t ∧ h.reply? t = some .awaited then some reply else h.reply? t' := by
  rw [settleReply]
  cases ht : h.reply? t with
  | none => simp
  | some standing =>
    cases standing with
    | awaited =>
      have hlookup : h.replies.lookup t = some .awaited := ht
      simp only [reply?, signal, lookup_settle, hlookup, Option.map_some, and_true]
    | _ => simp

structure Spares (hands : Hands) (p : PlayerId) (n : Nat) (h h' : Hub) : Prop where
  live : h'.Live
  grows : (h.outlook hands p n).Grows n (h'.outlook hands p n)

theorem Live.spares (hl : h.Live) : Spares hands p n h h :=
  ⟨hl, .refl _ _⟩

theorem Spares.trans {h' h'' : Hub} (hs : Spares hands p n h h') (hs' : Spares hands p n h' h'') :
    Spares hands p n h h'' :=
  ⟨hs'.live, hs.grows.trans hs'.grows⟩

/-- A change of anything but rooms, registry of rooms, and replies to the dispatcher. -/
theorem Live.spares_of_rooms (hl : h.Live) {h' : Hub} (hr : h'.rooms = h.rooms)
    (hi : h'.roomIndex = h.roomIndex) (hs : h'.reactions = h.reactions)
    (hreply : ∀ t, t.owner = .dispatcher n → h'.reply? t = h.reply? t)
    (hserial : h.nextSerial ≤ h'.nextSerial) : Spares hands p n h h' := by
  refine ⟨hl.congr hr hi hs, ?_, ?_, ?_, hreply _, hserial⟩
  · intro r v hv
    simpa only [outlook, hr] using hv
  · intro r v hv hnone
    simp only [outlook, hr] at hv hnone
    simp [hnone] at hv
  · intro id r hid
    simpa only [outlook, room?, hi] using hid

theorem Live.spares_setRoom (hl : h.Live) {r : Nat} {cell cell' : RoomCell}
    (hc : h.rooms[r]? = some cell) (hrun : cell'.Running)
    (hview : cell'.view (hands r) p n = cell.view (hands r) p n) :
    Spares hands p n h (h.setRoom r cell') := by
  refine ⟨hl.setRoom hc hrun (congrArg View.id hview), ?_⟩
  rw [outlook_setRoom_of_view hc hview]
  exact .refl _ _

/-- A change of a room's mailbox that keeps it open, and keeps all that concerns the player. -/
theorem Live.spares_setEvents (hl : h.Live) {r : Nat} {cell : RoomCell}
    (hc : h.rooms[r]? = some cell) {events : Mailbox Ticket (Event Ticket)}
    (hclosed : events.closed = cell.events.closed) (hsenders : events.senders = cell.events.senders)
    (hqueue : events.queue.filter (·.concerns p n) = cell.events.queue.filter (·.concerns p n))
    (hwaits : events.waitsOf p n = cell.events.waitsOf p n) :
    Spares hands p n h (h.setRoom r { cell with events }) := by
  have hrun := hl.running hc
  apply hl.spares_setRoom hc
  · exact ⟨hrun.cancelled, hrun.stopped, hclosed.trans hrun.closed, hsenders ▸ hrun.senders⟩
  · simp only [RoomCell.view, List.filter_append, hqueue, hwaits]

end Hub

end Lobby
