import Lobby.Proofs.MembershipAgreement

/-! The copies that rooms keep of a player's profile: what each has recorded, and the player's
events that it has yet to handle. -/
namespace Lobby

def Event.revise {ρ : Type} (current : Profile) (e : Event ρ) : Profile :=
  match e.body with
  | .move profile => profile
  | _ => current

namespace Room
variable {ρ : Type} {p : PlayerId} {current : Profile}

theorem profile?_meet_of_stays (room : Room) (o : Occasion ρ)
    (hp : room.profile? p = some current)
    (hk : o.event.player = p → o.event.kind ≠ .leave) :
    (room.meet o).profile? p =
      some (if o.event.player = p then o.event.revise current else current) := by
  obtain ⟨⟨player, body⟩, listener, lookup⟩ := o
  rw [profile?_meet, hp]
  by_cases hplayer : player = p
  · subst hplayer
    cases body with
    | leave reply => exact absurd rfl (hk rfl)
    | join | chat | move =>
      simp [Occasion.gist, EventBody.map, nextProfile, Event.revise]
  · simp [hplayer, Ne.symm hplayer]

/-- A member's own events decide its profile, in the order in which they are handled. -/
theorem profile?_meet_all (room : Room) (history : List (Occasion ρ))
    (hp : room.profile? p = some current)
    (hk : ∀ o ∈ history, o.event.player = p → o.event.kind ≠ .leave) :
    (history.foldl meet room).profile? p =
      some (((history.map (·.event)).filter (·.player = p)).foldl Event.revise current) := by
  induction history generalizing room current with
  | nil => exact hp
  | cons o rest ih =>
    have hmet := room.profile?_meet_of_stays o hp (hk o List.mem_cons_self)
    rw [List.foldl_cons, ih (room.meet o) hmet fun o' ho' => hk o' (List.mem_cons_of_mem _ ho')]
    by_cases hplayer : o.event.player = p
    · simp [hplayer]
    · simp [hplayer]

end Room

/-- What a room has of a player's profile: the one it has recorded, if it lists the player, and the
player's events that it has yet to handle. -/
structure Copy where
  profile : Option Profile
  trail : List (Event Ticket)

abbrev Copies := Nat → Option Copy

/-- With no leave to come, the room will have the player under this profile. -/
def Copy.Becomes (k : Copy) (profile : Profile) : Prop :=
  ∃ current, k.profile = some current ∧ k.trail.foldl Event.revise current = profile

def RoomCell.copy (cell : RoomCell) (hand : Option (Event Ticket)) (p : PlayerId) : Copy where
  profile := cell.room.profile? p
  trail := (hand.toList ++ cell.events.queue).filter (·.player = p)

def Hub.copy? (h : Hub) (hands : Hands) (p : PlayerId) : Copies := fun r =>
  h.rooms[r]?.map fun cell => cell.copy (hands r) p

def Copies.push (f : Copies) (p : PlayerId) (r : Nat) (e : Event Ticket) : Copies :=
  if e.player = p then
    fun s => if s = r then (f s).map fun k => { k with trail := k.trail ++ [e] } else f s
  else f

theorem Copy.Becomes.push_move {k : Copy} {profile : Profile} (h : k.Becomes profile)
    (p : PlayerId) (next : Profile) :
    ({ k with trail := k.trail ++ [⟨p, .move next⟩] } : Copy).Becomes next := by
  obtain ⟨current, hp, -⟩ := h
  refine ⟨current, hp, ?_⟩
  rw [List.foldl_append]
  rfl

theorem Copies.push_of_ne {f : Copies} {p : PlayerId} {e : Event Ticket} (h : e.player ≠ p)
    (r : Nat) : f.push p r e = f :=
  if_neg h

theorem Copies.push_self {f : Copies} {p : PlayerId} {e : Event Ticket} (h : e.player = p)
    {r : Nat} {k : Copy} (hk : f r = some k) :
    f.push p r e r = some { k with trail := k.trail ++ [e] } := by
  simp [push, h, hk]

namespace Hub
variable {h h' : Hub} {hands : Hands} {p : PlayerId} {n r : Nat} {cell : RoomCell}
  {e : Event Ticket} {w : Wait}

theorem copy?_of_cell (hc : h.rooms[r]? = some cell) :
    h.copy? hands p r = some (cell.copy (hands r) p) := by
  simp [copy?, hc]

theorem copy?_congr (hr : h'.rooms = h.rooms) : h'.copy? hands p = h.copy? hands p := by
  funext s
  rw [copy?, copy?, hr]

/-- A change of a room's mailbox that leaves its queue as it is. -/
theorem copy?_setEvents (hc : h.rooms[r]? = some cell) {events : Mailbox Ticket (Event Ticket)}
    (hq : events.queue = cell.events.queue) :
    (h.setRoom r { cell with events }).copy? hands p = h.copy? hands p := by
  funext s
  rw [copy?, copy?, getElem?_setRoom hc]
  split
  · rename_i hs
    subst hs
    simp [hc, RoomCell.copy, hq]
  · rfl

theorem copy?_accept (hc : h.rooms[r]? = some cell) {events : Mailbox Ticket (Event Ticket)}
    (hq : events.queue = cell.events.queue ++ [e]) :
    (h.setRoom r { cell with events }).copy? hands p = (h.copy? hands p).push p r e := by
  funext s
  rw [copy?, getElem?_setRoom hc, Copies.push]
  by_cases hs : s = r
  · subst hs
    by_cases he : e.player = p
    · simp [copy?, hc, RoomCell.copy, hq, he, List.filter_append]
    · simp [copy?, hc, RoomCell.copy, hq, he, List.filter_append]
  · by_cases he : e.player = p
    · simp [hs, he, copy?]
    · simp [hs, he, copy?]

/-- An offer that is taken comes after all else, and one that is not leaves no trace. -/
theorem Live.copy?_offerEvent (hl : h.Live) (hands : Hands) (p : PlayerId) (r : Nat)
    (e : Event Ticket) :
    (∃ h', h.offerEvent r e = (.ok (), h') ∧ h'.copy? hands p = (h.copy? hands p).push p r e) ∨
      ∃ fault h', h.offerEvent r e = (.error fault, h') ∧
        h'.copy? hands p = h.copy? hands p := by
  rw [offerEvent]
  cases hc : h.rooms[r]? with
  | none => exact .inr ⟨_, _, rfl, rfl⟩
  | some cell =>
    rcases Mailbox.offer_cases (hl.running hc).closed e with ho | ⟨fault, ho⟩ <;> simp only [ho]
    · exact .inl ⟨_, rfl, copy?_accept hc rfl⟩
    · have hset : (h.setRoom r { cell with
          events := { cell.events with dropped := cell.events.dropped + 1 } }).copy? hands p =
            h.copy? hands p :=
        copy?_setEvents hc rfl
      cases fault <;> exact .inr ⟨_, _, rfl, hset⟩

theorem copy?_expire (h : Hub) (w : Wait) : (h.expire w).2.copy? hands p = h.copy? hands p := by
  rw [expire, conclude]
  split
  · rename_i cell _ hc
    obtain ⟨next, granted, waiting, hw, -⟩ := cell.events.exists_withdraw w.ticket
    have hset : (h.setRoom w.room
        { cell with events := { cell.events with granted, waiting } }).copy? hands p =
          h.copy? hands p :=
      copy?_setEvents hc rfl
    rw [hw]
    cases next <;> exact hset
  · rfl

private theorem copy?_awaitAnswer (h : Hub) (w : Wait) (now : Nat) :
    (h.awaitAnswer w now).2.copy? hands p = h.copy? hands p := by
  rw [awaitAnswer]
  simp only
  split
  · exact copy?_expire _ _
  · rfl

/-- A request that goes on may put its event into the mailbox, and no other. -/
theorem Live.copy?_resume (hl : h.Live) (hands : Hands) (p : PlayerId) (w : Wait) (now : Nat) :
    (h.resume w now).2.copy? hands p = h.copy? hands p ∨
      ∃ cell e, h.rooms[w.room]? = some cell ∧ (w.ticket, e) ∈ cell.events.underWay ∧
        (h.resume w now).2.copy? hands p = (h.copy? hands p).push p w.room e := by
  have late : (if w.deadline ≤ now then h.expire w else (.waiting w, h)).2.copy? hands p =
      h.copy? hands p := by
    split
    · exact copy?_expire h w
    · rfl
  rw [resume]
  cases w.stage with
  | slot =>
    simp only
    cases hc : h.rooms[w.room]? with
    | none => exact .inl rfl
    | some cell =>
      rcases Mailbox.settle_cases (hl.running hc).closed w.ticket with ⟨e, he, hs⟩ | hs <;>
        simp only [hs]
      · refine .inr ⟨cell, e, rfl, List.mem_append_left _ he, ?_⟩
        rw [copy?_awaitAnswer]
        exact copy?_accept hc rfl
      · exact .inl late
  | answer =>
    simp only
    split
    · exact .inl rfl
    · exact .inl late
    · exact .inl rfl

/-- A new request may put its event into the mailbox at once. -/
theorem Live.copy?_request (hl : h.Live) (hands : Hands) (p : PlayerId) (owner : Task)
    (r timeout now : Nat) (event : Ticket → Event Ticket) :
    (h.request owner r timeout now event).2.copy? hands p = h.copy? hands p ∨
      (h.request owner r timeout now event).2.copy? hands p =
        (h.copy? hands p).push p r (event ⟨owner, h.nextSerial⟩) := by
  rw [request]
  simp only [freshSerial]
  generalize hopen : ({ h with nextSerial := h.nextSerial + 1 } : Hub).openReply
    ⟨owner, h.nextSerial⟩ = h'
  have hl' : h'.Live := hopen ▸ hl.congr rfl rfl rfl
  have hsame : h'.copy? hands p = h.copy? hands p := hopen ▸ rfl
  rw [← hsame]
  cases hc : h'.rooms[r]? with
  | none => exact .inl rfl
  | some cell =>
    rcases Mailbox.send_cases (hl'.running hc).closed ⟨owner, h.nextSerial⟩
        (event ⟨owner, h.nextSerial⟩) with hs | hs <;> simp only [hs]
    · refine .inr ?_
      rw [copy?_awaitAnswer]
      exact copy?_accept hc rfl
    · have hset : (h'.setRoom r { cell with events := { cell.events with
          waiting := cell.events.waiting ++
            [(⟨owner, h.nextSerial⟩, event ⟨owner, h.nextSerial⟩)] } }).copy? hands p =
              h'.copy? hands p :=
        copy?_setEvents hc rfl
      refine .inl ?_
      split
      · rw [copy?_expire, hset]
      · exact hset

theorem copy?_openRoom {id : RoomId} {name : String} {k : Copy}
    (hk : h.copy? hands p r = some k) : (h.openRoom id name).2.2.copy? hands p r = some k := by
  obtain ⟨cell, hc, rfl⟩ := Option.map_eq_some_iff.mp hk
  apply copy?_of_cell
  rw [openRoom]
  split
  · exact hc
  · have hold : r ≠ h.rooms.size := (Array.getElem?_eq_some_iff.mp hc).1.ne
    simpa [signal, Array.getElem?_push, hold] using hc

theorem copy?_createRoom {name : String} {k : Copy} (hk : h.copy? hands p r = some k) :
    (h.createRoom name).2.copy? hands p r = some k := by
  have htaken : h.takeRoomId.2.copy? hands p r = some k := hk
  exact copy?_openRoom htaken

/-- What a room takes from its mailbox is the first event there. -/
private theorem exists_of_takeEvent (ht : h.takeEvent? r = some (e, h')) :
    ∃ cell rest granted waiting, h.rooms[r]? = some cell ∧ cell.events.queue = e :: rest ∧
      granted ++ waiting = cell.events.underWay ∧
      h'.rooms = (h.setRoom r { cell with
        events := { cell.events with queue := rest, granted, waiting } }).rooms := by
  obtain ⟨cell, next, events, signals, hc, -, hr, rfl⟩ := exists_of_drawEvent ht
  cases hq : cell.events.queue with
  | nil => rcases Mailbox.receive_nil hq with hnone | hnone <;> cases hr.symm.trans hnone
  | cons e' rest =>
    obtain ⟨_, granted, waiting, hrelease, hu⟩ :=
      Mailbox.exists_release { cell.events with queue := rest }
    rw [Mailbox.receive_cons hq, hrelease] at hr
    cases hr
    exact ⟨cell, rest, granted, waiting, hc, hq, hu, rfl⟩

/-- An event that a room takes is still one that it has yet to handle. -/
theorem copy?_takeEvent (hfree : hands r = none) (ht : h.takeEvent? r = some (e, h')) :
    h'.copy? (Function.update hands r (some e)) p = h.copy? hands p := by
  obtain ⟨cell, rest, granted, waiting, hc, hq, -, hrooms⟩ := exists_of_takeEvent ht
  funext s
  rw [copy?, copy?, hrooms, getElem?_setRoom hc]
  by_cases hs : s = r
  · subst hs
    simp [hc, RoomCell.copy, hfree, hq]
  · simp [hs]

/-- What a room that has handled an event has of a player's profile. -/
theorem Live.copy?_handleEvent (hl : h.Live) (hc : h.rooms[r]? = some cell)
    (listener : Ticket → Listener) (e : Event Ticket) :
    (h.handleEvent listener r e).copy? (Function.update hands r none) p =
      Function.update (h.copy? hands p) r (some
        ⟨(cell.room.meet ⟨e, listener, h.player?⟩).profile? p,
          cell.events.queue.filter (·.player = p)⟩) := by
  have hb := beside_handleEvent hl.reactions hc listener e
  funext s
  rw [copy?, hb.rooms, getElem?_setRoom hc]
  by_cases hs : s = r
  · subst hs
    simp [RoomCell.copy]
  · simp [hs, copy?]

/-- Whatever waits for a slot in a room's mailbox asks for an answer. -/
def Inquires (h : Hub) : Prop :=
  ∀ (r : Nat) (cell : RoomCell), h.rooms[r]? = some cell →
    ∀ w ∈ cell.events.underWay, w.2.reply?.isSome

theorem Inquires.congr (hi : h.Inquires) (hr : h'.rooms = h.rooms) : h'.Inquires := by
  intro r cell hc
  rw [hr] at hc
  exact hi r cell hc

theorem Inquires.setRoom (hi : h.Inquires) (hc : h.rooms[r]? = some cell) (cell' : RoomCell)
    (hu : ∀ w ∈ cell'.events.underWay, w ∈ cell.events.underWay ∨ w.2.reply?.isSome) :
    (h.setRoom r cell').Inquires := by
  intro s other hs w hw
  rw [getElem?_setRoom hc] at hs
  split at hs
  · obtain rfl := Option.some.inj hs
    exact (hu w hw).elim (hi r cell hc w) id
  · exact hi s other hs w hw

theorem Inquires.offerEvent (hi : h.Inquires) (r : Nat) (e : Event Ticket) :
    (h.offerEvent r e).2.Inquires := by
  rw [Hub.offerEvent]
  cases hc : h.rooms[r]? with
  | none => exact hi
  | some cell =>
    have hu := cell.events.underWay_offer e
    simp only
    split <;> rename_i heq <;> rw [heq] at hu
    · exact (hi.setRoom hc _ fun w hw => .inl (hu ▸ hw)).congr rfl
    · exact hi.setRoom hc _ fun w hw => .inl (hu ▸ hw)
    · exact hi.setRoom hc _ fun w hw => .inl (hu ▸ hw)

theorem Inquires.expire (hi : h.Inquires) (w : Wait) : (h.expire w).2.Inquires := by
  rw [Hub.expire, conclude]
  split
  · rename_i cell _ hc
    have hset := hi.setRoom hc { cell with events := (cell.events.withdraw w.ticket).2 }
      fun x hx => .inl (Mailbox.mem_underWay_withdraw hx)
    generalize cell.events.withdraw w.ticket = result at hset ⊢
    obtain ⟨_ | _, events⟩ := result <;> exact hset.congr rfl
  · exact hi

private theorem Inquires.awaitAnswer (hi : h.Inquires) (w : Wait) (now : Nat) :
    (h.awaitAnswer w now).2.Inquires := by
  have hsig : (h.freshSerial.2.signal (.arrived (.room w.room))).Inquires := hi
  rw [Hub.awaitAnswer]
  simp only
  split
  · exact hsig.expire _
  · exact hsig

theorem Inquires.resume (hi : h.Inquires) (w : Wait) (now : Nat) :
    (h.resume w now).2.Inquires := by
  have late : (if w.deadline ≤ now then h.expire w else (.waiting w, h)).2.Inquires := by
    split
    · exact hi.expire w
    · exact hi
  rw [Hub.resume]
  split
  · split
    · rename_i cell hc
      have hset := hi.setRoom hc { cell with events := (cell.events.settle w.ticket).2 }
        fun x hx => .inl (Mailbox.mem_underWay_settle hx)
      split <;> rename_i heq
      · rw [heq] at hset
        exact hset.awaitAnswer w now
      · rw [heq] at hset
        exact hset
      · exact late
    · exact hi
  · split
    · exact hi
    · exact late
    · exact hi

theorem Inquires.request (hi : h.Inquires) (owner : Task) (r timeout now : Nat)
    {event : Ticket → Event Ticket} (he : ∀ t, (event t).reply?.isSome) :
    (h.request owner r timeout now event).2.Inquires := by
  rw [Hub.request]
  simp only [freshSerial]
  generalize hopen : ({ h with nextSerial := h.nextSerial + 1 } : Hub).openReply
    ⟨owner, h.nextSerial⟩ = h'
  have hi' : h'.Inquires := hi.congr (hopen ▸ rfl)
  split
  · rename_i cell hc
    have hset := hi'.setRoom hc { cell with events :=
      (cell.events.send ⟨owner, h.nextSerial⟩ (event ⟨owner, h.nextSerial⟩)).2 } ?_
    · split <;> rename_i heq
      · rw [heq] at hset
        exact hset.awaitAnswer _ now
      · rw [heq] at hset
        split
        · exact hset.expire _
        · exact hset
      · exact hi'
    · intro x hx
      rcases Mailbox.mem_underWay_send hx with h | rfl
      · exact .inl h
      · exact .inr (he _)
  · exact hi'

theorem Inquires.openRoom (hi : h.Inquires) (id : RoomId) (name : String) :
    (h.openRoom id name).2.2.Inquires := by
  rw [Hub.openRoom]
  split
  · exact hi
  · intro r cell hc w hw
    simp only [signal, Array.getElem?_push] at hc
    split at hc
    · obtain rfl := Option.some.inj hc
      simp [Mailbox.ofCapacity, Mailbox.underWay] at hw
    · exact hi r cell hc w hw

theorem Inquires.createRoom (hi : h.Inquires) (name : String) :
    (h.createRoom name).2.Inquires :=
  Inquires.openRoom (h := h.takeRoomId.2) hi _ name

theorem enduring_inquires (player : PlayerId) (owner : Task) :
    Enduring player owner Inquires where
  offer hi _ _ := hi.offerEvent _ _
  request hi he := hi.request _ _ _ _ fun t => by simp [(he t).2]
  resume hi _ := hi.resume _ _
  expire hi _ := hi.expire _
  create hi := hi.createRoom _
  apart hi ha := hi.congr ha.rooms

theorem Inquires.takeEvent (hi : h.Inquires) (ht : h.takeEvent? r = some (e, h')) :
    h'.Inquires := by
  obtain ⟨cell, rest, granted, waiting, hc, -, hu, hrooms⟩ := exists_of_takeEvent ht
  refine (hi.setRoom hc { cell with events :=
    { cell.events with queue := rest, granted, waiting } } fun w hw => .inl (hu ▸ hw)).congr hrooms

theorem Inquires.handleEvent (hi : h.Inquires) (hl : h.Live) (hc : h.rooms[r]? = some cell)
    (listener : Ticket → Listener) (e : Event Ticket) :
    (h.handleEvent listener r e).Inquires :=
  (hi.setRoom hc { cell with room := cell.room.meet ⟨e, listener, h.player?⟩ }
    fun _ hw => .inl hw).congr (beside_handleEvent hl.reactions hc listener e).rooms

end Hub

end Lobby
