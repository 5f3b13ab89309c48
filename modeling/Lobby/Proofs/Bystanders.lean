import Lobby.Proofs.RoomViews
import Lobby.Proofs.ServiceSteps

/-! What others do with rooms and registry leaves a player alone, as long as it names somebody
else. -/
namespace Lobby.Hub
variable {h : Hub} {hands : Hands} {p : PlayerId} {n : Nat}

theorem Live.spares_signal (hl : h.Live) (s : Signal) : Spares hands p n h (h.signal s) :=
  hl.spares_of_rooms rfl rfl rfl (fun _ _ => rfl) (Nat.le_refl _)

theorem Live.spares_freshSerial (hl : h.Live) : Spares hands p n h h.freshSerial.2 :=
  hl.spares_of_rooms rfl rfl rfl (fun _ _ => rfl) (Nat.le_succ _)

theorem Live.spares_openReply (hl : h.Live) {t : Ticket} (ht : t.owner ≠ .dispatcher n) :
    Spares hands p n h (h.openReply t) := by
  refine hl.spares_of_rooms rfl rfl rfl ?_ (Nat.le_refl _)
  rintro t' ht'
  rw [reply?_openReply, if_neg]
  rintro rfl
  exact ht ht'

theorem Live.spares_closeReply (hl : h.Live) {t : Ticket} (ht : t.owner ≠ .dispatcher n) :
    Spares hands p n h (h.closeReply t) := by
  refine hl.spares_of_rooms rfl rfl rfl ?_ (Nat.le_refl _)
  rintro t' ht'
  rw [reply?_closeReply, if_neg]
  rintro rfl
  exact ht ht'

private theorem concerns_of_other {e : Event Ticket} (hp : e.player ≠ p)
    (ht : ∀ t, e.reply? = some t → t.owner ≠ .dispatcher n) : e.concerns p n = false := by
  cases hr : e.reply? with
  | none => simp [Event.concerns, Event.bindsTo, hp, hr]
  | some t => simp [Event.concerns, Event.bindsTo, hp, hr, ht t hr]

theorem Live.spares_offerEvent (hl : h.Live) (r : Nat) {e : Event Ticket}
    (he : e.concerns p n = false) : Spares hands p n h (h.offerEvent r e).2 := by
  rw [offerEvent]
  cases hc : h.rooms[r]? with
  | none => exact hl.spares
  | some cell =>
    rcases Mailbox.offer_cases (hl.running hc).closed e with ho | ⟨fault, ho⟩ <;> simp only [ho]
    · have hset : Spares hands p n h (h.setRoom r
          { cell with events := { cell.events with queue := cell.events.queue ++ [e] } }) :=
        hl.spares_setEvents hc rfl rfl (by simp [List.filter_append, he]) rfl
      exact hset.trans (hset.live.spares_signal _)
    · have hset : Spares hands p n h (h.setRoom r
          { cell with events := { cell.events with dropped := cell.events.dropped + 1 } }) :=
        hl.spares_setEvents hc rfl rfl rfl rfl
      cases fault <;> exact hset

/-- A mailbox in which deliveries named otherwise are settled keeps the ones that concern the
player. -/
private theorem filter_names {name : Ticket} {l : List (Ticket × Event Ticket)}
    {k : Ticket × Event Ticket → Bool} (hk : ∀ w ∈ l, k w → w.1 ≠ name) :
    (l.filter (·.1 ≠ name)).filter k = l.filter k := by
  rw [List.filter_filter]
  apply List.filter_congr
  intro w hw
  cases hkw : k w with
  | true => simp [hk w hw hkw]
  | false => simp

private theorem owned_names {cell : RoomCell} {r : Nat} {name : Ticket}
    (ho : (h.outlook hands p n).Owned n) (hc : h.rooms[r]? = some cell)
    (hname : ¬ name.owner.ActsFor n) (w : Ticket × Event Ticket)
    (hw : w ∈ cell.events.underWay)
    (hk : (decide (w.1.owner.ActsFor n) || w.2.concerns p n) = true) : w.1 ≠ name := by
  have hmem : w ∈ cell.events.waitsOf p n := List.mem_filter.mpr ⟨hw, hk⟩
  have hown := ho r (cell.view (hands r) p n) w (view_outlook hc) hmem
  rintro rfl
  exact hname hown

theorem Live.spares_expire (hl : h.Live) (ho : (h.outlook hands p n).Owned n) {w : Wait}
    (hw : ¬ w.ticket.owner.ActsFor n) : Spares hands p n h (h.expire w).2 := by
  have close {h' : Hub} (hs : Spares hands p n h h') :
      Spares hands p n h (h'.closeReply w.ticket) :=
    hs.trans (hs.live.spares_closeReply (not_or.mp hw).1)
  rw [expire]
  split
  · rename_i cell _ hc
    have hk := owned_names ho hc hw
    obtain ⟨next, granted, waiting, hwith, hu⟩ := cell.events.exists_withdraw w.ticket
    have hwaits : ({ cell.events with granted, waiting } : Mailbox _ _).waitsOf p n =
        cell.events.waitsOf p n := by
      rw [Mailbox.waitsOf, Mailbox.waitsOf, Mailbox.underWay, Mailbox.underWay]
      rcases hu with ⟨hu, -⟩ | ⟨hu, -⟩ <;> rw [hu, List.filter_append, List.filter_append]
      · rw [filter_names fun x hx => hk x (List.mem_append_left _ hx)]
      · rw [filter_names fun x hx => hk x (List.mem_append_right _ hx)]
    have hset : Spares hands p n h
        (h.setRoom w.room { cell with events := { cell.events with granted, waiting } }) :=
      hl.spares_setEvents hc rfl rfl rfl hwaits
    rw [hwith]
    cases next with
    | some t => exact close (hset.trans (hset.live.spares_signal _))
    | none => exact close hset
  · exact close hl.spares

theorem Live.spares_awaitAnswer (hl : h.Live) (ho : (h.outlook hands p n).Owned n) {w : Wait}
    (hw : ¬ w.ticket.owner.ActsFor n) (now : Nat) :
    Spares hands p n h (h.awaitAnswer w now).2 := by
  have hfresh : Spares hands p n h h.freshSerial.2 := hl.spares_freshSerial
  have hsig := hfresh.trans (hfresh.live.spares_signal (.arrived (.room w.room)))
  rw [awaitAnswer]
  simp only
  split
  · exact hsig.trans (hsig.live.spares_expire (hsig.grows.owned ho) hw)
  · exact hsig

theorem Live.spares_resume (hl : h.Live) (ho : (h.outlook hands p n).Owned n) {w : Wait}
    (hw : ¬ w.ticket.owner.ActsFor n) (now : Nat) : Spares hands p n h (h.resume w now).2 := by
  rw [resume]
  split
  · split
    · rename_i cell hc
      rcases Mailbox.settle_cases (hl.running hc).closed w.ticket with ⟨message, hm, hs⟩ | hs <;>
        simp only [hs]
      · have hk := owned_names ho hc hw
        have hmessage : message.concerns p n = false := by
          cases hcon : message.concerns p n with
          | false => rfl
          | true => exact absurd rfl (hk _ (List.mem_append_left _ hm) (by simp [hcon]))
        have hwaits : ({ cell.events with
            granted := cell.events.granted.filter (·.1 ≠ w.ticket) } : Mailbox _ _).waitsOf p n =
              cell.events.waitsOf p n := by
          rw [Mailbox.waitsOf, Mailbox.waitsOf, Mailbox.underWay, Mailbox.underWay,
            List.filter_append, List.filter_append,
            filter_names fun x hx => hk x (List.mem_append_left _ hx)]
        have hset : Spares hands p n h (h.setRoom w.room { cell with
            events := { cell.events with
              granted := cell.events.granted.filter (·.1 ≠ w.ticket)
              queue := cell.events.queue ++ [message] } }) :=
          hl.spares_setEvents hc rfl rfl (by simp [List.filter_append, hmessage]) hwaits
        exact hset.trans (hset.live.spares_awaitAnswer (hset.grows.owned ho) hw now)
      · split
        · exact hl.spares_expire ho hw
        · exact hl.spares
    · exact hl.spares_closeReply (not_or.mp hw).1
  · split
    · exact hl.spares_closeReply (not_or.mp hw).1
    · split
      · exact hl.spares_expire ho hw
      · exact hl.spares
    · exact hl.spares_closeReply (not_or.mp hw).1

theorem Live.spares_request (hl : h.Live) (ho : (h.outlook hands p n).Owned n) {owner : Task}
    (hw : ¬ owner.ActsFor n) (r timeout now : Nat) {event : Ticket → Event Ticket}
    (he : ∀ t, t.owner = owner → (event t).concerns p n = false) :
    Spares hands p n h (h.request owner r timeout now event).2 := by
  have hopen : Spares hands p n h (h.freshSerial.2.openReply ⟨owner, h.nextSerial⟩) := by
    have hfresh : Spares hands p n h h.freshSerial.2 := hl.spares_freshSerial
    exact hfresh.trans (hfresh.live.spares_openReply (not_or.mp hw).1)
  have ho' := hopen.grows.owned ho
  have hevent := he ⟨owner, h.nextSerial⟩ rfl
  rw [request]
  simp only [freshSerial] at hopen ho' ⊢
  generalize ({ h with nextSerial := h.nextSerial + 1 } : Hub).openReply ⟨owner, h.nextSerial⟩ = h'
    at hopen ho' ⊢
  cases hc : h'.rooms[r]? with
  | none => exact hopen.trans (hopen.live.spares_closeReply (not_or.mp hw).1)
  | some cell =>
    rcases Mailbox.send_cases (hopen.live.running hc).closed ⟨owner, h.nextSerial⟩
        (event ⟨owner, h.nextSerial⟩) with hs | hs <;> simp only [hs]
    · have hset : Spares hands p n h' (h'.setRoom r { cell with events := { cell.events with
          queue := cell.events.queue ++ [event ⟨owner, h.nextSerial⟩] } }) :=
        hopen.live.spares_setEvents hc rfl rfl (by simp [List.filter_append, hevent]) rfl
      exact (hopen.trans hset).trans
        (hset.live.spares_awaitAnswer (hset.grows.owned ho') hw now)
    · have hset : Spares hands p n h' (h'.setRoom r { cell with events := { cell.events with
          waiting := cell.events.waiting ++
            [(⟨owner, h.nextSerial⟩, event ⟨owner, h.nextSerial⟩)] } }) := by
        refine hopen.live.spares_setEvents hc rfl rfl rfl ?_
        simp [Mailbox.waitsOf, Mailbox.underWay, List.filter_append, hevent, hw]
      split
      · exact (hopen.trans hset).trans (hset.live.spares_expire (hset.grows.owned ho') hw)
      · exact hopen.trans hset

def Held (hands : Hands) (h : Hub) : Prop := ∀ r, h.rooms[r]? = none → hands r = none

theorem Spares.held {h' : Hub} (hs : Spares hands p n h h') (hh : Held hands h) :
    Held hands h' := by
  intro r hr
  apply hh
  cases hc : h.rooms[r]? with
  | none => rfl
  | some cell =>
    have hkept : (h'.outlook hands p n).view r = some (cell.view (hands r) p n) :=
      hs.grows.kept (view_outlook hc)
    simp [outlook, hr] at hkept

theorem lookup_insertRoom {id : RoomId} {index : List (RoomId × Nat)}
    (hid : index.lookup id = none) (other : RoomId) (r : Nat) :
    (insertRoom id r index).lookup other = if other = id then some r else index.lookup other := by
  have lookup_cons (a : RoomId) (s : Nat) (rest : List (RoomId × Nat)) :
      ((a, s) :: rest).lookup other = if other = a then some s else rest.lookup other := by
    by_cases h : other = a
    · simp [h]
    · rw [List.lookup_cons, beq_false_of_ne h, if_neg h]
  induction index with
  | nil => rw [insertRoom, lookup_cons]
  | cons e rest ih =>
    obtain ⟨a, s⟩ := e
    rw [List.lookup_cons] at hid
    cases ha : id == a with
    | true => simp [ha] at hid
    | false =>
      rw [ha] at hid
      rw [insertRoom]
      split
      · exact lookup_cons id r _
      · rw [lookup_cons, lookup_cons, ih hid]
        by_cases h : other = a
        · subst h
          simp [(ne_of_beq_false ha).symm]
        · simp [h]

/-- A new room goes on, and it is registered under an identity that was free. -/
private theorem live_openRoom (hl : h.Live) (id : RoomId) (name : String) :
    (h.openRoom id name).2.2.Live := by
  rw [openRoom]
  cases hid : h.room? id with
  | some r => exact hl
  | none =>
    have hlookup := lookup_insertRoom hid
    refine ⟨hl.reactions, ?_, ?_, ?_⟩
    · intro r cell hc
      simp only [signal, Array.getElem?_push] at hc
      split at hc
      · obtain rfl := Option.some.inj hc
        exact ⟨rfl, rfl, rfl, Nat.one_ne_zero⟩
      · exact hl.running hc
    · intro r cell hc
      simp only [signal, Array.getElem?_push, room?, hlookup] at hc ⊢
      split at hc
      · obtain rfl := Option.some.inj hc
        simp_all
      · have hreg := hl.registered hc
        rw [if_neg]
        · exact hreg
        · intro hcid
          rw [hcid, hid] at hreg
          contradiction
    · intro other r hr
      simp only [signal, Array.getElem?_push, room?, hlookup] at hr ⊢
      split at hr
      · obtain rfl := Option.some.inj hr
        rename_i hother
        exact ⟨_, if_pos rfl, hother.symm⟩
      · obtain ⟨cell, hc, hcid⟩ := hl.indexed hr
        have hold : r ≠ h.rooms.size := (Array.getElem?_eq_some_iff.mp hc).1.ne
        exact ⟨cell, by rw [if_neg hold]; exact hc, hcid⟩

/-- A new room knows of nobody. -/
theorem Live.spares_openRoom (hl : h.Live) (hh : Held hands h)
    (id : RoomId) (name : String) : Spares hands p n h (h.openRoom id name).2.2 := by
  refine ⟨live_openRoom hl id name, ?_⟩
  rw [openRoom]
  cases hid : h.room? id with
  | some r => exact .refl _ _
  | none =>
    have hlookup := lookup_insertRoom hid
    refine ⟨?_, ?_, ?_, fun _ => rfl, Nat.le_refl _⟩
    · intro r v hv
      obtain ⟨cell, hc, rfl⟩ := Option.map_eq_some_iff.mp hv
      have hold : r ≠ h.rooms.size := (Array.getElem?_eq_some_iff.mp hc).1.ne
      simp only [outlook, signal, Array.getElem?_push, if_neg hold, hc, Option.map_some]
    · intro r v hv hnone
      simp only [outlook, signal, Array.getElem?_push] at hv hnone
      split at hv
      · rename_i hr
        obtain rfl := Option.some.inj hv
        have hhand := hh r (by simpa [outlook] using hnone)
        exact ⟨hid, rfl, by simp [RoomCell.view, hhand, Mailbox.ofCapacity], rfl⟩
      · simp [hnone] at hv
    · intro other r hr
      simp only [outlook, signal, room?, hlookup] at hr ⊢
      rw [if_neg]
      · exact hr
      · rintro rfl
        simp [room?, hr] at hid

theorem Live.spares_createRoom (hl : h.Live) (hh : Held hands h)
    (name : String) : Spares hands p n h (h.createRoom name).2 := by
  have htake : Spares hands p n h h.takeRoomId.2 :=
    hl.spares_of_rooms rfl rfl rfl (fun _ _ => rfl) (Nat.le_refl _)
  exact htake.trans (htake.live.spares_openRoom (htake.held hh) _ _)

theorem Held.of_size {h' : Hub} (hh : Held hands h) (hs : h.rooms.size ≤ h'.rooms.size) :
    Held hands h' := by
  intro r hr
  apply hh
  rw [Array.getElem?_eq_none_iff] at hr ⊢
  exact hs.trans hr

/-- No task takes a room away. -/
theorem robust_size (k : Nat) : Robust (k ≤ ·.rooms.size) where
  signal hk := hk
  setEvents hk _ := hk.trans Array.size_setIfInBounds.ge
  freshSerial hk := hk
  openReply hk := hk
  closeReply hk := hk
  createRoom hk := by
    apply hk.trans
    simp only [createRoom, takeRoomId, openRoom]
    split
    · exact Nat.le_refl _
    · simp [signal]

/-- Whatever another dispatcher does in another player's name leaves the player alone. -/
theorem lasting_spares (ho : (h.outlook hands p n).Owned n)
    (hh : Held hands h) {player : PlayerId} {owner : Task} (hp : player ≠ p)
    (hw : ¬ owner.ActsFor n) : Lasting player owner (Spares hands p n h) where
  offer hq he hr := by
    refine hq.trans (hq.live.spares_offerEvent _ (concerns_of_other ?_ ?_))
    · rwa [he]
    · simp [hr]
  request hq he := by
    refine hq.trans (hq.live.spares_request (hq.grows.owned ho) hw _ _ _ ?_)
    intro t ht
    obtain ⟨hplayer, hreply⟩ := he t
    refine concerns_of_other (hplayer ▸ hp) ?_
    intro t' ht'
    obtain rfl := Option.some.inj (hreply.symm.trans ht')
    exact ht ▸ (not_or.mp hw).1
  resume hq hwait := hq.trans (hq.live.spares_resume (hq.grows.owned ho) (hwait ▸ hw) _)
  expire hq hwait := hq.trans (hq.live.spares_expire (hq.grows.owned ho) (hwait ▸ hw))
  create hq := hq.trans (hq.live.spares_createRoom (hq.held hh) _)

end Lobby.Hub
