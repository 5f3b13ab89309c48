import Lobby.Proofs.MembershipServices
import Lobby.Proofs.RoomHandling

/-! A room's turn: it takes an event from its mailbox and handles it, at once or after others have
acted. Either way what the player's dispatcher depends on goes on to hold. -/
namespace Lobby

namespace Hub
variable {h h' : Hub} {hands : Hands} {p : PlayerId} {n r : Nat} {e : Event Ticket}
  {d : Dispatching}

/-- Takes the next event from a room's mailbox; `none` if there is none, or the room is to stop. -/
def takeEvent? (h : Hub) (r : Nat) : Option (Event Ticket × Hub) :=
  h.drawEvent? (fun cell => cell.stopped || cell.cancelled) r

/-- A room's turn is spent on the event that it takes. -/
theorem Live.stepRoom_eq (hl : h.Live) (r : Nat) :
    (h.stepRoom r).2 = (h.takeEvent? r).elim h fun x => x.2.handleEvent x.2.listener r x.1 := by
  rw [stepRoom, takeEvent?, drawEvent?]
  cases hc : h.rooms[r]? with
  | none => rfl
  | some cell =>
    have hrun := hl.running hc
    simp only [hrun.stopped, hrun.cancelled, Bool.false_eq_true, if_false, Bool.or_self]
    cases hq : cell.events.queue with
    | nil =>
      rw [Mailbox.receive_nil_of_open hq hrun.closed hrun.senders]
      rfl
    | cons e rest =>
      rw [Mailbox.receive_cons hq]
      rfl

/-- The event that a room takes is the first of those it has yet to handle. -/
theorem Live.takeEvent? (hl : h.Live) (hfree : hands r = none)
    (ht : h.takeEvent? r = some (e, h')) :
    h'.Live ∧ h'.rooms.size = h.rooms.size ∧
      h'.outlook (Function.update hands r (some e)) p n = h.outlook hands p n := by
  obtain ⟨cell, next, events, signals, hc, -, hr, rfl⟩ := exists_of_drawEvent ht
  cases hq : cell.events.queue with
  | nil => rcases Mailbox.receive_nil hq with hnone | hnone <;> cases hr.symm.trans hnone
  | cons e' rest =>
    obtain ⟨_, granted, waiting, hrelease, hu⟩ :=
      Mailbox.exists_release { cell.events with queue := rest }
    rw [Mailbox.receive_cons hq, hrelease] at hr
    cases hr
    have hset : (h.setRoom r
        { cell with events := { cell.events with queue := rest, granted, waiting } }).Live :=
      hl.setEvents hc rfl rfl
    have hview : (h.setRoom r { cell with events :=
        { cell.events with queue := rest, granted, waiting } }).outlook
          (Function.update hands r (some e)) p n = h.outlook hands p n := by
      simp only [outlook, getElem?_setRoom hc]
      congr 1
      funext s
      by_cases hs : s = r
      · subst hs
        have hwaits : ({ cell.events with queue := rest, granted, waiting } :
            Mailbox Ticket (Event Ticket)).waitsOf p n = cell.events.waitsOf p n :=
          congrArg _ hu
        simp [hc, RoomCell.view, hfree, hq, hwaits]
      · simp [hs]
    exact ⟨hset.congr rfl rfl rfl, Array.size_setIfInBounds, hview⟩

theorem Held.takeEvent (hh : Held hands h) (hsize : h'.rooms.size = h.rooms.size)
    (ht : h.takeEvent? r = some (e, h')) : Held (Function.update hands r (some e)) h' := by
  intro s hs
  have hnone : h.rooms[s]? = none := by
    rw [Array.getElem?_eq_none_iff] at hs ⊢
    exact hsize ▸ hs
  have hsr : s ≠ r := by
    rintro rfl
    simp [Hub.takeEvent?, drawEvent?, hnone] at ht
  rw [Function.update_of_ne hsr]
  exact hh s hnone

theorem Held.release (hh : Held hands h) (r : Nat) : Held (Function.update hands r none) h := by
  intro s hs
  by_cases hsr : s = r
  · subst hsr
    exact Function.update_self ..
  · rw [Function.update_of_ne hsr]
    exact hh s hs

theorem Held.exists_cell (hh : Held hands h) (hhand : hands r = some e) :
    ∃ cell, h.rooms[r]? = some cell := by
  rw [← Option.ne_none_iff_exists']
  intro hnone
  simp [hh r hnone] at hhand

/-- A room that has taken an event has yet to handle it, and nothing else is different. -/
theorem Accord.takeEvent (ha : h.Accord hands p n d) (hfree : hands r = none)
    (ht : h.takeEvent? r = some (e, h')) :
    h'.Accord (Function.update hands r (some e)) p n d := by
  obtain ⟨hl, hsize, hview⟩ := ha.live.takeEvent? hfree ht
  exact ⟨hl, ha.held.takeEvent hsize ht, hview.symm ▸ ha.fits⟩

def Listens (h : Hub) (listener : Ticket → Listener) : Prop :=
  ∀ t, listener t = .waiting ↔ h.reply? t = some .awaited

/-- What a room finds that has taken an event some time ago: who has gone since then is taken for
someone who goes while the room looks the player up. -/
def lateListener (h : Hub) (t : Ticket) : Listener :=
  match h.reply? t with
  | some .awaited => .waiting
  | _ => .leavesAtLookup

theorem listens_listener (h : Hub) : h.Listens h.listener := by
  intro t
  rw [listener]
  split <;> simp_all

theorem listens_lateListener (h : Hub) : h.Listens h.lateListener := by
  intro t
  rw [lateListener]
  split <;> simp_all

theorem events_view (cell : RoomCell) (hhand : hands r = some e)
    (he : e.concerns p n = true) : (cell.view (hands r) p n).events =
      e :: cell.events.queue.filter (·.concerns p n) := by
  simp [RoomCell.view, hhand, he]

theorem outlook_handled {cell : RoomCell} (hl : h.Live) (hc : h.rooms[r]? = some cell)
    (listener : Ticket → Listener) (e : Event Ticket) :
    (h.handleEvent listener r e).outlook (Function.update hands r none) p n =
      (h.outlook hands p n).handled r (cell.events.queue.filter (·.concerns p n))
        ((cell.room.meet ⟨e, listener, h.player?⟩).hasMember p)
        (h.handleEvent listener r e).reply? := by
  rw [outlook_handleEvent hl hc]
  simp only [Outlook.handled, Outlook.modify, outlook]
  congr 1
  funext s
  by_cases hs : s = r
  · subst hs
    simp [hc, RoomCell.view]
  · simp [hs]

theorem outlook_unhand (hhand : hands r = some e) (he : e.concerns p n = false) :
    h.outlook (Function.update hands r none) p n = h.outlook hands p n := by
  simp only [outlook]
  congr 1
  funext s
  by_cases hs : s = r
  · subst hs
    simp [RoomCell.view, hhand, he]
  · simp [hs]

/-- An event that is spent takes the player off, or does nothing to it. -/
theorem hasMember_of_spent (room : Room) {listener : Ticket → Listener}
    (hlisten : h.Listens listener) (hs : (h.outlook hands p n).Spent p n e)
    (lookup : PlayerId → Option Nat) :
    (room.meet ⟨e, listener, lookup⟩).hasMember p = (room.hasMember p && e.kind ≠ .leave) := by
  obtain ⟨player, body⟩ := e
  obtain rfl : player = p := hs.player
  cases body with
  | chat | move =>
    refine (room.hasMember_meet_of_other _ ?_).trans ?_
    · simp [Event.bindsTo, Event.kind]
    · simp [Event.kind]
  | leave reply =>
    refine (room.hasMember_meet_of_leave _ rfl).trans ?_
    simp [Event.kind]
  | join profile reply =>
    obtain ⟨t, ht⟩ := Option.isSome_iff_exists.mp (hs.replied rfl)
    obtain rfl : reply = some t := ht
    have hnone : h.reply? t = none := (hs.closed rfl).2.2
    rw [room.meet_of_gone _ rfl]
    · simp [Event.kind]
    · intro hwaiting
      simp [(hlisten t).mp hwaiting] at hnone

theorem reply?_of_none {cell : RoomCell} (hl : h.Live) (hc : h.rooms[r]? = some cell)
    (listener : Ticket → Listener) (e : Event Ticket) (t : Ticket) (ht : h.reply? t = none) :
    (h.handleEvent listener r e).reply? t = none := by
  rw [reply?_handleEvent hl.reactions hc, if_neg]
  · exact ht
  · simp [ht]

private theorem settled_handleEvent {cell : RoomCell} {c : Context} (hl : h.Live)
    (hc : h.rooms[r]? = some cell) (hhand : hands r = some e) (he : e.concerns p n = true)
    {listener : Ticket → Listener} (hlisten : h.Listens listener)
    (hs : (h.outlook hands p n).Settled p n c none) :
    ((h.handleEvent listener r e).outlook (Function.update hands r none) p n).Settled p n c
      none := by
  have hv : (h.outlook hands p n).view r = some (cell.view (hands r) p n) := view_outlook hc
  have hev := events_view cell hhand he
  have hspent : (h.outlook hands p n).Spent p n e := (hs.quiet hv).2 e (by simp [hev])
  rw [outlook_handled hl hc, hasMember_of_spent cell.room hlisten hspent]
  exact hs.handled hv hev fun t ht => reply?_of_none hl hc listener e t ht

private theorem outcome_of_admission (room : Room) {listener : Ticket → Listener}
    (lookup : PlayerId → Option Nat) {c : Context} {errand : Errand} {profile : Profile}
    {t : Ticket} {v : View} (herrand : errand ≠ .leave) (hears : listener t = .waiting)
    (hfree : c.room = none) (hlisted : v.listed = room.hasMember p)
    (hevents : v.events = [⟨p, .join profile (some t)⟩]) (ha : c.Agrees v) :
    ∃ outcome, Effect.outcome?
        (room.effects ⟨⟨p, .join profile (some t)⟩, listener, lookup⟩) = some outcome ∧
      (errand.Grants outcome →
        (room.meet ⟨⟨p, .join profile (some t)⟩, listener, lookup⟩).hasMember p = true) ∧
      (¬ errand.Grants outcome → c.Agrees
        { v with
          listed := (room.meet ⟨⟨p, .join profile (some t)⟩, listener, lookup⟩).hasMember p
          events := [] }) := by
  obtain ⟨outcome, ho, hret⟩ :=
    room.outcome_of_join ⟨⟨p, .join profile (some t)⟩, listener, lookup⟩ rfl hears
  have hmember :=
    room.hasMember_meet_of_join ⟨⟨p, .join profile (some t)⟩, listener, lookup⟩ rfl hears
  refine ⟨outcome, ho, ?_, ?_⟩
  · intro hg
    rw [hmember, (hret.mp hg.2).2, Bool.or_true]
  · intro hg
    apply Context.agrees_of_other (c.room_ne hfree _)
    intro hnow
    -- the room lists the player now, and so it did before: it has not let the player in
    have hbefore : room.hasMember p = true := by
      by_contra hnot
      rw [Bool.not_eq_true] at hnot
      rw [hmember, hnot, Bool.false_or] at hnow
      exact hg ⟨herrand, hret.mpr ⟨hnot, hnow⟩⟩
    apply (ha.other (c.room_ne hfree _) (hlisted.trans hbefore)).imp_right
    rintro ⟨e', he', hk⟩
    rw [hevents, List.mem_singleton] at he'
    subst he'
    contradiction

/-- What a room makes of the event that a dispatcher waits for: it answers it, and if it does not
grant anything, it agrees with the player. -/
private theorem outcome_of_asks (room : Room) {listener : Ticket → Listener}
    (lookup : PlayerId → Option Nat) {c : Context} {errand : Errand} {t : Ticket} {v : View}
    (hasks : errand.Asks p t e) (hears : listener t = .waiting) (hfree : c.room = none)
    (hlisted : v.listed = room.hasMember p) (hevents : v.events = [e]) (ha : c.Agrees v) :
    ∃ outcome, Effect.outcome? (room.effects ⟨e, listener, lookup⟩) = some outcome ∧
      (errand.Grants outcome → (room.meet ⟨e, listener, lookup⟩).hasMember p = true) ∧
      (¬ errand.Grants outcome → c.Agrees
        { v with listed := (room.meet ⟨e, listener, lookup⟩).hasMember p, events := [] }) := by
  cases errand with
  | create | join =>
    obtain ⟨profile, rfl⟩ := hasks
    exact outcome_of_admission room lookup (by simp) hears hfree hlisted hevents ha
  | leave =>
    obtain rfl := hasks
    obtain ⟨outcome, ho⟩ :=
      room.outcome_of_leave ⟨⟨p, .leave (some t)⟩, listener, lookup⟩ rfl hears
    have hmember :=
      room.hasMember_meet_of_leave ⟨⟨p, .leave (some t)⟩, listener, lookup⟩ rfl
    refine ⟨outcome, ho, fun hg => absurd rfl hg.1, fun _ => ?_⟩
    apply Context.agrees_of_other (c.room_ne hfree _)
    simp [hmember]

private theorem engaged_handleEvent {cell : RoomCell} {c : Context} {errand : Errand} {w : Wait}
    (hl : h.Live) (hc : h.rooms[r]? = some cell) (hhand : hands r = some e)
    (he : e.concerns p n = true) {listener : Ticket → Listener} (hlisten : h.Listens listener)
    (heng : (h.outlook hands p n).Engaged p n c errand w) :
    ((h.handleEvent listener r e).outlook (Function.update hands r none) p n).Engaged p n c errand
      w := by
  have hv : (h.outlook hands p n).view r = some (cell.view (hands r) p n) := view_outlook hc
  have hev := events_view cell hhand he
  have hnone (t : Ticket) (ht : h.reply? t = none) :=
    reply?_of_none hl hc listener e t ht
  rw [outlook_handled hl hc]
  rcases heng.head_cases hv hev with hspent | ⟨rfl, hrest, hstage, hasks, hawaited, hwaits, hagrees⟩
  · rw [hasMember_of_spent cell.room hlisten hspent]
    apply heng.handled hv hev hspent hnone
    rw [reply?_handleEvent hl.reactions hc, if_neg]
    · rfl
    · rintro ⟨hr, ha⟩
      have hclosed : h.reply? w.ticket = none := (hspent.closed hr).2.2
      simp [ha] at hclosed
  · have hreply : e.reply? = some w.ticket := hasks.reply.2
    rw [hrest] at hev ⊢
    obtain ⟨outcome, ho, hgranted, hrefused⟩ := outcome_of_asks cell.room h.player? hasks
      ((hlisten w.ticket).mpr hawaited) heng.free rfl hev hagrees
    refine heng.answered hv hstage hwaits hnone ?_ hgranted hrefused
    rw [reply?_handleEvent hl.reactions hc, if_pos ⟨hreply, hawaited⟩, Reply.after, ho]

/-- A room that handles an event leaves the player in agreement, or with its request under way. -/
theorem Accord.handleEvent (ha : h.Accord hands p n d) (hhand : hands r = some e)
    {listener : Ticket → Listener} (hlisten : h.Listens listener) :
    (h.handleEvent listener r e).Accord (Function.update hands r none) p n d := by
  have hl := ha.live
  have hd := ha.fits
  obtain ⟨cell, hc⟩ := ha.held.exists_cell hhand
  refine ⟨hl.handleEvent hc listener e, ?_, ?_⟩
  · exact (ha.held.release r).of_size (size_handleEvent hl hc listener e).ge
  · cases he : e.concerns p n with
    | false =>
      have hspares : Spares (Function.update hands r none) p n h (h.handleEvent listener r e) :=
        hl.spares_handleEvent hc listener he
      rw [← outlook_unhand hhand he] at hd
      exact hd.grows hspares.grows
    | true =>
      cases d with
      | idle c => exact settled_handleEvent hl hc hhand he hlisten hd
      | busy c pending => exact engaged_handleEvent hl hc hhand he hlisten hd
      | ended c =>
        cases c with
        | some c => exact settled_handleEvent hl hc hhand he hlisten hd
        | none => exact hd.elim

/-- What lasts while a room takes an event, and while it handles one, lasts through its turn. -/
theorem Live.stepRoom_of {Q : Hands → Hub → Prop} (hl : h.Live) (hfree : hands r = none)
    (hq : Q hands h)
    (take : ∀ e h', h.takeEvent? r = some (e, h') → Q (Function.update hands r (some e)) h')
    (handle : ∀ hands h' e, Q hands h' → hands r = some e →
      Q (Function.update hands r none) (h'.handleEvent h'.listener r e)) :
    Q hands (h.stepRoom r).2 := by
  rw [hl.stepRoom_eq]
  cases ht : h.takeEvent? r with
  | none => exact hq
  | some taken =>
    obtain ⟨e, h'⟩ := taken
    have hhandled := handle _ _ _ (take e h' ht) (Function.update_self ..)
    rwa [Function.update_idem, Function.update_eq_self_iff.mpr hfree.symm] at hhandled

/-- A room's turn. -/
theorem Accord.stepRoom (ha : h.Accord hands p n d) (hfree : hands r = none) :
    (h.stepRoom r).2.Accord hands p n d :=
  ha.live.stepRoom_of (Q := fun hands h => h.Accord hands p n d) hfree ha
    (fun _ _ ht => ha.takeEvent hfree ht)
    fun _ h' _ ha' hhand => ha'.handleEvent hhand h'.listens_listener

end Hub

end Lobby
