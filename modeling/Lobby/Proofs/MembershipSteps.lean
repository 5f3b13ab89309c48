import Lobby.Proofs.Bystanders
import Lobby.Proofs.MembershipMoves

/-! What a dispatcher does for its player keeps the player's own state and the rooms in
agreement. -/
namespace Lobby

namespace Hub
variable {h : Hub} {hands : Hands} {p : PlayerId} {n : Nat} {c : Context} {errand : Errand}
  {w : Wait} {r : Nat} {cell : RoomCell} {e : Event Ticket}

/-- The view of a room whose mailbox has changed. -/
theorem outlook_setEvents (hc : h.rooms[r]? = some cell)
    (events : Mailbox Ticket (Event Ticket)) (queued : List (Event Ticket))
    (waits : View → List (Ticket × Event Ticket))
    (hqueue : events.queue.filter (·.concerns p n) =
      cell.events.queue.filter (·.concerns p n) ++ queued)
    (hwaits : events.waitsOf p n = waits (cell.view (hands r) p n)) :
    (h.setRoom r { cell with events }).outlook hands p n =
      (h.outlook hands p n).modify r fun v =>
        { v with events := v.events ++ queued, waits := waits v } := by
  rw [outlook_setRoom hc]
  simp only [Outlook.modify]
  congr 1
  funext s
  split
  · rename_i hs
    subst hs
    simp only [outlook, hc, Option.map_some, RoomCell.view, List.filter_append, hqueue, hwaits,
      List.append_assoc]
  · rfl

theorem outlook_setWaits (hc : h.rooms[r]? = some cell)
    (events : Mailbox Ticket (Event Ticket)) {waits : List (Ticket × Event Ticket)}
    (hqueue : events.queue = cell.events.queue) (hwaits : events.waitsOf p n = waits) :
    (h.setRoom r { cell with events }).outlook hands p n =
      (h.outlook hands p n).modify r fun v => { v with waits } := by
  rw [outlook_setEvents hc events [] (fun _ => waits) (by simp [hqueue]) hwaits]
  simp

private theorem outlook_accept (hl : h.Live) (hc : h.rooms[r]? = some cell)
    (he : e.concerns p n = true) :
    (h.setRoom r
      { cell with events := { cell.events with queue := cell.events.queue ++ [e] } }).Live ∧
    (h.setRoom r
      { cell with events := { cell.events with queue := cell.events.queue ++ [e] } }).outlook hands
        p n = (h.outlook hands p n).push r e := by
  refine ⟨hl.setEvents hc rfl rfl, outlook_setEvents hc _ [e] (·.waits) ?_ rfl⟩
  simp [List.filter_append, he]

/-- An event that concerns the player is queued, or nothing changes. -/
theorem offerEvent_cases (hl : h.Live) (hc : h.rooms[r]? = some cell) (he : e.concerns p n = true) :
    (∃ h', h.offerEvent r e = (.ok (), h') ∧ h'.Live ∧
        h'.outlook hands p n = (h.outlook hands p n).push r e) ∨
      ∃ fault h', h.offerEvent r e = (.error fault, h') ∧ h'.Live ∧
        h'.outlook hands p n = h.outlook hands p n := by
  rw [offerEvent, hc]
  rcases Mailbox.offer_cases (hl.running hc).closed e with ho | ⟨fault, ho⟩ <;> simp only [ho]
  · obtain ⟨hset, hview⟩ := outlook_accept (p := p) (n := n) hl hc he
    exact .inl ⟨_, rfl, hset.congr rfl rfl rfl, hview⟩
  · have hset : (h.setRoom r { cell with
        events := { cell.events with dropped := cell.events.dropped + 1 } }).Live :=
      hl.setEvents hc rfl rfl
    have hview : (h.setRoom r { cell with
        events := { cell.events with dropped := cell.events.dropped + 1 } }).outlook hands p n =
          h.outlook hands p n :=
      outlook_setRoom_of_view hc rfl
    cases fault <;> exact .inr ⟨_, _, rfl, hset, hview⟩

theorem roomId_eq {v : View} (hv : (h.outlook hands p n).view r = some v) : h.roomId r = v.id := by
  obtain ⟨cell, hc, rfl⟩ := Option.map_eq_some_iff.mp hv
  rw [roomId, header, hc]
  rfl

private theorem concerns_leave (p : PlayerId) (n : Nat) (reply : Option Ticket) :
    (⟨p, .leave reply⟩ : Event Ticket).concerns p n = true :=
  Event.concerns_of_bindsTo (by simp [Event.bindsTo, Event.kind]) n

end Hub

namespace Context
variable {h : Hub} {hands : Hands} {p : PlayerId} {n : Nat} {c : Context} {r : Nat}

/-- A player knows of every room that it gives up and that it could not tell. -/
theorem settled_abandon (hl : h.Live) (hs : (h.outlook hands p n).Settled p n c (some r))
    (hfree : c.room = none) {v : View} (hv : (h.outlook hands p n).view r = some v) :
    (c.abandon h r).2.Live ∧
      ((c.abandon h r).2.outlook hands p n).Settled p n (c.abandon h r).1 none := by
  obtain ⟨cell, hc, -⟩ := Option.map_eq_some_iff.mp hv
  obtain rfl : c.id = p := hs.id
  rw [abandon, Hub.sendLeave]
  rcases Hub.offerEvent_cases hl hc (Hub.concerns_leave c.id n none) with
    ⟨h', ho, hl', hview⟩ | ⟨fault, h', ho, hl', hview⟩ <;> simp only [ho]
  · refine ⟨hl', ?_⟩
    rw [hview]
    exact hs.push_leave hfree
  · refine ⟨hl', ?_⟩
    rw [← hview] at hs hv
    rw [Hub.roomId_eq hv]
    split
    · rename_i hmem
      exact hs.remember hfree hv (fun _ hm => hm) hmem
    · apply hs.remember hfree hv (fun _ hm => List.mem_append_left _ hm)
      exact List.mem_append_right _ List.mem_cons_self

/-- A room that is told to let the player go need not be remembered. -/
theorem settled_leaveAll (rooms kept : List RoomId) (hl : h.Live) (hfree : c.room = none)
    (hs : (h.outlook hands p n).Settled p n { c with unconfirmed := kept ++ rooms } none) :
    (leaveAll p rooms h).2.Live ∧ ((leaveAll p rooms h).2.outlook hands p n).Settled p n
      { c with unconfirmed := kept ++ (leaveAll p rooms h).1 } none := by
  induction rooms generalizing h kept with
  | nil => exact ⟨hl, hs⟩
  | cons id rest ih =>
    have hi : (h.outlook hands p n).Indexed := hl.coherent
    rw [leaveAll]
    cases hr : h.room? id with
    | none =>
      refine ih kept hl (hs.forget ?_)
      intro s v hv hid
      have hreg := hi.registered hv
      rw [hid] at hreg
      simp [Hub.outlook, hr] at hreg
    | some r =>
      obtain ⟨cell, hc, -⟩ := hl.indexed hr
      simp only [Hub.sendLeave]
      rcases Hub.offerEvent_cases hl hc (Hub.concerns_leave p n none) with
        ⟨h', ho, hl', hview⟩ | ⟨fault, h', ho, hl', hview⟩ <;> simp only [ho]
      · apply ih kept hl'
        rw [hview]
        refine Outlook.Settled.push_leave (hs.forget ?_) hfree
        intro s v hv hid
        have hreg := hi.registered hv
        rw [hid] at hreg
        exact hr.symm.trans hreg
      · have hrest := ih (kept ++ [id]) hl' (by rw [hview]; simpa using hs)
        simpa using hrest

end Context

theorem Errand.Asks.concerns {errand : Errand} {p : PlayerId} {t : Ticket} {e : Event Ticket}
    (h : errand.Asks p t e) (n : Nat) : e.concerns p n = true := by
  cases errand with
  | create | join =>
    obtain ⟨profile, rfl⟩ := h
    exact Event.concerns_of_bindsTo (by simp [Event.bindsTo, Event.kind]) n
  | leave =>
    obtain rfl := h
    exact Hub.concerns_leave p n _

namespace Mailbox
variable {m : Mailbox Ticket (Event Ticket)} {p : PlayerId} {n : Nat} {t : Ticket}
  {e : Event Ticket}

private def concerning (p : PlayerId) (n : Nat) (l : List (Ticket × Event Ticket)) :
    List (Ticket × Event Ticket) :=
  l.filter fun w => w.1.owner.ActsFor n || w.2.concerns p n

private theorem concerning_append (p : PlayerId) (n : Nat) (l l' : List (Ticket × Event Ticket)) :
    concerning p n (l ++ l') = concerning p n l ++ concerning p n l' :=
  List.filter_append ..

private theorem waitsOf_eq (m : Mailbox Ticket (Event Ticket)) (p : PlayerId) (n : Nat) :
    m.waitsOf p n = concerning p n m.granted ++ concerning p n m.waiting :=
  concerning_append ..

private theorem concerning_names {l : List (Ticket × Event Ticket)}
    (h : concerning p n l = [] ∨ concerning p n l = [(t, e)]) :
    concerning p n (l.filter (·.1 ≠ t)) = [] := by
  rw [concerning, List.filter_comm]
  rcases h with h | h
  · rw [concerning] at h
    simp [h]
  · rw [concerning] at h
    simp [h]

private theorem mem_concerning {l : List (Ticket × Event Ticket)} (ht : t.owner.ActsFor n)
    (h : (t, e) ∈ l) : (t, e) ∈ concerning p n l :=
  List.mem_filter.mpr ⟨h, by simp [ht]⟩

/-- A delivery of the dispatcher that has been granted a slot is the one that it waits for. -/
private theorem granted_own (ht : t.owner = .dispatcher n) (hw : m.waitsOf p n = [(t, e)])
    {message : Event Ticket} (hm : (t, message) ∈ m.granted) :
    message = e ∧ concerning p n m.granted = [(t, e)] ∧ concerning p n m.waiting = [] := by
  have hmem := mem_concerning (p := p) (.inl ht) hm
  rw [waitsOf_eq, List.append_eq_singleton_iff] at hw
  rcases hw with ⟨hg, -⟩ | ⟨hg, hwaiting⟩
  · simp [hg] at hmem
  · rw [hg, List.mem_singleton] at hmem
    exact ⟨congrArg Prod.snd hmem, hg, hwaiting⟩

/-- A delivery of the dispatcher that is given up leaves none. -/
private theorem exists_withdraw_own (ht : t.owner = .dispatcher n)
    (hw : m.waitsOf p n = [(t, e)]) : ∃ next granted waiting,
    m.withdraw t = (next, { m with granted, waiting }) ∧
      ({ m with granted, waiting } : Mailbox Ticket (Event Ticket)).waitsOf p n = [] := by
  obtain ⟨next, granted, waiting, hwith, hu⟩ := m.exists_withdraw t
  refine ⟨next, granted, waiting, hwith, ?_⟩
  change concerning p n (granted ++ waiting) = []
  rcases hu with ⟨hu, message, hm⟩ | ⟨hu, hnot⟩ <;> rw [hu, concerning_append]
  · obtain ⟨-, hg, hwaiting⟩ := granted_own ht hw hm
    rw [concerning_names (.inr hg), hwaiting]
    rfl
  · rw [waitsOf_eq, List.append_eq_singleton_iff] at hw
    rcases hw with ⟨hg, hwaiting⟩ | ⟨hg, -⟩
    · rw [concerning_names (.inr hwaiting), hg]
      rfl
    · have hmem : (t, e) ∈ concerning p n m.granted := by simp [hg]
      exact absurd (List.mem_filter.mp hmem).1 (hnot e)

end Mailbox

inductive Course.Fits (hands : Hands) (p : PlayerId) (n : Nat) (c : Context) (errand : Errand)
    (r : Nat) : Course × Hub → Prop
  | waiting {w : Wait} {h : Hub} (live : h.Live) (room : w.room = r)
      (engaged : (h.outlook hands p n).Engaged p n c errand w) :
      Fits hands p n c errand r (.waiting w, h)
  | timeout {id : RoomId} {h : Hub} {v : View} (live : h.Live) (free : c.room = none)
      (settled : (h.outlook hands p n).Settled p n c (some r))
      (view : (h.outlook hands p n).view r = some v) :
      Fits hands p n c errand r (.ended (.error (.timeout id)), h)
  | answered {outcome : Outcome} {h : Hub} {v : View} (live : h.Live) (free : c.room = none)
      (settled : (h.outlook hands p n).Settled p n c (some r))
      (view : (h.outlook hands p n).view r = some v) (events : v.events = [])
      (granted : errand.Grants outcome → v.listed = true)
      (refused : ¬ errand.Grants outcome → c.Agrees v) :
      Fits hands p n c errand r (.ended (.ok outcome), h)

namespace Hub
variable {h : Hub} {hands : Hands} {p : PlayerId} {n : Nat} {c : Context} {errand : Errand}
  {w : Wait} {r : Nat}

private theorem outlook_closeReply (h : Hub) (t : Ticket) :
    (h.closeReply t).outlook hands p n = (h.outlook hands p n).closed t := by
  simp only [outlook, Outlook.closed]
  congr 1
  funext t'
  exact reply?_closeReply h t t'

/-- A request whose time is up leaves its room in doubt. -/
theorem fits_expire (hl : h.Live) (he : (h.outlook hands p n).Engaged p n c errand w) :
    Course.Fits hands p n c errand w.room (h.expire w) := by
  obtain ⟨v, hv, hr⟩ := he.here
  obtain ⟨cell, hc, hcell⟩ := Option.map_eq_some_iff.mp hv
  rw [expire]
  cases hstage : w.stage with
  | answer =>
    refine .timeout (hl.congr rfl rfl rfl) he.free ?_ hv
    rw [outlook_closeReply]
    exact he.close hstage
  | slot =>
    cases hr with
    | sent _ _ stage => simp [hstage] at stage
    | answered _ stage => simp [hstage] at stage
    | slot e stage asks reply waits =>
      have hw : cell.events.waitsOf p n = [(w.ticket, e)] := by
        rw [← hcell] at waits
        exact waits
      obtain ⟨next, granted, waiting, hwith, hnone⟩ := Mailbox.exists_withdraw_own he.owner hw
      have hset : (h.setRoom w.room
          { cell with events := { cell.events with granted, waiting } }).Live :=
        hl.setEvents hc rfl rfl
      have hview : (h.setRoom w.room
          { cell with events := { cell.events with granted, waiting } }).outlook hands p n =
            (h.outlook hands p n).modify w.room fun v => { v with waits := [] } :=
        outlook_setWaits hc _ rfl hnone
      have hsettled := he.give_up
      rw [← hview, ← outlook_closeReply] at hsettled
      have hv' : ((h.outlook hands p n).modify w.room fun v => { v with waits := [] }).view w.room =
          some { v with waits := [] } := by
        rw [Outlook.view_modify, if_pos rfl, hv, Option.map_some]
      rw [← hview] at hv'
      simp only [hc, hwith]
      cases next with
      | some t => exact .timeout (hset.congr rfl rfl rfl) he.free hsettled hv'
      | none => exact .timeout (hset.congr rfl rfl rfl) he.free hsettled hv'

/-- A request whose event is with the room waits for the answer, or its time is up at once. -/
theorem fits_awaitAnswer (hl : h.Live) {w' : Wait} (hticket : w'.ticket = w.ticket)
    (hroom : w'.room = w.room) (hstage : w'.stage = .answer)
    (he : (h.outlook hands p n).Engaged p n c errand w') (now : Nat) :
    Course.Fits hands p n c errand w.room (h.awaitAnswer w now) := by
  have hfresh : Spares hands p n h h.freshSerial.2 := hl.spares_freshSerial
  have hsig := hfresh.trans (hfresh.live.spares_signal (.arrived (.room w.room)))
  have he' := he.grows hsig.grows
  have hnow (turn : Nat) :
      ((h.freshSerial.2.signal (.arrived (.room w.room))).outlook hands p n).Engaged
        p n c errand { w with stage := .answer, began := now, turn } :=
    he'.of_wait hticket.symm hroom.symm hstage.symm
  rw [awaitAnswer]
  simp only
  split
  · exact fits_expire hsig.live (hnow _)
  · exact .waiting hsig.live rfl (hnow _)

/-- A request goes on, or it ends with what the room has made of it. -/
theorem fits_resume (hl : h.Live) (he : (h.outlook hands p n).Engaged p n c errand w) (now : Nat) :
    Course.Fits hands p n c errand w.room (h.resume w now) := by
  obtain ⟨v, hv, hr⟩ := he.here
  obtain ⟨cell, hc, hcell⟩ := Option.map_eq_some_iff.mp hv
  have late : Course.Fits hands p n c errand w.room
      (if w.deadline ≤ now then h.expire w else (.waiting w, h)) := by
    split
    · exact fits_expire hl he
    · exact .waiting hl rfl he
  rw [resume]
  cases hr with
  | answered outcome stage reply waits events granted refused =>
    have hreply : h.reply? w.ticket = some (.answered outcome) := reply
    simp only [stage, hreply]
    have hclose := he.close stage
    rw [← outlook_closeReply] at hclose
    exact .answered (hl.congr rfl rfl rfl) he.free hclose hv events granted refused
  | sent e before stage asks reply =>
    have hreply : h.reply? w.ticket = some .awaited := reply
    simp only [stage, hreply]
    exact late
  | slot e stage asks reply waits =>
    have hw : cell.events.waitsOf p n = [(w.ticket, e)] := by
      rw [← hcell] at waits
      exact waits
    simp only [stage, hc]
    rcases Mailbox.settle_cases (hl.running hc).closed w.ticket with ⟨message, hm, hs⟩ | hs <;>
      simp only [hs]
    · obtain ⟨rfl, hg, hwaiting⟩ := Mailbox.granted_own he.owner hw hm
      have hset : (h.setRoom w.room { cell with events := { cell.events with
          granted := cell.events.granted.filter (·.1 ≠ w.ticket)
          queue := cell.events.queue ++ [message] } }).Live :=
        hl.setEvents hc rfl rfl
      have hview : (h.setRoom w.room { cell with events := { cell.events with
          granted := cell.events.granted.filter (·.1 ≠ w.ticket)
          queue := cell.events.queue ++ [message] } }).outlook hands p n =
            (h.outlook hands p n).modify w.room fun v =>
              { v with events := v.events ++ [message], waits := [] } := by
        refine outlook_setEvents hc _ [message] (fun _ => []) ?_ ?_
        · simp [List.filter_append, asks.concerns]
        · rw [Mailbox.waitsOf_eq, Mailbox.concerning_names (.inr hg), hwaiting]
          rfl
      have hsettled : ((h.outlook hands p n).modify w.room fun v =>
          { v with events := v.events ++ [message], waits := [] }).Engaged p n c errand
            { w with stage := .answer } :=
        he.settle hv waits _ rfl rfl rfl
      rw [← hview] at hsettled
      exact fits_awaitAnswer hset rfl rfl rfl hsettled now
    · exact late

private theorem outlook_opened (hands : Hands) (h : Hub) (t : Ticket) :
    ((h.freshSerial.2).openReply t).outlook hands p n = (h.outlook hands p n).opened t := by
  simp only [outlook, Outlook.opened, freshSerial]
  congr 1
  funext t'
  exact reply?_openReply _ t t'

/-- A new request goes as far as it can. -/
theorem fits_request (hl : h.Live) {doubt : Option Nat}
    (hs : (h.outlook hands p n).Settled p n c doubt) (hfree : c.room = none)
    (hd : doubt = none ∨ errand = .leave ∧ doubt = some r) {cell : RoomCell}
    (hc : h.rooms[r]? = some cell) (timeout now : Nat) {event : Ticket → Event Ticket}
    (hasks : ∀ t, errand.Asks p t (event t)) :
    Course.Fits hands p n c errand r (h.request (.dispatcher n) r timeout now event) := by
  have hv : (h.outlook hands p n).view r = some (cell.view (hands r) p n) := view_outlook hc
  have hopened := outlook_opened (p := p) (n := n) hands h ⟨.dispatcher n, h.nextSerial⟩
  have hl' : (h.freshSerial.2.openReply ⟨.dispatcher n, h.nextSerial⟩).Live := hl.congr rfl rfl rfl
  have hask := hasks ⟨.dispatcher n, h.nextSerial⟩
  have hc' : (h.freshSerial.2.openReply ⟨.dispatcher n, h.nextSerial⟩).rooms[r]? = some cell := hc
  rw [request]
  simp only [freshSerial] at hopened hl' hc' ⊢
  generalize ({ h with nextSerial := h.nextSerial + 1 } : Hub).openReply
    ⟨.dispatcher n, h.nextSerial⟩ = h' at hopened hl' hc' ⊢
  obtain ⟨t, ht⟩ : ∃ t : Ticket, t = ⟨.dispatcher n, h.nextSerial⟩ := ⟨_, rfl⟩
  rw [← ht] at hopened hask ⊢
  have howner : t.owner = .dispatcher n := by rw [ht]
  have hserial : t.serial = (h.outlook hands p n).nextSerial := by rw [ht]; rfl
  have hconcerns := hask.concerns n
  generalize event t = e at hask hconcerns ⊢
  rw [hc']
  rcases Mailbox.send_cases (hl'.running hc').closed t e with hsend | hsend <;> simp only [hsend]
  · obtain ⟨hset, hview⟩ := outlook_accept hl' hc' hconcerns
    have hsent : ((h.outlook hands p n).opened t |>.push r e).Engaged p n c errand
        ⟨t, r, .answer, timeout, now, h.nextSerial⟩ :=
      hs.send (w := ⟨t, r, .answer, timeout, now, h.nextSerial⟩) hfree hd hv rfl howner hserial hask
    rw [← hopened, ← hview] at hsent
    exact fits_awaitAnswer hset rfl rfl rfl hsent now
  · have hset : (h'.setRoom r
        { cell with events := { cell.events with
          waiting := cell.events.waiting ++ [(t, e)] } }).Live :=
      hl'.setEvents hc' rfl rfl
    have hview : (h'.setRoom r
        { cell with events := { cell.events with
          waiting := cell.events.waiting ++ [(t, e)] } }).outlook hands p n =
            (h'.outlook hands p n).modify r fun v => { v with waits := v.waits ++ [(t, e)] } := by
      rw [outlook_setEvents hc' _ [] (fun v => v.waits ++ [(t, e)]) (by simp)]
      · simp
      · simp [RoomCell.view, Mailbox.waitsOf, Mailbox.underWay, List.filter_append, hconcerns]
    have hwaiting := hs.await_slot (w := ⟨t, r, .slot, timeout, now, h.nextSerial⟩) hfree hd hv rfl
      howner hserial hask
    rw [← hopened, ← hview] at hwaiting
    split
    · exact fits_expire hset hwaiting
    · exact .waiting hset rfl hwaiting

end Hub

end Lobby
