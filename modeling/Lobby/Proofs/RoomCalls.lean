import Lobby.Hub.Rendezvous
import Lobby.Proofs.RoomBooks
import Lobby.Proofs.ServiceSteps

/-! What the calls on a room's handles, and the end of its event loop, leave at the front of the
room; written down, each agrees with it. -/
namespace Lobby

namespace Hub
variable {h : Hub} {b : Book} {first : Room × Outboxes} {size r : Nat} {f : Front} {t : Ticket}
  {e : Event Ticket} {w : Wait}

theorem exists_cell (hf : h.front? r = some f) : ∃ cell, h.rooms[r]? = some cell ∧
    f = ⟨cell.room.id, cell.events, h.reply?, h.nextSerial⟩ := by
  obtain ⟨cell, hc, heq⟩ := Option.map_eq_some_iff.mp hf
  exact ⟨cell, hc, heq.symm⟩

theorem front?_setRoom {cell : RoomCell} (hc : h.rooms[r]? = some cell) (cell' : RoomCell) :
    (h.setRoom r cell').front? r =
      some ⟨cell'.room.id, cell'.events, h.reply?, h.nextSerial⟩ := by
  rw [front?, getElem?_setRoom hc, if_pos rfl]
  rfl

theorem front?_closeReply (hf : h.front? r = some f) (t : Ticket) :
    (h.closeReply t).front? r = some { f with reply? := Function.update f.reply? t none } := by
  obtain ⟨cell, hc, rfl⟩ := exists_cell hf
  rw [front?, show (h.closeReply t).rooms = h.rooms from rfl, hc, Option.map_some]
  congr 2
  funext t'
  rw [reply?_closeReply, Function.update_apply]

theorem front?_openReply (hf : h.front? r = some f) (t : Ticket) :
    (h.openReply t).front? r =
      some { f with reply? := Function.update f.reply? t (some .awaited) } := by
  obtain ⟨cell, hc, rfl⟩ := exists_cell hf
  rw [front?, show (h.openReply t).rooms = h.rooms from rfl, hc, Option.map_some]
  congr 2
  funext t'
  rw [reply?_openReply, Function.update_apply]

theorem roomId_of_front (hf : h.front? r = some f) : h.roomId r = f.id := by
  obtain ⟨cell, hc, rfl⟩ := exists_cell hf
  simp only [roomId, header, hc]
  rfl

/-- A request is followed as far as it goes, and the mailbox may take events meanwhile: written
down, it agrees with what is to be seen at the front. -/
def Recorded (first : Room × Outboxes) (size r : Nat) (f : Front) (b : Book) (t : Ticket)
    (out : Course × Hub) : Prop :=
  ∃ f' new, out.2.front? r = some f' ∧ f.Takes f' new ∧ (∀ e ∈ new, e.reply?.isSome) ∧
    (b.follow t new out.1).Tallies first size r f'

/-- What the mailbox looked like before does not matter, if it has taken nothing since. -/
theorem Recorded.of_takes {f' : Front} {out : Course × Hub}
    (hrec : Recorded first size r f' b t out) (hk : f.Takes f' []) :
    Recorded first size r f b t out := by
  obtain ⟨g, new, hg, hnew, hreq, hrec⟩ := hrec
  exact ⟨g, new, hg, hk.trans hnew, hreq, hrec⟩

/-- A request that is over is written down with what its caller is told. -/
private theorem recorded_of_closed {f' : Front} {out : Course × Hub} {answer : Answer}
    (hf : out.2.front? r = some f') (hk : f.Takes f' []) (hout : out.1 = .ended answer)
    (hb : { b with waits := Function.update b.waits t none }.Tallies first size r f')
    (ha : b.asked t ≠ none)
    (hunavailable : answer = .error (.unavailable first.1.id) → t ∈ tickets b.accepted →
      t ∈ tickets b.discarded)
    (hgranted : ∀ outcome, answer = .ok outcome → b.Answered first t outcome)
    (hfailed : ∀ fault, answer = .error fault →
      fault = .timeout first.1.id ∨ fault = .unavailable first.1.id) :
    Recorded first size r f b t out := by
  refine ⟨f', [], hf, hk, by simp, ?_⟩
  have htold := hb.told (x := ⟨t, t ∈ tickets b.accepted, answer⟩) (Function.update_self ..) ha
    { unqueued := of_decide_eq_false
      unavailable := hunavailable
      granted := hgranted _
      failed := hfailed _ }
  simpa [Book.follow, hout] using htold

theorem recorded_conclude (hf : h.front? r = some f) (hb : b.Tallies first size r f)
    (hw : b.waits t = some w) (ht : t ∉ f.events.unsettled) {answer : Answer}
    (hunavailable : answer = .error (.unavailable first.1.id) → t ∈ tickets b.accepted →
      t ∈ tickets b.discarded)
    (hgranted : ∀ outcome, answer = .ok outcome → b.Answered first t outcome)
    (hfailed : ∀ fault, answer = .error fault →
      fault = .timeout first.1.id ∨ fault = .unavailable first.1.id) :
    Recorded first size r f b t (h.conclude w answer) := by
  have hwait := hb.waits hw
  have hclosed := hb.closed ht
  rw [← hwait.ticket] at hclosed ⊢
  exact recorded_of_closed (front?_closeReply hf w.ticket) (Front.takes_nil rfl rfl) rfl hclosed
    (hwait.ticket.symm ▸ hwait.asked) (hwait.ticket.symm ▸ hunavailable)
    (hwait.ticket.symm ▸ hgranted) hfailed

/-- A request that has not got into the mailbox is told that it will not. -/
theorem recorded_refuse (hf : h.front? r = some f) (hb : b.Tallies first size r f)
    (hw : b.waits t = some w) (ht : t ∉ f.events.unsettled) (hslot : w.stage = .slot) :
    Recorded first size r f b t (h.conclude w (.error (.unavailable first.1.id))) :=
  recorded_conclude hf hb hw ht (fun _ hm => absurd hm ((hb.waits hw).slot hslot)) (by simp)
    (by simp)

private theorem of_mem_rest {rest under : List (Ticket × Event Ticket)}
    (hrest : rest = under.filter (·.1 ≠ t)) : ∀ x ∈ rest, x ∈ under ∧ x.1 ≠ t := by
  intro x hx
  rw [hrest, List.mem_filter, decide_eq_true_eq] at hx
  exact hx

private theorem not_mem_rest {rest under : List (Ticket × Event Ticket)}
    (hrest : rest = under.filter (·.1 ≠ t)) : t ∉ rest.map (·.1) := by
  intro hm
  obtain ⟨x, hx, rfl⟩ := List.mem_map.mp hm
  exact (of_mem_rest hrest x hx).2 rfl

/-- A request whose time is up leaves nothing in the mailbox that it has not entered. -/
theorem closed_expire (hf : h.front? r = some f) (hb : b.Tallies first size r f)
    (hw : b.waits t = some w) :
    (h.expire w).1 = .ended (.error (.timeout first.1.id)) ∧ ∃ f',
      (h.expire w).2.front? r = some f' ∧ f.Takes f' [] ∧
        { b with waits := Function.update b.waits t none }.Tallies first size r f' := by
  obtain ⟨rfl, rfl, -⟩ := hb.waits hw
  have conclude {h' : Hub} {f' : Front} (hf' : h'.front? w.room = some f')
      (hb' : b.Tallies first size w.room f') (ht : w.ticket ∉ f'.events.unsettled)
      (hk : f.Takes f' []) (course : Course × Hub)
      (hcourse : course = h'.conclude w (.error (.timeout (h'.roomId w.room)))) :
      course.1 = .ended (.error (.timeout first.1.id)) ∧ ∃ g,
        course.2.front? w.room = some g ∧ f.Takes g [] ∧
          { b with
            waits := Function.update b.waits w.ticket none }.Tallies first size w.room g := by
    rw [hcourse, roomId_of_front hf', hb'.named]
    exact ⟨rfl, _, front?_closeReply hf' w.ticket, ⟨hk.queue, hk.closed⟩, hb'.closed ht⟩
  rw [expire]
  cases hstage : w.stage with
  | answer =>
    refine conclude hf hb (hb.not_unsettled fun v hv => ?_) (Front.takes_nil rfl rfl) _ rfl
    obtain rfl := Option.some.inj (hw.symm.trans hv)
    simp [hstage]
  | slot =>
    obtain ⟨cell, hc, rfl⟩ := exists_cell hf
    obtain ⟨next, granted, waiting, hwith, hrest, hs⟩ := hb.sound.withdraw w.ticket
    have hset := front?_setRoom hc { cell with events := { cell.events with granted, waiting } }
    have hleft := hb.shifted hs rfl rfl rfl fun x hx => (of_mem_rest hrest x hx).1
    simp only [hc, hwith]
    refine conclude ?_ hleft (not_mem_rest hrest) (Front.takes_nil rfl rfl) _ rfl
    cases next <;> exact hset

theorem recorded_expire (hf : h.front? r = some f) (hb : b.Tallies first size r f)
    (hw : b.waits t = some w) : Recorded first size r f b t (h.expire w) := by
  obtain ⟨hout, f', hf', hk, hclosed⟩ := closed_expire hf hb hw
  exact recorded_of_closed hf' hk hout hclosed (hb.waits hw).asked (by simp) (by simp) (by simp)

theorem Recorded.of_waits {waits : Option Wait} (new : List (Event Ticket)) {out : Course × Hub}
    {f' : Front} (hrec : Recorded first size r f'
      { b with
        accepted := b.accepted ++ new
        waits := Function.update b.waits t waits } t out)
    (hk : f.Takes f' new) (hnew : ∀ e ∈ new, e.reply?.isSome) :
    Recorded first size r f b t out := by
  obtain ⟨g, more, hg, hk', hmore, hrec⟩ := hrec
  refine ⟨g, new ++ more, hg, hk.trans hk', ?_, ?_⟩
  · intro e he
    exact (List.mem_append.mp he).elim (hnew e) (hmore e)
  · cases hcourse : out.1 <;> simpa [Book.follow, hcourse] using hrec

/-- A request whose event is in the mailbox waits for the answer, or its time is up at once. -/
theorem recorded_awaitAnswer (hf : h.front? r = some f) (new : List (Event Ticket)) {f₀ : Front}
    (hk : f₀.Takes f new) (hnew : ∀ e ∈ new, e.reply?.isSome) (hroom : w.room = r)
    (hticket : w.ticket = t)
    (hb : ∀ w' : Wait, w'.ticket = w.ticket → w'.room = w.room → w'.stage = .answer →
      { b with
        accepted := b.accepted ++ new
        waits := Function.update b.waits t (some w') }.Tallies first size r f) (now : Nat) :
    Recorded first size r f₀ b t (h.awaitAnswer w now) := by
  subst hroom hticket
  obtain ⟨cell, hc, rfl⟩ := exists_cell hf
  have hfresh : (h.freshSerial.2.signal (.arrived (.room w.room))).front? w.room =
      some ⟨cell.room.id, cell.events, h.reply?, h.nextSerial + 1⟩ := by
    rw [front?, show (h.freshSerial.2.signal (.arrived (.room w.room))).rooms = h.rooms from rfl,
      hc]
    rfl
  have hnow := (hb { w with stage := .answer, began := now, turn := h.nextSerial } rfl rfl
    rfl).reserial (Nat.le_succ h.nextSerial)
  rw [awaitAnswer]
  simp only
  split
  · exact (recorded_expire hfresh hnow (Function.update_self ..)).of_waits new
      ⟨hk.queue, hk.closed⟩ hnew
  · exact ⟨_, new, hfresh, ⟨hk.queue, hk.closed⟩, hnew, hnow⟩

/-- A request that goes on enters the mailbox, ends, or waits on. -/
theorem recorded_resume (hf : h.front? r = some f) (hb : b.Tallies first size r f)
    (hw : b.waits t = some w) (now : Nat) : Recorded first size r f b t (h.resume w now) := by
  have hwait := hb.waits hw
  have hroom := hwait.room
  have hsame : { b with waits := Function.update b.waits t (some w) } = b := by
    rw [Function.update_eq_self_iff.mpr hw.symm]
  have late : Recorded first size r f b t
      (if w.deadline ≤ now then h.expire w else (.waiting w, h)) := by
    split
    · exact recorded_expire hf hb hw
    · refine ⟨f, [], hf, Front.takes_nil rfl rfl, by simp, ?_⟩
      simpa [Book.follow, hsame] using hb
  rw [resume]
  cases hstage : w.stage with
  | answer =>
    have hout : t ∉ f.events.unsettled := by
      refine hb.not_unsettled fun v hv => ?_
      obtain rfl := Option.some.inj (hw.symm.trans hv)
      simp [hstage]
    have hreply : h.reply? w.ticket = f.reply? t := by
      obtain ⟨cell, hc, rfl⟩ := exists_cell hf
      rw [hwait.ticket]
    simp only [hreply]
    cases hr : f.reply? t with
    | none => exact absurd hr hwait.reply
    | some reply =>
      cases reply with
      | awaited => exact late
      | answered outcome =>
        refine recorded_conclude hf hb hw hout (by simp) ?_ (by simp)
        rintro x hx
        cases hx
        exact hb.answered hr
      | abandoned =>
        simp only [hroom, roomId_of_front hf, hb.named]
        exact recorded_conclude hf hb hw hout (fun _ _ => hb.abandoned hr) (by simp) (by simp)
  | slot =>
    obtain ⟨cell, hc, rfl⟩ := exists_cell hf
    simp only [hroom, hc]
    rcases hb.sound.settle w.ticket with ⟨message, granted, hopen, hm, hset, hrest, hs⟩ |
      ⟨granted, waiting, hclosed, hset, hrest, hs⟩ | ⟨-, hset⟩
    · rw [hwait.ticket] at hrest
      have hasked : b.asked t = some message :=
        (hb.lined (List.mem_append_left _ (hwait.ticket ▸ hm))).1
      have hfront := front?_setRoom hc { cell with
        events := { cell.events with granted, queue := cell.events.queue ++ [message] } }
      simp only [hset]
      refine recorded_awaitAnswer hfront [message] ?_ ?_ hroom hwait.ticket ?_ now
      · exact ⟨rfl, rfl⟩
      · simp [(hb.issued hasked).2]
      intro w' ht hr hstage'
      exact hb.entered hs rfl rfl hopen hopen hasked hw hstage (of_mem_rest hrest) ht hr
        hstage'
    · rw [hwait.ticket] at hrest
      have hleft := hb.shifted hs rfl rfl rfl fun x hx => (of_mem_rest hrest x hx).1
      simp only [hset, show cell.room.id = first.1.id from hb.named]
      exact (recorded_refuse (front?_setRoom hc _) hleft hw (not_mem_rest hrest) hstage).of_takes
        (Front.takes_nil rfl rfl)
    · simp only [hset]
      exact late

/-- A new request goes as far as it can. -/
theorem recorded_request (hf : h.front? r = some f) (hb : b.Tallies first size r f) (owner : Task)
    (timeout now : Nat) {event : Ticket → Event Ticket} (ht : t = ⟨owner, h.nextSerial⟩)
    (he : (event t).reply? = some t) :
    Recorded first size r f { b with asked := Function.update b.asked t (some (event t)) } t
      (h.request owner r timeout now event) := by
  obtain ⟨cell, hc, rfl⟩ := exists_cell hf
  obtain ⟨w, hw⟩ : ∃ w : Wait, w = ⟨t, r, .slot, timeout, now, h.nextSerial⟩ := ⟨_, rfl⟩
  have hticket : w.ticket = t := by rw [hw]
  have hroom : w.room = r := by rw [hw]
  have hslot : w.stage = .slot := by rw [hw]
  obtain ⟨-, hfree, hopened⟩ := hb.opened (by rw [ht]) he hticket hroom
  have hout : t ∉ cell.events.unsettled := hb.not_unsettled fun v hv => by simp [hfree] at hv
  have hunder (x : Ticket × Event Ticket) (hx : x ∈ cell.events.underWay) :
      x ∈ cell.events.underWay ∧ x.1 ≠ t :=
    ⟨hx, fun hxt => hout (hxt ▸ List.mem_map_of_mem hx)⟩
  have hfront : (h.freshSerial.2.openReply t).front? r = some ⟨cell.room.id, cell.events,
      Function.update h.reply? t (some .awaited), h.nextSerial + 1⟩ :=
    front?_openReply (f := ⟨cell.room.id, cell.events, h.reply?, h.nextSerial + 1⟩)
      (by rw [front?, show h.freshSerial.2.rooms = h.rooms from rfl, hc]; rfl) t
  have hc' : (h.freshSerial.2.openReply t).rooms[r]? = some cell := hc
  rw [request]
  simp only [freshSerial] at hfront hc' ⊢
  rw [← ht, ← hw]
  generalize ({ h with nextSerial := h.nextSerial + 1 } : Hub).openReply t = h' at hfront hc' ⊢
  obtain ⟨cell', hcell, heq⟩ := exists_cell hfront
  obtain rfl := Option.some.inj (hc'.symm.trans hcell)
  rw [heq] at hfront
  have hopened := heq ▸ hopened
  -- the request waits for a slot; the rest is as for one that goes on
  have goesOn {f' : Front} {out : Course × Hub} (hq : f'.events.queue = cell.events.queue)
      (hclosed : f'.events.closed = cell.events.closed)
      (hrec : Recorded first size r f' { b with
        asked := Function.update b.asked t (some (event t))
        waits := Function.update b.waits t (some w) } t out) :
      Recorded first size r ⟨cell.room.id, cell.events, h.reply?, h.nextSerial⟩
        { b with asked := Function.update b.asked t (some (event t)) } t out :=
    Recorded.of_waits [] (by simpa using hrec) (Front.takes_nil hq hclosed) (by simp)
  rcases hb.sound.send hout (event t) with ⟨hopen, hsend, hs⟩ | ⟨hopen, hsend, hs⟩ | ⟨-, hsend⟩ <;>
    simp only [hc', hsend]
  · have hset := front?_setRoom hc' { cell with events := { cell.events with
      queue := cell.events.queue ++ [event t] } }
    refine recorded_awaitAnswer hset [event t] ?_ ?_ hroom hticket ?_ now
    · exact ⟨rfl, rfl⟩
    · simp [he]
    intro w' hw' hr' hstage
    have hentered := hopened.entered hs rfl rfl hopen hopen (Function.update_self ..)
      (Function.update_self ..) hslot hunder hw' hr' hstage
    simpa using hentered
  · have hset := front?_setRoom hc' { cell with events := { cell.events with
      waiting := cell.events.waiting ++ [(t, event t)] } }
    have hlined := hopened.linedUp hs (Function.update_self ..) (Function.update_self ..) hslot
    split
    · exact goesOn rfl rfl (recorded_expire hset hlined (Function.update_self ..))
    · refine goesOn rfl rfl ⟨_, [], hset, Front.takes_nil rfl rfl, by simp, ?_⟩
      simpa [Book.follow] using hlined
  · rw [show RoomFault.unavailable cell.room.id = .unavailable first.1.id from
      congrArg _ hb.named]
    exact goesOn rfl rfl
      (recorded_refuse hfront hopened (Function.update_self ..) hout hslot)

/-- A call that does not wait is taken by the mailbox or refused. -/
theorem recorded_offerEvent (hf : h.front? r = some f) (hb : b.Tallies first size r f)
    (he : e.reply? = none) : ∃ f' new, (h.offerEvent r e).2.front? r = some f' ∧ f.Takes f' new ∧
      { b with accepted := b.accepted ++ new }.Tallies first size r f' ∧
      (f.events.closed = false ∧ (h.offerEvent r e).1 = .ok () ∧ new = [e] ∨
        f.events.closed = false ∧ (h.offerEvent r e).1 = .error (.busy first.1.id) ∧ new = [] ∨
        f.events.closed = true ∧ (h.offerEvent r e).1 = .error (.unavailable first.1.id) ∧
          new = []) := by
  obtain ⟨cell, hc, rfl⟩ := exists_cell hf
  have hset (events : Mailbox Ticket (Event Ticket)) := front?_setRoom hc { cell with events }
  rw [offerEvent, hc]
  rcases hb.sound.offer e with ⟨hopen, hoffer, hs⟩ | ⟨hopen, hoffer, hs⟩ | ⟨hclosed, hoffer⟩ <;>
    simp only [hoffer, show cell.room.id = first.1.id from hb.named]
  · exact ⟨_, [e], hset _, ⟨rfl, rfl⟩, hb.sent hs hopen he, .inl ⟨hopen, trivial, rfl⟩⟩
  · have hleft := hb.shifted hs rfl rfl rfl fun _ hx => hx
    exact ⟨_, [], hset _, Front.takes_nil rfl rfl, by simpa using hleft,
      .inr (.inl ⟨hopen, trivial, rfl⟩)⟩
  · exact ⟨_, [], hset _, Front.takes_nil rfl rfl, by simpa using hb,
      .inr (.inr ⟨hclosed, trivial, rfl⟩)⟩

private theorem discardAll (h : Hub) (events : List (Event Ticket)) :
    h.Beside (events.foldl discardEvent h) ∧
      (events.foldl discardEvent h).outboxes = h.outboxes ∧
      ∀ t, (events.foldl discardEvent h).reply? t =
        if t ∈ tickets events ∧ h.reply? t = some .awaited then some .abandoned
        else h.reply? t := by
  induction events generalizing h with
  | nil => exact ⟨.refl h, rfl, fun t => by simp [tickets]⟩
  | cons e rest ih =>
    obtain ⟨hbeside, hboxes, hreply⟩ := ih (h.discardEvent e)
    refine ⟨(beside_discardEvent h e).trans hbeside, hboxes.trans (outboxes_discardEvent h e), ?_⟩
    intro t
    have hmem : t ∈ tickets (e :: rest) ↔ e.reply? = some t ∨ t ∈ tickets rest := by
      simp [Book.mem_tickets]
    rw [List.foldl_cons, hreply, reply?_discardEvent]
    simp only [hmem]
    by_cases hr : e.reply? = some t <;> by_cases ha : h.reply? t = some .awaited <;> simp [hr, ha]

private theorem signalAll (h : Hub) (waiting : List (Ticket × Event Ticket)) :
    ∃ signals, waiting.foldl (fun h w => h.signal (.settled w.1.owner)) h = { h with signals } := by
  induction waiting generalizing h with
  | nil => exact ⟨h.signals, rfl⟩
  | cons w rest ih => exact ih (h.signal (.settled w.1.owner))

/-- When a room's loop ends, its mailbox closes, and nothing of the room changes. -/
theorem stopRoom_spec {cell : RoomCell} (hc : h.rooms[r]? = some cell) :
    (h.stopRoom r).rooms[r]? = some { cell with events := cell.events.discard, stopped := true } ∧
      (h.stopRoom r).reactions = h.reactions ∧ (h.stopRoom r).outboxes = h.outboxes ∧
      (h.stopRoom r).front? r =
        some (Front.stop ⟨cell.room.id, cell.events, h.reply?, h.nextSerial⟩) := by
  rw [stopRoom, hc]
  simp only
  obtain ⟨signals, hsignals⟩ := signalAll
    (h.setRoom r { cell with events := cell.events.discard, stopped := true }) cell.events.waiting
  rw [hsignals]
  generalize hset : ({ h.setRoom r { cell with events := cell.events.discard, stopped := true } with
    signals } : Hub) = h'
  obtain ⟨hbeside, hboxes, hreply⟩ := discardAll h' cell.events.queue
  have hroom : (cell.events.queue.foldl discardEvent h').rooms[r]? =
      some { cell with events := cell.events.discard, stopped := true } := by
    rw [hbeside.rooms, ← hset]
    exact (getElem?_setRoom hc _ _).trans (if_pos rfl)
  refine ⟨hroom, ?_, ?_, ?_⟩
  · rw [hbeside.reactions, ← hset]
    rfl
  · rw [hboxes, ← hset]
    rfl
  · have hreplies : (cell.events.queue.foldl discardEvent h').reply? =
        (Front.stop ⟨cell.room.id, cell.events, h.reply?, h.nextSerial⟩).reply? := by
      funext t
      rw [hreply, ← hset]
      rfl
    have hserial : (cell.events.queue.foldl discardEvent h').nextSerial = h.nextSerial := by
      rw [hbeside.nextSerial, ← hset]
      rfl
    rw [front?, hroom, Option.map_some, hreplies, hserial]
    rfl

end Hub

end Lobby
