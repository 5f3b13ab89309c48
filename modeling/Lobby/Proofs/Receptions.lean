import Lobby.Proofs.RoomCalls

/-! A room behind its mailbox, and everybody who calls on it. Callers, the room's event loop and
others take their steps in any order; a book is kept on the room, and it is kept rightly. -/
namespace Lobby

namespace Hub

def queue (h : Hub) (r : Nat) : List (Event Ticket) :=
  (h.rooms[r]?.map (·.events.queue)).getD []

def cloneHandle (h : Hub) (r : Nat) : Hub :=
  match h.rooms[r]? with
  | some cell => h.setRoom r { cell with events := cell.events.addSender }
  | none => h

def dropHandle (h : Hub) (r : Nat) : Hub :=
  match h.rooms[r]? with
  | some cell => h.setRoom r { cell with events := cell.events.dropSender }
  | none => h

def pickEvent? (h : Hub) (r : Nat) : Option (Event Ticket × Hub) := h.drawEvent? (·.stopped) r

/-- A room's loop may end: the room is asked to stop, or nothing can come any more. -/
def mayStop (h : Hub) (r : Nat) : Bool :=
  match h.rooms[r]? with
  | some cell => !cell.stopped && (cell.cancelled || cell.events.receive.1 = .disconnected)
  | none => false

/-- What a room finds at the other end of a reply. Whoever has gone may have gone before the room
began to handle the event, or since. -/
def listenerSince (h : Hub) (since : Ticket → Bool) (t : Ticket) : Listener :=
  match h.reply? t with
  | some .awaited => .waiting
  | _ => if since t then .leavesAtLookup else .gone

theorem listenerSince_of_awaited {h : Hub} {t : Ticket} (ht : h.reply? t = some .awaited)
    (since : Ticket → Bool) : h.listenerSince since t = .waiting := by
  rw [listenerSince, ht]

theorem listenerSince_false (h : Hub) : (h.listenerSince fun _ => false) = h.listener := by
  funext t
  rw [listenerSince, listener]
  cases h.reply? t with
  | none => rfl
  | some reply => cases reply <;> rfl

/-- The event that is taken is the oldest one, and whoever waits longest gets its slot. -/
theorem exists_of_pickEvent {h h' : Hub} {r : Nat} {cell : RoomCell} {e : Event Ticket}
    (hc : h.rooms[r]? = some cell) (hs : cell.events.Sound) (hp : h.pickEvent? r = some (e, h')) :
    cell.stopped = false ∧ ∃ rest granted waiting, cell.events.queue = e :: rest ∧
      granted ++ waiting = cell.events.underWay ∧
      ({ cell.events with queue := rest, granted, waiting } : Mailbox _ _).Sound ∧
      ∃ signals, h' = { h.setRoom r
        { cell with events := { cell.events with queue := rest, granted, waiting } } with
        signals } := by
  obtain ⟨other, next, events, signals, hother, hstopped, hr, rfl⟩ := exists_of_drawEvent hp
  obtain rfl := Option.some.inj (hc.symm.trans hother)
  refine ⟨hstopped, ?_⟩
  cases hq : cell.events.queue with
  | nil => rcases Mailbox.receive_nil hq with hnone | hnone <;> cases hr.symm.trans hnone
  | cons head rest =>
    obtain ⟨_, granted, waiting, hreceive, hu, hs'⟩ := hs.receive hq
    cases hr.symm.trans hreceive
    exact ⟨rest, granted, waiting, rfl, hu, hs', signals, rfl⟩

end Hub

structure Reception extends Book where
  hub : Hub
  room : Nat

namespace Reception

inductive Act where
  | sendMove (player : PlayerId) (profile : Profile)
  | sendLeave (player : PlayerId)
  | sendChat (player : PlayerId) (text : String)
  | join (owner : Task) (timeout now : Nat) (player : PlayerId) (profile : Profile)
  | leave (owner : Task) (timeout now : Nat) (player : PlayerId)
  | resume (t : Ticket) (now : Nat)
  /-- A caller's time is up, or it goes away; its slot or its answer may have come by then. -/
  | giveUp (t : Ticket)
  | clone
  | drop
  | cancel
  | handle (since : Ticket → Bool)
  | stop
  | elsewhere (change : Outboxes → Outboxes) (players : List (PlayerId × Nat))

def start (config : RoomConfig) (id : RoomId) (name : String) (boxes : Outboxes)
    (players : List (PlayerId × Nat)) : Reception :=
  let h : Hub := { config, outboxes := boxes, playerIndex := players }
  { hub := (h.openRoom id name).2.2, room := (h.openRoom id name).1 }

def gained (R : Reception) (h : Hub) : List (Event Ticket) :=
  (h.queue R.room).drop (R.hub.queue R.room).length

def sent (R : Reception) (event : Event Ticket) (out : Except RoomFault Unit × Hub) : Reception :=
  { R with
    hub := out.2
    accepted := R.accepted ++ R.gained out.2
    sends := R.sends ++ [(event, out.1)] }

def called (R : Reception) (t : Ticket) (out : Course × Hub) : Reception :=
  { R with hub := out.2, toBook := R.toBook.follow t (R.gained out.2) out.1 }

def asks (R : Reception) (owner : Task) (event : Ticket → Event Ticket) (out : Course × Hub) :
    Reception :=
  let t : Ticket := ⟨owner, R.hub.nextSerial⟩
  { R with asked := Function.update R.asked t (some (event t)) }.called t out

def perform (R : Reception) : Act → Reception
  | .sendMove player profile =>
    R.sent ⟨player, .move profile⟩ (R.hub.sendMove R.room player profile)
  | .sendLeave player => R.sent ⟨player, .leave none⟩ (R.hub.sendLeave R.room player)
  | .sendChat player text => R.sent ⟨player, .chat text⟩ (R.hub.sendChat R.room player text)
  | .join owner timeout now player profile =>
    R.asks owner (fun t => ⟨player, .join profile (some t)⟩)
      (R.hub.requestJoin owner R.room timeout now player profile)
  | .leave owner timeout now player =>
    R.asks owner (fun t => ⟨player, .leave (some t)⟩)
      (R.hub.requestLeave owner R.room timeout now player)
  | .resume t now =>
    match R.waits t with
    | some w => R.called t (R.hub.resume w now)
    | none => R
  | .giveUp t =>
    match R.waits t with
    | some w => R.called t (R.hub.expire w)
    | none => R
  | .clone => { R with hub := R.hub.cloneHandle R.room }
  | .drop => { R with hub := R.hub.dropHandle R.room }
  | .cancel => { R with hub := R.hub.cancelRoom R.room }
  | .handle since =>
    match R.hub.pickEvent? R.room with
    | some (event, h) =>
      let o : Occasion Ticket := ⟨event, h.listenerSince since, h.player?⟩
      { R with hub := h.handleEvent o.listener R.room event, toBook := R.toBook.pass (.met o) }
    | none => R
  | .stop =>
    if R.hub.mayStop R.room then
      { R with hub := R.hub.stopRoom R.room, discarded := R.hub.queue R.room }
    else R
  | .elsewhere change players =>
    { R with
      hub := { R.hub with outboxes := change R.hub.outboxes, playerIndex := players }
      toBook := R.toBook.pass (.elsewhere change) }

def performAll (R : Reception) (acts : List Act) : Reception := acts.foldl perform R

def taken? : Event Ticket × Except RoomFault Unit → Option (Event Ticket)
  | (event, .ok _) => some event
  | (_, .error _) => none

structure Beneath (r : Nat) (cell : RoomCell) (boxes : Outboxes) (h : Hub) : Prop where
  standard : h.reactions = .standard
  boxes : h.outboxes = boxes
  cell : ∃ cell', h.rooms[r]? = some cell' ∧ cell'.room = cell.room ∧
    cell'.stopped = cell.stopped ∧ cell'.cancelled = cell.cancelled

theorem robust_beneath (r : Nat) (cell : RoomCell) (boxes : Outboxes) :
    Hub.Robust (Beneath r cell boxes) where
  signal hb := { hb with }
  setEvents {h s other events} hb ho := by
    refine { hb with cell := ?_ }
    obtain ⟨cell', hc, hsame⟩ := hb.cell
    rw [Hub.getElem?_setRoom ho]
    split
    · rename_i hs
      subst hs
      obtain rfl := Option.some.inj (hc.symm.trans ho)
      exact ⟨_, rfl, hsame⟩
    · exact ⟨cell', hc, hsame⟩
  freshSerial hb := { hb with }
  openReply hb := { hb with }
  closeReply hb := { hb with }
  createRoom {h name} hb := by
    obtain ⟨cell', hc, hsame⟩ := hb.cell
    simp only [Hub.createRoom, Hub.takeRoomId, Hub.openRoom]
    split
    · exact { hb with }
    · refine { hb with cell := ⟨cell', ?_, hsame⟩ }
      have hlt := (Array.getElem?_eq_some_iff.mp hc).1
      simp only [Hub.signal]
      rw [Array.getElem?_push_lt hlt, ← Array.getElem?_eq_getElem hlt, hc]

/-- The book is kept as it should be, and the room is what came of the events it met. -/
structure Sound (first : Room × Outboxes) (size : Nat) (R : Reception) (cell : RoomCell) :
    Prop where
  here : R.hub.rooms[R.room]? = some cell
  standard : R.hub.reactions = .standard
  played : R.passages.foldl Passage.play first = (cell.room, R.hub.outboxes)
  stopped : cell.stopped = cell.events.closed
  cancelled : cell.stopped = true → cell.cancelled = true ∨ R.discarded = []
  tallies : R.toBook.Tallies first size R.room
    ⟨cell.room.id, cell.events, R.hub.reply?, R.hub.nextSerial⟩
  taken : R.accepted.filter (·.reply?.isNone) = R.sends.filterMap taken?
  refused : ∀ x ∈ R.sends, x.2 = .ok () ∨ x.2 = .error (.busy first.1.id) ∨
    x.2 = .error (.unavailable first.1.id)

variable {R : Reception} {first : Room × Outboxes} {size : Nat} {cell : RoomCell}

namespace Sound

theorem front (h : R.Sound first size cell) : R.hub.front? R.room =
    some ⟨cell.room.id, cell.events, R.hub.reply?, R.hub.nextSerial⟩ := by
  rw [Hub.front?, h.here, Option.map_some]

theorem beneath (h : R.Sound first size cell) :
    Beneath R.room cell R.hub.outboxes R.hub :=
  ⟨h.standard, rfl, cell, h.here, rfl, rfl, rfl⟩

private theorem gained_eq (h : R.Sound first size cell) {hub : Hub} {f : Front}
    {new : List (Event Ticket)} (hf : hub.front? R.room = some f)
    (hk : Front.Takes ⟨cell.room.id, cell.events, R.hub.reply?, R.hub.nextSerial⟩ f new) :
    R.gained hub = new := by
  obtain ⟨cell', hc', rfl⟩ := Hub.exists_cell hf
  have hq : cell'.events.queue = cell.events.queue ++ new := hk.queue
  simp [gained, Hub.queue, hc', h.here, hq]

/-- Calls change neither the room nor the outboxes. -/
private theorem of_beneath (h : R.Sound first size cell) {hub : Hub} {b : Book} {f : Front}
    (hbeneath : Beneath R.room cell R.hub.outboxes hub) (hf : hub.front? R.room = some f)
    (hclosed : f.events.closed = cell.events.closed) (ht : b.Tallies first size R.room f)
    (hp : b.passages = R.passages) (hd : b.discarded = R.discarded)
    (htaken : b.accepted.filter (·.reply?.isNone) = b.sends.filterMap taken?)
    (hrefused : ∀ x ∈ b.sends, x.2 = .ok () ∨ x.2 = .error (.busy first.1.id) ∨
      x.2 = .error (.unavailable first.1.id)) :
    ∃ cell', ({ R with hub, toBook := b } : Reception).Sound first size cell' := by
  obtain ⟨cell', hc', hroom, hstop, hcancel⟩ := hbeneath.cell
  obtain ⟨other, hother, rfl⟩ := Hub.exists_cell hf
  obtain rfl := Option.some.inj (hc'.symm.trans hother)
  exact ⟨cell', {
    here := hc'
    standard := hbeneath.standard
    played := by rw [hp, h.played, hroom, hbeneath.boxes]
    stopped := hstop.trans (h.stopped.trans hclosed.symm)
    cancelled := fun hst => by
      rw [hd, hcancel]
      exact h.cancelled (hstop ▸ hst)
    tallies := ht
    taken := htaken
    refused := hrefused }⟩

/-- A request that goes on is written down as it should be. -/
private theorem of_recorded (h : R.Sound first size cell) {b : Book} {t : Ticket}
    {out : Course × Hub} (hbeneath : Beneath R.room cell R.hub.outboxes out.2)
    (hrec : Hub.Recorded first size R.room
      ⟨cell.room.id, cell.events, R.hub.reply?, R.hub.nextSerial⟩ b t out)
    (hp : b.passages = R.passages) (hd : b.discarded = R.discarded) (ha : b.accepted = R.accepted)
    (hs : b.sends = R.sends) :
    ∃ cell', ({ R with toBook := b }.called t out).Sound first size cell' := by
  obtain ⟨f, new, hf, hk, hreq, ht⟩ := hrec
  have hnew : ({ R with toBook := b } : Reception).gained out.2 = new := h.gained_eq hf hk
  have hrequests : new.filter (·.reply?.isNone) = [] := by
    rw [List.filter_eq_nil_iff]
    intro e he
    simp [Option.isSome_iff_ne_none.mp (hreq e he)]
  rw [called, hnew]
  refine h.of_beneath hbeneath hf hk.closed ht ?_ ?_ ?_ ?_
  · rw [Book.passages_follow, hp]
  · rw [Book.discarded_follow, hd]
  · rw [Book.accepted_follow, Book.sends_follow, ha, hs, List.filter_append, hrequests,
      List.append_nil, h.taken]
  · rw [Book.sends_follow, hs]
    exact h.refused

/-- A call that does not wait is written down as it should be. -/
private theorem offers (h : R.Sound first size cell) {e : Event Ticket} (he : e.reply? = none) :
    ∃ cell', (R.sent e (R.hub.offerEvent R.room e)).Sound first size cell' := by
  obtain ⟨f, new, hf, hk, ht, hout⟩ := Hub.recorded_offerEvent h.front h.tallies he
  rw [sent, h.gained_eq hf hk]
  refine h.of_beneath ((robust_beneath _ _ _).offerEvent h.beneath R.room e) hf hk.closed
    (ht.noted _) rfl rfl ?_ ?_
  · simp only [List.filter_append, List.filterMap_append, h.taken]
    rcases hout with ⟨-, hr, rfl⟩ | ⟨-, hr, rfl⟩ | ⟨-, hr, rfl⟩ <;> simp [hr, he, taken?]
  · intro x hx
    rcases List.mem_append.mp hx with hx | hx
    · exact h.refused x hx
    · rw [List.mem_singleton] at hx
      subst hx
      rcases hout with ⟨-, hr, -⟩ | ⟨-, hr, -⟩ | ⟨-, hr, -⟩ <;> simp [hr]

private theorem requests (h : R.Sound first size cell) (owner : Task) (timeout now : Nat)
    {event : Ticket → Event Ticket} (he : ∀ t, (event t).reply? = some t) :
    ∃ cell', (R.asks owner event (R.hub.request owner R.room timeout now event)).Sound
      first size cell' :=
  h.of_recorded ((robust_beneath _ _ _).request h.beneath owner R.room timeout now event)
    (Hub.recorded_request h.front h.tallies owner timeout now rfl (he _)) rfl rfl rfl rfl

private theorem resumes (h : R.Sound first size cell) (t : Ticket) (now : Nat) :
    ∃ cell', (R.perform (.resume t now)).Sound first size cell' := by
  rw [perform]
  cases hw : R.waits t with
  | none => exact ⟨cell, h⟩
  | some w =>
    exact h.of_recorded ((robust_beneath _ _ _).resume h.beneath w now)
      (Hub.recorded_resume h.front h.tallies hw now) rfl rfl rfl rfl

private theorem givesUp (h : R.Sound first size cell) (t : Ticket) :
    ∃ cell', (R.perform (.giveUp t)).Sound first size cell' := by
  rw [perform]
  cases hw : R.waits t with
  | none => exact ⟨cell, h⟩
  | some w =>
    exact h.of_recorded ((robust_beneath _ _ _).expire h.beneath w)
      (Hub.recorded_expire h.front h.tallies hw) rfl rfl rfl rfl

private theorem handles (h : R.Sound first size cell) (since : Ticket → Bool) :
    ∃ cell', (R.perform (.handle since)).Sound first size cell' := by
  rw [perform]
  cases hp : R.hub.pickEvent? R.room with
  | none => exact ⟨cell, h⟩
  | some picked =>
    obtain ⟨e, hub⟩ := picked
    obtain ⟨hstopped, rest, granted, waiting, hq, hu, hs, signals, rfl⟩ :=
      Hub.exists_of_pickEvent h.here h.tallies.sound hp
    simp only
    generalize hhub : ({ R.hub.setRoom R.room { cell with events :=
      { cell.events with queue := rest, granted, waiting } } with signals } : Hub) = hub
    have hc : hub.rooms[R.room]? = some
        { cell with events := { cell.events with queue := rest, granted, waiting } } := by
      rw [← hhub]
      exact (Hub.getElem?_setRoom h.here _ _).trans (if_pos rfl)
    have hstandard : hub.reactions = .standard := hhub ▸ h.standard
    have hboxes : hub.outboxes = R.hub.outboxes := by rw [← hhub]; rfl
    have hreplies (t : Ticket) : hub.reply? t = R.hub.reply? t := by rw [← hhub]; rfl
    have hserial : hub.nextSerial = R.hub.nextSerial := by rw [← hhub]; rfl
    have hwaiting (t : Ticket) (ht : hub.reply? t = some .awaited) :
        hub.listenerSince since t = .waiting := Hub.listenerSince_of_awaited ht since
    generalize hub.listenerSince since = listener at hwaiting ⊢
    obtain ⟨o, ho⟩ : ∃ o : Occasion Ticket, o = ⟨e, listener, hub.player?⟩ := ⟨_, rfl⟩
    have hbeside := Hub.beside_handleEvent hstandard hc listener e
    have hsent := Hub.outboxes_handleEvent hstandard hc listener e
    have hreply := Hub.reply?_handleEvent hstandard hc listener e
    simp only [← ho] at hbeside hsent hreply ⊢
    refine ⟨{ cell with
      room := cell.room.meet o
      events := { cell.events with queue := rest, granted, waiting } }, {
        here := ?_
        standard := hbeside.reactions.trans hstandard
        played := ?_
        stopped := h.stopped
        cancelled := h.cancelled
        tallies := ?_
        taken := h.taken
        refused := h.refused }⟩
    · rw [hbeside.rooms, Hub.getElem?_setRoom hc, if_pos rfl]
    · rw [hsent, hboxes, Book.pass, List.foldl_append, h.played]
      exact Passage.play_met _ _ o
    · have hevent : o.event = e := by rw [ho]
      have hall := h.tallies.handled hq hs rfl rfl rfl hu hevent rfl
        (hub.handleEvent listener R.room e).reply? ?_
      · rw [hbeside.nextSerial, (cell.room.meet_keeps o).1]
        exact hserial ▸ hall
      · intro t
        rw [hreply, h.played, Occasion.outcome?_eq]
        split
        · rename_i hasks
          obtain ⟨hr, hawaited⟩ := hasks
          obtain ⟨x, hx⟩ := cell.room.exists_outcome o (hevent ▸ hr)
            (by rw [ho]; exact hwaiting t hawaited)
          exact .inr ⟨hr, x, hx, by rw [Reply.after, hx]⟩
        · exact .inl (hreplies t)

private theorem stops (h : R.Sound first size cell) :
    ∃ cell', (R.perform .stop).Sound first size cell' := by
  rw [perform]
  split
  · rename_i hmay
    simp only [Hub.mayStop, h.here, Bool.and_eq_true, Bool.not_eq_true', Bool.or_eq_true,
      decide_eq_true_eq] at hmay
    obtain ⟨hrunning, hwhy⟩ := hmay
    obtain ⟨hroom, hstandard, hboxes, hfront⟩ := Hub.stopRoom_spec h.here
    have hqueue : R.hub.queue R.room = cell.events.queue := by simp [Hub.queue, h.here]
    have ht := h.tallies.stopped (h.stopped.symm.trans hrunning)
    rw [hqueue]
    refine ⟨_, {
      here := hroom
      standard := hstandard.trans h.standard
      played := h.played.trans (by rw [hboxes])
      stopped := rfl
      cancelled := fun _ => ?_
      tallies := ?_
      taken := h.taken
      refused := h.refused }⟩
    · refine hwhy.imp_right fun hgone => ?_
      cases hq : cell.events.queue with
      | nil => rfl
      | cons e rest => simp [Mailbox.receive_cons hq] at hgone
    · obtain ⟨other, hother, heq⟩ := Hub.exists_cell hfront
      obtain rfl := Option.some.inj (hroom.symm.trans hother)
      exact heq ▸ ht
  · exact ⟨cell, h⟩

/-- Handles come and go, and the room may be asked to stop. -/
private theorem of_setRoom (h : R.Sound first size cell) (senders : Nat) {cancelled : Bool}
    (hcancelled : cell.cancelled = true → cancelled = true) (signals : List Signal) :
    ∃ cell', ({ R with
      hub := { R.hub.setRoom R.room
        { cell with events := { cell.events with senders }, cancelled } with signals } } :
        Reception).Sound first size cell' := by
  have hs : ({ cell.events with senders } : Mailbox Ticket (Event Ticket)).Sound :=
    ⟨h.tallies.sound.slots, h.tallies.sound.names⟩
  have ht := h.tallies.shifted hs rfl rfl rfl fun _ hx => hx
  exact ⟨_, {
    here := (Hub.getElem?_setRoom h.here _ _).trans (if_pos rfl)
    standard := h.standard
    played := h.played
    stopped := h.stopped
    cancelled := fun hs => (h.cancelled hs).imp_left hcancelled
    tallies := ht
    taken := h.taken
    refused := h.refused }⟩

private theorem passes (h : R.Sound first size cell) (change : Outboxes → Outboxes)
    (players : List (PlayerId × Nat)) :
    (R.perform (.elsewhere change players)).Sound first size cell where
  here := h.here
  standard := h.standard
  played := by
    simp only [perform, Book.pass, List.foldl_append, h.played]
    rfl
  stopped := h.stopped
  cancelled := h.cancelled
  tallies := h.tallies.elsewhere change
  taken := h.taken
  refused := h.refused

/-- Whatever is done, the book is kept. -/
theorem perform (h : R.Sound first size cell) (act : Act) :
    ∃ cell', (R.perform act).Sound first size cell' := by
  cases act with
  | sendMove player profile => exact h.offers rfl
  | sendLeave player => exact h.offers rfl
  | sendChat player text => exact h.offers rfl
  | join owner timeout now player profile => exact h.requests owner timeout now fun _ => rfl
  | leave owner timeout now player => exact h.requests owner timeout now fun _ => rfl
  | resume t now => exact h.resumes t now
  | giveUp t => exact h.givesUp t
  | clone =>
    rw [Reception.perform, Hub.cloneHandle, h.here]
    exact h.of_setRoom _ id R.hub.signals
  | drop =>
    rw [Reception.perform, Hub.dropHandle, h.here]
    exact h.of_setRoom _ id R.hub.signals
  | cancel =>
    rw [Reception.perform, Hub.cancelRoom, h.here]
    simp only
    split
    · exact ⟨cell, h⟩
    · exact h.of_setRoom cell.events.senders (fun _ => rfl) _
  | handle since => exact h.handles since
  | stop => exact h.stops
  | elsewhere change players => exact ⟨cell, h.passes change players⟩

theorem performAll (h : R.Sound first size cell) (acts : List Act) :
    ∃ cell', (R.performAll acts).Sound first size cell' := by
  induction acts generalizing R cell with
  | nil => exact ⟨cell, h⟩
  | cons act rest ih =>
    obtain ⟨cell', h'⟩ := h.perform act
    exact ih h'

end Sound

/-- A turn of a room's loop, as it runs, is one of these steps. -/
theorem exists_act_of_stepRoom (R : Reception) :
    ∃ act, (act = .handle (fun _ => false) ∨ act = .stop) ∧
      (R.hub.stepRoom R.room).2 = (R.perform act).hub := by
  have handle {hub : Hub} (h : ((R.hub.pickEvent? R.room).elim R.hub fun picked =>
      picked.2.handleEvent picked.2.listener R.room picked.1) = hub) :
      ∃ act, (act = .handle (fun _ => false) ∨ act = .stop) ∧ hub = (R.perform act).hub := by
    refine ⟨_, .inl rfl, ?_⟩
    rw [← h, perform]
    cases R.hub.pickEvent? R.room with
    | none => rfl
    | some picked => simp only [Option.elim_some, Hub.listenerSince_false]
  have stop {cell : RoomCell} (hc : R.hub.rooms[R.room]? = some cell)
      (hstopped : cell.stopped = false)
      (h : cell.cancelled = true ∨ cell.events.receive.1 = .disconnected) :
      ∃ act, (act = .handle (fun _ => false) ∨ act = .stop) ∧
        R.hub.stopRoom R.room = (R.perform act).hub := by
    refine ⟨_, .inr rfl, ?_⟩
    rw [perform, if_pos]
    simpa [Hub.mayStop, hc, hstopped] using h
  rw [Hub.stepRoom]
  cases hc : R.hub.rooms[R.room]? with
  | none => exact handle (by simp [Hub.pickEvent?, Hub.drawEvent?, hc])
  | some cell =>
    simp only
    split
    · rename_i hstopped
      exact handle (by simp [Hub.pickEvent?, Hub.drawEvent?, hc, hstopped])
    · rename_i hstopped
      rw [Bool.not_eq_true] at hstopped
      split
      · rename_i hcancelled
        exact stop hc hstopped (.inl hcancelled)
      · split <;> rename_i hr
        · apply handle
          simp only [Hub.pickEvent?, Hub.drawEvent?, hc, hstopped, hr, Bool.false_eq_true, if_false]
          rfl
        · exact handle (by simp [Hub.pickEvent?, Hub.drawEvent?, hc, hstopped, hr])
        · exact stop hc hstopped (.inr (by rw [hr]))

end Reception

end Lobby
