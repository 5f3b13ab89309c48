import Lobby.Proofs.Receptions

/-! A room does behind its mailbox what handling the accepted events in turn does, and its handles
report honestly: what callers are told is what became of their calls. -/
namespace Lobby.Reception
variable {R : Reception} {first : Room × Outboxes} {size : Nat} {cell : RoomCell}

def present? (R : Reception) : Option (Room × Outboxes) :=
  R.hub.rooms[R.room]?.map fun cell => (cell.room, R.hub.outboxes)

def hasStopped (R : Reception) : Bool := R.hub.rooms[R.room]?.any (·.stopped)

def isCancelled (R : Reception) : Bool := R.hub.rooms[R.room]?.any (·.cancelled)

/-- The events accepted that the room has yet to handle, or that it never will. -/
def left (R : Reception) : List (Event Ticket) :=
  if R.hasStopped then R.discarded else R.hub.queue R.room

def Untouched (R : Reception) (t : Ticket) : Prop :=
  ∀ o ∈ R.met, o.event.reply? ≠ some t

/-- The room has handled a request once, and computed this outcome when it did. -/
def HandledOnce (R : Reception) (first : Room × Outboxes) (t : Ticket) (outcome : Outcome) : Prop :=
  ∃ before o after, R.passages = before ++ .met o :: after ∧ R.asked t = some o.event ∧
    o.outcome? (before.foldl Passage.play first).1 = some outcome ∧
    ∀ o', .met o' ∈ before ++ after → o'.event.reply? ≠ some t

/-- Nothing comes of what is done after the event loop has ended. The room handles no event, calls
that do not wait are told that it is unavailable, and whoever is told an outcome had been answered
before. -/
structure Rests (R : Reception) (id : RoomId) (R' : Reception) : Prop where
  stopped : R'.hasStopped = true
  met : R'.met = R.met
  sends : ∃ more, R'.sends = R.sends ++ more ∧ ∀ x ∈ more, x.2 = .error (.unavailable id)
  endings : ∃ more, R'.endings = R.endings ++ more ∧ ∀ x ∈ more, ∀ outcome,
    x.answer = .ok outcome → R.hub.reply? x.ticket = some (.answered outcome)
  answered : ∀ t outcome, R'.hub.reply? t = some (.answered outcome) →
    R.hub.reply? t = some (.answered outcome)

/-- A room does behind its mailbox what handling the accepted events in turn does, and its handles
report what became of the calls. -/
structure Faithful (first : Room × Outboxes) (size : Nat) (R : Reception) : Prop where
  /-- The members and the outboxes are what the events met, one after the other, have made of
  them. -/
  folded : R.present? = some (R.passages.foldl Passage.play first)
  /-- The events met are the first of those accepted, in the order of their acceptance. -/
  in_order : R.accepted = R.met.map (·.event) ++ R.left
  bounded : (R.hub.queue R.room).length ≤ size
  /-- The events accepted are those of the calls that were told so, and of requests. -/
  taken : R.accepted.filter (·.reply?.isNone) = R.sends.filterMap taken?
  asked : ∀ e ∈ R.accepted, ∀ t, e.reply? = some t → R.asked t = some e
  refused : ∀ x ∈ R.sends, x.2 = .ok () ∨ x.2 = .error (.busy first.1.id) ∨
    x.2 = .error (.unavailable first.1.id)
  unqueued : ∀ x ∈ R.endings, x.queued = false → R.Untouched x.ticket
  unavailable : ∀ x ∈ R.endings, x.answer = .error (.unavailable first.1.id) →
    R.Untouched x.ticket
  granted : ∀ x ∈ R.endings, ∀ outcome, x.answer = .ok outcome →
    R.HandledOnce first x.ticket outcome
  failed : ∀ x ∈ R.endings, ∀ fault, x.answer = .error fault →
    fault = .timeout first.1.id ∨ fault = .unavailable first.1.id
  /-- A loop that has ended without being asked to has handled all there was. -/
  finished : R.hasStopped = true → R.isCancelled = false → R.accepted = R.met.map (·.event)
  rests : R.hasStopped = true → ∀ acts, R.Rests first.1.id (R.performAll acts)

private theorem robust_answered (h₀ : Hub) : Hub.Robust fun h =>
    ∀ t outcome, h.reply? t = some (.answered outcome) →
      h₀.reply? t = some (.answered outcome) where
  signal ha := ha
  setEvents ha _ := ha
  freshSerial ha := ha
  openReply ha t outcome ht := by
    rw [Hub.reply?_openReply] at ht
    split at ht
    · simp at ht
    · exact ha t outcome ht
  closeReply ha t outcome ht := by
    rw [Hub.reply?_closeReply] at ht
    split at ht
    · contradiction
    · exact ha t outcome ht
  createRoom {h name} ha t outcome ht := by
    have hreplies : (h.createRoom name).2.replies = h.replies := by
      simp only [Hub.createRoom, Hub.takeRoomId, Hub.openRoom]
      split <;> rfl
    rw [Hub.reply?, hreplies] at ht
    exact ha t outcome ht

namespace Rests

private theorem refl (h : R.hasStopped = true) (id : RoomId) : R.Rests id R :=
  ⟨h, rfl, ⟨[], by simp⟩, ⟨[], by simp⟩, fun _ _ ha => ha⟩

private theorem trans {id : RoomId} {R₁ R₂ : Reception} (h : R.Rests id R₁)
    (h' : R₁.Rests id R₂) : R.Rests id R₂ := by
  obtain ⟨sends, hsends, hunavailable⟩ := h.sends
  obtain ⟨sends', hsends', hunavailable'⟩ := h'.sends
  obtain ⟨endings, hendings, hanswered⟩ := h.endings
  obtain ⟨endings', hendings', hanswered'⟩ := h'.endings
  refine ⟨h'.stopped, h'.met.trans h.met, ⟨sends ++ sends', ?_, ?_⟩,
    ⟨endings ++ endings', ?_, ?_⟩, fun t x ha => h.answered t x (h'.answered t x ha)⟩
  · rw [hsends', hsends, List.append_assoc]
  · intro x hx
    exact (List.mem_append.mp hx).elim (hunavailable x) (hunavailable' x)
  · rw [hendings', hendings, List.append_assoc]
  · intro x hx outcome ho
    rcases List.mem_append.mp hx with hx | hx
    · exact hanswered x hx outcome ho
    · exact h.answered _ _ (hanswered' x hx outcome ho)

end Rests

theorem Sound.hasStopped_eq (h : R.Sound first size cell) : R.hasStopped = cell.stopped := by
  rw [hasStopped, h.here]
  rfl

/-- Calls on a room whose loop has ended do not bring it back, and bring no answer. -/
private theorem Sound.rests_of_call (h : R.Sound first size cell) (hstopped : cell.stopped = true)
    {hub : Hub} {b : Book} (hQ : ∀ Q, Hub.Robust Q → Q R.hub → Q hub)
    (hp : b.passages = R.passages)
    (hsends : ∃ more, b.sends = R.sends ++ more ∧
      ∀ x ∈ more, x.2 = .error (.unavailable first.1.id))
    (hendings : ∃ more, b.endings = R.endings ++ more ∧ ∀ x ∈ more, ∀ outcome,
      x.answer = .ok outcome → R.hub.reply? x.ticket = some (.answered outcome)) :
    R.Rests first.1.id { R with hub, toBook := b } where
  stopped := by
    obtain ⟨cell', hc', -, hstop, -⟩ := (hQ _ (robust_beneath _ _ _) h.beneath).cell
    simp [hasStopped, hc', hstop, hstopped]
  met := congrArg (List.filterMap Passage.met?) hp
  sends := hsends
  endings := hendings
  answered := hQ _ (robust_answered R.hub) fun _ _ ha => ha

private theorem Sound.rests_of_offer (h : R.Sound first size cell) (hstopped : cell.stopped = true)
    {e : Event Ticket} (he : e.reply? = none) :
    R.Rests first.1.id (R.sent e (R.hub.offerEvent R.room e)) := by
  refine h.rests_of_call hstopped (fun _ hQ hq => hQ.offerEvent hq _ _) rfl ⟨_, rfl, ?_⟩
    ⟨[], by simp⟩
  obtain ⟨f, new, -, -, -, hout⟩ := Hub.recorded_offerEvent h.front h.tallies he
  have hclosed : cell.events.closed = true := h.stopped.symm.trans hstopped
  intro x hx
  rw [List.mem_singleton] at hx
  subst hx
  rcases hout with ⟨hopen, -⟩ | ⟨hopen, -⟩ | ⟨-, hr, -⟩
  · exact absurd (hclosed.symm.trans hopen) (by simp)
  · exact absurd (hclosed.symm.trans hopen) (by simp)
  · exact hr

private theorem Sound.rests_of_called (h : R.Sound first size cell) (hstopped : cell.stopped = true)
    {b : Book} {t : Ticket} {out : Course × Hub} (hQ : ∀ Q, Hub.Robust Q → Q R.hub → Q out.2)
    (htold : ∀ outcome, out.1 = .ended (.ok outcome) → R.hub.reply? t = some (.answered outcome))
    (hp : b.passages = R.passages) (hs : b.sends = R.sends) (he : b.endings = R.endings) :
    R.Rests first.1.id ({ R with toBook := b }.called t out) := by
  refine h.rests_of_call hstopped hQ ((Book.passages_follow ..).trans hp)
    ⟨[], by rw [Book.sends_follow]; simp [hs]⟩ ?_
  cases hcourse : out.1 with
  | waiting w => exact ⟨[], by simp [Book.follow, he]⟩
  | ended answer =>
    refine ⟨[_], congrArg (· ++ [_]) he, ?_⟩
    intro x hx outcome ho
    rw [List.mem_singleton] at hx
    subst hx
    exact htold outcome (hcourse.trans (congrArg _ ho))

private theorem Sound.rests_of_request (h : R.Sound first size cell)
    (hstopped : cell.stopped = true) (owner : Task) (timeout now : Nat)
    (event : Ticket → Event Ticket) :
    R.Rests first.1.id (R.asks owner event (R.hub.request owner R.room timeout now event)) :=
  h.rests_of_called hstopped (fun _ hQ hq => hQ.request hq owner R.room timeout now event)
    (fun outcome ho => absurd ho (Hub.request_ne_ok _ _ _ _ _ _ outcome)) rfl rfl rfl

/-- Whatever is done after the loop has ended, nothing comes of it. -/
private theorem Sound.rests (h : R.Sound first size cell) (hstopped : cell.stopped = true)
    (act : Act) : R.Rests first.1.id (R.perform act) := by
  have hsame : R.Rests first.1.id R := .refl (h.hasStopped_eq.trans hstopped) _
  cases act with
  | sendMove player profile => exact h.rests_of_offer hstopped rfl
  | sendLeave player => exact h.rests_of_offer hstopped rfl
  | sendChat player text => exact h.rests_of_offer hstopped rfl
  | join owner timeout now player profile | leave owner timeout now player =>
    exact h.rests_of_request hstopped owner timeout now _
  | resume t now =>
    rw [Reception.perform]
    cases hw : R.waits t with
    | none => exact hsame
    | some w =>
      refine h.rests_of_called hstopped (fun _ hQ hq => hQ.resume hq w now) ?_ rfl rfl rfl
      intro outcome ho
      rw [← (h.tallies.waits hw).ticket]
      exact Hub.answered_of_resume ho
  | giveUp t =>
    rw [Reception.perform]
    cases hw : R.waits t with
    | none => exact hsame
    | some w =>
      refine h.rests_of_called hstopped (fun _ hQ hq => hQ.expire hq w) ?_ rfl rfl rfl
      intro outcome ho
      simp [Hub.expire, Hub.conclude] at ho
  | clone =>
    rw [Reception.perform, Hub.cloneHandle, h.here]
    exact h.rests_of_call hstopped (fun _ hQ hq => hQ.setEvents hq h.here) rfl ⟨[], by simp⟩
      ⟨[], by simp⟩
  | drop =>
    rw [Reception.perform, Hub.dropHandle, h.here]
    exact h.rests_of_call hstopped (fun _ hQ hq => hQ.setEvents hq h.here) rfl ⟨[], by simp⟩
      ⟨[], by simp⟩
  | cancel =>
    rw [Reception.perform, Hub.cancelRoom, h.here]
    simp only
    split
    · exact hsame
    · refine ⟨?_, rfl, ⟨[], by simp⟩, ⟨[], by simp⟩, fun _ _ ha => ha⟩
      have hc := (Hub.getElem?_setRoom h.here { cell with cancelled := true } R.room).trans
        (if_pos rfl)
      simp only [hasStopped, Hub.signal, hc]
      exact hstopped
  | handle since =>
    have hnone : R.hub.pickEvent? R.room = none := by
      simp [Hub.pickEvent?, Hub.drawEvent?, h.here, hstopped]
    rw [Reception.perform, hnone]
    exact hsame
  | stop =>
    rw [Reception.perform, if_neg]
    · exact hsame
    · simp [Hub.mayStop, h.here, hstopped]
  | elsewhere change players =>
    exact {
      stopped := h.hasStopped_eq.trans hstopped
      met := Book.met_pass_elsewhere R.toBook change
      sends := ⟨[], by simp [Reception.perform, Book.pass]⟩
      endings := ⟨[], by simp [Reception.perform, Book.pass]⟩
      answered := fun _ _ ha => ha }

private theorem Sound.rests_all (h : R.Sound first size cell) (hstopped : R.hasStopped = true)
    (acts : List Act) : R.Rests first.1.id (R.performAll acts) := by
  induction acts generalizing R cell with
  | nil => exact .refl hstopped _
  | cons act rest ih =>
    have hone := h.rests (h.hasStopped_eq.symm.trans hstopped) act
    obtain ⟨cell', h'⟩ := h.perform act
    exact hone.trans (ih h' hone.stopped)

theorem sound_start (config : RoomConfig) (id : RoomId) (name : String) (boxes : Outboxes)
    (players : List (PlayerId × Nat)) : ∃ cell,
      (start config id name boxes players).Sound ({ id, name }, boxes)
        (max config.eventCapacity 1) cell := by
  refine ⟨{
    room := { id, name }
    events := Mailbox.ofCapacity id.display config.eventCapacity }, {
      here := rfl
      standard := rfl
      played := rfl
      stopped := rfl
      cancelled := fun _ => .inr rfl
      tallies := ?_
      taken := rfl
      refused := by simp [start] }⟩
  exact {
    named := rfl
    sound := Mailbox.sound_ofCapacity _ _
    capacity := rfl
    split := rfl
    running := fun _ => rfl
    emptied := fun _ => rfl
    once := List.nodup_nil
    known := by simp [start]
    issued := by simp [start]
    waits := by simp [start]
    lined := by simp [start, Mailbox.ofCapacity, Mailbox.underWay]
    answered := by simp [start, Hub.openRoom, Hub.signal, Hub.reply?, Hub.room?]
    abandoned := by simp [start, Hub.openRoom, Hub.signal, Hub.reply?, Hub.room?]
    ended := by simp [start]
    honest := by simp [start] }

namespace Sound

private theorem hub_queue_eq (h : R.Sound first size cell) :
    R.hub.queue R.room = cell.events.queue := by
  simp [Hub.queue, h.here]

private theorem left_eq (h : R.Sound first size cell) :
    R.left = cell.events.queue ++ R.discarded := by
  rw [left, h.hasStopped_eq, h.hub_queue_eq]
  split
  · rename_i hs
    rw [h.tallies.emptied (h.stopped.symm.trans hs), List.nil_append]
  · rename_i hs
    rw [h.tallies.running (h.stopped.symm.trans (by simpa using hs)), List.append_nil]

private theorem in_order (h : R.Sound first size cell) :
    R.accepted = R.met.map (·.event) ++ R.left := by
  rw [h.left_eq]
  exact h.tallies.split

private theorem nodup_met (h : R.Sound first size cell) :
    (tickets (R.met.map (·.event)) ++ tickets R.left).Nodup := by
  rw [← Book.tickets_append, ← h.in_order]
  exact h.tallies.once

private theorem untouched (h : R.Sound first size cell) {t : Ticket}
    (ht : t ∈ tickets R.accepted → t ∈ tickets R.discarded) : R.Untouched t := by
  intro o ho hr
  have hmet : t ∈ tickets (R.met.map (·.event)) :=
    Book.mem_tickets.mpr ⟨_, List.mem_map_of_mem ho, hr⟩
  have hleft : t ∈ tickets R.left := by
    rw [h.left_eq, Book.tickets_append]
    apply List.mem_append_right
    apply ht
    rw [h.in_order, Book.tickets_append]
    exact List.mem_append_left _ hmet
  exact (List.nodup_append.mp h.nodup_met).2.2 t hmet t hleft rfl

private theorem handledOnce (h : R.Sound first size cell) {t : Ticket} {outcome : Outcome}
    (ha : R.toBook.Answered first t outcome) : R.HandledOnce first t outcome := by
  obtain ⟨before, o, after, hpassages, hasked, ho⟩ := ha
  refine ⟨before, o, after, hpassages, hasked, ho, ?_⟩
  have hnames (passages : List Passage) {o' : Occasion Ticket} (hm : .met o' ∈ passages)
      (hr : o'.event.reply? = some t) :
      t ∈ tickets ((passages.filterMap Passage.met?).map (·.event)) :=
    Book.mem_tickets.mpr ⟨_, List.mem_map_of_mem (List.mem_filterMap.mpr ⟨_, hm, rfl⟩), hr⟩
  have hmet : tickets (R.met.map (·.event)) =
      tickets ((before.filterMap Passage.met?).map (·.event)) ++
        t :: tickets ((after.filterMap Passage.met?).map (·.event)) := by
    have hown : o.event.reply? = some t := (h.tallies.issued hasked).2
    simp [Book.met, hpassages, Passage.met?, tickets, hown]
  have hnodup := (List.nodup_append.mp h.nodup_met).1
  rw [hmet, List.nodup_middle, List.nodup_cons] at hnodup
  intro o' hm hr
  apply hnodup.1
  rcases List.mem_append.mp hm with hm | hm
  · exact List.mem_append_left _ (hnames before hm hr)
  · exact List.mem_append_right _ (hnames after hm hr)

theorem faithful (h : R.Sound first size cell) : R.Faithful first size where
  folded := by
    rw [present?, h.here, h.played]
    rfl
  in_order := h.in_order
  bounded := by
    have hslots := h.tallies.sound.slots
    have hcapacity : cell.events.capacity = size := h.tallies.capacity
    rw [Mailbox.occupied] at hslots
    rw [h.hub_queue_eq]
    exact (Nat.le_add_right _ _).trans (hslots.trans hcapacity.le)
  taken := h.taken
  asked e he t ht := h.tallies.known he ht
  refused := h.refused
  unqueued x hx hq := h.untouched fun hm => absurd hm ((h.tallies.honest hx).unqueued hq)
  unavailable x hx ha := h.untouched ((h.tallies.honest hx).unavailable ha)
  granted x hx outcome ha := h.handledOnce ((h.tallies.honest hx).granted ha)
  failed x hx fault ha := (h.tallies.honest hx).failed ha
  finished hs hc := by
    have hstopped : cell.stopped = true := h.hasStopped_eq.symm.trans hs
    have hgoes : cell.cancelled ≠ true := by
      simpa [isCancelled, h.here] using hc
    have hnone : R.discarded = [] := (h.cancelled hstopped).resolve_left hgoes
    rw [h.in_order, left, if_pos hs, hnone, List.append_nil]
  rests hs acts := h.rests_all hs acts

end Sound

/-- Whatever the order in which the callers and the event loop of a room take their steps, the
room does what handling the accepted events in turn does, and callers are told what became of
their calls. -/
theorem handles_report_honestly (config : RoomConfig) (id : RoomId) (name : String)
    (boxes : Outboxes) (players : List (PlayerId × Nat)) (acts : List Act) :
    ((start config id name boxes players).performAll acts).Faithful ({ id, name }, boxes)
      (max config.eventCapacity 1) := by
  obtain ⟨cell, hstart⟩ := sound_start config id name boxes players
  obtain ⟨cell', h⟩ := hstart.performAll acts
  exact h.faithful

private def caller : PlayerId := ⟨"caller"⟩

private def callerBox : Outboxes := #[Mailbox.ofCapacity "caller/outbound" 4]

/-- Only one event fits in the room's mailbox. While a join is there, a move is too much and a
leave that does not wait comes to nothing; and when the room is asked to stop, a chat line is there,
and another leave waits for its place. -/
private def callerActs : List Act :=
  [.join .visitor 100 0 caller { name := "Caller" }, .sendMove caller {},
    .leave .visitor 0 0 caller, .handle fun _ => false, .resume ⟨.visitor, 0⟩ 0,
    .sendChat caller "hi", .leave .visitor 100 0 caller, .cancel, .stop,
    .resume ⟨.visitor, 3⟩ 0, .sendLeave caller]

theorem handles_report_honestly_caller : ∃ R : Reception,
    R.Faithful ({ id := ⟨7⟩, name := "den" }, callerBox) 1 ∧ R.hasStopped = true ∧
      R.accepted.length = 2 ∧ R.met.length = 1 ∧
      R.sends.map (·.2) =
        [.error (.busy ⟨7⟩), .ok (), .error (.unavailable ⟨7⟩)] ∧
      R.endings.map (·.queued) = [false, true, false] ∧
      R.endings.map (·.answer) = [.error (.timeout ⟨7⟩),
        .ok ⟨.ok, { id := ⟨7⟩, name := "den", players := [{ id := caller, name := "Caller" }] }⟩,
        .error (.unavailable ⟨7⟩)] :=
  ⟨_, handles_report_honestly { eventCapacity := 1 } ⟨7⟩ "den" callerBox [(caller, 0)] callerActs,
    by decide +kernel⟩

end Lobby.Reception
