import Mathlib.Logic.Function.Basic
import Lobby.Hub.Rendezvous
import Lobby.Proofs.RoomHandling

/-! A book on a room: what its callers ask for and are told, set against what its mailbox has
taken, what it has handled, and what it has left unhandled. -/
namespace Lobby

def tickets (events : List (Event Ticket)) : List Ticket := events.filterMap Event.reply?

/-- What changes a room and the outboxes: the room handles an event, or others turn to the
outboxes. -/
inductive Passage where
  | met (occasion : Occasion Ticket)
  | elsewhere (change : Outboxes → Outboxes)

def Occasion.outcome? (o : Occasion Ticket) (room : Room) : Option Outcome :=
  match room.handle .standard o.listener o.lookup o.event with
  | some (_, effects) => Effect.outcome? effects
  | none => none

theorem Occasion.outcome?_eq (o : Occasion Ticket) (room : Room) :
    o.outcome? room = Effect.outcome? (room.effects o) := by
  simp only [Occasion.outcome?, Room.handle_standard]
  rfl

namespace Passage

def play : Room × Outboxes → Passage → Room × Outboxes
  | (room, boxes), .met o =>
    match room.handle .standard o.listener o.lookup o.event with
    | some (room, effects) => (room, Effect.deliverAll boxes effects)
    | none => (room, boxes)
  | (room, boxes), .elsewhere change => (room, change boxes)

def met? : Passage → Option (Occasion Ticket)
  | .met o => some o
  | .elsewhere _ => none

theorem play_met (room : Room) (boxes : Outboxes) (o : Occasion Ticket) :
    play (room, boxes) (.met o) = (room.meet o, Effect.deliverAll boxes (room.effects o)) := by
  simp only [play, Room.handle_standard]
  rfl

end Passage

/-- A request that is over: whether the mailbox had its event by then, and what the caller was
told. -/
structure Ending where
  ticket : Ticket
  queued : Bool
  answer : Answer

structure Book where
  asked : Ticket → Option (Event Ticket) := fun _ => none
  waits : Ticket → Option Wait := fun _ => none
  accepted : List (Event Ticket) := []
  passages : List Passage := []
  /-- What was queued when the event loop ended. -/
  discarded : List (Event Ticket) := []
  sends : List (Event Ticket × Except RoomFault Unit) := []
  endings : List Ending := []

namespace Book

def met (b : Book) : List (Occasion Ticket) := b.passages.filterMap Passage.met?

def pass (b : Book) (passage : Passage) : Book :=
  { b with passages := b.passages ++ [passage] }

@[simp] theorem met_pass_met (b : Book) (o : Occasion Ticket) :
    (b.pass (.met o)).met = b.met ++ [o] := by
  simp [pass, met, Passage.met?]

@[simp] theorem met_pass_elsewhere (b : Book) (change : Outboxes → Outboxes) :
    (b.pass (.elsewhere change)).met = b.met := by
  simp [pass, met, Passage.met?]

def follow (b : Book) (t : Ticket) (new : List (Event Ticket)) : Course → Book
  | .waiting w =>
    { b with waits := Function.update b.waits t (some w), accepted := b.accepted ++ new }
  | .ended answer =>
    let accepted := b.accepted ++ new
    { b with
      waits := Function.update b.waits t none
      accepted
      endings := b.endings ++ [⟨t, t ∈ tickets accepted, answer⟩] }

section
variable (b : Book) (t : Ticket) (new : List (Event Ticket)) (course : Course)

@[simp] theorem passages_follow : (b.follow t new course).passages = b.passages := by
  cases course <;> rfl

@[simp] theorem discarded_follow : (b.follow t new course).discarded = b.discarded := by
  cases course <;> rfl

@[simp] theorem sends_follow : (b.follow t new course).sends = b.sends := by
  cases course <;> rfl

@[simp] theorem accepted_follow : (b.follow t new course).accepted = b.accepted ++ new := by
  cases course <;> rfl

end

/-- The room, as what came before had left it, handled the request, and this is the outcome that
it computed. -/
def Answered (b : Book) (first : Room × Outboxes) (t : Ticket) (outcome : Outcome) : Prop :=
  ∃ before o after, b.passages = before ++ .met o :: after ∧ b.asked t = some o.event ∧
    o.outcome? (before.foldl Passage.play first).1 = some outcome

theorem Answered.mono {b b' : Book} {first : Room × Outboxes} {t : Ticket} {outcome : Outcome}
    (h : b.Answered first t outcome) (hpassages : b.passages <+: b'.passages)
    (hasked : ∀ e, b.asked t = some e → b'.asked t = some e) : b'.Answered first t outcome := by
  obtain ⟨before, o, after, hb, ha, ho⟩ := h
  obtain ⟨rest, hrest⟩ := hpassages
  refine ⟨before, o, after ++ rest, ?_, hasked _ ha, ho⟩
  rw [← hrest, hb, List.append_assoc, List.cons_append]

structure Honest (b : Book) (first : Room × Outboxes) (x : Ending) : Prop where
  unqueued : x.queued = false → x.ticket ∉ tickets b.accepted
  unavailable : x.answer = .error (.unavailable first.1.id) → x.ticket ∈ tickets b.accepted →
    x.ticket ∈ tickets b.discarded
  granted {outcome : Outcome} : x.answer = .ok outcome → b.Answered first x.ticket outcome
  failed {fault : RoomFault} : x.answer = .error fault →
    fault = .timeout first.1.id ∨ fault = .unavailable first.1.id

end Book

structure Front where
  id : RoomId
  events : Mailbox Ticket (Event Ticket)
  reply? : Ticket → Option Reply
  serial : Nat

structure Front.Takes (f f' : Front) (new : List (Event Ticket)) : Prop where
  queue : f'.events.queue = f.events.queue ++ new
  closed : f'.events.closed = f.events.closed

theorem Front.takes_nil {f f' : Front} (hq : f'.events.queue = f.events.queue)
    (hc : f'.events.closed = f.events.closed) : f.Takes f' [] :=
  ⟨hq.trans (List.append_nil _).symm, hc⟩

theorem Front.Takes.trans {f g k : Front} {new more : List (Event Ticket)} (h : f.Takes g new)
    (h' : g.Takes k more) : f.Takes k (new ++ more) :=
  ⟨by rw [h'.queue, h.queue, List.append_assoc], h'.closed.trans h.closed⟩

/-- The front when the event loop ends: the mailbox closes, and whoever waits for an answer to
what is queued learns that there will be none. -/
def Front.stop (f : Front) : Front :=
  { f with
    events := f.events.discard
    reply? := fun t =>
      if t ∈ tickets f.events.queue ∧ f.reply? t = some .awaited then some .abandoned
      else f.reply? t }

def Hub.front? (h : Hub) (r : Nat) : Option Front :=
  h.rooms[r]?.map fun cell => ⟨cell.room.id, cell.events, h.reply?, h.nextSerial⟩

namespace Book
variable {b : Book} {first : Room × Outboxes} {size r : Nat} {f : Front} {t : Ticket}
  {e : Event Ticket} {w : Wait}

structure Awaits (b : Book) (r : Nat) (f : Front) (t : Ticket) (w : Wait) : Prop where
  ticket : w.ticket = t
  room : w.room = r
  asked : b.asked t ≠ none
  reply : f.reply? t ≠ none
  slot : w.stage = .slot → t ∉ tickets b.accepted

structure Tallies (first : Room × Outboxes) (size r : Nat) (f : Front) (b : Book) : Prop where
  named : f.id = first.1.id
  sound : f.events.Sound
  capacity : f.events.capacity = size
  split : b.accepted = b.met.map (·.event) ++ (f.events.queue ++ b.discarded)
  running : f.events.closed = false → b.discarded = []
  emptied : f.events.closed = true → f.events.queue = []
  once : (tickets b.accepted).Nodup
  known {e : Event Ticket} {t : Ticket} : e ∈ b.accepted → e.reply? = some t → b.asked t = some e
  issued {t : Ticket} {e : Event Ticket} : b.asked t = some e →
    t.serial < f.serial ∧ e.reply? = some t
  waits {t : Ticket} {w : Wait} : b.waits t = some w → b.Awaits r f t w
  lined {t : Ticket} {e : Event Ticket} : (t, e) ∈ f.events.underWay →
    b.asked t = some e ∧ ∃ w, b.waits t = some w ∧ w.stage = .slot
  answered {t : Ticket} {outcome : Outcome} : f.reply? t = some (.answered outcome) →
    b.Answered first t outcome
  abandoned {t : Ticket} : f.reply? t = some .abandoned → t ∈ tickets b.discarded
  ended {x : Ending} : x ∈ b.endings → b.waits x.ticket = none ∧ b.asked x.ticket ≠ none
  honest {x : Ending} : x ∈ b.endings → b.Honest first x

theorem mem_tickets {events : List (Event Ticket)} :
    t ∈ tickets events ↔ ∃ e ∈ events, e.reply? = some t :=
  List.mem_filterMap

theorem tickets_append (events events' : List (Event Ticket)) :
    tickets (events ++ events') = tickets events ++ tickets events' :=
  List.filterMap_append

namespace Tallies

/-- A request that has not been made has no event in the mailbox. -/
theorem not_accepted (h : b.Tallies first size r f) (ht : b.asked t = none) :
    t ∉ tickets b.accepted := by
  intro hm
  obtain ⟨e, he, hr⟩ := mem_tickets.mp hm
  simp [h.known he hr] at ht

theorem not_unsettled (h : b.Tallies first size r f)
    (ht : ∀ w, b.waits t = some w → w.stage ≠ .slot) : t ∉ f.events.unsettled := by
  intro hm
  obtain ⟨⟨t, e⟩, hx, rfl⟩ := List.mem_map.mp hm
  obtain ⟨-, w, hw, hslot⟩ := h.lined hx
  exact ht w hw hslot

private theorem some_of_update {α : Type} {g : Ticket → Option α} {t t' : Ticket} {new : Option α}
    {a : α} (h : Function.update g t new t' = some a) :
    t' = t ∧ new = some a ∨ t' ≠ t ∧ g t' = some a := by
  by_cases hne : t' = t
  · exact .inl ⟨hne, by simpa [hne] using h⟩
  · exact .inr ⟨hne, by simpa [hne] using h⟩

private theorem some_of_update_none {α : Type} {g : Ticket → Option α} {t t' : Ticket} {a : α}
    (h : Function.update g t none t' = some a) : t' ≠ t ∧ g t' = some a :=
  (some_of_update h).resolve_left (by simp)

theorem reserial (h : b.Tallies first size r f) {serial : Nat} (hs : f.serial ≤ serial) :
    b.Tallies first size r { f with serial } :=
  { h with
    issued := fun ha => ⟨(h.issued ha).1.trans_le hs, (h.issued ha).2⟩
    waits := fun hw => { h.waits hw with } }

/-- A new request has a name that no other has had. -/
theorem opened (h : b.Tallies first size r f) (ht : t.serial = f.serial) (he : e.reply? = some t)
    (hw : w.ticket = t) (hr : w.room = r) :
    b.asked t = none ∧ b.waits t = none ∧
      { b with
        asked := Function.update b.asked t (some e)
        waits := Function.update b.waits t (some w) }.Tallies first size r
        { f with
          reply? := Function.update f.reply? t (some .awaited)
          serial := f.serial + 1 } := by
  have hnew : b.asked t = none := by
    cases ha : b.asked t with
    | none => rfl
    | some e' => exact absurd (h.issued ha).1 (ht ▸ Nat.lt_irrefl _)
  have hfree : b.waits t = none := by
    cases ha : b.waits t with
    | none => rfl
    | some w' => exact absurd hnew (h.waits ha).asked
  have hasked (t' : Ticket) (e' : Event Ticket) (ha : b.asked t' = some e') :
      Function.update b.asked t (some e) t' = some e' := by
    rw [Function.update_of_ne, ha]
    rintro rfl
    simp [hnew] at ha
  refine ⟨hnew, hfree, { h with
    known := fun hm hr => hasked _ _ (h.known hm hr)
    issued := ?_
    waits := ?_
    lined := ?_
    answered := ?_
    abandoned := ?_
    ended := ?_
    honest := ?_ }⟩
  · intro t' e' ha
    rcases some_of_update ha with ⟨rfl, heq⟩ | ⟨-, ha⟩
    · cases heq
      exact ⟨ht ▸ Nat.lt_succ_self _, he⟩
    · exact ⟨Nat.lt_succ_of_lt (h.issued ha).1, (h.issued ha).2⟩
  · intro t' w' ha
    rcases some_of_update ha with ⟨rfl, heq⟩ | ⟨hne, ha⟩
    · cases heq
      exact ⟨hw, hr, by simp, by simp, fun _ => h.not_accepted hnew⟩
    · have hold := h.waits ha
      exact ⟨hold.ticket, hold.room, by simpa [hne] using hold.asked,
        by simpa [hne] using hold.reply, hold.slot⟩
  · intro t' e' hm
    obtain ⟨ha, w', hw', hslot⟩ := h.lined hm
    refine ⟨hasked _ _ ha, w', (Function.update_of_ne ?_ ..).trans hw', hslot⟩
    rintro rfl
    simp [hnew] at ha
  · intro t' outcome ha
    obtain ⟨-, ha⟩ := (some_of_update ha).resolve_left (by simp)
    exact (h.answered ha).mono (List.prefix_refl _) (hasked t')
  · intro t' ha
    obtain ⟨-, ha⟩ := (some_of_update ha).resolve_left (by simp)
    exact h.abandoned ha
  · intro x hx
    obtain ⟨hwait, hask⟩ := h.ended hx
    have hne : x.ticket ≠ t := by
      intro hxt
      exact hask (hxt ▸ hnew)
    simpa [hne] using ⟨hwait, hask⟩
  · intro x hx
    have hold := h.honest hx
    exact { hold with
      granted := fun ha => (hold.granted ha).mono (List.prefix_refl _) (hasked _) }

/-- A request of which nothing is in the mailbox is over. -/
theorem closed (h : b.Tallies first size r f) (ht : t ∉ f.events.unsettled) :
    { b with waits := Function.update b.waits t none }.Tallies first size r
      { f with reply? := Function.update f.reply? t none } := by
  refine { h with
    waits := ?_, lined := ?_, answered := ?_, abandoned := ?_, ended := ?_, honest := ?_ }
  · intro t' w' ha
    obtain ⟨hne, ha⟩ := some_of_update_none ha
    have hold := h.waits ha
    exact { hold with reply := by simpa [hne] using hold.reply }
  · intro t' e' hm
    obtain ⟨ha, w', hw', hslot⟩ := h.lined hm
    refine ⟨ha, w', (Function.update_of_ne ?_ ..).trans hw', hslot⟩
    rintro rfl
    exact ht (List.mem_map_of_mem hm)
  · intro t' outcome ha
    exact h.answered (some_of_update_none ha).2
  · intro t' ha
    exact h.abandoned (some_of_update_none ha).2
  · intro x hx
    obtain ⟨hwait, hask⟩ := h.ended hx
    refine ⟨?_, hask⟩
    by_cases hne : x.ticket = t <;> simp [hne, hwait]
  · intro x hx
    exact { h.honest hx with }

/-- The mailbox changes, and neither its queue nor who may wait for it. -/
theorem shifted (h : b.Tallies first size r f) {events : Mailbox Ticket (Event Ticket)}
    (hs : events.Sound) (hc : events.capacity = f.events.capacity)
    (hq : events.queue = f.events.queue) (hclosed : events.closed = f.events.closed)
    (hu : ∀ x ∈ events.underWay, x ∈ f.events.underWay) :
    b.Tallies first size r { f with events } :=
  { h with
    sound := hs
    capacity := hc.trans h.capacity
    split := hq.symm ▸ h.split
    running := fun ho => h.running (hclosed ▸ ho)
    emptied := fun ho => hq.trans (h.emptied (hclosed ▸ ho))
    waits := fun hw => { h.waits hw with }
    lined := fun hx => h.lined (hu _ hx) }

/-- A request begins to wait for a slot. -/
theorem linedUp (h : b.Tallies first size r f)
    (hs : ({ f.events with waiting := f.events.waiting ++ [(t, e)] } :
      Mailbox Ticket (Event Ticket)).Sound)
    (ha : b.asked t = some e) (hw : b.waits t = some w) (hslot : w.stage = .slot) :
    b.Tallies first size r
      { f with events := { f.events with waiting := f.events.waiting ++ [(t, e)] } } := by
  refine { h with sound := hs, waits := fun hw => { h.waits hw with }, lined := ?_ }
  intro t' e' hm
  simp only [Mailbox.underWay, ← List.append_assoc, List.mem_append, List.mem_singleton] at hm
  rcases hm with hm | hm
  · exact h.lined (by simpa [Mailbox.underWay] using hm)
  · cases hm
    exact ⟨ha, w, hw, hslot⟩

/-- The mailbox takes an event that nobody else has put there. -/
private theorem accepted (h : b.Tallies first size r f) {events : Mailbox Ticket (Event Ticket)}
    (hs : events.Sound) (hc : events.capacity = f.events.capacity)
    (hq : events.queue = f.events.queue ++ [e]) (hopen : f.events.closed = false)
    (hclosed : events.closed = false) {waits : Ticket → Option Wait}
    (hasked : ∀ t, e.reply? = some t → b.asked t = some e ∧ t ∉ tickets b.accepted)
    (hwaits : ∀ t w, waits t = some w → b.Awaits r f t w ∧ (w.stage = .slot → e.reply? ≠ some t))
    (hu : ∀ t e, (t, e) ∈ events.underWay →
      b.asked t = some e ∧ ∃ w, waits t = some w ∧ w.stage = .slot)
    (hended : ∀ x ∈ b.endings, waits x.ticket = none ∧ e.reply? ≠ some x.ticket) :
    { b with accepted := b.accepted ++ [e], waits }.Tallies first size r { f with events } := by
  have hnew (t : Ticket) : t ∈ tickets (b.accepted ++ [e]) ↔
      t ∈ tickets b.accepted ∨ e.reply? = some t := by
    simp [tickets]
  refine { h with
    sound := hs
    capacity := hc.trans h.capacity
    split := ?_
    running := fun _ => h.running hopen
    emptied := fun ho => absurd (hclosed.symm.trans ho) (by simp)
    once := ?_
    known := ?_
    waits := ?_
    lined := fun hx => hu _ _ hx
    answered := fun ha => (h.answered ha).mono (List.prefix_refl _) fun _ => id
    ended := fun hx => ⟨(hended _ hx).1, (h.ended hx).2⟩
    honest := ?_ }
  · have hsplit := h.split
    rw [h.running hopen, List.append_nil] at hsplit
    simp only [h.running hopen, hq, hsplit, List.append_nil, List.append_assoc]
    rfl
  · rw [tickets_append, List.nodup_append]
    refine ⟨h.once, ?_, ?_⟩
    · cases hr : e.reply? <;> simp [tickets, hr]
    · rintro t ht t' ht' rfl
      have hr : e.reply? = some t := by simpa [tickets] using ht'
      exact (hasked t hr).2 ht
  · intro e' t hm hr
    rcases List.mem_append.mp hm with hm | hm
    · exact h.known hm hr
    · rw [List.mem_singleton] at hm
      subst hm
      exact (hasked t hr).1
  · intro t w hw
    obtain ⟨hold, hslot⟩ := hwaits t w hw
    refine { hold with slot := fun hs hm => ?_ }
    rcases (hnew t).mp hm with hm | hm
    · exact hold.slot hs hm
    · exact hslot hs hm
  · intro x hx
    have hold := h.honest hx
    have hback (hm : x.ticket ∈ tickets (b.accepted ++ [e])) : x.ticket ∈ tickets b.accepted :=
      ((hnew _).mp hm).resolve_right (hended x hx).2
    exact { hold with
      unqueued := fun hqueued hm => hold.unqueued hqueued (hback hm)
      unavailable := fun ha hm => hold.unavailable ha (hback hm)
      granted := fun ha => (hold.granted ha).mono (List.prefix_refl _) fun _ => id }

/-- The mailbox takes an event that asks for no answer. -/
theorem sent (h : b.Tallies first size r f)
    (hs : ({ f.events with queue := f.events.queue ++ [e] } : Mailbox Ticket (Event Ticket)).Sound)
    (hopen : f.events.closed = false) (he : e.reply? = none) :
    { b with accepted := b.accepted ++ [e] }.Tallies first size r
      { f with events := { f.events with queue := f.events.queue ++ [e] } } :=
  h.accepted hs rfl rfl hopen hopen (by simp [he])
    (fun _ _ hw => ⟨h.waits hw, by simp [he]⟩) (fun _ _ hx => h.lined hx)
    fun _ hx => ⟨(h.ended hx).1, by simp [he]⟩

theorem noted (h : b.Tallies first size r f) (sends : List (Event Ticket × Except RoomFault Unit)) :
    { b with sends }.Tallies first size r f :=
  { h with
    waits := fun hw => { h.waits hw with }
    honest := fun hx => { h.honest hx with } }

/-- The mailbox takes the event of a request, which waits for the answer from then on. -/
theorem entered (h : b.Tallies first size r f) {events : Mailbox Ticket (Event Ticket)}
    (hs : events.Sound) (hc : events.capacity = f.events.capacity)
    (hq : events.queue = f.events.queue ++ [e]) (hopen : f.events.closed = false)
    (hclosed : events.closed = false) (ha : b.asked t = some e) (hw : b.waits t = some w)
    (hslot : w.stage = .slot) (hu : ∀ x ∈ events.underWay, x ∈ f.events.underWay ∧ x.1 ≠ t)
    {w' : Wait} (hw' : w'.ticket = w.ticket) (hr : w'.room = w.room) (hstage : w'.stage = .answer) :
    { b with
      accepted := b.accepted ++ [e]
      waits := Function.update b.waits t (some w') }.Tallies first size r { f with events } := by
  have hreply := (h.issued ha).2
  have hold := h.waits hw
  refine h.accepted hs hc hq hopen hclosed ?_ ?_ ?_ ?_
  · intro t' ht'
    obtain rfl := Option.some.inj (hreply.symm.trans ht')
    exact ⟨ha, hold.slot hslot⟩
  · intro t' v hv
    rcases some_of_update hv with ⟨rfl, heq⟩ | ⟨hne, hv⟩
    · cases heq
      exact ⟨⟨hw'.trans hold.ticket, hr.trans hold.room, hold.asked, hold.reply, by simp [hstage]⟩,
        by simp [hstage]⟩
    · exact ⟨h.waits hv, fun _ => by simpa [hreply] using Ne.symm hne⟩
  · intro t' e' hx
    obtain ⟨hx, hne⟩ := hu _ hx
    obtain ⟨ha', v, hv, hs'⟩ := h.lined hx
    exact ⟨ha', v, (Function.update_of_ne hne ..).trans hv, hs'⟩
  · intro x hx
    have hwait := (h.ended hx).1
    have hne : x.ticket ≠ t := by
      rintro rfl
      simp [hw] at hwait
    exact ⟨(Function.update_of_ne hne ..).trans hwait, by simpa [hreply] using Ne.symm hne⟩

/-- A caller is told how its request came out. -/
theorem told (h : b.Tallies first size r f) {x : Ending} (hw : b.waits x.ticket = none)
    (ha : b.asked x.ticket ≠ none) (hx : b.Honest first x) :
    { b with endings := b.endings ++ [x] }.Tallies first size r f := by
  have hone (P : Ending → Prop) (hold : ∀ y ∈ b.endings, P y) (hnew : P x) :
      ∀ y ∈ b.endings ++ [x], P y := by
    intro y hy
    rcases List.mem_append.mp hy with hy | hy
    · exact hold y hy
    · rw [List.mem_singleton] at hy
      exact hy ▸ hnew
  exact { h with
    waits := fun hw => { h.waits hw with }
    ended := fun hy => hone _ (fun _ => h.ended) ⟨hw, ha⟩ _ hy
    honest := fun hy => { hone (b.Honest first) (fun _ => h.honest) hx _ hy with } }

/-- The room handles the oldest event in its mailbox. -/
theorem handled (h : b.Tallies first size r f) {rest : List (Event Ticket)}
    (hqueue : f.events.queue = e :: rest) {events : Mailbox Ticket (Event Ticket)}
    (hs : events.Sound) (hc : events.capacity = f.events.capacity)
    (hq : events.queue = rest) (hclosed : events.closed = f.events.closed)
    (hu : events.underWay = f.events.underWay) {o : Occasion Ticket} (ho : o.event = e)
    {outcome : Option Outcome}
    (hcomputed : outcome = o.outcome? (b.passages.foldl Passage.play first).1)
    (reply? : Ticket → Option Reply)
    (hreply : ∀ t, reply? t = f.reply? t ∨
      e.reply? = some t ∧ ∃ x, outcome = some x ∧ reply? t = some (.answered x)) :
    (b.pass (.met o)).Tallies first size r { f with events, reply? } := by
  have hopen : f.events.closed = false := by
    cases hcl : f.events.closed with
    | false => rfl
    | true => simp [h.emptied hcl] at hqueue
  have hprefix : b.passages <+: (b.pass (.met o)).passages := List.prefix_append _ _
  have hmem : e ∈ b.accepted := by
    rw [h.split, hqueue]
    simp
  refine { h with
    sound := hs
    capacity := hc.trans h.capacity
    split := ?_
    running := fun ho => h.running (hclosed ▸ ho)
    emptied := fun ho => absurd (hopen.symm.trans (hclosed ▸ ho)) (by simp)
    waits := ?_
    lined := fun hx => h.lined (hu ▸ hx)
    answered := ?_
    abandoned := ?_
    honest := ?_ }
  · refine h.split.trans ?_
    rw [met_pass_met, List.map_append, List.append_assoc, hqueue, hq]
    simp [ho, pass]
  · intro t w hw
    have hold := h.waits hw
    refine { hold with reply := ?_ }
    rcases hreply t with heq | ⟨-, x, -, heq⟩
    · exact fun hnone => hold.reply (heq.symm.trans hnone)
    · simp [heq]
  · intro t x ha
    rcases hreply t with heq | ⟨hr, y, hy, heq⟩
    · exact (h.answered (heq ▸ ha)).mono hprefix fun _ => id
    · obtain rfl : y = x := by simpa [heq] using ha
      exact ⟨b.passages, o, [], rfl, ho ▸ h.known hmem hr, hcomputed ▸ hy⟩
  · intro t ha
    rcases hreply t with heq | ⟨-, y, -, heq⟩
    · exact h.abandoned (heq ▸ ha)
    · simp [heq] at ha
  · intro x hx
    have hold := h.honest hx
    exact { hold with granted := fun ha => (hold.granted ha).mono hprefix fun _ => id }

/-- Others turn to the outboxes. -/
theorem elsewhere (h : b.Tallies first size r f) (change : Outboxes → Outboxes) :
    (b.pass (.elsewhere change)).Tallies first size r f := by
  have hmet := b.met_pass_elsewhere change
  have hprefix : b.passages <+: (b.pass (.elsewhere change)).passages := List.prefix_append _ _
  exact { h with
    split := hmet.symm ▸ h.split
    waits := fun hw => { h.waits hw with }
    answered := fun ha => (h.answered ha).mono hprefix fun _ => id
    honest := fun hx =>
      { h.honest hx with
        granted := fun ha => ((h.honest hx).granted ha).mono hprefix fun _ => id } }

/-- The event loop ends, and what is queued goes away. -/
theorem stopped (h : b.Tallies first size r f) (hopen : f.events.closed = false) :
    { b with discarded := f.events.queue }.Tallies first size r f.stop := by
  have hslots := h.sound.slots
  have hnone : b.discarded = [] := h.running hopen
  refine { h with
    sound := ⟨?_, h.sound.names⟩
    split := ?_
    running := fun ho => absurd ho (by simp [Front.stop, Mailbox.discard])
    emptied := fun _ => rfl
    waits := ?_
    answered := ?_
    abandoned := ?_
    honest := ?_ }
  · rw [Mailbox.occupied] at hslots ⊢
    simp only [Front.stop, Mailbox.discard, List.length_nil]
    omega
  · have hsplit := h.split
    rw [hnone, List.append_nil] at hsplit
    exact hsplit
  · intro t w hw
    have hold := h.waits hw
    refine { hold with reply := ?_ }
    simp only [Front.stop]
    split
    · simp
    · exact hold.reply
  · intro t outcome ha
    simp only [Front.stop] at ha
    split at ha
    · simp at ha
    · exact (h.answered ha).mono (List.prefix_refl _) fun _ => id
  · intro t ha
    simp only [Front.stop] at ha
    split at ha
    · rename_i hboth
      exact hboth.1
    · have := h.abandoned ha
      simp [hnone, tickets] at this
  · intro x hx
    have hold := h.honest hx
    exact { hold with
      unavailable := fun ha hm => by
        have := hold.unavailable ha hm
        simp [hnone, tickets] at this
      granted := fun ha => (hold.granted ha).mono (List.prefix_refl _) fun _ => id }

end Tallies

end Book

end Lobby
