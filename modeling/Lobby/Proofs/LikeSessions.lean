import Lobby.Proofs.Likeness

/-! Two sessions of one player, or one and the same session, whose messages differ in what they say
about themselves, take the same steps. -/
namespace Lobby

inductive Dispatching.Alike (n j : Nat) : Dispatching → Dispatching → Prop
  | idle {c : Context} (hc : c.outbox = j) : Alike n j (.idle c) (.idle c)
  | busy {c : Context} (hc : c.outbox = j) {pending : Pending} {request : Envelope}
      (h : Heard n j pending.request request) :
      Alike n j (.busy c pending) (.busy c { pending with request })
  | ended (c : Option Context) : Alike n j (.ended c) (.ended c)

theorem Dispatching.Alike.context? {n j : Nat} {d d' : Dispatching} (h : d.Alike n j d') :
    d'.context? = d.context? := by
  cases h <;> rfl

/-- Responses to requests that are alike are alike, and go into the player's own outbox. -/
theorem Hub.Alike.respond {n : Nat} {h h' : Hub} (ha : h.Alike n h') (c : Context)
    {request request' : Envelope} (he : Heard n c.outbox request request') (response : Response) :
    (c.respond h request response).2.Alike n (c.respond h' request' response).2 := by
  rw [Context.respond, Context.respond, Envelope.responseTo?, Envelope.responseTo?, he.1.kind]
  cases hk : request.kind.response? with
  | none => exact ha
  | some kind =>
    have hm : Told n c.outbox
        { clientId := request.clientId, serial := request.serial, kind, data := response.encode }
        { clientId := request'.clientId, serial := request'.serial, kind,
          data := response.encode } :=
      ⟨.inr ⟨⟨_, hk⟩, rfl, rfl⟩, fun hn => by rw [he.2 hn]⟩
    obtain ⟨result, g, g', hpost, hpost', hg⟩ := exists_pair (ha.post c.outbox hm)
    simp only [Option.map_some, hpost, hpost']
    cases result <;> exact hg

namespace Session
variable {n j : Nat} {s s' : Session} {h h' : Hub}

structure Resembles (n j : Nat) (s s' : Session) : Prop where
  same : s' = { s with dispatching := s'.dispatching }
  dispatching : s.dispatching.Alike n j s'.dispatching

namespace Resembles

/-- What does not touch the dispatcher keeps sessions alike. -/
private theorem map (hs : s.Resembles n j s') {f : Session → Session}
    (hf : ∀ (s : Session) (d : Dispatching),
      f { s with dispatching := d } = { f s with dispatching := d }) :
    (f s).Resembles n j (f s') := by
  have hkept : f s = { f s with dispatching := s.dispatching } := hf s s.dispatching
  have hnext : f s' = { f s with dispatching := s'.dispatching } := by
    rw [hs.same, hf]
  refine ⟨?_, ?_⟩
  · rw [hnext]
  · rw [hnext, hkept]
    exact hs.dispatching

/-- What does not look at the dispatcher is the same for sessions that are alike. -/
private theorem read {α : Type} (hs : s.Resembles n j s') {f : Session → α}
    (hf : ∀ (s : Session) (d : Dispatching), f { s with dispatching := d } = f s) : f s' = f s := by
  rw [hs.same, hf]

theorem reading (hs : s.Resembles n j s') : s'.reading = s.reading := hs.read fun _ _ => rfl

theorem writing (hs : s.Resembles n j s') : s'.writing = s.writing := hs.read fun _ _ => rfl

theorem supervising (hs : s.Resembles n j s') : s'.supervising = s.supervising :=
  hs.read fun _ _ => rfl

theorem stream (hs : s.Resembles n j s') : s'.stream = s.stream := hs.read fun _ _ => rfl

theorem config (hs : s.Resembles n j s') : s'.config = s.config := hs.read fun _ _ => rfl

theorem id (hs : s.Resembles n j s') : s'.id = s.id := hs.read fun _ _ => rfl

theorem context? (hs : s.Resembles n j s') : s'.context? = s.context? :=
  hs.dispatching.context?

/-- Both dispatchers are free, or work on requests that are alike, or have ended. -/
theorem cases (hs : s.Resembles n j s') :
    (∃ c, c.outbox = j ∧ s.dispatching = .idle c ∧ s'.dispatching = .idle c) ∨
    (∃ c pending request, c.outbox = j ∧ Heard n j pending.request request ∧
      s.dispatching = .busy c pending ∧ s'.dispatching = .busy c { pending with request }) ∨
    ∃ c, s.dispatching = .ended c ∧ s'.dispatching = .ended c := by
  have hd := hs.dispatching
  generalize s.dispatching = d at hd ⊢
  generalize s'.dispatching = d' at hd ⊢
  cases hd with
  | idle hc => exact .inl ⟨_, hc, rfl, rfl⟩
  | busy hc he => exact .inr (.inl ⟨_, _, _, hc, he, rfl, rfl⟩)
  | ended c => exact .inr (.inr ⟨c, rfl, rfl⟩)

theorem dispatcherEnded (hs : s.Resembles n j s') : s'.dispatcherEnded = s.dispatcherEnded := by
  rw [Session.dispatcherEnded, Session.dispatcherEnded]
  rcases hs.cases with ⟨c, -, hd, hd'⟩ | ⟨c, pending, request, -, -, hd, hd'⟩ | ⟨c, hd, hd'⟩ <;>
    rw [hd, hd']

/-- The sessions of others are the same. -/
theorem eq (hs : s.Resembles n j s') (hj : j ≠ n) : s' = s := by
  have hsame : s'.dispatching = s.dispatching := by
    rcases hs.cases with ⟨c, -, hd, hd'⟩ | ⟨c, pending, request, -, he, hd, hd'⟩ | ⟨c, hd, hd'⟩
    · rw [hd, hd']
    · rw [hd, hd', he.2 hj]
    · rw [hd, hd']
  rw [hs.same, hsame]

end Resembles

structure StepAlike (n j : Nat) (x x' : Step) : Prop where
  goesOn : x'.1 = x.1
  session : x.2.1.Resembles n j x'.2.1
  hub : x.2.2.Alike n x'.2.2

private theorem stepAlike_endReader (hs : s.Resembles n j s') (ha : h.Alike n h') :
    StepAlike n j (s.endReader h j) (s'.endReader h' j) :=
  ⟨rfl, hs.map (f := fun s => { s with reading := .ended }) fun _ _ => rfl, ha.endDuty j⟩

private theorem stepAlike_deliver (hs : s.Resembles n j s') (ha : h.Alike n h')
    {cell cell' : PlayerCell} (hc : cell.Alike n j cell') {e e' : Envelope} (he : Heard n j e e') :
    StepAlike n j (s.deliver h j cell e) (s'.deliver h' j cell' e') := by
  have hsame : s'.config.overflow = s.config.overflow := congrArg (·.overflow) hs.config
  rw [deliver, deliver, hsame]
  cases s.config.overflow with
  | dropNewest =>
    obtain ⟨result, box, box', hoffer, hoffer', hbox⟩ := exists_pair (hc.inbound.offer he)
    have hset := ha.setInbound hc hbox
    simp only [hoffer, hoffer']
    cases result with
    | ok => exact ⟨rfl, hs, hset.signal _⟩
    | error fault =>
      cases fault with
      | full => exact ⟨rfl, hs, hset⟩
      | closed => exact stepAlike_endReader hs ha
  | wait =>
    have hserial : h'.freshSerial.1 = h.freshSerial.1 :=
      ha.read (f := fun h => h.freshSerial.1) fun _ _ _ => rfl
    have hfresh : h.freshSerial.2.Alike n h'.freshSerial.2 :=
      ha.map (f := fun h => h.freshSerial.2) fun _ _ _ => rfl
    obtain ⟨result, box, box', hsend, hsend', hbox⟩ :=
      exists_pair (hc.inbound.send ⟨.reader j, h.freshSerial.1⟩ he)
    have hset := hfresh.setInbound hc hbox
    simp only [hserial, hsend, hsend']
    cases result with
    | accepted => exact ⟨rfl, hs, hset.signal _⟩
    | pending =>
      refine ⟨rfl, ?_, hset⟩
      exact hs.map (f := fun s => { s with reading := .delivering ⟨.reader j, h.freshSerial.1⟩ })
        fun _ _ => rfl
    | refused => exact stepAlike_endReader hs hfresh

private theorem stepAlike_readNext (hs : s.Resembles n j s') (ha : h.Alike n h')
    {cell cell' : PlayerCell} (hc : cell.Alike n j cell') :
    StepAlike n j (s.readNext h j cell) (s'.readNext h' j cell') := by
  have hnext : s'.decoder.next = s.decoder.next :=
    hs.read (f := fun s => s.decoder.next) fun _ _ => rfl
  have hread : s'.stream.read s'.config.readBuffer = s.stream.read s.config.readBuffer :=
    hs.read (f := fun s => s.stream.read s.config.readBuffer) fun _ _ => rfl
  have hended : s'.stream.ended = s.stream.ended := congrArg (·.ended) hs.stream
  rw [readNext, readNext, hnext, hread, hended]
  split
  · rename_i payload decoder _
    have hset : ({ s with decoder } : Session).Resembles n j { s' with decoder } :=
      hs.map (f := fun s => { s with decoder }) fun _ _ => rfl
    cases Wire.decode? (α := Envelope) payload with
    | none => exact ⟨rfl, hset, ha⟩
    | some e => exact stepAlike_deliver hset ha hc (Hub.heard_refl n j e)
  · exact stepAlike_endReader hs ha
  · split
    · split
      · exact stepAlike_endReader hs ha
      · exact ⟨rfl, hs, ha⟩
    · rename_i octets stream _ _
      refine ⟨rfl, ?_, ha⟩
      exact hs.map (f := fun s => { s with stream, decoder := s.decoder.extend octets })
        fun _ _ => rfl

private theorem stepAlike_read (hs : s.Resembles n j s') (ha : h.Alike n h') :
    StepAlike n j (s.stepReader h j) (s'.stepReader h' j) := by
  rw [stepReader, stepReader, hs.reading]
  rcases ha.players.cases j with ⟨hp, hp'⟩ | ⟨cell, cell', hp, hp', hc⟩
  · rw [hp, hp']
    exact ⟨rfl, hs, ha⟩
  rw [hp, hp']
  cases s.reading with
  | ended => exact ⟨rfl, hs, ha⟩
  | ready =>
    simp only [hc.cancelled]
    split
    · exact stepAlike_endReader hs ha
    · exact stepAlike_readNext hs ha hc
  | delivering name =>
    by_cases hstop : cell.cancelled = true
    · simp only [if_pos hstop, if_pos (hc.cancelled.trans hstop)]
      exact stepAlike_endReader hs (ha.setInbound hc (hc.inbound.withdraw name).2)
    have hstop' : ¬ cell'.cancelled = true := hc.cancelled ▸ hstop
    simp only [if_neg hstop, if_neg hstop']
    obtain ⟨result, box, box', hsettle, hsettle', hbox⟩ := exists_pair (hc.inbound.settle name)
    have hset := ha.setInbound hc hbox
    simp only [hsettle, hsettle']
    cases result with
    | accepted =>
      refine ⟨rfl, ?_, hset.signal _⟩
      exact hs.map (f := fun s => { s with reading := .ready }) fun _ _ => rfl
    | refused => exact stepAlike_endReader hs hset
    | waiting => exact ⟨rfl, hs, ha⟩

private theorem stepAlike_hear (hs : s.Resembles n j s') (ha : h.Alike n h') {e e' : Envelope}
    (he : Heard n j e e') : StepAlike n j (s.hear h j e) (s'.hear h' j e') := by
  rw [hear, hear, hs.reading]
  rcases ha.players.cases j with ⟨hp, hp'⟩ | ⟨cell, cell', hp, hp', hc⟩
  · rw [hp, hp']
    exact ⟨rfl, hs, ha⟩
  · rw [hp, hp']
    simp only [hc.cancelled]
    split
    · split
      · exact stepAlike_endReader hs ha
      · exact stepAlike_deliver hs ha hc he
    · exact ⟨rfl, hs, ha⟩

private theorem stepAlike_endWriter (hs : s.Resembles n j s') (ha : h.Alike n h') :
    StepAlike n j (s.endWriter h j) (s'.endWriter h' j) :=
  ⟨rfl, hs.map (f := fun s => { s with writing := .ended }) fun _ _ => rfl, ha.endDuty j⟩

private theorem stepAlike_writeNext (hj : j ≠ n) (hs : s.Resembles n j s') (ha : h.Alike n h') :
    StepAlike n j (s.writeNext h j) (s'.writeNext h' j) := by
  rw [writeNext, writeNext]
  rcases ha.outboxes.cases j with ⟨hb, hb'⟩ | ⟨box, box', hb, hb', hbox⟩
  · rw [hb, hb']
    exact stepAlike_endWriter hs ha
  -- What others than player number `n` are told is the same, so their frames are.
  obtain rfl : box' = box := hbox.eq fun e e' he => he.2 hj
  have hlimit : s'.config.frameLimit = s.config.frameLimit := congrArg (·.frameLimit) hs.config
  rw [hb, hb', hlimit]
  simp only
  split
  · rename_i e _ rest _
    have hset := ha.setOutbox (j := j) (.refl (Hub.told_refl n j) rest)
    split
    · rename_i octets _
      exact ⟨rfl, hs.map (f := fun s => { s with writing := .sending octets }) fun _ _ => rfl, hset⟩
    · exact ⟨rfl, hs, hset⟩
  · exact ⟨rfl, hs, ha⟩
  · exact stepAlike_endWriter hs ha

private theorem stepAlike_write (hj : j ≠ n) (hs : s.Resembles n j s') (ha : h.Alike n h') :
    StepAlike n j (s.stepWriter h j) (s'.stepWriter h' j) := by
  have hbroken : s'.stream.broken = s.stream.broken := congrArg (·.broken) hs.stream
  have hwrite (octets : List UInt8) : s'.stream.write octets = s.stream.write octets :=
    congrArg (·.write octets) hs.stream
  rw [stepWriter, stepWriter, hs.writing]
  simp only [ha.isCancelled, hbroken, hwrite]
  split
  · exact ⟨rfl, hs, ha⟩
  · split
    · exact stepAlike_endWriter hs ha
    · exact stepAlike_writeNext hj hs ha
  · split
    · exact stepAlike_endWriter hs ha
    split
    · exact stepAlike_endWriter hs ha
    split
    · rename_i stream _
      exact ⟨rfl, hs.map (f := fun s => { s with stream, writing := .idle }) fun _ _ => rfl, ha⟩
    · rename_i rest stream _ _
      exact ⟨rfl, hs.map (f := fun s => { s with stream, writing := .sending rest })
        fun _ _ => rfl, ha⟩

private theorem stepAlike_mute (hs : s.Resembles n j s') (ha : h.Alike n h') :
    StepAlike n j (s.mute h j) (s'.mute h' j) := by
  rw [mute, mute, writerEnded, writerEnded, hs.writing]
  split
  · exact ⟨rfl, hs, ha⟩
  · exact stepAlike_endWriter hs ha

private theorem stepAlike_drain (hs : s.Resembles n j s') (ha : h.Alike n h') :
    StepAlike n j (s.drain h j) (s'.drain h' j) := by
  rw [drain, drain, writerEnded, writerEnded, hs.writing, ha.isCancelled]
  split
  · exact ⟨rfl, hs, ha⟩
  split
  · exact stepAlike_endWriter hs ha
  rcases ha.outboxes.cases j with ⟨hb, hb'⟩ | ⟨box, box', hb, hb', hbox⟩
  · rw [hb, hb']
    exact stepAlike_endWriter hs ha
  rw [hb, hb']
  obtain ⟨hresult, -, hrest⟩ := hbox.receive
  simp only
  generalize box.receive = x at hresult hrest ⊢
  generalize box'.receive = x' at hresult hrest ⊢
  obtain ⟨result, next, rest⟩ := x
  obtain ⟨result', next', rest'⟩ := x'
  cases hresult with
  | message _ => exact ⟨rfl, hs, ha.setOutbox hrest⟩
  | empty => exact ⟨rfl, hs, ha⟩
  | disconnected => exact stepAlike_endWriter hs ha

/-- Services alike for two requests: they come as far, leave the player the same, and the hub
alike. What waits does so for its own request. -/
private structure ServesAlike (n j : Nat) (request request' : Envelope)
    (x x' : Progress × Context × Hub) : Prop where
  progress : x'.1 = x.1.asking request'
  context : x'.2.1 = x.2.1
  hub : x.2.2.Alike n x'.2.2
  outbox : x.2.1.outbox = j
  pending (pending : Pending) : x.1 = .pending pending → pending.request = request

private theorem servesAlike {request request' : Envelope} (ha : h.Alike n h')
    {f g : Hub → Progress × Context × Hub}
    (hf : ∀ (h : Hub) (players : Array PlayerCell) (outboxes : Outboxes),
      (f (h.populate players outboxes)).2.2 = (f h).2.2.populate players outboxes)
    (hg : ∀ (h : Hub) (players : Array PlayerCell) (outboxes : Outboxes),
      g (h.populate players outboxes) =
        ((f h).1.asking request', (f h).2.1, (f h).2.2.populate players outboxes))
    (hbox : (f h).2.1.outbox = j)
    (hpending : ∀ pending, (f h).1 = .pending pending → pending.request = request) :
    ServesAlike n j request request' (f h) (g h') := by
  -- `g` in the other hub is `f` in this one, with other players and outboxes.
  have hnext : g h' = ((f h).1.asking request', (f h).2.1,
      (f h).2.2.populate h'.players h'.outboxes) := by
    conv_lhs => rw [ha.same]
    exact hg h _ _
  have hhub : (f h).2.2.Alike n (f h').2.2 := ha.map (f := fun h => (f h).2.2) hf
  rw [ha.same, hf] at hhub
  rw [hnext]
  exact ⟨rfl, rfl, hhub, hbox, hpending⟩

private theorem stepAlike_dispatched (hs : s.Resembles n j s') {request request' : Envelope}
    (he : Heard n j request request') {x x' : Progress × Context × Hub}
    (hx : ServesAlike n j request request' x x') :
    StepAlike n j (s.dispatched request x) (s'.dispatched request' x') := by
  obtain ⟨progress, c, h⟩ := x
  obtain ⟨progress', c', h'⟩ := x'
  obtain rfl : progress' = progress.asking request' := hx.progress
  obtain rfl : c' = c := hx.context
  have ha : h.Alike n h' := hx.hub
  obtain rfl : c'.outbox = j := hx.outbox
  have hidle : ({ s with dispatching := .idle c' } : Session).Resembles n c'.outbox
      { s' with dispatching := .idle c' } := by
    rw [hs.same]
    exact ⟨rfl, .idle rfl⟩
  cases progress with
  | unreadable => exact ⟨rfl, hidle, ha⟩
  | pending pending =>
    obtain rfl := hx.pending pending rfl
    refine ⟨rfl, ?_, ha⟩
    rw [hs.same]
    exact ⟨rfl, .busy rfl he⟩
  | answered response => exact ⟨rfl, hidle, ha.respond c' he response⟩

private theorem servesAlike_serve {c : Context} (hc : c.outbox = j) (ha : h.Alike n h')
    {request request' : Envelope} (he : request.SameAsk request') (now : Nat) {service : Service}
    (hk : Service.ofKind? request.kind = some service) :
    ServesAlike n j request request' (c.serve h (.dispatcher j) now service request)
      (c.serve h' (.dispatcher j) now service request') := by
  have hserve := Context.serve_spec (h := h) (enduring_true c.id (.dispatcher j)).toLasting
    trivial now hk
  have hkeeps : (c.serve h (.dispatcher j) now service request).2.1.outbox = c.outbox ∧
      ∀ pending, (c.serve h (.dispatcher j) now service request).1 = .pending pending →
        pending.request = request := by
    split at hserve
    · exact ⟨hserve.outbox, fun pending hp => (hserve.pending pending hp).1⟩
    · rw [hserve]
      exact ⟨rfl, by simp⟩
  refine servesAlike (f := fun h => c.serve h (.dispatcher j) now service request)
    (g := fun h => c.serve h (.dispatcher j) now service request') ha ?_ ?_
    (hkeeps.1.trans hc) hkeeps.2
  · intro h players outboxes
    rw [Context.populate_serve (.refl request) _ now hk]
  · intro h players outboxes
    exact Context.populate_serve he _ now hk

private theorem servesAlike_follow {c : Context} (hc : c.outbox = j) {request request' : Envelope}
    (errand : Errand) (r : Nat) {course course' : Course × Hub} (hcourse : course'.1 = course.1)
    (ha : course.2.Alike n course'.2) :
    ServesAlike n j request request' (c.follow request errand r course)
      (c.follow request' errand r course') := by
  obtain ⟨way, h⟩ := course
  obtain ⟨way', h'⟩ := course'
  obtain rfl : way' = way := hcourse
  have hserves : ∃ owner, c.Serves (fun _ => True) owner request
      (c.follow request errand r (way', h)) := by
    have hlasts (owner : Task) := (enduring_true c.id owner).toLasting
    cases way' with
    | waiting w =>
      refine ⟨w.ticket.owner, Context.serves_follow (hlasts _) errand r trivial ?_ rfl rfl⟩
      rintro _ ⟨⟩
      rfl
    | ended answer =>
      exact ⟨.visitor, Context.serves_follow (hlasts _) errand r trivial (by simp) rfl rfl⟩
  obtain ⟨owner, hserves⟩ := hserves
  refine servesAlike (f := fun h => c.follow request errand r (way', h))
    (g := fun h => c.follow request' errand r (way', h)) ha ?_ ?_ (hserves.outbox.trans hc)
    fun pending hp => (hserves.pending pending hp).1
  · intro h players outboxes
    exact congrArg (·.2.2) (Context.populate_follow errand r (way', h))
  · intro h players outboxes
    exact Context.populate_follow errand r (way', h)

private theorem stepAlike_dispatchNext (hs : s.Resembles n j s')
    (hstandard : s.handlers = .standard) (ha : h.Alike n h') (now : Nat)
    {cell cell' : PlayerCell} (hc : cell.Alike n j cell') {c : Context} (hbox : c.outbox = j) :
    StepAlike n j (s.dispatchNext h j now cell c) (s'.dispatchNext h' j now cell' c) := by
  have hstandard' : s'.handlers = .standard :=
    (hs.read (f := fun s => s.handlers) fun _ _ => rfl).trans hstandard
  obtain ⟨hreceived, hnext, hinbound⟩ := hc.inbound.receive
  rw [dispatchNext, dispatchNext, hstandard, hstandard']
  generalize cell.inbound.receive = x at hreceived hnext hinbound ⊢
  generalize cell'.inbound.receive = x' at hreceived hnext hinbound ⊢
  obtain ⟨received, next, inbound⟩ := x
  obtain ⟨received', next', inbound'⟩ := x'
  obtain rfl : next' = next := hnext
  have hset := ha.setInbound hc hinbound
  cases hreceived with
  | empty => exact ⟨rfl, hs, ha⟩
  | disconnected =>
    refine ⟨rfl, ?_, ha.endDuty j⟩
    rw [hs.same]
    exact ⟨rfl, .ended (some c)⟩
  | @message e e' he =>
    simp only [Turn.handlers_standard, he.1.kind]
    cases hk : Service.ofKind? e.kind with
    | none =>
      cases next' with
      | none => exact ⟨rfl, hs, hset⟩
      | some t => exact ⟨rfl, hs, hset.signal _⟩
    | some service =>
      cases next' with
      | none => exact stepAlike_dispatched hs he (servesAlike_serve hbox hset he.1 now hk)
      | some t =>
        exact stepAlike_dispatched hs he (servesAlike_serve hbox (hset.signal _) he.1 now hk)

private theorem stepAlike_dispatch (hs : s.Resembles n j s') (hstandard : s.handlers = .standard)
    (ha : h.Alike n h') (now : Nat) :
    StepAlike n j (s.stepDispatcher h j now) (s'.stepDispatcher h' j now) := by
  rw [stepDispatcher, stepDispatcher]
  rcases ha.players.cases j with ⟨hp, hp'⟩ | ⟨cell, cell', hp, hp', hc⟩
  · rw [hp, hp']
    exact ⟨rfl, hs, ha⟩
  rw [hp, hp']
  rcases hs.cases with ⟨c, hbox, hd, hd'⟩ | ⟨c, pending, request', hbox, he, hd, hd'⟩ | ⟨c, hd, hd'⟩
  · rw [hd, hd']
    simp only [hc.cancelled]
    split
    · refine ⟨rfl, ?_, ha.endDuty j⟩
      rw [hs.same]
      exact ⟨rfl, .ended (some c)⟩
    · exact stepAlike_dispatchNext hs hstandard ha now hc hbox
  · obtain ⟨hcourse, hnext⟩ := ha.resume pending.wait now
    rw [hd, hd']
    exact stepAlike_dispatched hs he (servesAlike_follow hbox pending.errand pending.wait.room
      hcourse hnext)
  · rw [hd, hd']
    exact ⟨rfl, hs, ha⟩

private theorem stepAlike_lapse (hs : s.Resembles n j s') (ha : h.Alike n h') :
    StepAlike n j (s.lapse h j) (s'.lapse h' j) := by
  rw [lapse, lapse]
  rcases ha.players.cases j with ⟨hp, hp'⟩ | ⟨cell, cell', hp, hp', -⟩
  · rw [hp, hp']
    exact ⟨rfl, hs, ha⟩
  rw [hp, hp']
  rcases hs.cases with ⟨c, -, hd, hd'⟩ | ⟨c, pending, request', hbox, he, hd, hd'⟩ | ⟨c, hd, hd'⟩
  · rw [hd, hd']
    exact ⟨rfl, hs, ha⟩
  · obtain ⟨hcourse, hnext⟩ := ha.expire pending.wait
    rw [hd, hd']
    exact stepAlike_dispatched hs he (servesAlike_follow hbox pending.errand pending.wait.room
      hcourse hnext)
  · rw [hd, hd']
    exact ⟨rfl, hs, ha⟩

private theorem Resembles.supervise (hs : s.Resembles n j s') (next : Supervising) :
    ({ s with supervising := next } : Session).Resembles n j { s' with supervising := next } :=
  hs.map (f := fun s => { s with supervising := next }) fun _ _ => rfl

private theorem stepAlike_tearDown (hs : s.Resembles n j s') (ha : h.Alike n h') :
    StepAlike n j (s.tearDown h j) (s'.tearDown h' j) := by
  rw [tearDown, tearDown]
  rcases ha.players.cases j with ⟨hp, hp'⟩ | ⟨cell, cell', hp, hp', hc⟩
  · rw [hp, hp']
    refine ⟨rfl, hs.supervise _, ?_⟩
    rw [hs.id]
    exact ((ha.closeOutbox j).removePlayer s.id).2
  · have hclosed := (ha.setInbound hc hc.inbound.discard).closeOutbox j
    rw [hp, hp']
    refine ⟨rfl, hs.supervise _, ?_⟩
    rw [hs.id]
    exact (hclosed.removePlayer s.id).2

/-- Supervisors wait for a room, or go on to the next, alike. -/
private theorem stepAlike_course (hs : s.Resembles n j s') (rooms : List RoomId)
    (x x' : Course × Hub) : x'.1 = x.1 → x.2.Alike n x'.2 → StepAlike n j
      (match x with
      | (.waiting wait, h) => (false, { s with supervising := .waiting wait rooms }, h)
      | (.ended _, h) => (true, { s with supervising := .leaving rooms }, h))
      (match x' with
      | (.waiting wait, h) => (false, { s' with supervising := .waiting wait rooms }, h)
      | (.ended _, h) => (true, { s' with supervising := .leaving rooms }, h)) := by
  obtain ⟨course, h⟩ := x
  obtain ⟨course', h'⟩ := x'
  rintro hcourse ha
  obtain rfl : course' = course := hcourse
  cases course' with
  | waiting w => exact ⟨rfl, hs.supervise _, ha⟩
  | ended answer => exact ⟨rfl, hs.supervise _, ha⟩

private theorem stepAlike_leaveNext (hs : s.Resembles n j s') (ha : h.Alike n h') (now : Nat)
    (rooms : List RoomId) :
    StepAlike n j (s.leaveNext h j now rooms) (s'.leaveNext h' j now rooms) := by
  cases rooms with
  | nil => exact stepAlike_tearDown hs ha
  | cons id rooms =>
    have hconfig : h'.config = h.config := ha.read fun _ _ _ => rfl
    have hleave (r : Nat) :
        h'.requestLeave (.supervisor j) r h.config.replyTimeout now s'.id =
          h'.requestLeave (.supervisor j) r h.config.replyTimeout now s.id := by
      rw [hs.id]
    rw [leaveNext, leaveNext, ha.room?, hconfig]
    cases h.room? id with
    | none => exact ⟨rfl, hs.supervise _, ha⟩
    | some r =>
      obtain ⟨hcourse, hnext⟩ := ha.request (.supervisor j) r h.config.replyTimeout now
        fun t => ⟨s.id, .leave (some t)⟩
      simp only [hleave]
      exact stepAlike_course hs rooms _ _ hcourse hnext

private theorem stepAlike_supervise (hs : s.Resembles n j s') (ha : h.Alike n h') (now : Nat) :
    StepAlike n j (s.stepSupervisor h j now) (s'.stepSupervisor h' j now) := by
  have hready : (s'.readerEnded && s'.writerEnded && s'.dispatcherEnded) =
      (s.readerEnded && s.writerEnded && s.dispatcherEnded) := by
    rw [readerEnded, writerEnded, hs.reading, hs.writing, hs.dispatcherEnded]
    rfl
  rw [stepSupervisor, stepSupervisor, hs.supervising]
  cases s.supervising with
  | ended => exact ⟨rfl, hs, ha⟩
  | starting => exact ⟨rfl, hs.supervise _, ((ha.signal _).signal _).signal _⟩
  | joining =>
    simp only [hready, hs.context?]
    split
    · exact ⟨rfl, hs.supervise _, ha⟩
    · exact ⟨rfl, hs, ha⟩
  | leaving rooms => exact stepAlike_leaveNext hs ha now rooms
  | waiting w rooms =>
    obtain ⟨hcourse, hnext⟩ := ha.resume w now
    exact stepAlike_course hs rooms _ _ hcourse hnext

private theorem stepAlike_depart (hs : s.Resembles n j s') (ha : h.Alike n h') :
    StepAlike n j (s.depart h) (s'.depart h') := by
  rw [depart, depart, hs.supervising]
  cases s.supervising with
  | waiting w rooms => exact ⟨rfl, hs.supervise _, (ha.expire w).2⟩
  | _ => exact ⟨rfl, hs, ha⟩

/-- What happens is the same, but for what player number `n` says of itself. What its writer does
with what it takes is left open. -/
inductive Act.SameBut (n j : Nat) : Act → Act → Prop
  | hear {e e' : Envelope} (he : Heard n j e e') : SameBut n j (.hear e) (.hear e')
  | same {act : Act} (hwrite : j = n → act ≠ .write) : SameBut n j act act

/-- Whatever happens keeps sessions alike. -/
theorem stepAlike_perform (hs : s.Resembles n j s') (hstandard : s.handlers = .standard)
    (ha : h.Alike n h') {act act' : Act} (hact : act.SameBut n j act') :
    StepAlike n j (s.perform h j act) (s'.perform h' j act') := by
  cases hact with
  | hear he => exact stepAlike_hear hs ha he
  | same hwrite =>
    cases act with
    | read => exact stepAlike_read hs ha
    | write => exact stepAlike_write (fun hj => hwrite hj rfl) hs ha
    | dispatch now => exact stepAlike_dispatch hs hstandard ha now
    | lapse => exact stepAlike_lapse hs ha
    | supervise now => exact stepAlike_supervise hs ha now
    | depart => exact stepAlike_depart hs ha
    | stream change =>
      refine ⟨rfl, ?_, ha⟩
      rw [hs.same]
      exact ⟨rfl, hs.dispatching⟩
    | hear e => exact stepAlike_hear hs ha (Hub.heard_refl n j e)
    | drain => exact stepAlike_drain hs ha
    | mute => exact stepAlike_mute hs ha

end Session

end Lobby
