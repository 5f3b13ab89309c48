import Mathlib.Logic.Function.Iterate
import Mathlib.Logic.Relation
import Lobby.Proofs.ReaderDeliveries

/-! What a reader makes of the octets of its client, however they come and whenever the dispatcher
takes a message: every frame is tried in its turn, and nothing is lost, doubled or moved. -/
namespace Lobby

/-- A reader among all others: its session and what all share, the octets that the client has sent,
the envelopes that the reader has tried, and those that the dispatcher has taken. -/
structure Feed where
  session : Session
  hub : Hub
  arrived : List UInt8 := []
  tried : List Envelope := []
  taken : List Envelope := []
  /-- The reader has ended over an envelope. -/
  refused : Bool := false

namespace Feed

def turn (f : Feed) (p : Nat) : Feed :=
  let step := f.session.stepReader f.hub p
  { f with
    session := step.2.1
    hub := step.2.2
    tried := f.tried ++ f.session.attempt?.toList
    refused := f.refused || f.session.delivers && decide (step.2.1.reading = .ended) }

theorem refused_turn (f : Feed) (p : Nat) : (f.turn p).refused =
    (f.refused || f.session.delivers && decide ((f.turn p).session.reading = .ended)) := rfl

def Running (f : Feed) (p : Nat) : Prop :=
  ∃ cell, f.hub.players[p]? = some cell ∧ cell.cancelled = false

/-- One step of what goes on around the reader of player number `p`, as long as nobody but the
reader asks the player to stop. -/
inductive Step (p : Nat) (f : Feed) : Feed → Prop
  | turn (hr : f.Running p) : Step p f (f.turn p)
  | send (octets : List UInt8) (he : f.session.stream.ended = false) :
      Step p f { f with
        session := { f.session with stream := f.session.stream.send octets }
        arrived := f.arrived ++ octets }
  | finish : Step p f { f with
      session := { f.session with stream := f.session.stream.finish } }
  | take {cell : PlayerCell} {e : Envelope} {next : Option Ticket}
      {inbound : Mailbox Ticket Envelope} (hp : f.hub.players[p]? = some cell)
      (ht : cell.inbound.receive = (.message e, next, inbound)) :
      Step p f { f with
        hub := f.hub.setPlayer p { cell with inbound }
        taken := f.taken ++ [e] }
  | shut {cell : PlayerCell} {inbound : Mailbox Ticket Envelope}
      (hp : f.hub.players[p]? = some cell) (hc : inbound.closed = true) :
      Step p f { f with hub := f.hub.setPlayer p { cell with inbound } }
  /-- Whatever else happens has no part in the reader and the inbound mailbox. -/
  | aside {s : Session} {h : Hub} (hs : f.session.Spares s)
      (hh : h.players[p]? = f.hub.players[p]?) : Step p f { f with session := s, hub := h }

abbrev Leads (p : Nat) : Feed → Feed → Prop := Relation.ReflTransGen (Step p)

abbrev Turns (p : Nat) : Feed → Feed → Prop :=
  Relation.ReflTransGen fun f g => f.Running p ∧ g = f.turn p

structure Sound (p : Nat) (config : PlayerConfig) (cell : PlayerCell) (f : Feed) : Prop where
  present : f.hub.players[p]? = some cell
  settings : f.session.config = config
  running : cell.cancelled = true → f.session.reading = .ended
  follows : f.session.Follows f.arrived f.tried
  excused : f.session.reading = .ended → f.session.Excused ∨ f.refused = true
  refusal : f.refused = true → f.session.reading = .ended ∧ cell.inbound.closed = true
  lossless : config.overflow = .wait → cell.inbound.closed = false →
    f.session.Lossless cell.inbound f.tried f.taken
  lossy : config.overflow = .dropNewest → cell.inbound.closed = false →
    f.session.Lossy cell.inbound f.tried f.taken

variable {p : Nat} {config : PlayerConfig} {cell : PlayerCell} {f g : Feed}

namespace Sound

/-- What a turn of the reader does. -/
private theorem reads (h : f.Sound p config cell) (hr : f.Running p) : ∃ cell',
    (f.turn p).hub.players[p]? = some cell' ∧
      f.session.Reads cell.inbound (f.session.stepReader f.hub p).1 (f.turn p).session
        cell'.inbound ∧
      (cell'.cancelled = true → (f.turn p).session.reading = .ended) := by
  obtain ⟨cell', hp, hc⟩ := hr
  obtain rfl := Option.some.inj (h.present.symm.trans hp)
  exact f.session.reads_stepReader hp hc

private theorem of_reads (h : f.Sound p config cell) {cell' : PlayerCell} {goesOn : Bool}
    (hp : (f.turn p).hub.players[p]? = some cell')
    (hreads : f.session.Reads cell.inbound goesOn (f.turn p).session cell'.inbound)
    (hc : cell'.cancelled = true → (f.turn p).session.reading = .ended) :
    (f.turn p).Sound p config cell' where
  present := hp
  settings := hreads.config_eq.trans h.settings
  running := hc
  follows := hreads.follows h.follows
  excused := by
    intro hend
    rcases hreads.excused h.follows.limit h.excused hend with hx | hr | hd
    · exact .inl hx
    · exact .inr (by rw [refused_turn, hr, Bool.true_or])
    · exact .inr (by rw [refused_turn, hd, hend]; simp)
  refusal := by
    intro hr
    rw [refused_turn, Bool.or_eq_true, Bool.and_eq_true, decide_eq_true_eq] at hr
    rw [hreads.closed_eq]
    rcases hr with hr | ⟨hd, hend⟩
    · exact ⟨hreads.stays_ended (h.refusal hr).1, (h.refusal hr).2⟩
    · exact ⟨hend, (hreads.ended_iff hd).mp hend⟩
  lossless := fun hw ho =>
    hreads.lossless (h.settings ▸ hw) (hreads.closed_eq ▸ ho)
      (h.lossless hw (hreads.closed_eq ▸ ho))
  lossy := fun hd ho =>
    hreads.lossy (h.settings ▸ hd) (hreads.closed_eq ▸ ho) (h.lossy hd (hreads.closed_eq ▸ ho))

theorem turn (h : f.Sound p config cell) (hr : f.Running p) :
    ∃ cell', (f.turn p).Sound p config cell' := by
  obtain ⟨cell', hp, hreads, hc⟩ := h.reads hr
  exact ⟨cell', h.of_reads hp hreads hc⟩

private theorem send (h : f.Sound p config cell) (octets : List UInt8)
    (he : f.session.stream.ended = false) : ({ f with
      session := { f.session with stream := f.session.stream.send octets }
      arrived := f.arrived ++ octets } : Feed).Sound p config cell := by
  obtain ⟨payloads, frames, hframed, hoctets, htried⟩ := h.follows.framed
  refine { h with
    follows := ⟨h.follows.limit, payloads, frames, hframed, ?_, htried⟩
    excused := ?_
    lossless := fun hw ho => ⟨(h.lossless hw ho).line, (h.lossless hw ho).kept,
      (h.lossless hw ho).dropped⟩
    lossy := fun hd ho => ⟨(h.lossy hd ho).line, (h.lossy hd ho).kept, (h.lossy hd ho).dropped⟩ }
  · rw [← hoctets]
    simp [Stream.send]
  · intro hend
    rcases h.excused hend with (habove | ⟨-, -, hover⟩) | hr
    · exact .inl (.inl habove)
    · exact absurd hover (by simp [he])
    · exact .inr hr

private theorem spare (h : f.Sound p config cell) {s : Session} (hs : f.session.Spares s)
    {hub : Hub} (hp : hub.players[p]? = f.hub.players[p]?) :
    ({ f with session := s, hub } : Feed).Sound p config cell := by
  obtain ⟨hconfig, hdecoder, hreading, hincoming, hended⟩ := hs
  constructor
  case present => exact hp.trans h.present
  case settings => exact hconfig.trans h.settings
  case running => exact fun hc => hreading.trans (h.running hc)
  case follows =>
    obtain ⟨hlimit, hframed⟩ := h.follows
    constructor
    · rwa [hdecoder, hconfig]
    · rwa [hdecoder, hconfig, hincoming]
  case excused =>
    rw [Session.Excused, hreading, hconfig, hdecoder, hincoming, hended]
    exact h.excused
  case refusal => exact fun hr => ⟨hreading.trans (h.refusal hr).1, (h.refusal hr).2⟩
  case lossless =>
    intro hw ho
    obtain ⟨hline, hkept, hdropped⟩ := h.lossless hw ho
    refine ⟨?_, hkept, hdropped⟩
    rwa [hreading]
  case lossy =>
    intro hd ho
    obtain ⟨hline, hkept, hdropped⟩ := h.lossy hd ho
    refine ⟨?_, hkept, hdropped⟩
    rwa [hreading]

private theorem finish (h : f.Sound p config cell) : ({ f with
    session := { f.session with stream := f.session.stream.finish } } : Feed).Sound p config
      cell := by
  refine { h with
    follows := ⟨h.follows.limit, h.follows.framed⟩
    excused := ?_
    lossless := fun hw ho => ⟨(h.lossless hw ho).line, (h.lossless hw ho).kept,
      (h.lossless hw ho).dropped⟩
    lossy := fun hd ho => ⟨(h.lossy hd ho).line, (h.lossy hd ho).kept, (h.lossy hd ho).dropped⟩ }
  intro hend
  rcases h.excused hend with (habove | ⟨hmore, hnone, -⟩) | hr
  · exact .inl (.inl habove)
  · exact .inl (.inr ⟨hmore, hnone, rfl⟩)
  · exact .inr hr

private theorem take (h : f.Sound p config cell) {e : Envelope} {next : Option Ticket}
    {inbound : Mailbox Ticket Envelope} (ht : cell.inbound.receive = (.message e, next, inbound)) :
    ({ f with
      hub := f.hub.setPlayer p { cell with inbound }
      taken := f.taken ++ [e] } : Feed).Sound p config { cell with inbound } := by
  cases hq : cell.inbound.queue with
  | nil => rcases Mailbox.receive_nil hq with hr | hr <;> rw [hr] at ht <;> cases ht
  | cons first rest =>
    obtain ⟨_, granted, waiting, hr, hline⟩ :=
      Mailbox.exists_release ({ cell.inbound with queue := rest } : Mailbox Ticket Envelope)
    rw [Mailbox.receive_cons hq, hr] at ht
    cases ht
    have hsame : ({ cell.inbound with queue := rest, granted, waiting } :
        Mailbox Ticket Envelope).underWay = cell.inbound.underWay := hline
    constructor
    case present => exact Hub.players_setPlayer h.present _
    case settings => exact h.settings
    case running => exact h.running
    case follows => exact h.follows
    case excused => exact h.excused
    case refusal => exact h.refusal
    case lossless =>
      intro hw ho
      obtain ⟨hholds, hkept, hdropped⟩ := h.lossless hw ho
      rw [hq] at hkept
      refine ⟨?_, ?_, hdropped⟩
      · rwa [hsame]
      · rw [hsame, ← hkept]
        simp
    case lossy =>
      intro hd ho
      obtain ⟨hholds, hkept, hdropped⟩ := h.lossy hd ho
      rw [hq, List.append_cons] at hkept hdropped
      exact ⟨hholds, hkept, hdropped⟩

private theorem shut (h : f.Sound p config cell) {inbound : Mailbox Ticket Envelope}
    (hc : inbound.closed = true) :
    ({ f with hub := f.hub.setPlayer p { cell with inbound } } : Feed).Sound p config
      { cell with inbound } where
  present := Hub.players_setPlayer h.present _
  settings := h.settings
  running := h.running
  follows := h.follows
  excused := h.excused
  refusal := fun hr => ⟨(h.refusal hr).1, hc⟩
  lossless := fun _ ho => absurd (hc.symm.trans ho) (by simp)
  lossy := fun _ ho => absurd (hc.symm.trans ho) (by simp)

theorem step (h : f.Sound p config cell) (hstep : Step p f g) :
    ∃ cell', g.Sound p config cell' := by
  cases hstep with
  | turn hr => exact h.turn hr
  | send octets he => exact ⟨cell, h.send octets he⟩
  | finish => exact ⟨cell, h.finish⟩
  | take hp ht =>
    obtain rfl := Option.some.inj (h.present.symm.trans hp)
    exact ⟨_, h.take ht⟩
  | shut hp hc =>
    obtain rfl := Option.some.inj (h.present.symm.trans hp)
    exact ⟨_, h.shut hc⟩
  | aside hs hh => exact ⟨cell, h.spare hs hh⟩

theorem leads (h : f.Sound p config cell) (hl : Leads p f g) : ∃ cell', g.Sound p config cell' := by
  induction hl with
  | refl => exact ⟨cell, h⟩
  | tail _ hstep ih =>
    obtain ⟨_, hmid⟩ := ih
    exact hmid.step hstep

theorem inOrder (h : f.Sound p config cell) :
    f.tried <+: Envelope.readAll config.frameLimit f.arrived := by
  obtain ⟨payloads, frames, hframed, hoctets, htried⟩ := h.follows.framed
  rw [h.settings] at hframed
  obtain ⟨later, rest, hparse⟩ := Frame.exists_parse config.frameLimit
    (f.session.decoder.buffer ++ f.session.stream.incoming)
  have hall := hparse.after hframed
  rw [hoctets] at hall
  have hcomplete := (hall.unique (Frame.parse_complete _ _)).1
  rw [Envelope.readAll, hcomplete, List.filterMap_append, ← htried]
  exact List.prefix_append _ _

/-- When no frame is complete in what the reader has before it, it has tried all there are. -/
theorem tried_eq (h : f.Sound p config cell) (hnone : ¬ Frame.BeginsFrame config.frameLimit
      (f.session.decoder.buffer ++ f.session.stream.incoming)) :
    f.tried = Envelope.readAll config.frameLimit f.arrived ∧
      Frame.remainder config.frameLimit f.arrived =
        f.session.decoder.buffer ++ f.session.stream.incoming := by
  obtain ⟨payloads, frames, hframed, hoctets, htried⟩ := h.follows.framed
  rw [h.settings] at hframed
  have hall := (Frame.Parse.rest hnone).after hframed
  rw [hoctets, List.append_nil] at hall
  obtain ⟨hcomplete, hremainder⟩ := hall.unique (Frame.parse_complete _ _)
  refine ⟨?_, hremainder⟩
  rw [Envelope.readAll, hcomplete, htried]

private theorem not_beginsFrame_of_above {limit length : Nat} {octets : List UInt8}
    (h : Frame.BeginsAbove limit length octets) : ¬ Frame.BeginsFrame limit octets := by
  have htoo := (Frame.next_tooLarge_iff ⟨limit, octets⟩ length).mpr h
  intro hframe
  obtain ⟨payload, hp⟩ := (Frame.next_payload_iff ⟨limit, octets⟩).mpr hframe
  exact absurd (htoo.symm.trans hp) (by simp)

private theorem more_iff (h : f.Sound p config cell) : f.session.decoder.next.1 = .more ↔
    ¬ Frame.BeginsFrame config.frameLimit f.session.decoder.buffer ∧
      ∀ length, ¬ Frame.BeginsAbove config.frameLimit length f.session.decoder.buffer := by
  rw [Frame.next_more_iff, h.follows.limit, h.settings]

theorem rested (h : f.Sound p config cell) (hr : f.session.Resting) (hkept : f.refused = false) :
    f.tried = Envelope.readAll config.frameLimit f.arrived ∧
      (f.session.reading = .ended ↔ (∃ length, Frame.BeginsAbove config.frameLimit length
        (Frame.remainder config.frameLimit f.arrived)) ∨ f.session.stream.ended = true) := by
  rcases hr with hend | ⟨hready, hmore, hnone, hopen⟩
  · rcases h.excused hend with (⟨length, habove⟩ | ⟨hmore, hnone, hover⟩) | hrefused
    · rw [h.settings] at habove
      have habove' : Frame.BeginsAbove config.frameLimit length
          (f.session.decoder.buffer ++ f.session.stream.incoming) :=
        ⟨habove.1, habove.2.1, habove.2.2.trans (List.prefix_append _ _)⟩
      obtain ⟨htried, hremainder⟩ := h.tried_eq (not_beginsFrame_of_above habove')
      refine ⟨htried, fun _ => .inl ⟨length, ?_⟩, fun _ => hend⟩
      rwa [hremainder]
    · have hframe := (h.more_iff.mp hmore).1
      have htried := h.tried_eq (by rwa [hnone, List.append_nil])
      exact ⟨htried.1, fun _ => .inr hover, fun _ => hend⟩
    · simp [hkept] at hrefused
  · obtain ⟨hframe, habove⟩ := h.more_iff.mp hmore
    obtain ⟨htried, hremainder⟩ := h.tried_eq (by rwa [hnone, List.append_nil])
    rw [hnone, List.append_nil] at hremainder
    refine ⟨htried, ?_⟩
    rw [hready, hremainder, hopen]
    constructor
    · exact nofun
    · rintro (⟨length, hl⟩ | hover)
      · exact absurd hl (habove length)
      · contradiction

/-- A reader that has one turn after the other comes to rest, or to wait for a slot. -/
theorem exists_turns (h : f.Sound p config cell) : ∃ g, Turns p f g ∧
    (g.session.Resting ∨ ∃ name, g.session.reading = .delivering name) := by
  induction hn : f.session.backlog using Nat.strongRecOn generalizing f cell with
  | ind n ih =>
    cases hc : cell.cancelled with
    | true => exact ⟨f, .refl, .inl (.inl (h.running hc))⟩
    | false =>
      have hr : f.Running p := ⟨cell, h.present, hc⟩
      obtain ⟨cell', hp, hreads, hcancelled⟩ := h.reads hr
      cases hg : (f.session.stepReader f.hub p).1 with
      | true =>
        have hlt := hreads.backlog_lt hg
        rw [hn] at hlt
        obtain ⟨g, hturns, hrest⟩ := ih _ hlt (h.of_reads hp hreads hcancelled) rfl
        exact ⟨g, .head ⟨hr, rfl⟩ hturns, hrest⟩
      | false => exact ⟨_, .single ⟨hr, rfl⟩, hreads.rests_or_waits hg⟩

end Sound

structure Faithful (p : Nat) (config : PlayerConfig) (f : Feed) : Prop where
  /-- The complete frames of what has arrived, and what follows them. -/
  frames : Frame.Parse config.frameLimit f.arrived (Frame.complete config.frameLimit f.arrived)
    (Frame.remainder config.frameLimit f.arrived)
  /-- Envelopes are tried in the order in which they came, and none is left out. -/
  inOrder : f.tried <+: Envelope.readAll config.frameLimit f.arrived
  /-- A reader that rests, and has not been refused an envelope, has tried all; and it has ended
  just if the complete frames are followed by a length above the limit, or by nothing any more. -/
  rested : f.session.Resting → f.refused = false →
    f.tried = Envelope.readAll config.frameLimit f.arrived ∧
      (f.session.reading = .ended ↔ (∃ length, Frame.BeginsAbove config.frameLimit length
        (Frame.remainder config.frameLimit f.arrived)) ∨ f.session.stream.ended = true)
  /-- Only a closed mailbox refuses an envelope, and this ends the reader. -/
  refusal : f.refused = true → f.session.reading = .ended ∧
    ∃ cell, f.hub.players[p]? = some cell ∧ cell.inbound.closed = true
  refuses : f.session.delivers = true → f.Running p → ∀ cell, f.hub.players[p]? = some cell →
    ((f.turn p).refused = true ↔ cell.inbound.closed = true)
  /-- It takes only turns of its own to make the reader rest, or wait for a slot. -/
  advances : ∃ g, Turns p f g ∧
    (g.session.Resting ∨ ∃ name, g.session.reading = .delivering name)
  lossless : config.overflow = .wait → ∀ cell, f.hub.players[p]? = some cell →
    cell.inbound.closed = false → f.session.Lossless cell.inbound f.tried f.taken
  lossy : config.overflow = .dropNewest → ∀ cell, f.hub.players[p]? = some cell →
    cell.inbound.closed = false → f.session.Lossy cell.inbound f.tried f.taken

theorem Sound.faithful (h : f.Sound p config cell) : f.Faithful p config where
  frames := Frame.parse_complete _ _
  inOrder := h.inOrder
  rested := h.rested
  refusal := fun hr => ⟨(h.refusal hr).1, cell, h.present, (h.refusal hr).2⟩
  refuses := by
    intro hd hr cell' hp
    obtain rfl := Option.some.inj (h.present.symm.trans hp)
    obtain ⟨_, _, hreads, _⟩ := h.reads hr
    have hkept : f.refused = false := by
      by_contra hrefused
      rw [Bool.not_eq_false] at hrefused
      simp [Session.delivers, Session.attempt?, (h.refusal hrefused).1] at hd
    rw [refused_turn, hkept, hd, ← hreads.ended_iff hd]
    simp
  advances := h.exists_turns
  lossless := by
    intro hw cell' hp ho
    obtain rfl := Option.some.inj (h.present.symm.trans hp)
    exact h.lossless hw ho
  lossy := by
    intro hd cell' hp ho
    obtain rfl := Option.some.inj (h.present.symm.trans hp)
    exact h.lossy hd ho

/-- The reader of a player who has just connected. -/
theorem sound_start {h hub : Hub} {id : PlayerId} (ho : h.openPlayer id config = (p, true, hub))
    (handlers : Handlers) (window : Option Nat) : ∃ cell,
      ({ session := .start p id config handlers window, hub } : Feed).Sound p config cell := by
  have hcell : hub.players[p]? = some
      { id, inbound := .ofCapacity (id.text ++ "/inbound") config.inboundCapacity } := by
    rw [Hub.openPlayer] at ho
    split at ho <;> cases ho
    simp [Hub.signal]
  exact ⟨_,
    { present := hcell
      settings := rfl
      running := fun hc => absurd hc (by simp)
      follows := ⟨rfl, [], [], .nil, rfl, rfl⟩
      excused := fun hend => absurd hend (by simp [Session.start])
      refusal := fun hr => absurd hr (by simp)
      lossless := fun _ _ => ⟨rfl, rfl, rfl⟩
      lossy := fun _ _ => ⟨fun _ => nofun, .slnil, rfl⟩ }⟩

end Feed

end Lobby
