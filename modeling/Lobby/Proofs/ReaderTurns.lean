import Lobby.Player.Session
import Lobby.Proofs.FrameSchedules
import Lobby.Proofs.MailboxSteps

/-! The turns of a reader. At each it tries the next envelope of its stream, goes on with one that
waits for a slot, reads more octets, or ends. -/
namespace Lobby

namespace Frame

def complete (limit : Nat) (octets : List UInt8) : List (List UInt8) :=
  (⟨limit, octets⟩ : Decoder).drain.1

def remainder (limit : Nat) (octets : List UInt8) : List UInt8 :=
  (⟨limit, octets⟩ : Decoder).drain.2.2.buffer

theorem parse_complete (limit : Nat) (octets : List UInt8) :
    Parse limit octets (complete limit octets) (remainder limit octets) :=
  drain_parse ⟨limit, octets⟩

end Frame

def Envelope.readAll (limit : Nat) (octets : List UInt8) : List Envelope :=
  (Frame.complete limit octets).filterMap Wire.decode?

namespace Session

/-- The envelope that the reader gives to the dispatcher at its next turn, if the player has not
been asked to stop. -/
def attempt? (s : Session) : Option Envelope :=
  match s.reading, s.decoder.next.1 with
  | .ready, .payload payload => Wire.decode? payload
  | _, _ => none

def delivers (s : Session) : Bool :=
  s.attempt?.isSome ||
    match s.reading with
    | .delivering _ => true
    | .ready | .ended => false

/-- What a turn of a reader does to the session and to the inbound mailbox, while the player has
not been asked to stop. The flag tells whether the reader goes on. -/
inductive Reads (s : Session) (box : Mailbox Ticket Envelope) :
    Bool → Session → Mailbox Ticket Envelope → Prop
  | halted (hr : s.reading = .ended) : Reads s box false s box
  | waits {name : Ticket} (hr : s.reading = .delivering name)
      (hs : box.settle name = (.waiting, box)) : Reads s box false s box
  | enters {name : Ticket} {box' : Mailbox Ticket Envelope} (hr : s.reading = .delivering name)
      (hs : box.settle name = (.accepted, box')) :
      Reads s box true { s with reading := .ready } box'
  | refused {name : Ticket} (hr : s.reading = .delivering name) (hc : box.closed = true) :
      Reads s box false { s with reading := .ended } (box.settle name).2
  | skips {payload : List UInt8} {decoder : Frame.Decoder} (hr : s.reading = .ready)
      (hn : s.decoder.next = (.payload payload, decoder))
      (hd : Wire.decode? (α := Envelope) payload = none) : Reads s box true { s with decoder } box
  | offers {payload : List UInt8} {decoder : Frame.Decoder} {e : Envelope} (hr : s.reading = .ready)
      (hn : s.decoder.next = (.payload payload, decoder)) (hd : Wire.decode? payload = some e)
      (hp : s.config.overflow = .dropNewest) (ho : box.closed = false) :
      Reads s box true { s with decoder } (box.offer e).2
  | sends {payload : List UInt8} {decoder : Frame.Decoder} {e : Envelope} {name : Ticket}
      {box' : Mailbox Ticket Envelope} (hr : s.reading = .ready)
      (hn : s.decoder.next = (.payload payload, decoder)) (hd : Wire.decode? payload = some e)
      (hp : s.config.overflow = .wait) (hs : box.send name e = (.accepted, box')) :
      Reads s box true { s with decoder } box'
  | begins {payload : List UInt8} {decoder : Frame.Decoder} {e : Envelope} {name : Ticket}
      {box' : Mailbox Ticket Envelope} (hr : s.reading = .ready)
      (hn : s.decoder.next = (.payload payload, decoder)) (hd : Wire.decode? payload = some e)
      (hp : s.config.overflow = .wait) (hs : box.send name e = (.pending, box')) :
      Reads s box false { s with decoder, reading := .delivering name } box'
  | shut {payload : List UInt8} {decoder : Frame.Decoder} {e : Envelope} (hr : s.reading = .ready)
      (hn : s.decoder.next = (.payload payload, decoder)) (hd : Wire.decode? payload = some e)
      (hc : box.closed = true) : Reads s box false { s with decoder, reading := .ended } box
  | above {length : Nat} (hr : s.reading = .ready) (hn : s.decoder.next.1 = .tooLarge length) :
      Reads s box false { s with reading := .ended } box
  | gone (hr : s.reading = .ready) (hn : s.decoder.next.1 = .more) (hi : s.stream.incoming = [])
      (he : s.stream.ended = true) : Reads s box false { s with reading := .ended } box
  | rests (hr : s.reading = .ready) (hn : s.decoder.next.1 = .more) (hi : s.stream.incoming = [])
      (he : s.stream.ended = false) : Reads s box false s box
  | gains (hr : s.reading = .ready) (hn : s.decoder.next.1 = .more) (hi : s.stream.incoming ≠ []) :
      Reads s box true { s with
        stream := (s.stream.read s.config.readBuffer).2
        decoder := s.decoder.extend (s.stream.read s.config.readBuffer).1 } box

end Session

namespace Hub
variable {h : Hub} {p : Nat} {cell : PlayerCell}

theorem players_setPlayer (hp : h.players[p]? = some cell) (cell' : PlayerCell) :
    (h.setPlayer p cell').players[p]? = some cell' :=
  Array.getElem?_setIfInBounds_self_of_lt (Array.getElem?_eq_some_iff.mp hp).1

theorem players_endDuty (hp : h.players[p]? = some cell) :
    (Session.endDuty h p).players[p]? = some { cell with cancelled := true } := by
  obtain ⟨id, inbound, cancelled⟩ := cell
  simp only [Session.endDuty, cancelPlayer, hp]
  cases cancelled with
  | true => exact hp
  | false => exact players_setPlayer hp _

end Hub

namespace Session
variable {s : Session} {h : Hub} {p : Nat} {cell : PlayerCell}

private def Reached (s : Session) (box : Mailbox Ticket Envelope) (p : Nat) (step : Step) : Prop :=
  ∃ cell', step.2.2.players[p]? = some cell' ∧ s.Reads box step.1 step.2.1 cell'.inbound ∧
    (cell'.cancelled = true → step.2.1.reading = .ended)

private theorem reached_running {box : Mailbox Ticket Envelope} {goesOn : Bool} {s' : Session}
    (hr : s.Reads box goesOn s' cell.inbound) (hp : h.players[p]? = some cell)
    (hc : cell.cancelled = false) : s.Reached box p (goesOn, s', h) :=
  ⟨cell, hp, hr, fun ht => absurd (hc.symm.trans ht) (by simp)⟩

private theorem reached_ended {box : Mailbox Ticket Envelope} (hp : h.players[p]? = some cell)
    {s' : Session} (hr : s.Reads box false { s' with reading := .ended } cell.inbound) :
    s.Reached box p (s'.endReader h p) :=
  ⟨_, Hub.players_endDuty hp, hr, fun _ => rfl⟩

private theorem reached_deliver (hp : h.players[p]? = some cell) (hc : cell.cancelled = false)
    (hr : s.reading = .ready) {payload : List UInt8} {decoder : Frame.Decoder} {e : Envelope}
    (hn : s.decoder.next = (.payload payload, decoder)) (hd : Wire.decode? payload = some e) :
    s.Reached cell.inbound p (({ s with decoder } : Session).deliver h p cell e) := by
  have hshut (hclosed : cell.inbound.closed = true) :
      s.Reads cell.inbound false { s with decoder, reading := .ended } cell.inbound :=
    .shut hr hn hd hclosed
  rw [deliver]
  cases ho : s.config.overflow with
  | dropNewest =>
    simp only
    by_cases hclosed : cell.inbound.closed
    · rw [Mailbox.offer, if_pos hclosed]
      exact reached_ended hp (hshut hclosed)
    have hoffers := Reads.offers hr hn hd ho (eq_false_of_ne_true hclosed)
    rw [Mailbox.offer, if_neg hclosed] at hoffers ⊢
    split at hoffers
    · rename_i hfull
      rw [if_pos hfull]
      exact reached_running hoffers (Hub.players_setPlayer hp _) hc
    · rename_i hfull
      rw [if_neg hfull]
      exact reached_running hoffers (Hub.players_setPlayer hp _) hc
  | wait =>
    simp only
    have hfresh : h.freshSerial.2.players[p]? = some cell := hp
    rcases hs : cell.inbound.send ⟨.reader p, h.freshSerial.1⟩ e with ⟨_ | _ | _, inbound⟩
    · exact reached_running (.sends hr hn hd ho hs) (Hub.players_setPlayer hfresh _) hc
    · exact reached_running (.begins hr hn hd ho hs) (Hub.players_setPlayer hfresh _) hc
    · have hclosed : cell.inbound.closed = true := by
        by_contra hopen
        rw [Bool.not_eq_true] at hopen
        rcases Mailbox.send_cases hopen ⟨.reader p, h.freshSerial.1⟩ e with hs' | hs' <;>
          simp [hs'] at hs
      exact reached_ended hfresh (hshut hclosed)

/-- A turn of a reader does one of these. -/
theorem reads_stepReader (s : Session) (hp : h.players[p]? = some cell)
    (hc : cell.cancelled = false) : s.Reached cell.inbound p (s.stepReader h p) := by
  rw [stepReader, hp]
  cases hr : s.reading with
  | ended => exact reached_running (.halted hr) hp hc
  | delivering name =>
    simp only [hc, Bool.false_eq_true, if_false]
    by_cases hclosed : cell.inbound.closed
    · have hrefused := Reads.refused hr hclosed
      rw [Mailbox.settle, if_pos hclosed] at hrefused ⊢
      exact reached_ended (Hub.players_setPlayer hp _) hrefused
    rw [Bool.not_eq_true] at hclosed
    rcases Mailbox.settle_cases hclosed name with ⟨message, -, hs⟩ | hs
    · rw [hs]
      exact reached_running (.enters hr hs) (Hub.players_setPlayer hp _) rfl
    · rw [hs]
      exact reached_running (.waits hr hs) hp hc
  | ready =>
    simp only [hc, Bool.false_eq_true, if_false]
    rw [readNext]
    rcases hn : s.decoder.next with ⟨answer, decoder⟩
    cases answer with
    | payload payload =>
      simp only
      cases hd : Wire.decode? (α := Envelope) payload with
      | none => exact reached_running (.skips hr hn hd) hp hc
      | some e => exact reached_deliver hp hc hr hn hd
    | tooLarge length => exact reached_ended hp (.above hr (by rw [hn]))
    | more =>
      have hmore : s.decoder.next.1 = .more := by rw [hn]
      simp only [Stream.read]
      cases hi : s.stream.incoming with
      | nil =>
        rw [List.take_nil]
        simp only
        cases he : s.stream.ended with
        | true => exact reached_ended hp (.gone hr hmore hi he)
        | false => exact reached_running (.rests hr hmore hi he) hp hc
      | cons octet rest =>
        have hgains : s.Reads cell.inbound true _ cell.inbound := .gains hr hmore (by simp [hi])
        have hsome : max s.config.readBuffer 1 = max s.config.readBuffer 1 - 1 + 1 := by omega
        rw [Stream.read, hi, hsome, List.take_succ_cons] at hgains
        rw [hsome, List.take_succ_cons]
        exact reached_running hgains hp hc

theorem attempt?_of_payload {payload : List UInt8} {decoder : Frame.Decoder}
    (hr : s.reading = .ready) (hn : s.decoder.next = (.payload payload, decoder)) :
    s.attempt? = Wire.decode? payload := by
  rw [attempt?, hr, hn]

theorem attempt?_of_not_ready (hr : s.reading ≠ .ready) : s.attempt? = none := by
  rw [attempt?]
  split
  · exact absurd ‹_› hr
  · rfl

theorem attempt?_of_no_payload (hn : ∀ payload, s.decoder.next.1 ≠ .payload payload) :
    s.attempt? = none := by
  rw [attempt?]
  split
  · exact absurd ‹_› (hn _)
  · rfl

/-- The octets that have arrived are some frames, what the decoder holds, and what has not been
read; the envelopes tried are what the payloads of these frames decode to. -/
structure Follows (s : Session) (arrived : List UInt8) (tried : List Envelope) : Prop where
  limit : s.decoder.limit = s.config.frameLimit
  framed : ∃ payloads frames, Frame.Framed s.config.frameLimit payloads frames ∧
    frames.flatten ++ (s.decoder.buffer ++ s.stream.incoming) = arrived ∧
    tried = payloads.filterMap Wire.decode?

/-- Why a reader may end: there is a length above the limit, or nothing more comes and no frame is
complete. -/
def Excused (s : Session) : Prop :=
  (∃ length, Frame.BeginsAbove s.config.frameLimit length s.decoder.buffer) ∨
    s.decoder.next.1 = .more ∧ s.stream.incoming = [] ∧ s.stream.ended = true

variable {s' : Session} {box box' : Mailbox Ticket Envelope} {goesOn : Bool}
  {arrived : List UInt8} {tried : List Envelope}

private theorem Follows.frame (hf : s.Follows arrived tried) {payload : List UInt8}
    {decoder : Frame.Decoder} (hr : s.reading = .ready)
    (hn : s.decoder.next = (.payload payload, decoder)) (reading : Reading) :
    ({ s with decoder, reading } : Session).Follows arrived (tried ++ s.attempt?.toList) := by
  obtain ⟨payloads, frames, hframed, hoctets, rfl⟩ := hf.framed
  obtain ⟨frame, he, hbuffer, hlimit⟩ := Frame.Decoder.frame_of_next hn
  rw [hf.limit] at he hlimit
  refine ⟨hlimit, payloads ++ [payload], frames ++ [frame], ?_, ?_, ?_⟩
  · exact List.rel_append hframed (.cons he .nil)
  · rw [← hoctets, hbuffer]
    simp
  · rw [attempt?_of_payload hr hn, List.filterMap_append]
    cases hd : Wire.decode? (α := Envelope) payload <;> simp [hd]

private theorem Follows.still (hf : s.Follows arrived tried) (ha : s.attempt? = none)
    (reading : Reading) :
    ({ s with reading } : Session).Follows arrived (tried ++ s.attempt?.toList) := by
  rw [ha, Option.toList_none, List.append_nil]
  exact ⟨hf.limit, hf.framed⟩

theorem Reads.follows (h : s.Reads box goesOn s' box') (hf : s.Follows arrived tried) :
    s'.Follows arrived (tried ++ s.attempt?.toList) := by
  cases h with
  | halted hr | waits hr hs => exact hf.still (attempt?_of_not_ready (by simp [hr])) s.reading
  | enters hr hs | refused hr hc => exact hf.still (attempt?_of_not_ready (by simp [hr])) _
  | skips hr hn hd | offers hr hn hd hp ho | sends hr hn hd hp hs =>
    exact hf.frame hr hn s.reading
  | begins hr hn hd hp hs | shut hr hn hd hc => exact hf.frame hr hn _
  | above hr hn | gone hr hn hi he => exact hf.still (attempt?_of_no_payload (by simp [hn])) _
  | rests hr hn hi he => exact hf.still (attempt?_of_no_payload (by simp [hn])) s.reading
  | gains hr hn hi =>
    have ha := attempt?_of_no_payload (s := s) (by simp [hn])
    obtain ⟨payloads, frames, hframed, hoctets, htried⟩ := hf.framed
    rw [ha, Option.toList_none, List.append_nil]
    refine ⟨hf.limit, payloads, frames, hframed, ?_, htried⟩
    rw [← hoctets]
    simp [Stream.read, Frame.Decoder.extend]

/-- A reader ends with an excuse, or over an envelope. -/
theorem Reads.excused {P : Prop} (h : s.Reads box goesOn s' box')
    (hl : s.decoder.limit = s.config.frameLimit) (hx : s.reading = .ended → s.Excused ∨ P)
    (hend : s'.reading = .ended) : s'.Excused ∨ P ∨ s.delivers = true := by
  cases h with
  | halted hr => exact (hx hr).imp_right .inl
  | @refused name hr hc => exact .inr (.inr (by simp [delivers, hr]))
  | shut hr hn hd hc => exact .inr (.inr (by simp [delivers, attempt?_of_payload hr hn, hd]))
  | @above length hr hn =>
    rw [Frame.next_tooLarge_iff, hl] at hn
    exact .inl (.inl ⟨length, hn⟩)
  | gone hr hn hi he => exact .inl (.inr ⟨hn, hi, he⟩)
  | waits hr | skips hr | offers hr | sends hr | rests hr | gains hr =>
    exact absurd (hr.symm.trans hend) (by simp)
  | enters | begins => exact absurd hend (by simp)

theorem Reads.closed_eq (h : s.Reads box goesOn s' box') : box'.closed = box.closed := by
  cases h with
  | @enters name _ hr hs =>
    have hsettle : (box.settle name).2.closed = box.closed := by
      rw [Mailbox.settle]
      split
      · rfl
      · split <;> rfl
    rwa [hs] at hsettle
  | @refused name hr hc =>
    rw [Mailbox.settle, if_pos hc]
  | @offers _ _ e =>
    rw [Mailbox.offer]
    split
    · rfl
    · split <;> rfl
  | @sends _ _ e name _ hr hn hd hp hs | @begins _ _ e name _ hr hn hd hp hs =>
    have hsend : (box.send name e).2.closed = box.closed := by
      rw [Mailbox.send]
      split
      · rfl
      · split <;> rfl
    rwa [hs] at hsend
  | _ => rfl

private theorem settled_open {name : Ticket} (h : (box.settle name).1 ≠ .refused) :
    box.closed = false := by
  by_contra hc
  rw [Bool.not_eq_false] at hc
  rw [Mailbox.settle, if_pos hc] at h
  exact h rfl

private theorem sent_open {name : Ticket} {e : Envelope} (h : (box.send name e).1 ≠ .refused) :
    box.closed = false := by
  by_contra hc
  rw [Bool.not_eq_false] at hc
  rw [Mailbox.send, if_pos hc] at h
  exact h rfl

/-- A reader ends over an envelope just if the inbound mailbox is closed. -/
theorem Reads.ended_iff (h : s.Reads box goesOn s' box') (ho : s.delivers = true) :
    s'.reading = .ended ↔ box.closed = true := by
  have hquiet (hn : ∀ payload, s.decoder.next.1 ≠ .payload payload) (hr : s.reading = .ready) :
      s.delivers = false := by
    rw [delivers, attempt?_of_no_payload hn, hr]
    rfl
  cases h with
  | halted hr =>
    rw [delivers, attempt?_of_not_ready (by simp [hr]), hr] at ho
    contradiction
  | waits hr hs =>
    rw [hr, settled_open (by rw [hs]; simp)]
    simp
  | enters hr hs =>
    rw [settled_open (by rw [hs]; simp)]
    simp
  | refused hr hc => exact ⟨fun _ => hc, fun _ => rfl⟩
  | skips hr hn hd =>
    rw [delivers, attempt?_of_payload hr hn, hd, hr] at ho
    contradiction
  | offers hr hn hd hp hopen => simp [hr, hopen]
  | sends hr hn hd hp hs =>
    rw [hr, sent_open (by rw [hs]; simp)]
    simp
  | begins hr hn hd hp hs =>
    rw [sent_open (by rw [hs]; simp)]
    simp
  | shut hr hn hd hc => exact ⟨fun _ => hc, fun _ => rfl⟩
  | above hr hn | gone hr hn | rests hr hn | gains hr hn =>
    rw [hquiet (by simp [hn]) hr] at ho
    contradiction

end Session

end Lobby
