import Lobby.Json.Record.Lemmas
import Lobby.Player.Session
import Lobby.Proofs.DispatchAnswers
import Lobby.Proofs.FrameSchedules

/-! What a writer writes, the peer reads: every envelope that fits a frame comes out as it was put
in, however the octets travel. -/
namespace Lobby
open Json

theorem Envelope.isWritten (e : Envelope) : (Wire.toJson e).IsWritten := by
  apply isWritten_ofMembers
  intro m hm
  simp only [List.mem_cons, List.not_mem_nil, or_false] at hm
  rcases hm with rfl | rfl | rfl | rfl
  · exact isWritten_ofText e.clientId
  · exact isWritten_ofInt e.serial.toInt
  · exact isWritten_ofNat e.kind.number
  · exact isWritten_ofList fun b _ => isWritten_ofNat b.toNat

theorem MessageKind.ofJson?_toJson (k : MessageKind) : Wire.ofJson? (Wire.toJson k) = some k := by
  have hk : int32? (Json.ofNat k.number) = some (k.number : Int) := by
    rw [int32?, ofNat_eq]
    apply intIn?_ofInt <;> cases k <;> decide
  show (int32? (Json.ofNat k.number)).bind MessageKind.ofInt? = some k
  rw [hk]
  exact MessageKind.ofInt?_number k

/-- All fields of a written envelope are there to be read. -/
theorem Envelope.ofJson?_toJson (e : Envelope) : Wire.ofJson? (Wire.toJson e) = some e := by
  have hfields : record? ["clientId", "msgSerialNo", "id", "data"] (Wire.toJson e) =
      some fun name => List.lookup name
        [("clientId", ofText e.clientId), ("msgSerialNo", Json.ofInt e.serial.toInt),
          ("id", Wire.toJson e.kind), ("data", ofList (fun b => Json.ofNat b.toNat) e.data)] :=
    record?_ofMembers rfl (by decide)
  have hserial : (int32? (Json.ofInt e.serial.toInt)).map Int32.ofInt = some e.serial := by
    rw [int32?_ofInt, Option.map_some, Int32.ofInt_toInt]
  have hdata : list? octet? (ofList (fun b : UInt8 => Json.ofNat b.toNat) e.data) = some e.data :=
    list?_ofList fun b _ => octet?_ofNat b
  change (record? ["clientId", "msgSerialNo", "id", "data"] (Wire.toJson e)).bind _ = _
  rw [hfields]
  show (text? (ofText e.clientId)).bind _ = _
  rw [text?_ofText]
  show ((int32? (Json.ofInt e.serial.toInt)).map Int32.ofInt).bind _ = _
  rw [hserial]
  show (Wire.ofJson? (Wire.toJson e.kind)).bind _ = _
  rw [MessageKind.ofJson?_toJson]
  show (list? octet? (ofList (fun b : UInt8 => Json.ofNat b.toNat) e.data)).bind _ = _
  rw [hdata]
  rfl

/-- An envelope is read as it was written. -/
theorem Envelope.decode?_encode (e : Envelope) : Wire.decode? (Wire.encode e) = some e := by
  rw [Wire.decode?, Wire.encode, parse?_render e.isWritten]
  exact e.ofJson?_toJson

def Envelope.fits (limit : Nat) (e : Envelope) : Bool :=
  (Wire.encode e).length ≤ limit && (Wire.encode e).length ≤ 4294967295

theorem Envelope.frame_of_fits {limit : Nat} {e : Envelope} (h : e.fits limit = true) :
    e.frame limit = .ok (Frame.lengthOctets (Wire.encode e).length ++ Wire.encode e) := by
  simp only [fits, Bool.and_eq_true, decide_eq_true_eq] at h
  rw [frame, Frame.encode, if_neg (by omega)]

theorem Envelope.frame_of_not_fits {limit : Nat} {e : Envelope} (h : e.fits limit = false) :
    e.frame limit = .error (.frameTooLarge (Wire.encode e).length limit) := by
  simp only [fits, Bool.and_eq_false_iff, decide_eq_false_iff_not] at h
  rw [frame, Frame.encode, if_pos (by omega)]

/-- The envelopes that fit a frame are those that are accepted for one. -/
theorem Envelope.frame_iff (limit : Nat) (e : Envelope) :
    (∃ frame, e.frame limit = .ok frame) ↔ e.fits limit = true := by
  cases h : e.fits limit with
  | true => simp [frame_of_fits h]
  | false => simp [frame_of_not_fits h]

def Writing.unsent : Writing → List UInt8
  | .sending rest => rest
  | .idle | .ended => []

/-- Some turns of the writer of player number `p`, whatever others do between them, in none of
which it finds that it has been asked to stop or that writing fails: the envelopes that it takes
from the outbox, and the octets that it writes. -/
inductive Session.Writes (p limit : Nat) :
    Writing → List Envelope → List UInt8 → Writing → Prop where
  | rest (w : Writing) : Writes p limit w [] [] w
  | turn {s s' : Session} {h h' : Hub} {goes : Bool} {box box' : Outbox}
      {taken messages : List Envelope} {written octets : List UInt8} {w : Writing}
      (agrees : s.config.frameLimit = limit) (uncancelled : h.isCancelled p = false)
      (unbroken : s.stream.broken = false) (step : s.stepWriter h p = (goes, s', h'))
      (before : h.outboxes[p]? = some box) (after : h'.outboxes[p]? = some box')
      (takes : box.queue = taken ++ box'.queue)
      (writes : s'.stream.outgoing = s.stream.outgoing ++ written)
      (later : Writes p limit s'.writing messages octets w) :
      Writes p limit s.writing (taken ++ messages) (written ++ octets) w

def frames (limit : Nat) (messages : List Envelope) : List (List UInt8) :=
  messages.filterMap fun e => (e.frame limit).toOption

theorem Stream.write_spec (s : Stream) (octets : List UInt8) :
    ∃ written, (s.write octets).2.outgoing = s.outgoing ++ written ∧
      written ++ (s.write octets).1 = octets := by
  rw [write]
  split
  · exact ⟨octets, rfl, List.append_nil _⟩
  · exact ⟨octets.take _, rfl, List.take_append_drop _ _⟩

namespace Session
variable {p limit : Nat}

/-- A writer that takes what is next in the outbox has the frame of it to write, if it has one. -/
private theorem writeNext_spec (s : Session) (h : Hub) {box : Outbox} (hw : s.writing = .idle)
    (before : h.outboxes[p]? = some box) :
    (s.writeNext h p).2.1.stream = s.stream ∧
      ∃ taken box', (s.writeNext h p).2.2.outboxes[p]? = some box' ∧
        box.queue = taken ++ box'.queue ∧
        (s.writeNext h p).2.1.writing.unsent = (frames s.config.frameLimit taken).flatten := by
  rw [writeNext, before]
  dsimp only
  cases hq : box.queue with
  | nil =>
    rcases Mailbox.receive_nil hq with hr | hr <;> rw [hr]
    · exact ⟨rfl, [], box, before, hq.symm, by rw [hw]; rfl⟩
    · have after : (endDuty h p).outboxes[p]? = some box := by rw [outboxes_endDuty, before]
      exact ⟨rfl, [], box, after, hq.symm, rfl⟩
  | cons e rest =>
    obtain ⟨next, granted, waiting, hr, -⟩ :=
      Mailbox.exists_release ({ box with queue := rest } : Outbox)
    have after := Array.getElem?_setIfInBounds_self_of_lt
      (Array.getElem?_eq_some_iff.mp before).1 (a := { box with queue := rest, granted, waiting })
    rw [Mailbox.receive_cons hq, hr]
    dsimp only
    cases hf : e.frame s.config.frameLimit with
    | ok frame =>
      exact ⟨rfl, [e], _, after, rfl, by simp [Writing.unsent, frames, hf, Except.toOption]⟩
    | error fault =>
      exact ⟨rfl, [e], _, after, rfl, by simp [hw, Writing.unsent, frames, hf, Except.toOption]⟩

/-- A turn of a writer takes some envelopes from the outbox and writes some octets, and nothing
that fits a frame is lost between the two. -/
private theorem stepWriter_spec (s : Session) (h : Hub) {box : Outbox}
    (uncancelled : h.isCancelled p = false) (unbroken : s.stream.broken = false)
    (before : h.outboxes[p]? = some box) :
    ∃ taken written box', (s.stepWriter h p).2.2.outboxes[p]? = some box' ∧
      box.queue = taken ++ box'.queue ∧
      (s.stepWriter h p).2.1.stream.outgoing = s.stream.outgoing ++ written ∧
      s.writing.unsent ++ (frames s.config.frameLimit taken).flatten =
        written ++ (s.stepWriter h p).2.1.writing.unsent := by
  rw [stepWriter]
  cases hw : s.writing with
  | ended =>
    simp only
    exact ⟨[], [], box, before, rfl, (List.append_nil _).symm, by rw [hw]; rfl⟩
  | idle =>
    simp only [uncancelled, Bool.false_eq_true, if_false]
    obtain ⟨hstream, taken, box', after, takes, hunsent⟩ := writeNext_spec s h hw before
    refine ⟨taken, [], box', after, takes, ?_, hunsent.symm⟩
    rw [hstream, List.append_nil]
  | sending rest =>
    simp only [uncancelled, unbroken, Bool.false_eq_true, if_false]
    obtain ⟨written, hout, hrest⟩ := s.stream.write_spec rest
    generalize s.stream.write rest = result at hout hrest
    obtain ⟨unsent, stream⟩ := result
    have hflat : rest ++ (frames s.config.frameLimit []).flatten = written ++ unsent :=
      (List.append_nil rest).trans hrest.symm
    cases unsent with
    | nil => exact ⟨[], written, box, before, rfl, hout, hflat⟩
    | cons => exact ⟨[], written, box, before, rfl, hout, hflat⟩

/-- What a turn of a writer takes from the outbox and what it writes are no more and no less than
that. -/
theorem stepWriter_conserves {s s' : Session} {h h' : Hub} {goes : Bool} {box box' : Outbox}
    {taken : List Envelope} {written : List UInt8} (agrees : s.config.frameLimit = limit)
    (uncancelled : h.isCancelled p = false) (unbroken : s.stream.broken = false)
    (step : s.stepWriter h p = (goes, s', h')) (before : h.outboxes[p]? = some box)
    (after : h'.outboxes[p]? = some box') (takes : box.queue = taken ++ box'.queue)
    (writes : s'.stream.outgoing = s.stream.outgoing ++ written) :
    s.writing.unsent ++ (frames limit taken).flatten = written ++ s'.writing.unsent := by
  obtain ⟨taken₀, written₀, box₀, after₀, takes₀, writes₀, hflat⟩ :=
    stepWriter_spec s h uncancelled unbroken before
  rw [step] at after₀ writes₀ hflat
  obtain rfl := Option.some.inj (after₀.symm.trans after)
  obtain rfl := List.append_cancel_right (takes₀.symm.trans takes)
  obtain rfl := List.append_cancel_left (writes₀.symm.trans writes)
  rw [← agrees]
  exact hflat

/-- What a writer has written and what it has yet to write are the frames of all that it has taken
from the outbox. -/
theorem Writes.conserves {w w' : Writing} {messages : List Envelope} {octets : List UInt8}
    (h : Writes p limit w messages octets w') :
    w.unsent ++ (frames limit messages).flatten = octets ++ w'.unsent := by
  induction h with
  | rest w => exact List.append_nil _
  | turn agrees uncancelled unbroken step before after takes writes _ ih =>
    have hone := stepWriter_conserves agrees uncancelled unbroken step before after takes writes
    rw [frames, List.filterMap_append, List.flatten_append, ← List.append_assoc]
    rw [frames] at hone
    rw [hone, List.append_assoc, List.append_assoc]
    exact congrArg _ ih

private def stocked (p : Nat) (queue : List Envelope) : Hub :=
  { outboxes := Array.replicate (p + 1) { label := "", capacity := 1, queue } }

private theorem outbox_stocked (p : Nat) (queue : List Envelope) :
    (stocked p queue).outboxes[p]? = some { label := "", capacity := 1, queue } := by
  simp [stocked]

private def ready (p limit : Nat) (w : Writing) : Session :=
  { start p ⟨""⟩ { frameLimit := limit } Table.empty none with writing := w }

private theorem writes_taken {e : Envelope} {w w' : Writing} {messages : List Envelope}
    {octets : List UInt8}
    (hw : w = match e.frame limit with | .ok frame => .sending frame | .error _ => .idle)
    (h : Writes p limit w messages octets w') : Writes p limit .idle (e :: messages) octets w' := by
  have hstep : (ready p limit .idle).stepWriter (stocked p [e]) p =
      (true, ready p limit w, { stocked p [e] with
        outboxes := (stocked p [e]).outboxes.setIfInBounds p { label := "", capacity := 1 } }) := by
    have hidle : (ready p limit .idle).stepWriter (stocked p [e]) p =
        (ready p limit .idle).writeNext (stocked p [e]) p := rfl
    rw [hidle, writeNext, outbox_stocked, hw]
    simp only [Mailbox.receive, Mailbox.release, ready, start]
    cases e.frame limit <;> rfl
  have hset : ((stocked p [e]).outboxes.setIfInBounds p { label := "", capacity := 1 })[p]? =
      some { label := "", capacity := 1 } := by simp [stocked]
  have hturn : Writes p limit .idle ([e] ++ messages) ([] ++ octets) w' :=
    .turn rfl rfl rfl hstep (outbox_stocked p [e]) hset rfl rfl h
  exact hturn

/-- Whatever there is to write can be written: some turns take it all from the outbox. -/
theorem exists_writes (p limit : Nat) (messages : List Envelope) :
    ∃ octets, Writes p limit .idle messages octets .idle := by
  induction messages with
  | nil => exact ⟨[], .rest .idle⟩
  | cons e messages ih =>
    obtain ⟨octets, hlater⟩ := ih
    cases hf : e.frame limit with
    | error fault => exact ⟨octets, writes_taken (by rw [hf]) hlater⟩
    | ok frame =>
      have hstep : (ready p limit (.sending frame)).stepWriter (stocked p []) p =
          (true, { ready p limit .idle with stream := { outgoing := frame } }, stocked p []) := rfl
      have hsent : Writes p limit (.sending frame) ([] ++ messages) (frame ++ octets) .idle :=
        .turn rfl rfl rfl hstep (outbox_stocked p []) (outbox_stocked p []) rfl rfl hlater
      exact ⟨frame ++ octets, writes_taken (by rw [hf]) hsent⟩

end Session

/-- The frames of envelopes that fit are those of their texts. -/
theorem framed_frames (limit : Nat) (messages : List Envelope) :
    Frame.Framed limit ((messages.filter (Envelope.fits limit)).map Wire.encode)
      (frames limit messages) := by
  induction messages with
  | nil => exact .nil
  | cons e messages ih =>
    rw [frames, List.filterMap_cons, List.filter_cons]
    cases h : e.fits limit with
    | true =>
      rw [Envelope.frame_of_fits h]
      exact .cons (Envelope.frame_of_fits h) ih
    | false =>
      rw [Envelope.frame_of_not_fits h]
      exact ih

/-- A decoder that has been fed frames and nothing else gives back what is in them. -/
theorem Frame.use_framed {limit : Nat} {payloads frames : List (List UInt8)}
    (hf : Framed limit payloads frames) {calls : List Call} (hfed : fed calls = frames.flatten)
    (hd : Drained (use limit calls).decoder) :
    (use limit calls).payloads = payloads ∧ (use limit calls).decoder.buffer = [] := by
  have hnone : ¬ BeginsFrame limit [] := by
    refine (drained_iff ⟨limit, []⟩).mp fun payload h => ?_
    contradiction
  have hparse : Parse limit frames.flatten payloads [] := by
    simpa using (Parse.rest hnone).after hf
  obtain ⟨taken, htaken, hheld⟩ := use_conserves limit calls
  rw [drained_iff, use_limit] at hd
  have hparse' := (Parse.rest hd).after htaken
  rw [hheld, hfed] at hparse'
  simpa using hparse.unique hparse'

/-- The wire carries envelopes unchanged. A writer can take any envelopes from the outbox, and
accepts those whose text is within the limit and not longer than four octets can say. However its
turns go and however the octets travel, a peer with the same limit that has been fed all that was
written, and has no more frame to take, has read just the accepted envelopes, in order, and holds
nothing else. -/
theorem peer_reads_what_fits (p limit : Nat) (messages : List Envelope) :
    (∀ e : Envelope, (∃ frame, e.frame limit = .ok frame) ↔
      (Wire.encode e).length ≤ limit ∧ (Wire.encode e).length ≤ 4294967295) ∧
    (∃ octets, Session.Writes p limit .idle messages octets .idle) ∧
    ∀ octets w calls, Session.Writes p limit .idle messages octets w → w.unsent = [] →
      Frame.fed calls = octets → Frame.Drained (Frame.use limit calls).decoder →
      (Frame.use limit calls).payloads.map (Wire.decode? (α := Envelope)) =
          (messages.filter (Envelope.fits limit)).map some ∧
        (Frame.use limit calls).decoder.buffer = [] := by
  refine ⟨?_, Session.exists_writes p limit messages, ?_⟩
  · intro e
    rw [e.frame_iff, Envelope.fits, Bool.and_eq_true, decide_eq_true_eq, decide_eq_true_eq]
  · intro octets w calls hwrites hsent hfed hdrained
    have hoctets := hwrites.conserves
    rw [hsent, List.append_nil] at hoctets
    obtain ⟨hpayloads, hbuffer⟩ :=
      Frame.use_framed (framed_frames limit messages) (hfed.trans hoctets.symm) hdrained
    refine ⟨?_, hbuffer⟩
    rw [hpayloads, List.map_map]
    exact List.map_congr_left fun e _ => e.decode?_encode

/-- One envelope that fits a frame of at most 58 octets, with marks that are escaped, and one
that does not. -/
def twoEnvelopes : List Envelope :=
  [{ clientId := "\"\n", serial := -7, kind := .moveRequest, data := [0, 255] },
    { kind := .loginRequest, data := [7, 7, 7, 7, 7, 7] }]

theorem peer_reads_first_of_two : ∃ octets calls,
    Session.Writes 0 58 .idle twoEnvelopes octets .idle ∧ Frame.fed calls = octets ∧
      Frame.Drained (Frame.use 58 calls).decoder ∧
      (Frame.use 58 calls).payloads.map (Wire.decode? (α := Envelope)) =
        [some { clientId := "\"\n", serial := -7, kind := .moveRequest, data := [0, 255] }] ∧
      (Frame.use 58 calls).decoder.buffer = [] := by
  obtain ⟨-, ⟨octets, hwrites⟩, hread⟩ := peer_reads_what_fits 0 58 twoEnvelopes
  have hoctets : (frames 58 twoEnvelopes).flatten = octets :=
    hwrites.conserves.trans (List.append_nil octets)
  subst hoctets
  have hmore : (Frame.use 58 [.extend (frames 58 twoEnvelopes).flatten, .next]).decoder.next.1 =
      .more := by decide +kernel
  have hdrained : Frame.Drained
      (Frame.use 58 [.extend (frames 58 twoEnvelopes).flatten, .next]).decoder := by
    intro payload hp
    rw [hmore] at hp
    cases hp
  have hfits : twoEnvelopes.filter (Envelope.fits 58) =
      [{ clientId := "\"\n", serial := -7, kind := .moveRequest, data := [0, 255] }] := by
    decide +kernel
  have hfed : Frame.fed [.extend (frames 58 twoEnvelopes).flatten, .next] =
      (frames 58 twoEnvelopes).flatten := by simp [Frame.fed]
  obtain ⟨hpayloads, hbuffer⟩ := hread _ .idle _ hwrites rfl hfed hdrained
  rw [hfits] at hpayloads
  exact ⟨_, _, hwrites, hfed, hdrained, hpayloads, hbuffer⟩

end Lobby
