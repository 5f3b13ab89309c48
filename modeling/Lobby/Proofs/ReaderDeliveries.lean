import Lobby.Proofs.ReaderTurns

/-! What becomes of the envelopes that a reader tries, under either overflow policy, and how far a
reader gets before it waits or rests. -/
namespace Lobby

namespace Session
variable {s s' : Session} {box box' : Mailbox Ticket Envelope} {goesOn : Bool}
  {tried : List Envelope}

def Holds (r : Reading) (line : List (Ticket × Envelope)) : Prop :=
  match r with
  | .delivering name => ∃ e, line = [(name, e)]
  | .ready | .ended => line = []

/-- Whatever has been tried has been taken, is queued, or waits to be; nothing is dropped. -/
structure Lossless (s : Session) (box : Mailbox Ticket Envelope) (tried taken : List Envelope) :
    Prop where
  line : Holds s.reading box.underWay
  kept : taken ++ box.queue ++ box.underWay.map (·.2) = tried
  dropped : box.dropped = 0

/-- Of what has been tried some has been taken or is queued; the counter shows how many are missing
from it, as far as it can count. -/
structure Lossy (s : Session) (box : Mailbox Ticket Envelope) (tried taken : List Envelope) :
    Prop where
  line : ∀ name, s.reading ≠ .delivering name
  kept : (taken ++ box.queue).Sublist tried
  dropped : box.dropped = UInt64.ofNat (tried.length - (taken ++ box.queue).length)

variable {taken : List Envelope}

/-- A delivery that has a slot puts its envelope there, and is not under way any more. -/
private theorem settle_single {name : Ticket} {e : Envelope} (ho : box.closed = false)
    (hs : box.settle name = (.accepted, box')) (hline : box.underWay = [(name, e)]) :
    box' = { box with granted := [], queue := box.queue ++ [e] } ∧ box.waiting = [] := by
  obtain ⟨message, hmem, hs'⟩ | hs' := Mailbox.settle_cases ho name
  · rw [hs, Prod.mk.injEq] at hs'
    rw [Mailbox.underWay] at hline
    cases hg : box.granted with
    | nil => simp [hg] at hmem
    | cons w rest =>
      rw [hg, List.cons_append, List.cons.injEq, List.append_eq_nil_iff] at hline
      obtain ⟨rfl, rfl, hw⟩ := hline
      rw [hg, List.mem_singleton, Prod.mk.injEq] at hmem
      obtain ⟨-, rfl⟩ := hmem
      refine ⟨hs'.2.trans ?_, hw⟩
      simp [hg]
  · rw [hs'] at hs
    cases hs

private theorem attempt?_of_decoded {payload : List UInt8} {decoder : Frame.Decoder}
    {found : Option Envelope} (hr : s.reading = .ready)
    (hn : s.decoder.next = (.payload payload, decoder)) (hd : Wire.decode? payload = found) :
    s.attempt? = found :=
  (attempt?_of_payload hr hn).trans hd

theorem Reads.lossless (h : s.Reads box goesOn s' box') (hp : s.config.overflow = .wait)
    (ho : box.closed = false) (hl : s.Lossless box tried taken) :
    s'.Lossless box' (tried ++ s.attempt?.toList) taken := by
  have hline := hl.line
  have hkept := hl.kept
  cases h with
  | halted hr | waits hr =>
    rw [attempt?_of_not_ready (by simp [hr]), Option.toList_none, List.append_nil]
    exact hl
  | enters hr hs =>
    rw [attempt?_of_not_ready (by simp [hr]), Option.toList_none, List.append_nil]
    rw [hr] at hline
    obtain ⟨e, hline⟩ := hline
    obtain ⟨rfl, hw⟩ := settle_single ho hs hline
    refine ⟨?_, ?_, hl.dropped⟩
    · simp [Holds, Mailbox.underWay, hw]
    · rw [hline] at hkept
      simpa [Mailbox.underWay, hw] using hkept
  | refused hr hc => exact absurd (hc.symm.trans ho) (by simp)
  | skips hr hn hd =>
    rw [attempt?_of_decoded hr hn hd, Option.toList_none, List.append_nil]
    exact ⟨hline, hkept, hl.dropped⟩
  | offers hr hn hd hp' => exact absurd (hp.symm.trans hp') (by simp)
  | @sends _ _ e name _ hr hn hd hp' hs =>
    rw [attempt?_of_decoded hr hn hd, ← hkept]
    rcases Mailbox.send_cases ho name e with hs' | hs' <;> rw [hs', Prod.mk.injEq] at hs
    · rw [hr] at hline
      obtain ⟨-, rfl⟩ := hs
      refine ⟨?_, ?_, hl.dropped⟩
      · rw [hr]
        exact hline
      · have hnone : box.underWay = [] := hline
        have hsame : ({ box with queue := box.queue ++ [e] } : Mailbox Ticket Envelope).underWay =
            box.underWay := rfl
        rw [hsame, hnone]
        simp
    · exact absurd hs.1 (by simp)
  | @begins _ _ e name _ hr hn hd hp' hs =>
    rw [attempt?_of_decoded hr hn hd, ← hkept]
    rcases Mailbox.send_cases ho name e with hs' | hs' <;> rw [hs', Prod.mk.injEq] at hs
    · exact absurd hs.1 (by simp)
    · rw [hr] at hline
      obtain ⟨-, rfl⟩ := hs
      have hnone : box.underWay = [] := hline
      have hone : ({ box with waiting := box.waiting ++ [(name, e)] } :
          Mailbox Ticket Envelope).underWay = [(name, e)] := by
        rw [Mailbox.underWay, ← List.append_assoc]
        exact congrArg (· ++ [(name, e)]) hnone
      refine ⟨⟨e, hone⟩, ?_, hl.dropped⟩
      rw [hone, hnone]
      simp
  | shut hr hn hd hc => exact absurd (hc.symm.trans ho) (by simp)
  | above hr hn | gone hr hn hi he =>
    rw [attempt?_of_no_payload (by simp [hn]), Option.toList_none, List.append_nil]
    rw [hr] at hline
    exact ⟨hline, hkept, hl.dropped⟩
  | rests hr hn hi he | gains hr hn hi =>
    rw [attempt?_of_no_payload (by simp [hn]), Option.toList_none, List.append_nil]
    exact ⟨hline, hkept, hl.dropped⟩

theorem Reads.lossy (h : s.Reads box goesOn s' box') (hp : s.config.overflow = .dropNewest)
    (ho : box.closed = false) (hl : s.Lossy box tried taken) :
    s'.Lossy box' (tried ++ s.attempt?.toList) taken := by
  cases h with
  | halted hr =>
    rw [attempt?_of_not_ready (by simp [hr]), Option.toList_none, List.append_nil]
    exact hl
  | waits hr | enters hr | refused hr => exact absurd hr (hl.line _)
  | skips hr hn hd =>
    rw [attempt?_of_decoded hr hn hd, Option.toList_none, List.append_nil]
    exact ⟨hl.line, hl.kept, hl.dropped⟩
  | @offers _ _ e hr hn hd hp' =>
    rw [attempt?_of_decoded hr hn hd, Option.toList_some]
    obtain hs | ⟨fault, hs⟩ := Mailbox.offer_cases ho e
    · rw [hs]
      refine ⟨hl.line, ?_, ?_⟩
      · rw [← List.append_assoc]
        exact hl.kept.append_right [e]
      · rw [← List.append_assoc, List.length_append, List.length_append,
          Nat.add_sub_add_right]
        exact hl.dropped
    · rw [hs]
      refine ⟨hl.line, hl.kept.trans (List.sublist_append_left _ _), ?_⟩
      rw [List.length_append, List.length_singleton, Nat.sub_add_comm hl.kept.length_le,
        UInt64.ofNat_add, ← hl.dropped]
      rfl
  | sends hr hn hd hp' | begins hr hn hd hp' => exact absurd (hp.symm.trans hp') (by simp)
  | shut hr hn hd hc => exact absurd (hc.symm.trans ho) (by simp)
  | above hr hn | gone hr hn hi he =>
    rw [attempt?_of_no_payload (by simp [hn]), Option.toList_none, List.append_nil]
    exact ⟨fun _ => nofun, hl.kept, hl.dropped⟩
  | rests hr hn hi he | gains hr hn hi =>
    rw [attempt?_of_no_payload (by simp [hn]), Option.toList_none, List.append_nil]
    exact ⟨hl.line, hl.kept, hl.dropped⟩

theorem Reads.stays_ended (h : s.Reads box goesOn s' box') (hr : s.reading = .ended) :
    s'.reading = .ended := by
  cases h with
  | halted => exact hr
  | refused | shut | above | gone => rfl
  | waits h | enters h | skips h | offers h | sends h | begins h | rests h | gains h =>
    exact absurd (h.symm.trans hr) (by simp)

theorem Reads.config_eq (h : s.Reads box goesOn s' box') : s'.config = s.config := by
  cases h <;> rfl

/-- A reader has ended, or has nothing to do before more octets come. -/
def Resting (s : Session) : Prop :=
  s.reading = .ended ∨ s.reading = .ready ∧ s.decoder.next.1 = .more ∧
    s.stream.incoming = [] ∧ s.stream.ended = false

/-- How much a reader has before it. Octets that are still to be read count twice. -/
def backlog (s : Session) : Nat :=
  2 * s.stream.incoming.length + s.decoder.buffer.length + if s.reading = .ready then 0 else 1

private theorem buffer_lt {payload : List UInt8} {decoder : Frame.Decoder}
    (hn : s.decoder.next = (.payload payload, decoder)) :
    decoder.buffer.length < s.decoder.buffer.length := by
  obtain ⟨frame, he, hbuffer, -⟩ := Frame.Decoder.frame_of_next hn
  have hpos := Frame.encode_length he
  rw [hbuffer, List.length_append]
  omega

/-- A reader that goes on has less before it than it had. -/
theorem Reads.backlog_lt (h : s.Reads box goesOn s' box') (hg : goesOn = true) :
    s'.backlog < s.backlog := by
  cases h with
  | enters hr => simp [backlog, hr]
  | skips hr hn | offers hr hn | sends hr hn =>
    have hlt := buffer_lt hn
    simp only [backlog]
    omega
  | gains hr hn hi =>
    have hpos := List.length_pos_iff.mpr hi
    simp only [backlog, Stream.read, Frame.Decoder.extend, List.length_append, List.length_take,
      List.length_drop]
    omega
  | _ => contradiction

/-- A reader that does not go on rests, or waits for a slot. -/
theorem Reads.rests_or_waits (h : s.Reads box goesOn s' box') (hg : goesOn = false) :
    s'.Resting ∨ ∃ name, s'.reading = .delivering name := by
  cases h with
  | halted hr => exact .inl (.inl hr)
  | waits hr => exact .inr ⟨_, hr⟩
  | begins => exact .inr ⟨_, rfl⟩
  | rests hr hn hi he => exact .inl (.inr ⟨hr, hn, hi, he⟩)
  | refused | shut | above | gone => exact .inl (.inl rfl)
  | _ => contradiction

structure Spares (s s' : Session) : Prop where
  config : s'.config = s.config
  decoder : s'.decoder = s.decoder
  reading : s'.reading = s.reading
  incoming : s'.stream.incoming = s.stream.incoming
  ended : s'.stream.ended = s.stream.ended

end Session

end Lobby
