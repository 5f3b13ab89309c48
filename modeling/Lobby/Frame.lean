import Lobby.Fault

/-! Frames: each payload goes behind its length, as four octets with the lowest first. -/
namespace Lobby.Frame

def prefixLength : Nat := 4

def defaultLimit : Nat := 1024 * 1024

def lengthOctets (n : Nat) : List UInt8 :=
  [UInt8.ofNat n, UInt8.ofNat (n / 256), UInt8.ofNat (n / 65536), UInt8.ofNat (n / 16777216)]

def readLength (a b c d : UInt8) : Nat :=
  a.toNat + 256 * b.toNat + 65536 * c.toNat + 16777216 * d.toNat

/-- The frame of a payload, unless that is longer than a limit or than four octets can say. -/
def encode (limit : Nat) (payload : List UInt8) : Except ProtocolFault (List UInt8) :=
  if limit < payload.length ∨ 4294967296 ≤ payload.length then
    .error (.frameTooLarge payload.length limit)
  else .ok (lengthOctets payload.length ++ payload)

theorem readLength_lt (a b c d : UInt8) : readLength a b c d < 4294967296 := by
  have ha := a.toNat_lt
  have hb := b.toNat_lt
  have hc := c.toNat_lt
  have hd := d.toNat_lt
  simp only [readLength]
  omega

theorem readLength_lengthOctets {n : Nat} (h : n < 4294967296) :
    readLength (UInt8.ofNat n) (UInt8.ofNat (n / 256)) (UInt8.ofNat (n / 65536))
      (UInt8.ofNat (n / 16777216)) = n := by
  simp only [readLength, UInt8.toNat_ofNat']
  omega

theorem lengthOctets_readLength (a b c d : UInt8) :
    lengthOctets (readLength a b c d) = [a, b, c, d] := by
  have ha := a.toNat_lt
  have hb := b.toNat_lt
  have hc := c.toNat_lt
  have hd := d.toNat_lt
  simp only [lengthOctets, readLength, List.cons.injEq, ← UInt8.toNat_inj, UInt8.toNat_ofNat',
    and_true]
  refine ⟨?_, ?_, ?_, ?_⟩ <;> omega

/-- What has arrived of a stream of frames and has not been taken yet. -/
structure Decoder where
  limit : Nat := defaultLimit
  buffer : List UInt8 := []
  deriving DecidableEq, Repr

namespace Decoder

def extend (d : Decoder) (octets : List UInt8) : Decoder :=
  { d with buffer := d.buffer ++ octets }

inductive Next where
  | payload (octets : List UInt8)
  | more
  | tooLarge (length : Nat)
  deriving DecidableEq, Repr

/-- Takes the payload at the front, if it is complete. A length above the limit stays there. -/
def next (d : Decoder) : Next × Decoder :=
  match d.buffer with
  | a :: b :: c :: e :: rest =>
    let length := readLength a b c e
    if d.limit < length then (.tooLarge length, d)
    else if rest.length < length then (.more, d)
    else (.payload (rest.take length), { d with buffer := rest.drop length })
  | _ => (.more, d)

/-- A frame within the limit comes out as its payload. -/
theorem next_frame {limit : Nat} {payload frame : List UInt8}
    (h : encode limit payload = .ok frame) (rest : List UInt8) :
    next ⟨limit, frame ++ rest⟩ = (.payload payload, ⟨limit, rest⟩) := by
  rw [encode] at h
  split at h
  · contradiction
  · obtain rfl := Except.ok.inj h
    have hl := readLength_lengthOctets (n := payload.length) (by omega)
    simp only [next, lengthOctets, List.cons_append, List.nil_append, hl]
    rw [if_neg (by omega), if_neg (by simp)]
    simp

/-- A payload that comes out was framed at the front. -/
theorem frame_of_next {d d' : Decoder} {payload : List UInt8}
    (h : d.next = (.payload payload, d')) :
    ∃ frame, encode d.limit payload = .ok frame ∧ d.buffer = frame ++ d'.buffer ∧
      d'.limit = d.limit := by
  obtain ⟨limit, buffer⟩ := d
  match buffer with
  | [] | [_] | [_, _] | [_, _, _] => simp [next] at h
  | a :: b :: c :: e :: rest =>
    simp only [next] at h
    split at h
    · simp at h
    split at h
    · simp at h
    obtain ⟨hp, rfl⟩ := Prod.mk.inj h
    obtain rfl := Next.payload.inj hp
    have hlt := readLength_lt a b c e
    have hlen : (rest.take (readLength a b c e)).length = readLength a b c e := by
      rw [List.length_take]; omega
    refine ⟨lengthOctets (readLength a b c e) ++ rest.take (readLength a b c e), ?_, ?_, rfl⟩
    · rw [encode, hlen, if_neg (by simp only; omega)]
    · rw [lengthOctets_readLength]
      simp [List.take_append_drop]

/-- A decoder that gives no payload stays as it was. -/
theorem next_unchanged {d d' : Decoder} {answer : Next} (h : d.next = (answer, d'))
    (ha : ∀ payload, answer ≠ .payload payload) : d' = d := by
  obtain ⟨limit, buffer⟩ := d
  match buffer with
  | [] | [_] | [_, _] | [_, _, _] => simp [next] at h; exact h.2.symm
  | a :: b :: c :: e :: rest =>
    simp only [next] at h
    split at h
    · exact (Prod.mk.inj h).2.symm
    split at h
    · exact (Prod.mk.inj h).2.symm
    · exact absurd (Prod.mk.inj h).1.symm (ha _)

def drainWith : Nat → Decoder → List (List UInt8) → List (List UInt8) × Next × Decoder
  | 0, d, taken => (taken.reverse, .more, d)
  | fuel + 1, d, taken =>
    match d.next with
    | (.payload p, d) => drainWith fuel d (p :: taken)
    | (stop, d) => (taken.reverse, stop, d)

def drain (d : Decoder) : List (List UInt8) × Next × Decoder :=
  drainWith (d.buffer.length / prefixLength + 1) d []

/-- Appends octets one at a time and takes what is complete after each. Every payload comes with
the place of the octet that completed it; a length above the limit only ends the taking. -/
def trickle (d : Decoder) (octets : List UInt8) : List (Nat × List UInt8) × Decoder :=
  let (taken, d, _) := octets.foldl
    (fun (taken, d, i) b =>
      let (payloads, _, d) := (d.extend [b]).drain
      ((payloads.map (i, ·)).reverse ++ taken, d, i + 1))
    ([], d, 0)
  (taken.reverse, d)

end Decoder

end Lobby.Frame
