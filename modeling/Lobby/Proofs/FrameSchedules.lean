import Mathlib.Data.List.Forall2
import Mathlib.Data.List.Induction
import Lobby.Frame

/-! A decoder that is fed and asked in any order takes apart the stream of all octets fed: what it
has returned goes in front of what it holds, and nothing depends on how the octets came. -/
namespace Lobby.Frame
open Decoder (Next)

inductive Call where
  | extend (octets : List UInt8)
  | next
  deriving DecidableEq, Repr

def fed (calls : List Call) : List UInt8 :=
  calls.flatMap fun
    | .extend octets => octets
    | .next => []

structure Usage where
  decoder : Decoder
  answers : List Next := []

namespace Usage

def call (u : Usage) : Call → Usage
  | .extend octets => { u with decoder := u.decoder.extend octets }
  | .next => { decoder := u.decoder.next.2, answers := u.answers ++ [u.decoder.next.1] }

def payloads (u : Usage) : List (List UInt8) :=
  u.answers.filterMap fun
    | .payload octets => some octets
    | _ => none

end Usage

def use (limit : Nat) (calls : List Call) : Usage :=
  calls.foldl Usage.call { decoder := { limit } }

/-- Frames of some payloads, one by one and within the limit. -/
def Framed (limit : Nat) : List (List UInt8) → List (List UInt8) → Prop :=
  List.Forall₂ fun payload frame => encode limit payload = .ok frame

def BeginsFrame (limit : Nat) (octets : List UInt8) : Prop :=
  ∃ payload frame, encode limit payload = .ok frame ∧ frame <+: octets

def BeginsAbove (limit length : Nat) (octets : List UInt8) : Prop :=
  limit < length ∧ length < 4294967296 ∧ lengthOctets length <+: octets

/-- The reference parse of a stream: frames within the limit for as long as one is complete, and
the rest. -/
inductive Parse (limit : Nat) : List UInt8 → List (List UInt8) → List UInt8 → Prop where
  | rest {octets : List UInt8} (h : ¬ BeginsFrame limit octets) : Parse limit octets [] octets
  | frame {payload frame octets rest : List UInt8} {payloads : List (List UInt8)}
      (he : encode limit payload = .ok frame) (h : Parse limit octets payloads rest) :
      Parse limit (frame ++ octets) (payload :: payloads) rest

def Drained (d : Decoder) : Prop := ∀ payload, d.next.1 ≠ .payload payload

private theorem next_of_answer {d : Decoder} {answer : Next} (h : d.next.1 = answer) :
    d.next = (answer, d.next.2) :=
  Prod.ext h rfl

theorem next_payload_iff (d : Decoder) :
    (∃ payload, d.next.1 = .payload payload) ↔ BeginsFrame d.limit d.buffer := by
  constructor
  · rintro ⟨payload, h⟩
    obtain ⟨frame, he, hb, _⟩ := Decoder.frame_of_next (next_of_answer h)
    exact ⟨payload, frame, he, _, hb.symm⟩
  · rintro ⟨payload, frame, he, rest, hb⟩
    obtain ⟨limit, buffer⟩ := d
    subst hb
    exact ⟨payload, by rw [Decoder.next_frame he]⟩

theorem drained_iff (d : Decoder) : Drained d ↔ ¬ BeginsFrame d.limit d.buffer := by
  rw [← next_payload_iff, not_exists]
  rfl

theorem next_tooLarge_iff (d : Decoder) (length : Nat) :
    d.next.1 = .tooLarge length ↔ BeginsAbove d.limit length d.buffer := by
  obtain ⟨limit, buffer⟩ := d
  constructor
  · intro h
    match buffer with
    | [] | [_] | [_, _] | [_, _, _] => simp [Decoder.next] at h
    | a :: b :: c :: e :: rest =>
      simp only [Decoder.next] at h
      split at h
      · rename_i hl
        obtain rfl := Next.tooLarge.inj h
        exact ⟨hl, readLength_lt a b c e, rest, by rw [lengthOctets_readLength]; rfl⟩
      · split at h <;> contradiction
  · rintro ⟨hl, hlt, rest, rfl⟩
    simp only [Decoder.next, lengthOctets, List.cons_append, List.nil_append,
      readLength_lengthOctets hlt, if_pos hl]

theorem next_more_iff (d : Decoder) :
    d.next.1 = .more ↔
      ¬ BeginsFrame d.limit d.buffer ∧ ∀ length, ¬ BeginsAbove d.limit length d.buffer := by
  rw [← next_payload_iff]
  simp only [← next_tooLarge_iff]
  cases d.next.1 <;> simp

theorem use_concat (limit : Nat) (calls : List Call) (c : Call) :
    use limit (calls ++ [c]) = (use limit calls).call c := by
  simp [use]

theorem fed_append (calls later : List Call) : fed (calls ++ later) = fed calls ++ fed later := by
  simp [fed]

private theorem next_limit (d : Decoder) : d.next.2.limit = d.limit := by
  cases hn : d.next.1 with
  | payload octets =>
    obtain ⟨_, _, _, hl⟩ := Decoder.frame_of_next (next_of_answer hn)
    exact hl
  | more | tooLarge => rw [Decoder.next_unchanged (next_of_answer hn) (by simp)]

theorem use_limit (limit : Nat) (calls : List Call) : (use limit calls).decoder.limit = limit := by
  induction calls using List.reverseRecOn with
  | nil => rfl
  | append_singleton calls c ih =>
    rw [use_concat]
    cases c with
    | extend octets => exact ih
    | next => exact (next_limit _).trans ih

/-- What was returned, framed again, and what is held make up what was fed. -/
theorem use_conserves (limit : Nat) (calls : List Call) :
    ∃ frames, Framed limit (use limit calls).payloads frames ∧
      frames.flatten ++ (use limit calls).decoder.buffer = fed calls := by
  induction calls using List.reverseRecOn with
  | nil => exact ⟨[], .nil, rfl⟩
  | append_singleton calls c ih =>
    obtain ⟨frames, hf, hb⟩ := ih
    have hlimit := use_limit limit calls
    rw [use_concat, fed_append, ← hb]
    generalize use limit calls = u at hf hlimit ⊢
    cases c with
    | extend octets =>
      exact ⟨frames, hf, by simp [Usage.call, Decoder.extend, fed, List.append_assoc]⟩
    | next =>
      cases hn : u.decoder.next.1 with
      | payload octets =>
        obtain ⟨frame, he, hd, _⟩ :=
          Decoder.frame_of_next (next_of_answer hn)
        rw [hlimit] at he
        refine ⟨frames ++ [frame], ?_, ?_⟩
        · have hf' := List.rel_append hf (.cons he .nil)
          simpa [Framed, Usage.call, Usage.payloads, hn] using hf'
        · simp [Usage.call, hd, fed]
      | more | tooLarge =>
        have hd := Decoder.next_unchanged (next_of_answer hn) (by simp)
        exact ⟨frames, by simpa [Usage.call, Usage.payloads, hn] using hf,
          by simp [Usage.call, hd, fed]⟩

theorem encode_length {limit : Nat} {payload frame : List UInt8}
    (h : encode limit payload = .ok frame) : 0 < frame.length := by
  rw [encode] at h
  split at h
  · contradiction
  · obtain rfl := Except.ok.inj h
    simp [lengthOctets]

/-- Every stream has a parse. -/
theorem exists_parse (limit : Nat) (octets : List UInt8) :
    ∃ payloads rest, Parse limit octets payloads rest := by
  induction hn : octets.length using Nat.strongRecOn generalizing octets with
  | ind n ih =>
    by_cases h : BeginsFrame limit octets
    · obtain ⟨payload, frame, he, rest, rfl⟩ := h
      have hlt : rest.length < n := by
        have := encode_length he
        rw [← hn, List.length_append]
        omega
      obtain ⟨payloads, rest', hp⟩ := ih rest.length hlt rest rfl
      exact ⟨payload :: payloads, rest', .frame he hp⟩
    · exact ⟨[], octets, .rest h⟩

/-- A stream has no other parse. -/
theorem Parse.unique {limit : Nat} {octets rest rest' : List UInt8}
    {payloads payloads' : List (List UInt8)} (h : Parse limit octets payloads rest)
    (h' : Parse limit octets payloads' rest') : payloads' = payloads ∧ rest' = rest := by
  induction h generalizing payloads' with
  | rest hr =>
    cases h' with
    | rest => exact ⟨rfl, rfl⟩
    | frame he _ => exact absurd ⟨_, _, he, List.prefix_append ..⟩ hr
  | @frame payload frame octets rest payloads he _ ih =>
    generalize ho : frame ++ octets = stream at h'
    cases h' with
    | rest hr => exact absurd ⟨_, _, he, octets, ho⟩ hr
    | @frame payload' frame' octets' _ payloads' he' h' =>
      have hn := Decoder.next_frame he octets
      rw [ho, Decoder.next_frame he' octets', Prod.mk.injEq] at hn
      obtain rfl := Next.payload.inj hn.1
      obtain rfl := (Decoder.mk.inj hn.2).2
      obtain ⟨rfl, rfl⟩ := ih h'
      exact ⟨rfl, rfl⟩

/-- The parse of a stream goes on with the parse of what its first frames leave. -/
theorem Parse.after {limit : Nat} {octets rest : List UInt8}
    {taken frames payloads : List (List UInt8)} (hf : Framed limit taken frames)
    (h : Parse limit octets payloads rest) :
    Parse limit (frames.flatten ++ octets) (taken ++ payloads) rest := by
  induction hf with
  | nil => exact h
  | cons he _ ih =>
    rw [List.flatten_cons, List.append_assoc]
    exact .frame he ih

private theorem drainWith_parse {limit : Nat} {buffer rest : List UInt8}
    {payloads : List (List UInt8)} (h : Parse limit buffer payloads rest) (fuel : Nat)
    (taken : List (List UInt8)) (hfuel : payloads.length < fuel) :
    (Decoder.drainWith fuel ⟨limit, buffer⟩ taken).1 = taken.reverse ++ payloads ∧
      (Decoder.drainWith fuel ⟨limit, buffer⟩ taken).2.2 = ⟨limit, rest⟩ := by
  induction h generalizing fuel taken with
  | @rest octets hr =>
    have hd := (drained_iff ⟨limit, octets⟩).mpr hr
    obtain ⟨fuel, rfl⟩ := Nat.exists_eq_add_of_lt hfuel
    rw [Decoder.drainWith]
    split
    · rename_i payload _ hn
      exact absurd (congrArg Prod.fst hn) (hd payload)
    · rename_i stop d _ hn
      have hd' := Decoder.next_unchanged hn fun payload hp => hd payload (by rw [hn, hp])
      simp [hd']
  | frame he _ ih =>
    match fuel with
    | fuel + 1 =>
      rw [Decoder.drainWith, Decoder.next_frame he]
      obtain ⟨hp, hd⟩ := ih fuel (_ :: taken) (by simpa using hfuel)
      exact ⟨by simp [hp], hd⟩

private theorem Parse.length_le {limit : Nat} {octets rest : List UInt8}
    {payloads : List (List UInt8)} (h : Parse limit octets payloads rest) :
    prefixLength * payloads.length ≤ octets.length := by
  induction h with
  | rest => simp
  | @frame payload frame octets rest payloads he _ ih =>
    rw [encode] at he
    split at he
    · contradiction
    · obtain rfl := Except.ok.inj he
      simp only [List.length_append, List.length_cons, lengthOctets, prefixLength,
        List.length_nil] at ih ⊢
      omega

/-- Draining a decoder takes all payloads of what it holds, and leaves the rest. -/
theorem drain_parse (d : Decoder) : Parse d.limit d.buffer d.drain.1 d.drain.2.2.buffer := by
  obtain ⟨payloads, rest, h⟩ := exists_parse d.limit d.buffer
  have hfuel := h.length_le
  rw [prefixLength] at hfuel
  obtain ⟨hp, hd⟩ := drainWith_parse h (d.buffer.length / prefixLength + 1) []
    (by rw [prefixLength]; omega)
  rw [Decoder.drain, hp, hd]
  exact h

/-- A length above the limit stays at the front and answers every later question. -/
theorem use_above {limit length : Nat} {calls : List Call}
    (h : (use limit calls).decoder.next.1 = .tooLarge length) (later : List Call) :
    (use limit (calls ++ later)).answers =
        (use limit calls).answers ++ List.replicate (later.count .next) (.tooLarge length) ∧
      (use limit (calls ++ later)).decoder.buffer =
        (use limit calls).decoder.buffer ++ fed later := by
  induction later using List.reverseRecOn with
  | nil => simp [fed]
  | append_singleton later c ih =>
    obtain ⟨ha, hb⟩ := ih
    rw [← List.append_assoc, use_concat, fed_append]
    cases c with
    | extend octets => simp [Usage.call, Decoder.extend, ha, hb, fed, List.count_append]
    | next =>
      have hn : (use limit (calls ++ later)).decoder.next.1 = .tooLarge length := by
        obtain ⟨hl, hlt, hp⟩ := (next_tooLarge_iff _ _).mp h
        rw [use_limit] at hl
        rw [next_tooLarge_iff, use_limit, hb]
        exact ⟨hl, hlt, hp.trans (List.prefix_append _ _)⟩
      have hd := Decoder.next_unchanged (Prod.ext hn rfl) (by simp)
      refine ⟨?_, by simp [Usage.call, hd, hb, fed]⟩
      simp only [Usage.call, hn, ha, List.append_assoc, List.count_append,
        List.count_singleton_self]
      rw [List.replicate_succ']

/-- However octets and questions alternate, a decoder takes the stream apart as the reference
parse does: nothing is lost or reordered, drained decoders agree, and each refusal says what
stands at the front of the buffer. A length above the limit is refused for good. -/
theorem use_refines_parse (limit : Nat) (calls : List Call) :
    (use limit calls).decoder.limit = limit ∧
    (∃ frames, Framed limit (use limit calls).payloads frames ∧
      frames.flatten ++ (use limit calls).decoder.buffer = fed calls) ∧
    (∃ payloads rest, Parse limit (fed calls) payloads rest ∧
      (use limit calls).payloads <+: payloads ∧
      (use limit calls).payloads ++ (use limit calls).decoder.drain.1 = payloads ∧
      (use limit calls).decoder.drain.2.2.buffer = rest) ∧
    (∀ other, fed other = fed calls → Drained (use limit calls).decoder →
      Drained (use limit other).decoder →
      (use limit other).payloads = (use limit calls).payloads ∧
        (use limit other).decoder.buffer = (use limit calls).decoder.buffer) ∧
    ((use limit calls).decoder.next.1 = .more ↔
      ¬ BeginsFrame limit (use limit calls).decoder.buffer ∧
        ∀ length, ¬ BeginsAbove limit length (use limit calls).decoder.buffer) ∧
    (∀ length, (use limit calls).decoder.next.1 = .tooLarge length ↔
      BeginsAbove limit length (use limit calls).decoder.buffer) ∧
    (∀ length, (use limit calls).decoder.next.1 = .tooLarge length →
      (use limit calls).decoder.next.2 = (use limit calls).decoder ∧
      ∀ later, (use limit (calls ++ later)).answers =
          (use limit calls).answers ++ List.replicate (later.count .next) (.tooLarge length) ∧
        (use limit (calls ++ later)).decoder.buffer =
          (use limit calls).decoder.buffer ++ fed later) := by
  have hlimit := use_limit limit calls
  have hparse (other : List Call) {payloads : List (List UInt8)} {rest : List UInt8}
      (h : Parse limit (use limit other).decoder.buffer payloads rest) :
      Parse limit (fed other) ((use limit other).payloads ++ payloads) rest := by
    obtain ⟨frames, hf, hb⟩ := use_conserves limit other
    rw [← hb]
    exact h.after hf
  refine ⟨hlimit, use_conserves limit calls, ?_, ?_, ?_, ?_, ?_⟩
  · have h := drain_parse (use limit calls).decoder
    rw [hlimit] at h
    exact ⟨_, _, hparse calls h, List.prefix_append _ _, rfl, rfl⟩
  · intro other hfed hd hd'
    have stays (calls : List Call) (hd : Drained (use limit calls).decoder) :
        Parse limit (use limit calls).decoder.buffer [] (use limit calls).decoder.buffer := by
      rw [drained_iff, use_limit] at hd
      exact .rest hd
    have h := hparse calls (stays calls hd)
    have h' := hparse other (stays other hd')
    rw [hfed] at h'
    simpa using h.unique h'
  · rw [next_more_iff, hlimit]
  · intro length
    rw [next_tooLarge_iff, hlimit]
  · intro length h
    exact ⟨Decoder.next_unchanged (Prod.ext h rfl) (by simp), use_above h⟩

end Lobby.Frame
