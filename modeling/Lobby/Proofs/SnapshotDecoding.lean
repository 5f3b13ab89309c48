import Lobby.Player.Service
import Lobby.Proofs.PayloadRoundTrip
import Lobby.Proofs.RoomNotices

/-! Which snapshots that a room gives out can be read: those in which no coordinate has overflowed
to an infinite word. Such words come in with moves that are accepted, and go out as `null`. -/
namespace Lobby
open Number Json Wire LawfulWire

namespace Number.Binary32

def isInfinite (x : Binary32) : Bool := x = infinity x.isNegative

theorem isInfinite_infinity (negative : Bool) : (infinity negative).isInfinite = true := by
  cases negative <;> decide

theorem isFinite_of_isInfinite {x : Binary32} (h : x.isInfinite = true) : x.isFinite = false := by
  rw [of_decide_eq_true h]
  cases x.isNegative <;> decide

theorem isFinite_ofScaled (negative : Bool) {s : Scaled} (hs : s.exponent ≤ 104) :
    (ofScaled negative s).isFinite = true := by
  have hfield (rest : Nat) (hrest : rest < 255 * leadingBit) :
      (UInt32.ofNat ((if negative then signBit else 0) + rest)).toNat / leadingBit % 256 < 255 := by
    simp only [signBit, leadingBit] at hrest ⊢
    rw [UInt32.toNat_ofNat']
    cases negative <;> simp only [if_true, Bool.false_eq_true, if_false] <;> omega
  rw [ofScaled]
  split
  · exact decide_eq_true (hfield s.mantissa (by simp only [leadingBit] at *; omega))
  · exact decide_eq_true (hfield _ (by simp only [leadingBit] at *; omega))

/-- What is rounded to a word is finite, or past the largest one. -/
theorem ofRatio_cases (negative : Bool) (r : Ratio) :
    (ofRatio negative r).isFinite = true ∨ (ofRatio negative r).isInfinite = true := by
  rw [ofRatio]
  cases hr : Format.binary32.round r with
  | none => exact .inr (isInfinite_infinity negative)
  | some s =>
    refine .inl (isFinite_ofScaled negative ?_)
    rw [Format.round] at hr
    split at hr
    · obtain rfl := Option.some.inj hr
      decide
    · obtain ⟨hle, hs⟩ := Option.ite_none_right_eq_some.mp hr
      rw [Option.some.inj hs] at hle
      exact hle

end Number.Binary32

theorem Number.Literal.toBinary32?_cases {l : Literal} {x : Binary32}
    (h : l.toBinary32? = some x) : x.isFinite = true ∨ x.isInfinite = true := by
  have hnarrow (h : l.narrow? = some x) : x.isFinite = true ∨ x.isInfinite = true := by
    obtain ⟨s, -, rfl⟩ := Option.map_eq_some_iff.mp h
    exact Binary32.ofRatio_cases _ _
  rw [toBinary32?] at h
  split at h
  · split at h
    · obtain rfl := Option.some.inj h
      exact Binary32.ofRatio_cases _ _
    · exact hnarrow h
  · exact hnarrow h

/-- A word that is read from JSON, or left out, is finite or infinite. -/
theorem Json.Fields.getD_binary32?_cases {fields : Fields} {name : String} {x : Binary32}
    (h : fields.getD name .zero binary32? = some x) : x.isFinite = true ∨ x.isInfinite = true := by
  rw [getD] at h
  split at h
  · obtain rfl := Option.some.inj h
    exact .inl rfl
  next v _ =>
    cases v with
    | number l => exact l.toBinary32?_cases h
    | _ => contradiction

/-- A position is the default one, or that of a request to move that has been read from some
octets. -/
def Position.Accepted (p : Position) : Prop :=
  p = {} ∨ ∃ octets request, decode? octets = some request ∧ (request : MoveRequest).position = p

theorem Position.words_of_ofJson? {v : Json} {p : Position} (h : ofJson? v = some p) :
    ∀ x ∈ words p, x.isFinite = true ∨ x.isInfinite = true := by
  change (record? ["x", "y", "z"] v).bind _ = some p at h
  simp only [Option.bind_eq_bind, Option.bind_eq_some_iff, Option.pure_def, Option.some.injEq] at h
  obtain ⟨fields, -, x, hx, y, hy, z, hz, rfl⟩ := h
  simp only [words, List.mem_cons, List.not_mem_nil, or_false]
  rintro _ (rfl | rfl | rfl)
  · exact Fields.getD_binary32?_cases hx
  · exact Fields.getD_binary32?_cases hy
  · exact Fields.getD_binary32?_cases hz

/-- No accepted coordinate is other than finite or infinite. -/
theorem Position.Accepted.words_cases {p : Position} (h : p.Accepted) :
    ∀ x ∈ words p, x.isFinite = true ∨ x.isInfinite = true := by
  have hzero : ∀ x ∈ words ({} : Position), x.isFinite = true ∨ x.isInfinite = true := by decide
  rcases h with rfl | ⟨octets, request, hd, rfl⟩
  · exact hzero
  · obtain ⟨v, -, hv⟩ := Option.bind_eq_some_iff.mp hd
    change (record? ["playerId", "position"] v).bind _ = some request at hv
    simp only [Option.bind_eq_bind, Option.bind_eq_some_iff, Option.pure_def,
      Option.some.injEq] at hv
    obtain ⟨fields, -, id, -, position, hp, rfl⟩ := hv
    rw [Fields.getD] at hp
    split at hp
    · obtain rfl := Option.some.inj hp
      exact hzero
    · exact words_of_ofJson? hp

variable {ρ : Type}

def Event.position? (e : Event ρ) : Option Position :=
  match e.body with
  | .join profile _ | .move profile => some profile.position
  | .leave _ | .chat _ => none

def Event.Brings (P : Binary32 → Prop) (e : Event ρ) : Prop :=
  ∀ p ∈ e.position?, ∀ x ∈ words p, P x

def RoomSnapshot.overflows (s : RoomSnapshot) : Bool := (words s).any Binary32.isInfinite

namespace Room
variable {room : Room} {o : Occasion ρ} {P : Binary32 → Prop}

def Records (P : Binary32 → Prop) (room : Room) : Prop :=
  ∀ e ∈ room.members, ∀ x ∈ words e.2.profile.position, P x

theorem Records.snapshot (h : room.Records P) : ∀ x ∈ words room.snapshot, P x := by
  intro x hx
  obtain ⟨info, hi, hx⟩ := List.mem_flatMap.mp hx
  obtain ⟨e, he, rfl⟩ := List.mem_map.mp hi
  exact h e he x hx

theorem Records.insert (h : room.Records P) {player : PlayerId} {m : Member}
    (hm : ∀ x ∈ words m.profile.position, P x) : (room.insert player m).Records P := by
  intro e he
  rcases mem_insertMember he with rfl | he
  · exact hm
  · exact h e he

/-- A room records no coordinates but those that events bring. -/
theorem Records.meet (h : room.Records P) (ho : o.event.Brings P) : (room.meet o).Records P := by
  obtain ⟨⟨player, body⟩, listener, lookup⟩ := o
  cases body with
  | join profile reply =>
    rw [meet_join]
    split
    · exact h.insert (ho profile.position rfl)
    · exact h
  | leave reply =>
    rw [meet_leave]
    exact fun e he => h e (List.mem_filter.mp he).1
  | chat => exact h
  | move profile =>
    rw [meet_move]
    split
    · exact h.insert (ho profile.position rfl)
    · exact h

end Room

/-- As far as words are read from their own texts, what is written of a snapshot without other
words is read just if none of these is infinite. -/
theorem LawfulWire.decode?_encode_of_snapshot {α : Type} [Wire α] [LawfulWire α] {v : α}
    {s : RoomSnapshot} (hv : words v = words s) (hback : ∀ x ∈ words s, x.ReadsBack)
    (hcases : ∀ x ∈ words s, x.isFinite = true ∨ x.isInfinite = true) :
    decode? (encode v) = if s.overflows then none else some v := by
  have hall : (words s).all Binary32.isFinite = !s.overflows := by
    rw [RoomSnapshot.overflows, List.not_any_eq_all_not, Bool.eq_iff_iff, List.all_eq_true,
      List.all_eq_true]
    refine forall₂_congr fun x hx => ?_
    cases hi : x.isInfinite with
    | false => simpa [hi] using hcases x hx
    | true => simp [Binary32.isFinite_of_isInfinite hi]
  rw [decode?_encode (hv ▸ hback), hv, hall]
  cases s.overflows <;> rfl

namespace Room

/-- A room's snapshots can be read, those apart in which a coordinate has overflowed. Let all
positions that joins and moves bring be accepted ones, with words that are read from their own
texts. Then what the room tells its members, and what it answers to joins and leaves, is read as
the snapshot that it was made from if that lists no infinite coordinate, and is not read at all if
it does. It lists none as long as no event has brought one. -/
theorem snapshots_read_unless_overflow (id : RoomId) (name : String) {episodes : List (Episode ρ)}
    {last : Room} (h : (fresh id name).Plays episodes last)
    (haccepted : ∀ e ∈ episodes, ∀ p ∈ e.occasion.event.position?, p.Accepted)
    (hback : ∀ e ∈ episodes, e.occasion.event.Brings Binary32.ReadsBack) :
    (∀ e ∈ episodes,
      (∀ offer ∈ e.offers, decode? offer.2.data =
        if e.after.snapshot.overflows then none
        else some (RoomStateNotification.mk e.after.snapshot)) ∧
      ∀ requester outcome, Effect.answer requester outcome ∈ e.effects →
        ∀ errand ∈ [Errand.join, Errand.leave],
          decode? (Context.errandResponse errand (.ok outcome)).encode =
            if e.after.snapshot.overflows then none
            else some (RoomResponse.mk outcome.ret (some e.after.snapshot))) ∧
    ((∀ e ∈ episodes, e.occasion.event.Brings (·.isInfinite = false)) →
      ∀ e ∈ episodes, e.after.snapshot.overflows = false) := by
  have hrecords {P : Binary32 → Prop} (hP : ∀ e ∈ episodes, e.occasion.event.Brings P) :
      ∀ e ∈ episodes, ∀ x ∈ words e.after.snapshot, P x := by
    obtain ⟨-, heach⟩ := h.each (P := Records P) (Q := fun o => o.event.Brings P)
      (fun _ _ => Records.meet) hP (by simp [Records, fresh])
    intro e he
    obtain ⟨hbefore, heq⟩ := heach e he
    rw [heq]
    exact (hbefore.meet (hP e he)).snapshot
  have hcases := hrecords (P := fun x => x.isFinite = true ∨ x.isInfinite = true)
    fun e he p hp => (haccepted e he p hp).words_cases
  obtain ⟨-, heach⟩ := h.each (P := fun _ => True) (Q := fun _ : Occasion ρ => True)
    (fun _ _ _ _ => trivial) (fun _ _ => trivial) trivial
  refine ⟨fun e he => ⟨?_, ?_⟩, ?_⟩
  · intro offer ho
    have hnotice : offer.2 = e.after.snapshot.notice := by
      rw [(heach e he).2] at ho ⊢
      have hposts := e.before.posts_effects e.occasion
      rw [Episode.offers, episode, hposts] at ho
      split at ho
      · obtain ⟨i, -, rfl⟩ := List.mem_map.mp ho
        rfl
      · contradiction
    rw [hnotice]
    exact decode?_encode_of_snapshot rfl (hrecords hback e he) (hcases e he)
  · intro requester outcome ha errand herrand
    have hroom : outcome.room = e.after.snapshot := by
      rw [(heach e he).2] at ha ⊢
      exact (answer_of_mem_effects _ _ ha).2
    have hresponse : (Context.errandResponse errand (.ok outcome)).encode =
        encode (RoomResponse.mk outcome.ret (some e.after.snapshot)) := by
      rw [← hroom]
      simp only [List.mem_cons, List.not_mem_nil, or_false] at herrand
      rcases herrand with rfl | rfl <;> rfl
    rw [hresponse]
    exact decode?_encode_of_snapshot (List.append_nil _) (hrecords hback e he) (hcases e he)
  · intro hfinite e he
    rw [RoomSnapshot.overflows, List.any_eq_false]
    intro x hx
    rw [hrecords hfinite e he x hx]
    decide

def farRequest : List UInt8 :=
  Text.Utf8.encode "\x7b\"position\":\x7b\"x\":1e39\x7d\x7d"

def farPosition : Position := { x := Binary32.infinity false }

theorem decode?_farRequest :
    decode? farRequest = some ({ position := farPosition } : MoveRequest) := by decide +kernel

def excursion : List (Scene Unit) :=
  let boxes : Outboxes := #[.ofCapacity "a" 1, .ofCapacity "b" 1]
  let events : List (Event Unit) :=
    [⟨⟨"a"⟩, .join {} (some ())⟩, ⟨⟨"b"⟩, .join {} none⟩,
      ⟨⟨"b"⟩, .move { position := farPosition }⟩]
  events.map fun e => ⟨⟨e, fun _ => .waiting, visitLookup⟩, boxes⟩

private theorem position_of_excursion {room : Room} {e : Episode Unit}
    (he : e ∈ room.play excursion) {p : Position} (hp : p ∈ e.occasion.event.position?) :
    p = {} ∨ p = farPosition := by
  have hscene : e.toScene ∈ excursion := by
    rw [← room.map_play excursion]
    exact List.mem_map_of_mem he
  obtain ⟨event, hevent, hs⟩ := List.mem_map.mp hscene
  rw [← hs] at hp
  simp only [List.mem_cons, List.not_mem_nil, or_false] at hevent
  rcases hevent with rfl | rfl | rfl
  · exact .inl (Option.some.inj hp).symm
  · exact .inl (Option.some.inj hp).symm
  · exact .inr (Option.some.inj hp).symm

theorem excursion_read_unless_overflow :
    (∀ e ∈ (fresh ⟨1⟩ "hall").play excursion, ∀ offer ∈ e.offers, decode? offer.2.data =
      if e.after.snapshot.overflows then none
      else some (RoomStateNotification.mk e.after.snapshot)) ∧
    ((fresh ⟨1⟩ "hall").play excursion).map (·.offers.length) = [0, 1, 1] ∧
    ((fresh ⟨1⟩ "hall").play excursion).map (·.after.snapshot.overflows) =
      [false, false, true] := by
  have haccepted : ∀ e ∈ (fresh ⟨1⟩ "hall").play excursion,
      ∀ p ∈ e.occasion.event.position?, p.Accepted := by
    intro e he p hp
    rcases position_of_excursion he hp with rfl | rfl
    · exact .inl rfl
    · exact .inr ⟨farRequest, _, decode?_farRequest, rfl⟩
  have hback : ∀ e ∈ (fresh ⟨1⟩ "hall").play excursion,
      e.occasion.event.Brings Binary32.ReadsBack := by
    intro e he p hp
    rcases position_of_excursion he hp with rfl | rfl <;> decide +kernel
  obtain ⟨hread, -⟩ := snapshots_read_unless_overflow ⟨1⟩ "hall"
    ((fresh ⟨1⟩ "hall").plays_play excursion) haccepted hback
  exact ⟨fun e he => (hread e he).1, by decide +kernel, by decide +kernel⟩

/-- Not every accepted move leaves the room with a notice that can be read. -/
theorem far_move_not_read : ∃ request, decode? farRequest = some (request : MoveRequest) ∧
    ∃ episodes last, (fresh ⟨1⟩ "hall").Plays (ρ := Unit) episodes last ∧
      (∀ e ∈ episodes, ∀ p ∈ e.occasion.event.position?, p = {} ∨ p = request.position) ∧
      ∃ e ∈ episodes, ∃ offer ∈ e.offers,
        decode? (α := RoomStateNotification) offer.2.data = none := by
  refine ⟨_, decode?_farRequest, _, _, (fresh ⟨1⟩ "hall").plays_play excursion,
    fun e he p hp => position_of_excursion he hp, ?_⟩
  decide +kernel

end Room

end Lobby
