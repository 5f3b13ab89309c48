import Lobby.Message.Payload
import Lobby.Proofs.DecimalSpelling

/-! Every payload is read as it was written, if the words in it are finite and each is read from
its own text; with a word that is not finite it is not read at all. -/
namespace Lobby
open Number

/-- The text of a word, where it has one, is read as that word. -/
def Number.Binary32.ReadsBack (x : Binary32) : Prop :=
  ∀ l ∈ x.toLiteral?, l.toBinary32? = some x

instance : DecidablePred Binary32.ReadsBack := fun x =>
  inferInstanceAs (Decidable (∀ l ∈ x.toLiteral?, l.toBinary32? = some x))

theorem Number.Binary32.isSome_toLiteral? (x : Binary32) :
    x.toLiteral?.isSome = x.isFinite := by
  rw [toLiteral?]
  dsimp only
  cases x.isFinite with
  | false => rfl
  | true =>
    rw [if_pos rfl]
    split <;> rfl

namespace Json

/-- A reading of what was written for a value with some words in it. It gives the value back just
if they are all finite, as far as each is read from its own text. -/
def Reads {α : Type} (read : Option α) (words : List Binary32) (v : α) : Prop :=
  (∀ x ∈ words, x.ReadsBack) → read = if words.all Binary32.isFinite then some v else none

namespace Reads
variable {α β : Type} {read : Option α} {words more : List Binary32} {v : α} {w : β}

theorem of_eq (h : read = some v) : Reads read [] v := fun _ => h

theorem bind {next : α → Option β} (h : Reads read words v) (hn : Reads (next v) more w) :
    Reads (read.bind next) (words ++ more) w := by
  intro hback
  have hv := h fun x hx => hback x (List.mem_append_left _ hx)
  have hw := hn fun x hx => hback x (List.mem_append_right _ hx)
  rw [hv, List.all_append]
  cases words.all Binary32.isFinite with
  | false => rfl
  | true => exact hw

theorem map {f : α → β} (h : Reads read words v) : Reads (read.map f) words (f v) := by
  intro hback
  rw [h hback]
  split <;> rfl

theorem build {f : α → β} (h : Reads read words v) :
    Reads (read.bind fun v => some (f v)) words (f v) := by
  show Reads (read.bind (some ∘ f)) words (f v)
  rw [← Option.map_eq_bind]
  exact h.map

theorem field {fields : Fields} {name : String} {value : Json} {default : α}
    {f : Json → Option α} (hf : fields name = some value) (h : Reads (f value) words v) :
    Reads (fields.getD name default f) words v := by
  rw [Fields.getD, hf]
  exact h

/-- A record is read field by field. -/
theorem record {names : List String} {members : List (String × Json)} {build : Fields → Option α}
    (hm : members.map (·.1) = names) (hn : names.Nodup)
    (h : Reads (build fun name => members.lookup name) words v) :
    Reads ((record? names (ofMembers members)).bind build) words v := by
  rw [record?_ofMembers hm hn]
  exact h

theorem binary32 (x : Binary32) : Reads (binary32? (ofBinary32 x)) [x] x := by
  intro hback
  have hfinite := x.isSome_toLiteral?
  rw [List.all_cons, List.all_nil, Bool.and_true, ← hfinite, ofBinary32]
  cases hl : x.toLiteral? with
  | none => rfl
  | some l => exact hback x List.mem_cons_self l hl

theorem text (s : String) : Reads (text? (ofText s)) [] s := of_eq (text?_ofText s)

theorem list {parse : Json → Option α} {write : α → Json} {inside : α → List Binary32}
    (h : ∀ v, Reads (parse (write v)) (inside v) v) (vs : List α) :
    Reads (list? parse (ofList write vs)) (vs.flatMap inside) vs := by
  have hcons (v : α) (vs : List α) : list? parse (ofList write (v :: vs)) =
      (parse (write v)).bind fun v => (list? parse (ofList write vs)).map (v :: ·) := by
    simp only [list?, ofList, List.map_cons, List.mapM_cons, Option.bind_eq_bind, Option.pure_def,
      Option.map_eq_bind]
    rfl
  induction vs with
  | nil => exact of_eq rfl
  | cons v vs ih =>
    rw [hcons, List.flatMap_cons]
    exact (h v).bind ih.map

theorem optional {parse : Json → Option α} {write : α → Json} {inside : α → List Binary32}
    (h : ∀ v, Reads (parse (write v)) (inside v) v) (hnull : ∀ v, write v ≠ .null)
    (o : Option α) :
    Reads (optional? parse (ofOptional write o)) (o.toList.flatMap inside) o := by
  cases o with
  | none => exact of_eq rfl
  | some v =>
    have hsome : optional? parse (write v) = (parse (write v)).map some := by
      rw [optional?]
      exact hnull v
    rw [ofOptional, hsome, Option.toList_some, List.flatMap_singleton]
    exact (h v).map

end Reads

theorem isWritten_ofOptional {α : Type} {write : α → Json} (h : ∀ v, (write v).IsWritten)
    (o : Option α) : (ofOptional write o).IsWritten := by
  cases o with
  | none =>
    intro t ht
    rw [List.mem_singleton.mp (show t ∈ [Token.null] from ht)]
    trivial
  | some v => exact h v

theorem uint64?_ofNat (n : UInt64) : uint64? (ofNat n.toNat) = some n := by
  have hn := n.toNat_lt
  rw [uint64?, ofNat_eq, intIn?_ofInt (by omega) (by omega)]
  simp

end Json

open Json Wire

/-- A type whose values are written as text that can be read, with the words that they hold. -/
class LawfulWire (α : Type) [Wire α] where
  words : α → List Binary32
  isWritten (v : α) : (toJson v).IsWritten
  reads (v : α) : Reads (ofJson? (toJson v)) (words v) v

namespace LawfulWire

/-- What was written for a value is read as that value if its words are finite, and not read
otherwise. -/
theorem decode?_encode {α : Type} [Wire α] [LawfulWire α] {v : α}
    (h : ∀ x ∈ words v, x.ReadsBack) :
    decode? (encode v) = if (words v).all Binary32.isFinite then some v else none := by
  rw [decode?, encode, parse?_render (isWritten v)]
  exact reads v h

theorem decode?_encode_of_finite {α : Type} [Wire α] [LawfulWire α] {v : α}
    (h : ∀ x ∈ words v, x.isFinite = true ∧ x.ReadsBack) : decode? (encode v) = some v := by
  rw [decode?_encode fun x hx => (h x hx).2, if_pos]
  exact List.all_eq_true.mpr fun x hx => (h x hx).1

end LawfulWire

section
open LawfulWire

theorem isWritten_members {members : List (String × Json)} (h : members.Forall (·.2.IsWritten)) :
    (ofMembers members).IsWritten :=
  isWritten_ofMembers (List.forall_iff_forall_mem.mp h)

instance : LawfulWire ResultCode where
  words _ := []
  isWritten c := isWritten_ofNat c.number
  reads c := by
    have hc : int32? (Json.ofNat c.number) = some (c.number : Int) := by
      rw [int32?, ofNat_eq]
      apply intIn?_ofInt <;> cases c <;> decide
    apply Reads.of_eq
    show (int32? (Json.ofNat c.number)).bind ResultCode.ofInt? = some c
    rw [hc]
    exact ResultCode.ofInt?_number c

instance : LawfulWire PlayerId where
  words _ := []
  isWritten id := isWritten_ofText id.text
  reads id := (Reads.text id.text).map

instance : LawfulWire RoomId where
  words _ := []
  isWritten id := isWritten_ofNat id.number.toNat
  reads id := (Reads.of_eq (uint64?_ofNat id.number)).map

instance : LawfulWire Position where
  words p := [p.x, p.y, p.z]
  isWritten p :=
    isWritten_members ⟨isWritten_ofBinary32 p.x, isWritten_ofBinary32 p.y, isWritten_ofBinary32 p.z⟩
  reads p := by
    apply Reads.record (by rfl) (by decide)
    apply (Reads.field rfl (.binary32 p.x)).bind
    apply (Reads.field rfl (.binary32 p.y)).bind
    exact (Reads.field rfl (.binary32 p.z)).build

instance : LawfulWire PlayerInfo where
  words p := words p.position
  isWritten p := isWritten_members ⟨isWritten p.id, isWritten_ofText p.name, isWritten p.position⟩
  reads p := by
    apply Reads.record (by rfl) (by decide)
    apply (Reads.field rfl (reads p.id)).bind
    apply (Reads.field rfl (.text p.name)).bind
    exact (Reads.field rfl (reads p.position)).build

instance : LawfulWire RoomSnapshot where
  words r := r.players.flatMap words
  isWritten r := isWritten_members
    ⟨isWritten r.id, isWritten_ofText r.name, isWritten_ofList fun p _ => isWritten p⟩
  reads r := by
    apply Reads.record (by rfl) (by decide)
    apply (Reads.field rfl (reads r.id)).bind
    apply (Reads.field rfl (.text r.name)).bind
    exact (Reads.field rfl (.list reads r.players)).build

instance : LawfulWire LoginRequest where
  words _ := []
  isWritten p := isWritten_members (isWritten_ofText p.playerName)
  reads p := by
    apply Reads.record (by rfl) (by decide)
    exact (Reads.field rfl (.text p.playerName)).build

instance : LawfulWire LoginResponse where
  words _ := []
  isWritten p := isWritten_members (isWritten p.playerId)
  reads p := by
    apply Reads.record (by rfl) (by decide)
    exact (Reads.field rfl (reads p.playerId)).build

instance : LawfulWire GetRoomListRequest where
  words _ := []
  isWritten _ := isWritten_members trivial
  reads _ := Reads.record rfl (by decide) (.of_eq rfl)

instance : LawfulWire GetRoomListResponse where
  words p := p.rooms.flatMap words
  isWritten p := isWritten_members ⟨isWritten p.ret, isWritten_ofList fun r _ => isWritten r⟩
  reads p := by
    apply Reads.record (by rfl) (by decide)
    apply (Reads.field rfl (reads p.ret)).bind
    exact (Reads.field rfl (.list reads p.rooms)).build

instance : LawfulWire CreateRoomRequest where
  words _ := []
  isWritten p := isWritten_members (isWritten_ofText p.name)
  reads p := by
    apply Reads.record (by rfl) (by decide)
    exact (Reads.field rfl (.text p.name)).build

instance : LawfulWire JoinRoomRequest where
  words p := p.player.toList.flatMap words
  isWritten p := isWritten_members ⟨isWritten_ofOptional isWritten p.player, isWritten p.roomId⟩
  reads p := by
    apply Reads.record (by rfl) (by decide)
    rw [← List.append_nil (p.player.toList.flatMap words)]
    apply (Reads.field rfl (.optional reads nofun p.player)).bind
    exact (Reads.field rfl (reads p.roomId)).build

instance : LawfulWire MoveRequest where
  words p := words p.position
  isWritten p := isWritten_members ⟨isWritten p.playerId, isWritten p.position⟩
  reads p := by
    apply Reads.record (by rfl) (by decide)
    apply (Reads.field rfl (reads p.playerId)).bind
    exact (Reads.field rfl (reads p.position)).build

instance : LawfulWire LeaveRoomRequest where
  words _ := []
  isWritten p := isWritten_members (isWritten p.playerId)
  reads p := by
    apply Reads.record (by rfl) (by decide)
    exact (Reads.field rfl (reads p.playerId)).build

instance : LawfulWire RoomResponse where
  words p := p.room.toList.flatMap words
  isWritten p := isWritten_members ⟨isWritten p.ret, isWritten_ofOptional isWritten p.room⟩
  reads p := by
    apply Reads.record (by rfl) (by decide)
    apply (Reads.field rfl (reads p.ret)).bind
    exact (Reads.field rfl (.optional reads nofun p.room)).build

instance : LawfulWire RoomStateNotification where
  words p := words p.room
  isWritten p := isWritten_members (isWritten p.room)
  reads p := by
    apply Reads.record (by rfl) (by decide)
    exact (Reads.field rfl (reads p.room)).build

end

@[reducible] def MessageKind.Payload : MessageKind → Type
  | loginRequest => LoginRequest
  | loginResponse => LoginResponse
  | getRoomListRequest => GetRoomListRequest
  | getRoomListResponse => GetRoomListResponse
  | createRoomRequest => CreateRoomRequest
  | joinRoomRequest => JoinRoomRequest
  | moveRequest => MoveRequest
  | leaveRoomRequest => LeaveRoomRequest
  | createRoomResponse | joinRoomResponse | moveResponse | leaveRoomResponse => RoomResponse
  | roomStateNotification => RoomStateNotification

instance (kind : MessageKind) : Wire kind.Payload := by
  cases kind <;> exact inferInstance

instance (kind : MessageKind) : LawfulWire kind.Payload := by
  cases kind <;> exact inferInstance

/-- Payloads make the round trip. Whatever kind a message is of, each payload of that kind is read
as it was written, if the words in it are finite and each of them is read from its own text; so is
each position, each player and each snapshot by itself. -/
theorem payloads_read_back :
    (∀ (kind : MessageKind) (v : kind.Payload),
      (∀ x ∈ LawfulWire.words v, x.isFinite = true ∧ x.ReadsBack) → decode? (encode v) = some v) ∧
    (∀ p : Position,
      (∀ x ∈ LawfulWire.words p, x.isFinite = true ∧ x.ReadsBack) → decode? (encode p) = some p) ∧
    (∀ p : PlayerInfo,
      (∀ x ∈ LawfulWire.words p, x.isFinite = true ∧ x.ReadsBack) → decode? (encode p) = some p) ∧
    ∀ r : RoomSnapshot,
      (∀ x ∈ LawfulWire.words r, x.isFinite = true ∧ x.ReadsBack) → decode? (encode r) = some r :=
  ⟨fun _ _ => LawfulWire.decode?_encode_of_finite, fun _ => LawfulWire.decode?_encode_of_finite,
    fun _ => LawfulWire.decode?_encode_of_finite, fun _ => LawfulWire.decode?_encode_of_finite⟩

/-- A room with two players, one at the origin and one as far out as words go, at a tenth, at the
least positive word, and at the greatest negative one. -/
def wideRoom : RoomSnapshot where
  id := ⟨18446744073709551615⟩
  name := "\"\n\u2028"
  players := [{ id := ⟨"p"⟩ }, { id := ⟨"q"⟩, position := ⟨⟨0x3DCCCCCD⟩, ⟨1⟩, ⟨0xFF7FFFFF⟩⟩ }]

theorem payloads_read_back_wide :
    decode? (encode (RoomStateNotification.mk wideRoom)) =
        some (RoomStateNotification.mk wideRoom) ∧
      decode? (encode wideRoom) = some wideRoom ∧
      ∀ p ∈ wideRoom.players, decode? (encode p) = some p ∧
        decode? (encode p.position) = some p.position := by
  obtain ⟨hpayload, hposition, hplayer, hroom⟩ := payloads_read_back
  have hwords : ∀ x ∈ LawfulWire.words wideRoom, x.isFinite = true ∧ x.ReadsBack := by
    decide +kernel
  have hplayers : ∀ p ∈ wideRoom.players,
      ∀ x ∈ LawfulWire.words p, x.isFinite = true ∧ x.ReadsBack := by
    intro p hp x hx
    exact hwords x (List.mem_flatMap.mpr ⟨p, hp, hx⟩)
  refine ⟨hpayload .roomStateNotification ⟨wideRoom⟩ hwords, hroom wideRoom hwords, ?_⟩
  intro p hp
  exact ⟨hplayer p (hplayers p hp), hposition p.position (hplayers p hp)⟩

end Lobby
