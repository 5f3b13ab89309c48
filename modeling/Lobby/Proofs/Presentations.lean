import Lobby.Proofs.JsonLayouts
import Lobby.Proofs.RecordFields

/-! The same payload in other words. What a text is read as does not depend on its blanks, on the
order of members, on members that are no fields, or on whether a record is an object or an array;
and a field that is left out has its default. -/
namespace Lobby

open Json Wire

/-- One JSON value says what another says but for a change of what is read from it. A record may be
an object with its members in another order, with a member more under a name that is no field, or
without a field that has a default; or the array of its first fields. So may a record that is the
value of a field, an element of a list, or present where a value is optional. -/
inductive Restates : {α : Type} → (Json → Option α) → (α → α) → Json → Json → Prop where
  | permuted {α : Type} [Wire α] [Recorded α] {ms ns : List (List UInt8 × Json)} :
    ms.Perm ns → Restates (ofJson? : Json → Option α) id (.object ms) (.object ns)
  | joined {α : Type} [Wire α] [Recorded α] {ms : List (List UInt8 × Json)} {key : List UInt8}
    {v : Json} {name : String} : Quoted.decode? key = some name → name ∉ Recorded.names α →
    Restates (ofJson? : Json → Option α) id (.object ms) (.object ((key, v) :: ms))
  | omitted {α : Type} [Wire α] [Recorded α] {ms : List (List UInt8 × Json)} {key : List UInt8}
    {v : Json} {f : Field α} {default : f.Value} : f ∈ Recorded.fields →
    f.default? = some default → Quoted.decode? key = some f.name →
    Restates ofJson? (f.set default) (.object ((key, v) :: ms)) (.object ms)
  | listed {α : Type} [Wire α] [Recorded α] {ms : List (List UInt8 × Json)} {vs : List Json} :
    Lists (Recorded.names α) ms vs →
    Restates (ofJson? : Json → Option α) id (.object ms) (.array vs)
  | unlisted {α : Type} [Wire α] [Recorded α] {ms : List (List UInt8 × Json)} {vs : List Json} :
    Lists (Recorded.names α) ms vs →
    Restates (ofJson? : Json → Option α) id (.array vs) (.object ms)
  | member {α : Type} [Wire α] [Recorded α] {ms : List (List UInt8 × Json)} {key : List UInt8}
    {v w : Json} {f : Field α} {change : f.Value → f.Value} : f ∈ Recorded.fields →
    Quoted.decode? key = some f.name → Restates f.read change v w →
    Restates ofJson? (fun x => f.set (change (f.get x)) x) (.object ((key, v) :: ms))
      (.object ((key, w) :: ms))
  | element {α : Type} {read : Json → Option α} {change : α → α} {vs : List Json} {i : Nat}
    {v w : Json} : vs[i]? = some v → Restates read change v w →
    Restates (list? read) (fun xs => xs.modify i change) (.array vs) (.array (vs.set i w))
  | present {α : Type} {read : Json → Option α} {change : α → α} {v w : Json} :
    Restates read change v w → Restates (optional? read) (Option.map change) v w
  | trans {α : Type} {read : Json → Option α} {change further : α → α} {u v w : Json} :
    Restates read change u v → Restates read further v w →
    Restates read (further ∘ change) u w

namespace Restates
variable {α : Type} {read : Json → Option α} {change : α → α} {v w : Json}

/-- Neither is `null`, which an optional value reads as absence. -/
theorem ne_null (h : Restates read change v w) : v ≠ .null ∧ w ≠ .null := by
  induction h with
  | present _ ih => exact ih
  | trans _ _ ih₁ ih₂ => exact ⟨ih₁.1, ih₂.2⟩
  | _ => exact ⟨by simp, by simp⟩

theorem optional?_of_ne_null (h : v ≠ .null) : optional? read v = (read v).map some := by
  rw [optional?.eq_def]
  split
  · contradiction
  · rfl

theorem list?_set {vs : List Json} {i : Nat} (hv : vs[i]? = some v)
    (hw : ∀ x, read v = some x → read w = some (change x)) {xs : List α}
    (h : list? read (.array vs) = some xs) :
    list? read (.array (vs.set i w)) = some (xs.modify i change) := by
  simp only [list?] at *
  induction vs generalizing i xs with
  | nil => simp at hv
  | cons u vs ih =>
    simp only [List.mapM_cons, Option.bind_eq_bind, Option.bind_eq_some_iff, Option.pure_def,
      Option.some.injEq] at h
    obtain ⟨x, hx, rest, hrest, rfl⟩ := h
    cases i with
    | zero =>
      obtain rfl := Option.some.inj hv
      simp [hw x hx, hrest]
    | succ i => simp [hx, ih hv hrest]

/-- What is read from the one is, changed, what is read from the other. -/
theorem reads (h : Restates read change v w) {x : α} (hx : read v = some x) :
    read w = some (change x) := by
  induction h with
  | permuted hperm => rw [← Recorded.ofJson?_perm hperm, hx]; rfl
  | joined hkey hname => rw [Recorded.ofJson?_stranger hkey hname, hx]; rfl
  | omitted hf hd hkey => exact Recorded.ofJson?_omit hf hd hkey hx
  | listed hlists => rw [Recorded.ofJson?_lists hlists, hx]; rfl
  | unlisted hlists => rw [← Recorded.ofJson?_lists hlists, hx]; rfl
  | member hf hkey _ ih =>
    exact Recorded.ofJson?_replace hf hkey (ih (Recorded.read_of_member hf hkey hx)) hx
  | element hv _ ih => exact list?_set hv (fun _ => ih) hx
  | present h ih =>
    rw [optional?_of_ne_null h.ne_null.1] at hx
    obtain ⟨y, hy, rfl⟩ := Option.map_eq_some_iff.mp hx
    rw [optional?_of_ne_null h.ne_null.2, ih hy]
    rfl
  | trans _ _ ih₁ ih₂ => exact ih₂ (ih₁ hx)

end Restates

theorem Wire.decode?_of_laid {α : Type} [Wire α] {text : List UInt8} {v : Json}
    (h : Laid v.toTokens text) : (decode? text : Option α) = ofJson? v := by
  rw [decode?, parse?_eq_some_iff.mpr h]
  rfl

/-- Two JSON values whose texts are read alike, however they are laid out. -/
def Alike (α : Type) [Wire α] (v w : Json) : Prop :=
  ∀ text other, Laid v.toTokens text → Laid w.toTokens other →
    (decode? other : Option α) = decode? text

theorem Alike.of_ofJson? {α : Type} [Wire α] {v w : Json}
    (h : (ofJson? w : Option α) = ofJson? v) : Alike α v w := by
  intro text other hv hw
  rw [decode?_of_laid hv, decode?_of_laid hw, h]

/-- A type of records that are read alike from all their presentations. All but the required fields
may be missing. -/
structure Indifferent (α : Type) [Wire α] [Recorded α] (required : List String) : Prop where
  laid {text : List UInt8} {x : α} :
    decode? text = some x ↔ ∃ v : Json, Laid v.toTokens text ∧ ofJson? v = some x
  spaced {ts us : List Token} {v : Json} {front back blanks : List UInt8} :
    ts ++ us = v.toTokens → Laid ts front → Laid us back → (∀ b ∈ blanks, isBlank b) →
    (decode? (front ++ (blanks ++ back)) : Option α) = decode? (front ++ back)
  respaced (v : Json) : Alike α v v
  permuted {ms ns : List (List UInt8 × Json)} : ms.Perm ns → Alike α (.object ms) (.object ns)
  joined {ms ns : List (List UInt8 × Json)} {key : List UInt8} {v : Json} {name : String} :
    Quoted.decode? key = some name → name ∉ Recorded.names α → ns.Perm ((key, v) :: ms) →
    Alike α (.object ms) (.object ns)
  defaults : ∀ f : Field α, f ∈ Recorded.fields → f.name ∉ required →
    ∃ default, f.default? = some default
  omitted {ms ns : List (List UInt8 × Json)} {key : List UInt8} {v : Json} {f : Field α}
    {default : f.Value} {text other : List UInt8} {x : α} : f ∈ Recorded.fields →
    f.default? = some default → Quoted.decode? key = some f.name → ms.Perm ((key, v) :: ns) →
    Laid (Json.object ms).toTokens text → Laid (Json.object ns).toTokens other →
    decode? text = some x → decode? other = some (f.set default x)
  listed {ms : List (List UInt8 × Json)} {vs : List Json} : Lists (Recorded.names α) ms vs →
    Alike α (.object ms) (.array vs)
  restated {v w : Json} {change : α → α} {text other : List UInt8} {x : α} :
    Restates ofJson? change v w → Laid v.toTokens text → Laid w.toTokens other →
    decode? text = some x → decode? other = some (change x)

theorem Indifferent.of_defaults {α : Type} [Wire α] [Recorded α] {required : List String}
    (h : ∀ f : Field α, f ∈ Recorded.fields → f.name ∉ required →
      ∃ default, f.default? = some default) : Indifferent α required where
  laid := by
    intro text x
    rw [decode?, Option.bind_eq_bind, Option.bind_eq_some_iff]
    exact exists_congr fun v => and_congr_left fun _ => parse?_eq_some_iff
  spaced htokens hfront hback hblanks := by
    have hapart := hfront.append (hback.blanks hblanks)
    have htogether := hfront.append hback
    rw [htokens] at hapart htogether
    rw [decode?_of_laid hapart, decode?_of_laid htogether]
  respaced v := .of_ofJson? rfl
  permuted hperm := .of_ofJson? (Recorded.ofJson?_perm hperm).symm
  joined hkey hname hperm := .of_ofJson?
    ((Recorded.ofJson?_perm hperm).trans (Recorded.ofJson?_stranger hkey hname))
  defaults := h
  omitted hf hd hkey hperm hv hw hx := by
    rw [decode?_of_laid hv, Recorded.ofJson?_perm hperm] at hx
    rw [decode?_of_laid hw]
    exact Recorded.ofJson?_omit hf hd hkey hx
  listed hlists := .of_ofJson? (Recorded.ofJson?_lists hlists)
  restated hrestates hv hw hx := by
    rw [decode?_of_laid hv] at hx
    rw [decode?_of_laid hw]
    exact hrestates.reads hx

/-- An object without a field that may not be missing is not read. -/
theorem Recorded.decode?_eq_none_of_absent {α : Type} [Wire α] [Recorded α] {f : Field α}
    (hf : f ∈ fields) (hd : f.default? = none) {ms : List (List UInt8 × Json)}
    (hms : ∀ m ∈ ms, Quoted.decode? m.1 ≠ some f.name) {text : List UInt8}
    (h : Laid (Json.object ms).toTokens text) : (decode? text : Option α) = none := by
  rw [decode?_of_laid h, Option.eq_none_iff_forall_ne_some]
  intro x hx
  obtain ⟨given, hgiven, hname⟩ := given_of_required hf hd hx
  obtain ⟨m, hm, hkey⟩ := exists_member_of_given hgiven hname
  exact hms m hm hkey

/-- Nor is an array that does not reach it. -/
theorem Recorded.decode?_eq_none_of_short {α : Type} [Wire α] [Recorded α] {f : Field α}
    (hf : f ∈ fields) (hd : f.default? = none) {vs : List Json}
    (hvs : f.name ∉ (names α).take vs.length) {text : List UInt8}
    (h : Laid (Json.array vs).toTokens text) : (decode? text : Option α) = none := by
  rw [decode?_of_laid h, Option.eq_none_iff_forall_ne_some]
  intro x hx
  obtain ⟨given, hgiven, hname⟩ := given_of_required hf hd hx
  exact hvs (mem_take_of_given hgiven hname)

/-- Payloads are read alike from all their presentations, whatever kind of message they belong to,
and so are the records inside them. So are envelopes, but for the number of the kind: no object
without one is read as an envelope, nor is an array too short to have one. -/
theorem presentations_read_alike :
    (∀ kind : MessageKind, Indifferent kind.Payload []) ∧ Indifferent Position [] ∧
    Indifferent PlayerInfo [] ∧ Indifferent RoomSnapshot [] ∧ Indifferent Envelope ["id"] ∧
    (∀ (ms : List (List UInt8 × Json)) (text : List UInt8),
      (∀ m ∈ ms, Quoted.decode? m.1 ≠ some "id") → Laid (Json.object ms).toTokens text →
      (decode? text : Option Envelope) = none) ∧
    ∀ (vs : List Json) (text : List UInt8),
      vs.length ≤ 2 → Laid (Json.array vs).toTokens text →
      (decode? text : Option Envelope) = none := by
  have hid : ∃ f : Field Envelope, f ∈ Recorded.fields ∧ f.name = "id" ∧ f.default? = none :=
    ⟨Recorded.fields[2], List.getElem_mem _, rfl, rfl⟩
  obtain ⟨f, hf, hname, hd⟩ := hid
  refine ⟨fun kind => ?_, .of_defaults (by simp [Recorded.fields]),
    .of_defaults (by simp [Recorded.fields]), .of_defaults (by simp [Recorded.fields]),
    .of_defaults (by simp [Recorded.fields]), fun ms text hms h => ?_, fun vs text hvs h => ?_⟩
  · cases kind <;> exact .of_defaults (by simp [Recorded.fields])
  · exact Recorded.decode?_eq_none_of_absent hf hd (by rwa [hname]) h
  · refine Recorded.decode?_eq_none_of_short hf hd ?_ h
    rw [hname]
    have htwo : "id" ∉ (Recorded.names Envelope).take 2 := by decide
    exact fun hmem => htwo (List.take_subset_take_left _ hvs hmem)

def plainRoom : Json :=
  ofMembers [("id", ofNat 7),
    ("players", .array [ofMembers [("id", ofText "p"), ("name", ofText "n")]])]

/-- The plain room but for the player's name, with the player by position, the members in reverse,
and one that is no field. -/
def roundaboutRoom : Json :=
  ofMembers [("players", .array [.array [ofText "p"]]), ("id", ofNat 7), ("level", .array [.null])]

def RoomSnapshot.unname (r : RoomSnapshot) : RoomSnapshot :=
  { r with players := r.players.modify 0 fun p => { p with name := "" } }

theorem player_restates :
    Restates ofJson? (fun p : PlayerInfo => { p with name := "" })
      (ofMembers [("id", ofText "p"), ("name", ofText "n")]) (.array [ofText "p"]) := by
  have hnameless : Restates ofJson? (fun p : PlayerInfo => { p with name := "" })
      (ofMembers [("name", ofText "n"), ("id", ofText "p")]) (ofMembers [("id", ofText "p")]) :=
    .omitted (f := Recorded.fields[1]) (List.getElem_mem _) rfl (Quoted.decode?_encode "name")
  have hlists : Lists (Recorded.names PlayerInfo) [(Quoted.encode "id", ofText "p")]
      [ofText "p"] := by
    refine ⟨by decide, ?_⟩
    simp [named?, Quoted.decode?_encode, Recorded.names, Recorded.fields]
  exact .trans (.permuted (.swap _ _ _)) (.trans hnameless (.listed hlists))

theorem room_restates : Restates ofJson? RoomSnapshot.unname plainRoom roundaboutRoom := by
  have hplayers : Restates ofJson? RoomSnapshot.unname
      (ofMembers [("players", .array [ofMembers [("id", ofText "p"), ("name", ofText "n")]]),
        ("id", ofNat 7), ("level", .array [.null])]) roundaboutRoom :=
    .member (f := Recorded.fields[2]) (List.getElem_mem _) (Quoted.decode?_encode "players")
      (.element (i := 0) rfl player_restates)
  have hlevel : Restates ofJson? (id : RoomSnapshot → RoomSnapshot) plainRoom
      (.object ((Quoted.encode "level", .array [.null]) :: _)) :=
    .joined (Quoted.decode?_encode "level") (by decide)
  exact .trans hlevel (.trans (.permuted (List.reverse_perm _).symm) hplayers)

theorem notice_restates :
    Restates ofJson? (fun n : RoomStateNotification => { n with room := n.room.unname })
      (ofMembers [("room", plainRoom)]) (.array [roundaboutRoom]) := by
  have hroom : Restates ofJson?
      (fun n : RoomStateNotification => { n with room := n.room.unname })
      (ofMembers [("room", plainRoom)]) (ofMembers [("room", roundaboutRoom)]) :=
    .member (f := Recorded.fields[0]) (List.getElem_mem _) (Quoted.decode?_encode "room")
      room_restates
  refine .trans hroom (.listed ⟨by decide, ?_⟩)
  simp [named?, Quoted.decode?_encode, Recorded.names, Recorded.fields]

def plainText : List UInt8 :=
  Text.Utf8.encode
    "\x7b\"room\":\x7b\"id\":7,\"players\":[\x7b\"id\":\"p\",\"name\":\"n\"\x7d]\x7d\x7d"

def roundaboutText : List UInt8 :=
  Text.Utf8.encode " [\x7b \"players\":[[\"p\"]],\n\"id\":7, \"level\" :[null] \x7d]"

def kindless : List UInt8 := Text.Utf8.encode "[\"c\", 7]"

def kindlessNamed : List UInt8 :=
  Text.Utf8.encode "\x7b\"msgSerialNo\": 7, \"clientId\": \"c\"\x7d"

theorem presentations_read_alike_roundabout :
    (decode? plainText : Option RoomStateNotification) =
        some ⟨{ id := ⟨7⟩, players := [{ id := ⟨"p"⟩, name := "n" }] }⟩ ∧
      (decode? roundaboutText : Option RoomStateNotification) =
        some ⟨{ id := ⟨7⟩, players := [{ id := ⟨"p"⟩ }] }⟩ ∧
      (decode? kindlessNamed : Option Envelope) = none ∧
      (decode? kindless : Option Envelope) = none := by
  obtain ⟨hpayload, -, -, -, -, habsent, hshort⟩ := presentations_read_alike
  have hplain : Laid (ofMembers [("room", plainRoom)]).toTokens plainText :=
    laid_of_tokens? (by decide +kernel)
  have hroundabout : Laid (Json.array [roundaboutRoom]).toTokens roundaboutText :=
    laid_of_tokens? (by decide +kernel)
  have hread : (decode? plainText : Option RoomStateNotification) =
      some ⟨{ id := ⟨7⟩, players := [{ id := ⟨"p"⟩, name := "n" }] }⟩ := by decide +kernel
  refine ⟨hread, ?_, ?_, ?_⟩
  · exact (hpayload .roomStateNotification).restated notice_restates hplain hroundabout hread
  · refine habsent [(Quoted.encode "msgSerialNo", ofNat 7), (Quoted.encode "clientId", ofText "c")]
      kindlessNamed ?_ (laid_of_tokens? (by decide +kernel))
    simp [Quoted.decode?_encode]
  · exact hshort [ofText "c", ofNat 7] kindless (by decide) (laid_of_tokens? (by decide +kernel))

end Lobby
