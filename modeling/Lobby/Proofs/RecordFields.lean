import Mathlib.Data.List.Nodup
import Mathlib.Logic.Function.Basic
import Mathlib.Tactic.Simproc.ExistsAndEq
import Lobby.Message.Payload
import Lobby.Proofs.PayloadRoundTrip

/-! Records as their fields: a record is read field by field from the members of an object, in
whatever order they come and whatever else there is, or from the elements of an array. -/
namespace Lobby

namespace Json

/-- Puts a value under a name among the fields of a record, unless the name is no field's. -/
def put (names : List String) (name : String) (v : Json) (given : Fields) : Option Fields :=
  if name ∈ names then
    if given name = none then some (Function.update given name (some v)) else none
  else some given

def enter (names : List String) (m : List UInt8 × Json) (given : Fields) : Option Fields :=
  (Quoted.decode? m.1).bind fun name => put names name m.2 given

theorem enter_stranger {names : List String} {key : List UInt8} {v : Json} {name : String}
    (hkey : Quoted.decode? key = some name) (hname : name ∉ names) (given : Fields) :
    enter names (key, v) given = some given := by
  simp [enter, put, hkey, hname]

theorem enter_field {names : List String} {key : List UInt8} {v : Json} {name : String}
    {given fields : Fields} (hkey : Quoted.decode? key = some name) (hname : name ∈ names) :
    enter names (key, v) given = some fields ↔
      given name = none ∧ fields = Function.update given name (some v) := by
  simp [enter, put, hkey, hname, eq_comm]

/-- A member leaves alone the fields that do not have its name. -/
theorem enter_other {names : List String} {m : List UInt8 × Json} {name : String}
    {given fields : Fields} (h : enter names m given = some fields)
    (hm : Quoted.decode? m.1 ≠ some name) : fields name = given name := by
  obtain ⟨other, hother, hput⟩ := Option.bind_eq_some_iff.mp h
  have hne : name ≠ other := by
    rintro rfl
    exact hm hother
  rw [put] at hput
  split at hput
  · split at hput
    · rw [← Option.some.inj hput, Function.update_of_ne hne]
    · contradiction
  · rw [Option.some.inj hput]

theorem put_comm (names : List String) (a b : String) (v w : Json) (given : Fields) :
    (put names a v given).bind (put names b w) = (put names b w given).bind (put names a v) := by
  unfold put
  by_cases ha : a ∈ names <;> by_cases hb : b ∈ names
  · -- the same field twice is refused in either order
    by_cases hab : a = b
    · subst hab
      by_cases hg : given a = none <;> simp [ha, hg]
    · by_cases hga : given a = none <;> by_cases hgb : given b = none <;>
        simp [ha, hb, hga, hgb, hab, Ne.symm hab, Function.update_comm hab]
  · by_cases hga : given a = none <;> simp [ha, hb, hga]
  · by_cases hgb : given b = none <;> simp [ha, hb, hgb]
  · simp [ha, hb]

theorem enter_comm (names : List String) (m n : List UInt8 × Json) (given : Fields) :
    (enter names m given).bind (enter names n) = (enter names n given).bind (enter names m) := by
  unfold enter
  cases Quoted.decode? m.1 with
  | none => cases Quoted.decode? n.1 <;> simp
  | some a =>
    cases Quoted.decode? n.1 with
    | none => simp
    | some b => exact put_comm names a b m.2 n.2 given

theorem lookup_eq_none_iff_notMem (known : List (String × Json)) (name : String) :
    known.lookup name = none ↔ name ∉ known.map (·.1) := by
  rw [List.lookup_eq_none_iff]
  simp only [bne_iff_ne, List.mem_map, not_exists, not_and]
  exact ⟨fun h m hm heq => h m hm heq.symm, fun h m hm heq => h m hm heq.symm⟩

theorem lookup_cons_eq_update (name : String) (v : Json) (known : List (String × Json)) :
    (fun n => ((name, v) :: known).lookup n) =
      Function.update (fun n => known.lookup n) name (some v) := by
  funext n
  by_cases hn : n = name
  · simp [hn]
  · simp [hn, List.lookup_cons, beq_false_of_ne hn]

def among? (names : List String) (named : List (String × Json)) : Option Fields :=
  let known := named.filter fun m => names.contains m.1
  if (known.map (·.1)).Nodup then some fun name => known.lookup name else none

theorem record?_object (names : List String) (ms : List (List UInt8 × Json)) :
    record? names (.object ms) = (ms.mapM named?).bind (among? names) := rfl

theorem among?_cons (names : List String) (name : String) (v : Json)
    (named : List (String × Json)) :
    among? names ((name, v) :: named) = (among? names named).bind (put names name v) := by
  unfold among?
  by_cases hname : name ∈ names
  · have hknown : ((name, v) :: named).filter (fun m => names.contains m.1) =
        (name, v) :: named.filter (fun m => names.contains m.1) :=
      List.filter_cons_of_pos (by simpa using hname)
    simp only [hknown]
    generalize named.filter (fun m => names.contains m.1) = known
    have hgiven := lookup_eq_none_iff_notMem known name
    rw [List.map_cons]
    by_cases hnodup : (known.map (·.1)).Nodup
    · by_cases hfresh : name ∈ known.map (·.1)
      · have hg : known.lookup name ≠ none := fun h => hgiven.mp h hfresh
        rw [if_neg fun h => (List.nodup_cons.mp h).1 hfresh, if_pos hnodup]
        simp [put, hname, hg]
      · rw [if_pos (List.nodup_cons.mpr ⟨hfresh, hnodup⟩), if_pos hnodup, lookup_cons_eq_update]
        simp [put, hname, hgiven.mpr hfresh]
    · rw [if_neg fun h => hnodup (List.nodup_cons.mp h).2, if_neg hnodup]
      rfl
  · have hsame : put names name v = some := by
      funext given
      simp [put, hname]
    simp [hname, hsame]

/-- The members of an object are entered one by one, the last first. -/
theorem record?_object_cons (names : List String) (m : List UInt8 × Json)
    (ms : List (List UInt8 × Json)) :
    record? names (.object (m :: ms)) = (record? names (.object ms)).bind (enter names m) := by
  rw [record?_object, record?_object, List.mapM_cons, named?]
  unfold enter
  cases Quoted.decode? m.1 with
  | none => cases (ms.mapM named?).bind (among? names) <;> rfl
  | some name =>
    cases ms.mapM named? with
    | none => rfl
    | some named => exact among?_cons names name m.2 named

/-- The order of members does not matter. -/
theorem record?_perm {ms ns : List (List UInt8 × Json)} (h : ms.Perm ns) (names : List String) :
    record? names (.object ms) = record? names (.object ns) := by
  induction h with
  | nil => rfl
  | cons m _ ih => rw [record?_object_cons, record?_object_cons, ih]
  | swap m n ms =>
    rw [record?_object_cons, record?_object_cons, record?_object_cons, record?_object_cons,
      Option.bind_assoc, Option.bind_assoc]
    exact Option.bind_congr fun given _ => enter_comm names m n given
  | trans _ _ ih₁ ih₂ => exact ih₁.trans ih₂

def Lists (names : List String) (ms : List (List UInt8 × Json)) (vs : List Json) : Prop :=
  vs.length ≤ names.length ∧ ms.mapM named? = some (names.zip vs)

theorem map_fst_zip_eq_take {names : List String} {vs : List Json}
    (h : vs.length ≤ names.length) : (names.zip vs).map (·.1) = names.take vs.length := by
  rw [List.zip_eq_zip_take_min, List.map_fst_zip (by simp), Nat.min_eq_right h]

/-- The array of the fields in order, perhaps without the last ones, is read as the object. -/
theorem record?_lists {names : List String} {ms : List (List UInt8 × Json)} {vs : List Json}
    (h : Lists names ms vs) (hn : names.Nodup) :
    record? names (.array vs) = record? names (.object ms) := by
  have hkeys : ((names.zip vs).map (·.1)).Nodup := by
    rw [map_fst_zip_eq_take h.1]
    exact hn.sublist (List.take_sublist _ _)
  have hknown : (names.zip vs).filter (fun m => names.contains m.1) = names.zip vs := by
    rw [List.filter_eq_self]
    intro m hm
    rw [List.contains_iff_mem]
    exact (List.of_mem_zip hm).1
  simp only [record?, h.1, h.2, hknown, hkeys, if_true, Option.bind_eq_bind, Option.bind_some]

/-- A field that an object gives is the name of one of its members. -/
theorem exists_member_of_given {names : List String} {ms : List (List UInt8 × Json)}
    {given : Fields} {name : String} (h : record? names (.object ms) = some given)
    (hname : given name ≠ none) : ∃ m ∈ ms, Quoted.decode? m.1 = some name := by
  induction ms generalizing given with
  | nil =>
    obtain rfl := Option.some.inj h
    exact absurd rfl hname
  | cons m ms ih =>
    rw [record?_object_cons, Option.bind_eq_some_iff] at h
    obtain ⟨before, hbefore, henter⟩ := h
    by_cases hm : Quoted.decode? m.1 = some name
    · exact ⟨m, List.mem_cons_self, hm⟩
    · obtain ⟨n, hn, hkey⟩ := ih hbefore (by rwa [← enter_other henter hm])
      exact ⟨n, List.mem_cons_of_mem m hn, hkey⟩

/-- A field that an array gives is one of the first. -/
theorem mem_take_of_given {names : List String} {vs : List Json} {given : Fields} {name : String}
    (h : record? names (.array vs) = some given) (hname : given name ≠ none) :
    name ∈ names.take vs.length := by
  rw [record?] at h
  split at h
  · next hlength =>
    rw [← map_fst_zip_eq_take hlength]
    by_contra hmem
    obtain rfl := Option.some.inj h
    exact hname ((lookup_eq_none_iff_notMem _ _).mpr hmem)
  · contradiction

end Json

open Json Wire

/-- A field of a record: its name, how its value is read, the value that it has where it is
missing, unless it may not be, and its place in the record. -/
structure Field (α : Type) where
  Value : Type
  name : String
  read : Json → Option Value
  default? : Option Value
  get : α → Value
  set : Value → α → α

def Field.valueOf {α : Type} (f : Field α) (given : Fields) : Option f.Value :=
  match f.default? with
  | some default => given.getD f.name default f.read
  | none => given.get? f.name f.read

theorem Field.valueOf_of_missing {α : Type} (f : Field α) {given : Fields}
    (h : given f.name = none) : f.valueOf given = f.default? := by
  rw [valueOf]
  cases f.default? <;> simp [Fields.getD, Fields.get?, h]

theorem Field.valueOf_of_given {α : Type} (f : Field α) {given : Fields} {v : Json}
    (h : given f.name = some v) : f.valueOf given = f.read v := by
  rw [valueOf]
  cases f.default? <;> simp [Fields.getD, Fields.get?, h]

class Recorded (α : Type) [Wire α] where
  fields : List (Field α)
  nodup : (fields.map Field.name).Nodup := by decide
  get_set : ∀ f ∈ fields, ∀ a x, f.get (f.set a x) = a := by simp
  get_set_of_ne : ∀ f ∈ fields, ∀ g ∈ fields, g.name ≠ f.name →
    ∀ a x, g.get (f.set a x) = g.get x := by simp
  ofJson?_eq_some_iff (v : Json) (x : α) : ofJson? v = some x ↔
    ∃ given, v.record? (fields.map Field.name) = some given ∧
      ∀ f ∈ fields, f.valueOf given = some (f.get x) := by
    intro v x
    cases x
    simp [ofJson?, Option.bind_eq_some_iff, Field.valueOf]

instance : Recorded Position where
  fields := [
    ⟨_, "x", binary32?, some .zero, (·.x), fun a x => { x with x := a }⟩,
    ⟨_, "y", binary32?, some .zero, (·.y), fun a x => { x with y := a }⟩,
    ⟨_, "z", binary32?, some .zero, (·.z), fun a x => { x with z := a }⟩]

instance : Recorded PlayerInfo where
  fields := [
    ⟨_, "id", ofJson?, some ⟨""⟩, (·.id), fun a x => { x with id := a }⟩,
    ⟨_, "name", text?, some "", (·.name), fun a x => { x with name := a }⟩,
    ⟨_, "position", ofJson?, some {}, (·.position), fun a x => { x with position := a }⟩]

instance : Recorded RoomSnapshot where
  fields := [
    ⟨_, "id", ofJson?, some ⟨0⟩, (·.id), fun a x => { x with id := a }⟩,
    ⟨_, "name", text?, some "", (·.name), fun a x => { x with name := a }⟩,
    ⟨_, "players", list? ofJson?, some [], (·.players), fun a x => { x with players := a }⟩]

instance : Recorded LoginRequest where
  fields := [
    ⟨_, "playerName", text?, some "", (·.playerName), fun a x => { x with playerName := a }⟩]

instance : Recorded LoginResponse where
  fields := [⟨_, "playerId", ofJson?, some ⟨""⟩, (·.playerId), fun a x => { x with playerId := a }⟩]

instance : Recorded GetRoomListRequest where
  fields := []

instance : Recorded GetRoomListResponse where
  fields := [
    ⟨_, "ret", ofJson?, some .ok, (·.ret), fun a x => { x with ret := a }⟩,
    ⟨_, "rooms", list? ofJson?, some [], (·.rooms), fun a x => { x with rooms := a }⟩]

instance : Recorded CreateRoomRequest where
  fields := [⟨_, "name", text?, some "", (·.name), fun a x => { x with name := a }⟩]

instance : Recorded JoinRoomRequest where
  fields := [
    ⟨_, "player", optional? ofJson?, some none, (·.player), fun a x => { x with player := a }⟩,
    ⟨_, "roomId", ofJson?, some ⟨0⟩, (·.roomId), fun a x => { x with roomId := a }⟩]

instance : Recorded MoveRequest where
  fields := [
    ⟨_, "playerId", ofJson?, some ⟨""⟩, (·.playerId), fun a x => { x with playerId := a }⟩,
    ⟨_, "position", ofJson?, some {}, (·.position), fun a x => { x with position := a }⟩]

instance : Recorded LeaveRoomRequest where
  fields := [⟨_, "playerId", ofJson?, some ⟨""⟩, (·.playerId), fun a x => { x with playerId := a }⟩]

instance : Recorded RoomResponse where
  fields := [
    ⟨_, "ret", ofJson?, some .ok, (·.ret), fun a x => { x with ret := a }⟩,
    ⟨_, "room", optional? ofJson?, some none, (·.room), fun a x => { x with room := a }⟩]

instance : Recorded RoomStateNotification where
  fields := [⟨_, "room", ofJson?, some {}, (·.room), fun a x => { x with room := a }⟩]

instance : Recorded Envelope where
  fields := [
    ⟨_, "clientId", text?, some "", (·.clientId), fun a x => { x with clientId := a }⟩,
    ⟨_, "msgSerialNo", fun v => v.int32?.map Int32.ofInt, some 0, (·.serial),
      fun a x => { x with serial := a }⟩,
    ⟨_, "id", ofJson?, none, (·.kind), fun a x => { x with kind := a }⟩,
    ⟨_, "data", list? octet?, some [], (·.data), fun a x => { x with data := a }⟩]

instance (kind : MessageKind) : Recorded kind.Payload := by
  cases kind <;> exact inferInstance

namespace Recorded
variable {α : Type} [Wire α] [Recorded α]

def names (α : Type) [Wire α] [Recorded α] : List String := (fields (α := α)).map Field.name

theorem name_mem {f : Field α} (hf : f ∈ fields) : f.name ∈ names α :=
  List.mem_map_of_mem hf

/-- A field is known by its name. -/
theorem eq_of_name_eq {f g : Field α} (hf : f ∈ fields) (hg : g ∈ fields) (h : g.name = f.name) :
    g = f :=
  List.inj_on_of_nodup_map nodup hg hf h

/-- What is read of a record is told by the fields present. -/
theorem ofJson?_congr {v w : Json} (h : v.record? (names α) = w.record? (names α)) :
    (ofJson? v : Option α) = ofJson? w := by
  apply Option.ext
  intro x
  rw [ofJson?_eq_some_iff, ofJson?_eq_some_iff]
  exact exists_congr fun given => and_congr_left fun _ => by rw [← names, h]

theorem ofJson?_perm {ms ns : List (List UInt8 × Json)} (h : ms.Perm ns) :
    (ofJson? (.object ms) : Option α) = ofJson? (.object ns) :=
  ofJson?_congr (record?_perm h _)

theorem ofJson?_stranger {ms : List (List UInt8 × Json)} {key : List UInt8} {v : Json}
    {name : String} (hkey : Quoted.decode? key = some name) (hname : name ∉ names α) :
    (ofJson? (.object ((key, v) :: ms)) : Option α) = ofJson? (.object ms) := by
  apply ofJson?_congr
  rw [record?_object_cons]
  cases record? (names α) (.object ms) with
  | none => rfl
  | some given => exact enter_stranger hkey hname given

theorem ofJson?_lists {ms : List (List UInt8 × Json)} {vs : List Json}
    (h : Lists (names α) ms vs) : (ofJson? (.array vs) : Option α) = ofJson? (.object ms) :=
  ofJson?_congr (record?_lists h nodup)

/-- The fields of a record in which one was changed. -/
theorem valueOf_set {f : Field α} (hf : f ∈ fields) {given changed : Fields} {x : α} {a : f.Value}
    (hx : ∀ g ∈ fields, g.valueOf given = some (g.get x))
    (hother : ∀ name ≠ f.name, changed name = given name) (ha : f.valueOf changed = some a) :
    ∀ g ∈ fields, g.valueOf changed = some (g.get (f.set a x)) := by
  intro g hg
  by_cases hname : g.name = f.name
  · obtain rfl := eq_of_name_eq hf hg hname
    rw [ha, get_set g hg]
  · rw [get_set_of_ne f hf g hg hname, ← hx g hg]
    simp only [Field.valueOf, Fields.getD, Fields.get?, hother g.name hname]

/-- A record whose object begins with a certain field. -/
theorem of_member {ms : List (List UInt8 × Json)} {key : List UInt8} {v : Json} {f : Field α}
    {x : α} (hf : f ∈ fields) (hkey : Quoted.decode? key = some f.name)
    (h : ofJson? (.object ((key, v) :: ms)) = some x) :
    ∃ given, record? (names α) (.object ms) = some given ∧ given f.name = none ∧
      ∀ g ∈ fields,
        g.valueOf (Function.update given f.name (some v)) = some (g.get x) := by
  obtain ⟨fields', hfields, hx⟩ := (ofJson?_eq_some_iff _ x).mp h
  rw [← names, record?_object_cons, Option.bind_eq_some_iff] at hfields
  obtain ⟨given, hgiven, henter⟩ := hfields
  obtain ⟨hnone, rfl⟩ := (enter_field hkey (name_mem hf)).mp henter
  exact ⟨given, hgiven, hnone, hx⟩

/-- Leaving out a field puts it at its default. -/
theorem ofJson?_omit {ms : List (List UInt8 × Json)} {key : List UInt8} {v : Json} {f : Field α}
    {x : α} {default : f.Value} (hf : f ∈ fields) (hd : f.default? = some default)
    (hkey : Quoted.decode? key = some f.name)
    (h : ofJson? (.object ((key, v) :: ms)) = some x) :
    ofJson? (.object ms) = some (f.set default x) := by
  obtain ⟨given, hgiven, hnone, hx⟩ := of_member hf hkey h
  refine (ofJson?_eq_some_iff _ _).mpr ⟨given, hgiven, valueOf_set hf hx ?_ ?_⟩
  · intro name hname
    rw [Function.update_of_ne hname]
  · rw [f.valueOf_of_missing hnone, hd]

/-- The value of a member is read for its field. -/
theorem read_of_member {ms : List (List UInt8 × Json)} {key : List UInt8} {v : Json} {f : Field α}
    {x : α} (hf : f ∈ fields) (hkey : Quoted.decode? key = some f.name)
    (h : ofJson? (.object ((key, v) :: ms)) = some x) : f.read v = some (f.get x) := by
  obtain ⟨given, -, -, hx⟩ := of_member hf hkey h
  rw [← hx f hf, f.valueOf_of_given (Function.update_self _ _ _)]

/-- Another value for a field. -/
theorem ofJson?_replace {ms : List (List UInt8 × Json)} {key : List UInt8} {v w : Json}
    {f : Field α} {x : α} {a : f.Value} (hf : f ∈ fields)
    (hkey : Quoted.decode? key = some f.name) (ha : f.read w = some a)
    (h : ofJson? (.object ((key, v) :: ms)) = some x) :
    ofJson? (.object ((key, w) :: ms)) = some (f.set a x) := by
  obtain ⟨given, hgiven, hnone, hx⟩ := of_member hf hkey h
  refine (ofJson?_eq_some_iff _ _).mpr
    ⟨Function.update given f.name (some w), ?_, valueOf_set hf hx ?_ ?_⟩
  · rw [← names, record?_object_cons, hgiven]
    exact (enter_field hkey (name_mem hf)).mpr ⟨hnone, rfl⟩
  · intro name hname
    rw [Function.update_of_ne hname, Function.update_of_ne hname]
  · rw [f.valueOf_of_given (Function.update_self _ _ _), ha]

theorem given_of_required {v : Json} {f : Field α} {x : α} (hf : f ∈ fields)
    (hd : f.default? = none) (h : ofJson? v = some x) :
    ∃ given, v.record? (names α) = some given ∧ given f.name ≠ none := by
  obtain ⟨given, hgiven, hx⟩ := (ofJson?_eq_some_iff v x).mp h
  refine ⟨given, hgiven, fun hnone => ?_⟩
  have hvalue := hx f hf
  rw [f.valueOf_of_missing hnone, hd] at hvalue
  contradiction

end Recorded

end Lobby
