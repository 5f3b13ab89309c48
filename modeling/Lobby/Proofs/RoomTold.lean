import Lobby.Proofs.CandidTurns

/-! What the answers to a client's requests tell it of its room, whatever rooms do. The player is in
the room of the latest create or join that was granted, unless it has asked to leave since. -/
namespace Lobby

/-- A room does as it likes with an event: it has whom it likes for members, posts what it likes,
and answers with some code or not at all. -/
def Hub.improvise (h : Hub) (r : Nat) (e : Event Ticket) (members : List (PlayerId × Member))
    (posts : List (Nat × Envelope)) (ret : Option ResultCode) : Hub :=
  match h.rooms[r]? with
  | some cell =>
    let room := { cell.room with members }
    let answers := ret.elim [] (room.answer (fun _ => .waiting) e.reply?)
    let effects := posts.map (fun post => .post post.1 post.2) ++ answers
    ((h.setRoom r { cell with room }).applyAll effects).discardEvent e
  | none => h

theorem Hub.brings_improvise (h : Hub) (r : Nat) (e : Event Ticket)
    (members : List (PlayerId × Member)) (posts : List (Nat × Envelope))
    (ret : Option ResultCode) :
    h.Brings (fun _ _ => True)
      (fun t outcome => e.reply? = some t ∧
        ∃ cell, h.rooms[r]? = some cell ∧ outcome.room.id = cell.room.id)
      (h.improvise r e members posts ret) := by
  rw [improvise]
  split
  · rename_i cell hc
    apply Brings.discardEvent
    apply Brings.applyAll
    · exact (Brings.refl _ _ h).setRoom hc rfl fun _ => .inl
    · intro t outcome ha
      rcases List.mem_append.mp ha with ha | ha
      · obtain ⟨post, -, hpost⟩ := List.mem_map.mp ha
        contradiction
      · cases ret with
        | none => contradiction
        | some ret =>
          cases hr : e.reply? with
          | none => simp [Room.answer, hr] at ha
          | some requester =>
            simp only [hr, Option.elim_some, Room.answer, reduceCtorEq, if_false,
              List.mem_singleton] at ha
            cases ha
            exact ⟨rfl, cell, hc, rfl⟩
  · exact .refl _ _ h

namespace System

inductive Deed where
  | usual (act : Act)
  | improvise (room : Nat) (members : List (PlayerId × Member)) (posts : List (Nat × Envelope))
      (ret : Option ResultCode)

def Deed.Honest : Deed → Prop
  | .usual act => act.Honest
  | .improvise .. => True

def undertake (σ : System) : Deed → System
  | .usual act => σ.perform act
  | .improvise r members posts ret =>
    match σ.facing? r with
    | some (e, h) =>
      { σ with
        hub := h.improvise r e members posts ret
        hands := Function.update σ.hands r none }
    | none => σ

def undertakeAll (σ : System) (deeds : List Deed) : System := deeds.foldl undertake σ

def turn? (σ : System) (n : Nat) : Deed → Option (Turn n)
  | .usual (.session m act) =>
    if m = n then σ.sessions[n]?.bind fun s => s.turn? σ.hub n act else none
  | _ => none

def tells (σ : System) (n : Nat) (deed : Deed) : Option (Option RoomId) :=
  (σ.turn? n deed).bind fun t => t.tells t.session.dispatching

def tellsAll (n : Nat) : System → List Deed → List (Option RoomId)
  | _, [] => []
  | σ, deed :: rest => (σ.tells n deed).toList ++ tellsAll n (σ.undertake deed) rest

variable {σ σ' : System} {n : Nat} {deed : Deed} {s : Session} {c : Context} {pending : Pending}

theorem Sound.undertake (hσ : σ.Sound) (deed : Deed) : (σ.undertake deed).Sound := by
  cases deed with
  | usual act => exact hσ.perform act
  | improvise r members posts ret =>
    rw [System.undertake]
    split
    · exact ⟨hσ.session, join_of_update hσ (by simp)⟩
    · exact hσ

theorem Sound.onward_undertake (hσ : σ.Sound) (hd : deed.Honest) :
    σ.Onward (σ.undertake deed) := by
  cases deed with
  | usual act => exact hσ.onward hd
  | improvise r members posts ret =>
    rw [System.undertake]
    split
    · rename_i e h hf
      constructor
      · refine (brings_facing _ _ hf).trans ((h.brings_improvise r e members posts ret).mono
          (fun _ _ h => h) ?_)
        rintro t outcome ⟨ht, cell, hc, hid⟩
        obtain ⟨cell₀, hc₀, hroom⟩ := exists_room_of_facing hf hc
        exact ⟨r, e, cell₀, holds_of_facing hf, ht, hc₀, hroom ▸ hid⟩
      · exact holds_of_update (by simp)
    · exact ⟨.refl _ _ _, .inl⟩

/-- A request waits for a room that goes by the name it will be told by, and the room alone can
answer it. -/
structure Expects (σ : System) (pending : Pending) : Prop where
  fits : pending.Fits σ.hub
  trail : ∃ e, σ.Trail pending.wait.ticket pending.wait.room e

theorem Expects.onward (he : σ.Expects pending) (ho : σ.Onward σ') : σ'.Expects pending := by
  obtain ⟨⟨hkind, ⟨cell, hc⟩, hcreated, htold⟩, e, htrail⟩ := he
  have hid : σ'.hub.roomId pending.wait.room = σ.hub.roomId pending.wait.room := ho.hub.roomId hc
  refine ⟨⟨hkind, ?_, fun h => (hcreated h).trans hid.symm, fun ha => ?_⟩, e, ho.trail htrail⟩
  · obtain ⟨cell', hc', -⟩ := ho.hub.room hc
    exact ⟨cell', hc'⟩
  · rw [hid]
    rcases ho.hub.answered ha with ha | ⟨r, e', cell', hh, ht, hc', hroom⟩
    · exact htold ha
    · -- the room that has answered is the one that was asked
      obtain ⟨rfl, -⟩ := htrail.only hh ht
      rw [hroom, Hub.roomId, Hub.header, hc']
      rfl

theorem Expects.congr {before : Pending} (he : σ.Expects before)
    (hrequest : pending.request = before.request) (herrand : pending.errand = before.errand)
    (hticket : pending.wait.ticket = before.wait.ticket)
    (hroom : pending.wait.room = before.wait.room) : σ.Expects pending := by
  obtain ⟨⟨hkind, hcell, hcreated, htold⟩, e, htrail⟩ := he
  constructor
  · constructor
    · rwa [hrequest, herrand]
    · rwa [hroom]
    · rwa [herrand, hroom]
    · rwa [hticket, hroom]
  · rw [hticket, hroom]
    exact ⟨e, htrail⟩

theorem Numbered.expects (hn : σ.Numbered) {owner : Task}
    (hb : pending.Begins owner σ.hub σ'.hub) (hhands : σ'.hands = σ.hands) :
    σ'.Expects pending := by
  obtain ⟨⟨timeout, now, event, hcourse, he⟩, hkind, hcreated⟩ := hb
  have hhub : σ'.hub = (σ.hub.request owner pending.wait.room timeout now event).2 := by
    rw [hcourse]
  obtain ⟨-, hticket, cell, hc⟩ := Hub.exists_of_request_waiting (congrArg Prod.fst hcourse)
  have hbrings : σ.hub.Brings (fun _ _ => True) (fun _ _ => False) σ'.hub := by
    rw [hhub]
    exact (Hub.Brings.refl _ _ _).request _ _ _ _ he trivial
  refine ⟨⟨hkind, ?_, fun h => ?_, fun ha => ?_⟩, _, hticket ▸ hn.trail_request owner timeout now he
    hhub hhands⟩
  · obtain ⟨cell', hc', -⟩ := hbrings.room hc
    exact ⟨cell', hc'⟩
  · rw [hbrings.roomId hc]
    exact hcreated h
  · rw [hticket, hhub] at ha
    exact absurd ha (Hub.not_answered_request (fun ha => hn.answered ha) he)

def Minds (σ : System) (n : Nat) (c : Context) : Prop :=
  ∃ s, σ.sessions[n]? = some s ∧ s.dispatching.context? = some c ∧
    ∀ pending, s.dispatching = .busy c pending → σ.Expects pending

theorem Sound.undertake_of_turn (hσ : σ.Sound) (hs : σ.sessions[n]? = some s) {t : Turn n}
    (ht : σ.turn? n deed = some t) : t.session = s ∧ t.hub = σ.hub ∧
      σ.undertake deed = σ.after n (t.step s.dispatching) := by
  obtain ⟨m, act, rfl⟩ : ∃ m act, deed = .usual (.session m act) := by
    cases deed with
    | improvise => contradiction
    | usual act =>
      cases act with
      | session m act => exact ⟨m, act, rfl⟩
      | _ => contradiction
  rw [turn?] at ht
  split at ht
  · rename_i hm
    subst hm
    rw [hs, Option.bind_some] at ht
    obtain ⟨hsession, hhub, hstep⟩ := (hσ.session hs).perform_of_turn ht
    refine ⟨hsession, hhub, ?_⟩
    rw [← hstep]
    simp only [System.undertake, System.perform, hs]
  · contradiction

private theorem dispatching_undertake (hσ : σ.Sound) (hs : σ.sessions[n]? = some s)
    (ht : σ.turn? n deed = none) :
    ∃ s', (σ.undertake deed).sessions[n]? = some s' ∧ s'.dispatching = s.dispatching := by
  cases deed with
  | improvise r members posts ret =>
    rw [System.undertake]
    split <;> exact ⟨s, hs, rfl⟩
  | usual act =>
    rw [System.undertake]
    cases hown : σ.own? n act with
    | none => exact ⟨s, session_of_own_none hown hs, rfl⟩
    | some x =>
      obtain ⟨s₁, a⟩ := x
      obtain ⟨rfl, hs₁, hperform⟩ := own_eq_some hown
      obtain rfl := Option.some.inj (hs.symm.trans hs₁)
      rw [turn?, if_pos rfl, hs, Option.bind_some] at ht
      rw [hperform, getElem?_after hs, if_pos rfl]
      exact ⟨_, rfl, (hσ.session hs).dispatching_of_no_turn ht⟩

/-- At each deed the player comes to be in the room that its client is told of, or it stays where it
is. -/
theorem Minds.undertake (hm : σ.Minds n c) (hσ : σ.Sound) (hn : σ.Numbered) (hd : deed.Honest) :
    ∃ c', (σ.undertake deed).Minds n c' ∧ c'.room = (σ.tells n deed).getD c.room := by
  obtain ⟨s, hs, hc, hexpects⟩ := hm
  have honward := hσ.onward_undertake hd
  cases ht : σ.turn? n deed with
  | none =>
    obtain ⟨s', hs', hsame⟩ := dispatching_undertake hσ hs ht
    rw [tells, ht]
    refine ⟨c, ⟨s', hs', hsame ▸ hc, fun pending hb => ?_⟩, rfl⟩
    exact (hexpects pending (hsame ▸ hb)).onward honward
  | some t =>
    obtain ⟨hsession, hhub, hstep⟩ := hσ.undertake_of_turn hs ht
    have hroom := t.roomAfter_eq hc fun pending hb => hhub ▸ (hexpects pending hb).fits
    obtain ⟨c', hc', hroom⟩ := Option.map_eq_some_iff.mp hroom
    rw [tells, ht, Option.bind_some, hsession]
    refine ⟨c', ⟨_, ?_, hc', fun pending hb => ?_⟩, hroom⟩
    · rw [hstep, getElem?_after hs, if_pos rfl]
    · rcases t.busy_cases hb (fun _ _ => False) with
        ⟨c₀, before, hbefore, hrequest, herrand, hticket, hroom⟩ | ⟨c₀, hub, -, hbrings, hbegins⟩
      · have hc₀ : c₀ = c := by
          rw [hbefore] at hc
          exact Option.some.inj hc
        exact ((hexpects before (hc₀ ▸ hbefore)).onward honward).congr hrequest herrand hticket
          hroom
      · have hasked : σ.Onward { σ with hub } :=
          ⟨(hhub ▸ hbrings).mono (fun _ _ h => h) fun _ _ => False.elim, .inl⟩
        have hnext : pending.Begins (.dispatcher n) hub (σ.undertake deed).hub := by
          rw [hstep]
          exact hbegins
        exact (hasked.numbered hn).expects hnext (by rw [hstep]; rfl)

theorem Minds.undertakeAll {deeds : List Deed} (hm : σ.Minds n c) (hσ : σ.Sound)
    (hn : σ.Numbered) (hd : ∀ deed ∈ deeds, deed.Honest) :
    (σ.undertakeAll deeds).Sound ∧ ∃ c', (σ.undertakeAll deeds).Minds n c' ∧
      c'.room = (tellsAll n σ deeds).getLast?.getD c.room := by
  induction deeds generalizing σ c with
  | nil => exact ⟨hσ, c, hm, rfl⟩
  | cons deed rest ih =>
    have hfirst := hd deed List.mem_cons_self
    obtain ⟨c₁, hm₁, hroom₁⟩ := hm.undertake hσ hn hfirst
    obtain ⟨hsound, c', hm', hroom⟩ := ih hm₁ (hσ.undertake deed)
      ((hσ.onward_undertake hfirst).numbered hn) fun deed h => hd deed (List.mem_cons_of_mem _ h)
    refine ⟨hsound, c', hm', ?_⟩
    rw [hroom, hroom₁, tellsAll, List.getLast?_append]
    cases σ.tells n deed <;> cases (tellsAll n (σ.undertake deed) rest).getLast? <;> rfl

/-- Answers tell a client its room. Whatever rooms do and whatever becomes of the answers on their
way, the player is in the room that the latest answer to grant a create or a join has carried,
unless it has asked to leave since, or it is where it was at first. And each turn of its dispatcher
is candid. -/
theorem room_told_by_answers (hσ : σ.Sound) (hn : σ.Numbered) (hs : σ.sessions[n]? = some s)
    (hidle : s.dispatching = .idle c) {deeds : List Deed} (hd : ∀ deed ∈ deeds, deed.Honest) :
    ∃ s' c', (σ.undertakeAll deeds).sessions[n]? = some s' ∧ s'.dispatching.context? = some c' ∧
      c'.room = (tellsAll n σ deeds).getLast?.getD c.room ∧
      (c.room = none → ∀ r, c'.room = some r ↔ (tellsAll n σ deeds).getLast? = some (some r)) ∧
      ∀ deed t, (σ.undertakeAll deeds).turn? n deed = some t →
        t.hub = (σ.undertakeAll deeds).hub ∧
        (σ.undertakeAll deeds).undertake deed =
          (σ.undertakeAll deeds).after n (t.step s'.dispatching) ∧
        t.Candid s'.dispatching c' := by
  have hm : σ.Minds n c := ⟨s, hs, by rw [hidle]; rfl, by simp [hidle]⟩
  obtain ⟨hsound, c', ⟨s', hs', hc', hexpects⟩, hroom⟩ := hm.undertakeAll hσ hn hd
  refine ⟨s', c', hs', hc', hroom, fun hnone r => ?_, fun deed t ht => ?_⟩
  · rw [hroom, hnone]
    cases (tellsAll n σ deeds).getLast? <;> simp
  · obtain ⟨-, hhub, hstep⟩ := hsound.undertake_of_turn hs' ht
    exact ⟨hhub, hstep, t.candid hc' fun pending hb => hhub ▸ (hexpects pending hb).fits⟩

private def lodger : System := (initial {} .standard).performAll [.connect ⟨"ann"⟩ {} none]

private def puts (kind : MessageKind) (data : List UInt8) : List Deed :=
  [.usual (.session 0 (.hear { kind, data })), .usual (.session 0 (.dispatch 0))]

/-- The visitor makes two rooms. The first has it for a member but does not say so, and the visitor
asks to leave although it is in no room. The second lets it in. -/
private def sojourn : List Deed :=
  puts .createRoomRequest (Wire.encode (CreateRoomRequest.mk "attic")) ++
    [.improvise 0 [(⟨"ann"⟩, ⟨{}, 0⟩)] [] (some .playerAlreadyInRoom),
      .usual (.session 0 (.dispatch 0))] ++
    puts .leaveRoomRequest (Wire.encode (LeaveRoomRequest.mk ⟨"ann"⟩)) ++
    puts .createRoomRequest (Wire.encode (CreateRoomRequest.mk "hall")) ++
    [.usual (.room 1), .usual (.session 0 (.dispatch 0))]

theorem lodger_told_its_room : ∃ s' c', (lodger.undertakeAll sojourn).sessions[0]? = some s' ∧
    s'.dispatching.context? = some c' ∧ c'.room = some ⟨2⟩ := by
  have hσ : (initial {} .standard).Sound := sound_start {} .standard
  have hlodger : lodger.Sound := hσ.performAll _
  have hn : lodger.Numbered :=
    hσ.numbered_all (numbered_initial {} .standard) (by simp [Act.Honest])
  obtain ⟨s, hs, c, hidle, hnone⟩ : ∃ s, lodger.sessions[0]? = some s ∧
      ∃ c, s.dispatching = .idle c ∧ c.room = none := ⟨_, rfl, _, rfl, rfl⟩
  have hlodging : ∀ deed ∈ sojourn, deed.Honest := by
    simp [sojourn, puts, Deed.Honest, Act.Honest]
  have htold : tellsAll 0 lodger sojourn = [none, some ⟨2⟩] := by decide +kernel
  obtain ⟨s', c', hs', hc', -, hroom, -⟩ := room_told_by_answers hlodger hn hs hidle hlodging
  refine ⟨s', c', hs', hc', (hroom hnone ⟨2⟩).mpr ?_⟩
  rw [htold]
  rfl

end System

end Lobby
