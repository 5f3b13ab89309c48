import Lobby.Proofs.RequestTurns

/-! The trail of a request on a server. No two requests ever bear the same ticket, and whatever
happens, a request that has been made is before the room it was made to, or before none. -/
namespace Lobby

/-- A visitor does what visitors can: what it offers asks for no answer, what it asks for is to be
answered to itself, and it goes on with requests of its own. -/
def Hub.Call.Honest : Hub.Call → Prop
  | .offer _ event => event.reply? = none
  | .request _ _ _ event => ∀ t, (event t).reply? = some t
  | .resume wait _ | .expire wait => wait.ticket.owner = .visitor
  | _ => True

/-- Visitors bring requests in their own name. -/
theorem Hub.Brings.call {N : Nat → Event Ticket → Prop} {A : Ticket → Outcome → Prop}
    {h₀ h : Hub} (hb : h₀.Brings N A h) {c : Hub.Call} (hc : c.Honest)
    (hN : ∀ r e t, e.reply? = some t → t.owner = .visitor → N r e) :
    h₀.Brings N A (h.call c) := by
  cases c with
  | openRoom id name => exact hb.openRoom id name
  | createRoom name => exact hb.createRoom name
  | removeRoom id => exact hb.removeRoom id
  | cancelRoom r => exact hb.cancelRoom r
  | removePlayer id => exact hb.apart (h.apart_removePlayer id)
  | cancelPlayer n => exact hb.apart (h.apart_cancelPlayer n)
  | offer r e => exact hb.offerEvent r hc
  | request r timeout now event => exact hb.request _ r timeout now hc (hN _ _ _ (hc _) rfl)
  | resume w now => exact hb.resume w now
  | expire w => exact hb.expire w

namespace System
variable {σ σ' : System} {act : System.Act} {r : Nat} {e : Event Ticket} {t : Ticket}

def Act.Honest : Act → Prop
  | .call c => c.Honest
  | _ => True

def Act.Asks (owner : Task) : Act → Prop
  | .session n _ => owner = .dispatcher n ∨ owner = .supervisor n
  | .call _ => owner = .visitor
  | _ => False

def own? (σ : System) (n : Nat) : Act → Option (Session × Session.Act)
  | .session m act => if m = n then σ.sessions[n]?.map (·, act) else none
  | _ => none

theorem own_eq_some {n : Nat} {s : Session} {a : Session.Act} (h : σ.own? n act = some (s, a)) :
    act = .session n a ∧ σ.sessions[n]? = some s ∧
      σ.perform act = σ.after n (s.perform σ.hub n a) := by
  cases act with
  | session m a' =>
    rw [own?] at h
    split at h
    · rename_i hm
      subst hm
      obtain ⟨s', hs, heq⟩ := Option.map_eq_some_iff.mp h
      obtain ⟨rfl, rfl⟩ := Prod.mk.inj heq
      refine ⟨rfl, hs, ?_⟩
      rw [System.perform, hs]
    · contradiction
  | _ => contradiction

/-- A session stays as it is but for its own acts. -/
theorem session_of_own_none {n : Nat} {s : Session} (hown : σ.own? n act = none)
    (hs : σ.sessions[n]? = some s) : (σ.perform act).sessions[n]? = some s := by
  cases act with
  | session m a =>
    rw [own?, hs] at hown
    rw [System.perform]
    split
    · rename_i s₁ hs₁
      rw [getElem?_after hs₁]
      split
      · rename_i hnm
        rw [if_pos hnm.symm] at hown
        contradiction
      · exact hs
    · exact hs
  | room r | conclude r =>
    rw [System.perform]
    split <;> exact hs
  | take r =>
    rw [System.perform, takeUp]
    split
    · split <;> exact hs
    · exact hs
  | connect id config window =>
    rw [System.perform]
    split
    · rw [Array.getElem?_push, if_neg (Array.getElem?_eq_some_iff.mp hs).1.ne]
      exact hs
    · exact hs
  | call c => exact hs

def Holds (σ : System) (r : Nat) (e : Event Ticket) : Prop :=
  σ.hands r = some e ∨ σ.hub.Holds r e

/-- The event that a room turns to next, and the hub once the room has it in hand. -/
def facing? (σ : System) (r : Nat) : Option (Event Ticket × Hub) :=
  match σ.hands r with
  | some e => some (e, σ.hub)
  | none => σ.hub.takeEvent? r

/-- An event that a room handles, with what the room finds at the other end of replies, and the hub
as it finds it. -/
structure Handling where
  room : Nat
  event : Event Ticket
  listener : Ticket → Listener
  hub : Hub

def handling? (σ : System) : Act → Option Handling
  | .room r =>
    if σ.hands r = none then (σ.hub.takeEvent? r).map fun x => ⟨r, x.1, x.2.listener, x.2⟩ else none
  | .conclude r => (σ.hands r).map fun e => ⟨r, e, σ.hub.lateListener, σ.hub⟩
  | _ => none

theorem facing_of_handling {x : Handling} (hx : σ.handling? act = some x) :
    σ.facing? x.room = some (x.event, x.hub) := by
  cases act with
  | room r =>
    rw [handling?] at hx
    split at hx
    · rename_i hfree
      obtain ⟨⟨e, h⟩, ht, rfl⟩ := Option.map_eq_some_iff.mp hx
      rw [facing?, hfree]
      exact ht
    · contradiction
  | conclude r =>
    obtain ⟨e, he, rfl⟩ := Option.map_eq_some_iff.mp hx
    rw [facing?, he]
  | _ => contradiction

/-- The event that a room turns to is one that it had before. -/
theorem holds_of_facing {h : Hub} (hf : σ.facing? r = some (e, h)) : σ.Holds r e := by
  rw [facing?] at hf
  split at hf
  · obtain ⟨rfl, -⟩ := Prod.mk.inj (Option.some.inj hf)
    exact .inl ‹_›
  · exact .inr (Hub.holds_of_takeEvent hf)

theorem brings_facing {h : Hub} (N : Nat → Event Ticket → Prop) (A : Ticket → Outcome → Prop)
    (hf : σ.facing? r = some (e, h)) : σ.hub.Brings N A h := by
  rw [facing?] at hf
  split at hf
  · obtain ⟨-, rfl⟩ := Prod.mk.inj (Option.some.inj hf)
    exact .refl N A σ.hub
  · exact Hub.brings_takeEvent N A hf

/-- The room itself is then as it was before. -/
theorem exists_room_of_facing {h : Hub} {cell : RoomCell} (hf : σ.facing? r = some (e, h))
    (hc : h.rooms[r]? = some cell) :
    ∃ cell₀, σ.hub.rooms[r]? = some cell₀ ∧ cell.room = cell₀.room := by
  rw [facing?] at hf
  split at hf
  · obtain ⟨-, rfl⟩ := Prod.mk.inj (Option.some.inj hf)
    exact ⟨cell, hc, rfl⟩
  · obtain ⟨cell₀, events, signals, hc₀, -, -, rfl⟩ := Hub.parts_of_takeEvent hf
    have hset := (Hub.getElem?_setRoom hc₀ { cell₀ with events } r).symm.trans hc
    rw [if_pos rfl] at hset
    obtain rfl := Option.some.inj hset
    exact ⟨cell₀, hc₀, rfl⟩

def Gives (σ : System) (act : Act) (t : Ticket) (outcome : Outcome) : Prop :=
  ∃ x, σ.handling? act = some x ∧ x.hub.Gives x.listener x.room x.event t outcome

private theorem brings_room (N : Nat → Event Ticket → Prop) (hfree : σ.hands r = none) :
    σ.hub.Brings N (σ.Gives (.room r)) (σ.hub.stepRoom r).2 := by
  rcases σ.hub.stepRoom_cases r with ⟨e, h, ht, hstep⟩ | ⟨-, hstep | hstep⟩
  · have hx : σ.handling? (.room r) = some ⟨r, e, h.listener, h⟩ := by
      rw [handling?, if_pos hfree, ht]
      rfl
    rw [hstep]
    refine (Hub.brings_takeEvent _ _ ht).trans ?_
    exact (Hub.brings_handleEvent _ h h.listener r e).mono (fun _ _ h => h)
      fun t outcome hg => ⟨_, hx, hg⟩
  · rw [hstep]
    exact .refl _ _ _
  · rw [hstep]
    exact (Hub.Brings.refl _ _ _).stopRoom r

private theorem brings_conclude (N : Nat → Event Ticket → Prop) (he : σ.hands r = some e) :
    σ.hub.Brings N (σ.Gives (.conclude r)) (σ.hub.handleEvent σ.hub.lateListener r e) := by
  refine (Hub.brings_handleEvent _ σ.hub σ.hub.lateListener r e).mono (fun _ _ h => h)
    fun t outcome hg => ?_
  exact ⟨_, by rw [handling?, he]; rfl, hg⟩

/-- Whatever happens, no answers come but those that rooms give, and no requests but those of tasks
that act. -/
theorem Sound.brings (hσ : σ.Sound) (hact : act.Honest) :
    σ.hub.Brings (fun _ e => ∀ t, e.reply? = some t → act.Asks t.owner) (σ.Gives act)
      (σ.perform act).hub := by
  have stay : σ.hub.Brings (fun _ e => ∀ t, e.reply? = some t → act.Asks t.owner) (σ.Gives act)
      σ.hub := .refl _ _ _
  have asks {owner : Task} (howner : act.Asks owner) (_ : Nat) (e : Event Ticket) (t : Ticket)
      (ht : e.reply? = some t) (hown : t.owner = owner) (t' : Ticket) (ht' : e.reply? = some t') :
      act.Asks t'.owner := by
    obtain rfl := Option.some.inj (ht.symm.trans ht')
    exact hown ▸ howner
  cases act with
  | session n act =>
    rw [System.perform]
    split
    · rename_i s hs
      exact (hσ.session hs).perform_enduring (Hub.enduring_brings (asks (.inl rfl)) _ _ _)
        (Hub.enduring_brings (asks (.inr rfl)) _ _ _) stay act
    · exact stay
  | room r =>
    rw [System.perform]
    split
    · exact brings_room _ ‹_›
    · exact stay
  | take r =>
    rw [System.perform, takeUp]
    split
    · rename_i e h _ ht
      split
      · exact Hub.brings_takeEvent _ _ ht
      · exact stay
    · exact stay
  | conclude r =>
    rw [System.perform]
    split
    · exact brings_conclude _ ‹_›
    · exact stay
  | connect id config window =>
    rw [System.perform]
    split
    · exact stay.apart (Hub.apart_openPlayer ‹_›)
    · exact stay
  | call c => exact stay.call hact (asks rfl)

theorem holds_of_update {q : Nat} {hand : Option (Event Ticket)}
    (hhand : ∀ e, hand = some e → σ.Holds q e)
    (he : Function.update σ.hands q hand r = some e) : σ.Holds r e := by
  by_cases hr : r = q
  · subst hr
    rw [Function.update_self] at he
    exact hhand e he
  · rw [Function.update_of_ne hr] at he
    exact .inl he

/-- What a room has in hand it had before, in hand or in its mailbox. -/
theorem holds_of_hand (he : (σ.perform act).hands r = some e) : σ.Holds r e := by
  have stay (h : σ.hands r = some e) : σ.Holds r e := .inl h
  cases act with
  | session n act =>
    rw [System.perform] at he
    split at he <;> exact stay he
  | room r' =>
    rw [System.perform] at he
    split at he <;> exact stay he
  | take r' =>
    rw [System.perform, takeUp] at he
    split at he
    · rename_i e' h _ ht
      split at he
      · refine holds_of_update ?_ he
        rintro _ ⟨⟩
        exact .inr (Hub.holds_of_takeEvent ht)
      · exact stay he
    · exact stay he
  | conclude r' =>
    rw [System.perform] at he
    split at he
    · exact holds_of_update (by simp) he
    · exact stay he
  | connect id config window =>
    rw [System.perform] at he
    split at he <;> exact stay he
  | call c => exact stay he

def Says (σ : System) (t : Ticket) (outcome : Outcome) : Prop :=
  ∃ r e cell, σ.Holds r e ∧ e.reply? = some t ∧ σ.hub.rooms[r]? = some cell ∧
    outcome.room.id = cell.room.id

structure Onward (σ σ' : System) : Prop where
  hub : σ.hub.Brings (fun _ _ => True) σ.Says σ'.hub
  hand {r : Nat} {e : Event Ticket} : σ'.hands r = some e → σ.Holds r e

theorem says_of_gives {outcome : Outcome} (hg : σ.Gives act t outcome) : σ.Says t outcome := by
  obtain ⟨x, hx, hgives⟩ := hg
  obtain ⟨cell, room, effects, hc, -⟩ := id hgives
  obtain ⟨ht, hid⟩ := hgives.of_room hc
  have hf := facing_of_handling hx
  obtain ⟨cell₀, hc₀, hroom⟩ := exists_room_of_facing hf hc
  exact ⟨x.room, x.event, cell₀, holds_of_facing hf, ht, hc₀, hroom ▸ hid⟩

theorem Sound.onward (hσ : σ.Sound) (hact : act.Honest) : σ.Onward (σ.perform act) :=
  ⟨(hσ.brings hact).mono (fun _ _ _ => trivial) fun _ _ => says_of_gives, holds_of_hand⟩

/-- The tickets of all requests that rooms have yet to handle, and of all answers, have been handed
out. -/
structure Numbered (σ : System) : Prop where
  holds {r : Nat} {e : Event Ticket} {t : Ticket} : σ.Holds r e → e.reply? = some t →
    t.serial < σ.hub.nextSerial
  answered {t : Ticket} {outcome : Outcome} : σ.hub.reply? t = some (.answered outcome) →
    t.serial < σ.hub.nextSerial

/-- A ticket has been handed out, and no request bears it but one that is before a certain room. -/
structure Trail (σ : System) (t : Ticket) (r : Nat) (e : Event Ticket) : Prop where
  serial : t.serial < σ.hub.nextSerial
  only {q : Nat} {e' : Event Ticket} : σ.Holds q e' → e'.reply? = some t → q = r ∧ e' = e

theorem numbered_initial (config : RoomConfig) (reactions : Reactions) :
    (initial config reactions).Numbered := by
  constructor
  · rintro r e t (he | ⟨cell, hc, -⟩)
    · contradiction
    · simp [initial] at hc
  · intro t outcome ha
    simp [initial, Hub.reply?] at ha

/-- A request leaves a trail from its first moment on. -/
theorem Numbered.trail_request (hn : σ.Numbered) (owner : Task) (timeout now : Nat)
    {event : Ticket → Event Ticket} (he : ∀ t, (event t).reply? = some t)
    (hhub : σ'.hub = (σ.hub.request owner r timeout now event).2) (hhands : σ'.hands = σ.hands) :
    σ'.Trail ⟨owner, σ.hub.nextSerial⟩ r (event ⟨owner, σ.hub.nextSerial⟩) := by
  refine ⟨?_, fun hh ht => ?_⟩
  · rw [hhub]
    exact Hub.Brings.lt_nextSerial_request _ _ _ _ _ _
  · rcases hh with hhand | hh
    · rw [hhands] at hhand
      exact absurd (hn.holds (.inl hhand) ht) (Nat.lt_irrefl _)
    · rw [hhub] at hh
      exact Hub.holds_request (fun hh => hn.holds (.inr hh)) he hh ht

namespace Onward

theorem holds (ho : σ.Onward σ') (hh : σ'.Holds r e) (ht : e.reply? = some t) :
    σ.Holds r e ∨ σ.hub.nextSerial ≤ t.serial ∧ t.serial < σ'.hub.nextSerial := by
  rcases hh with he | hh
  · exact .inl (ho.hand he)
  · exact (ho.hub.holds hh ht).imp .inr fun hs => ⟨hs.1, hs.2.1⟩

theorem numbered (ho : σ.Onward σ') (hn : σ.Numbered) : σ'.Numbered := by
  have hle := ho.hub.nextSerial
  refine ⟨fun hh ht => ?_, fun ha => ?_⟩
  · rcases ho.holds hh ht with hh | ⟨-, hlt⟩
    · exact Nat.lt_of_lt_of_le (hn.holds hh ht) hle
    · exact hlt
  · rcases ho.hub.answered ha with ha | ⟨r, e, cell, hh, ht, -⟩
    · exact Nat.lt_of_lt_of_le (hn.answered ha) hle
    · exact Nat.lt_of_lt_of_le (hn.holds hh ht) hle

theorem trail (ho : σ.Onward σ') (htrail : σ.Trail t r e) : σ'.Trail t r e := by
  refine ⟨Nat.lt_of_lt_of_le htrail.serial ho.hub.nextSerial, fun hh ht => ?_⟩
  rcases ho.holds hh ht with hh | ⟨hle, -⟩
  · exact htrail.only hh ht
  · exact absurd htrail.serial (Nat.not_lt.mpr hle)

end Onward

theorem Sound.numbered_all (hσ : σ.Sound) (hn : σ.Numbered) {acts : List Act}
    (hacts : ∀ act ∈ acts, act.Honest) : (σ.performAll acts).Numbered := by
  induction acts generalizing σ with
  | nil => exact hn
  | cons act rest ih =>
    exact ih (hσ.perform act) ((hσ.onward (hacts act List.mem_cons_self)).numbered hn)
      fun act h => hacts act (List.mem_cons_of_mem _ h)

end System

end Lobby
