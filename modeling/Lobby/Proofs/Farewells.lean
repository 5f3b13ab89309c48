import Lobby.Proofs.Departures
import Lobby.Proofs.LeaveAnswers

/-! What a supervisor does once the duties of its player have ended. It turns to every room that may
list the player, one after the other, and comes to its end whatever they answer. -/
namespace Lobby

def Supervising.rooms? : Supervising → Option (List RoomId)
  | .starting | .joining => none
  | .leaving rooms | .waiting _ rooms => some rooms
  | .ended => some []

namespace Session
variable {s : Session} {h : Hub} {n : Nat} {act : Act} {said : List RoomId}

structure DutiesOver (s : Session) : Prop where
  reading : s.reading = .ended
  writing : s.writing = .ended
  dispatching : ∃ o, s.dispatching = .ended o

theorem Wanes.dutiesOver {s' : Session} (hw : s.Wanes s') (ho : s.DutiesOver) : s'.DutiesOver := by
  obtain ⟨o, hended⟩ := ho.dispatching
  exact ⟨hw.reading ho.reading, hw.writing ho.writing, o, hw.dispatching hended⟩

def memberships (s : Session) : List RoomId := (s.context?.map (·.memberships)).getD []

/-- Nothing is found out about rooms any more. -/
theorem Wanes.memberships {s' : Session} (hw : s.Wanes s') (ho : s.DutiesOver) :
    s'.memberships = s.memberships := by
  obtain ⟨o, hended⟩ := ho.dispatching
  simp only [Session.memberships, context?, hended, hw.dispatching hended]

def farewell? (s : Session) : Act → Option RoomId
  | .supervise _ =>
    match s.supervising with
    | .leaving (id :: _) => some id
    | _ => none
  | _ => none

/-- A supervisor goes on at an act whatever has become of what it waits for. -/
def due (s : Session) : Act → Bool
  | .supervise now =>
    match s.supervising with
    | .waiting w _ => w.deadline ≤ now
    | _ => true
  | .depart =>
    match s.supervising with
    | .waiting _ _ => true
    | _ => false
  | _ => false

/-- How an act moves a supervisor: it does not, it begins once the other duties have ended, it turns
to a room, it hears from one, or it comes to its end. -/
inductive Moves (s : Session) : Act → Session → Prop
  | still {act : Act} {s' : Session} (supervising : s'.supervising = s.supervising)
      (farewell : s.farewell? act = none)
      (idle : s.DutiesOver → s.due act = true → s.supervising = .ended) : Moves s act s'
  | starts {now : Nat} (before : s.supervising = .starting) :
      Moves s (.supervise now) { s with supervising := .joining }
  | begins {now : Nat} (before : s.supervising = .joining) (duties : s.DutiesOver) :
      Moves s (.supervise now) { s with supervising := .leaving s.memberships }
  | turns {now : Nat} {id : RoomId} {rooms : List RoomId} {next : Supervising}
      (before : s.supervising = .leaving (id :: rooms))
      (after : next = .leaving rooms ∨ ∃ w, next = .waiting w rooms) :
      Moves s (.supervise now) { s with supervising := next }
  | hears {act : Act} {w : Wait} {rooms : List RoomId} {next : Supervising}
      (before : s.supervising = .waiting w rooms) (farewell : s.farewell? act = none)
      (after : next = .leaving rooms ∨ ∃ w', next = .waiting w' rooms ∧
        (w'.stage = w.stage ∧ s.due act = false ∨ w.stage = .slot ∧ w'.stage = .answer)) :
      Moves s act { s with supervising := next }
  | ends {now : Nat} (before : s.supervising = .leaving []) :
      Moves s (.supervise now) { s with supervising := .ended }

private theorem moves_supervise (s : Session) (h : Hub) (n now : Nat) :
    s.Moves (.supervise now) (s.stepSupervisor h n now).2.1 := by
  cases hsup : s.supervising with
  | ended =>
    simp only [stepSupervisor, hsup]
    exact .still rfl (by simp [farewell?, hsup]) fun _ _ => hsup
  | starting =>
    simp only [stepSupervisor, hsup]
    exact .starts hsup
  | joining =>
    simp only [stepSupervisor, hsup]
    split
    · rename_i hended
      simp only [Bool.and_eq_true, readerEnded, writerEnded, dispatcherEnded,
        decide_eq_true_eq] at hended
      obtain ⟨⟨hr, hw⟩, hd⟩ := hended
      refine .begins hsup ⟨hr, hw, ?_⟩
      revert hd
      cases s.dispatching <;> simp
    · rename_i hgoing
      refine .still rfl (by simp [farewell?, hsup]) fun hover _ => absurd ?_ hgoing
      obtain ⟨hr, hw, o, hd⟩ := hover
      simp [readerEnded, writerEnded, dispatcherEnded, hr, hw, hd]
  | leaving rooms =>
    cases rooms with
    | nil =>
      simp only [stepSupervisor, hsup, leaveNext]
      exact .ends hsup
    | cons id rooms =>
      simp only [stepSupervisor, hsup]
      rw [leaveNext_cons]
      split
      · exact .turns hsup (.inl rfl)
      · refine .turns hsup ?_
        cases (h.requestLeave (.supervisor n) _ h.config.replyTimeout now s.id).1 with
        | waiting w => exact .inr ⟨w, rfl⟩
        | ended => exact .inl rfl
  | waiting w rooms =>
    rw [stepSupervisor_waiting s h n now hsup]
    refine .hears hsup (by simp [farewell?, hsup]) ?_
    cases hcourse : (h.resume w now).1 with
    | waiting w' =>
      refine .inr ⟨w', rfl, ?_⟩
      rcases Hub.resume_cases hcourse with ⟨rfl, htime⟩ | ⟨hslot, turn, rfl⟩
      · exact .inl ⟨rfl, by simp [due, hsup, htime]⟩
      · exact .inr ⟨hslot, rfl⟩
    | ended => exact .inl rfl

theorem Sound.moves (hs : s.Sound n) (h : Hub) (act : Act) :
    s.Moves act (s.perform h n act).2.1 := by
  have still {act : Act} {s' : Session} (hsup : s'.supervising = s.supervising)
      (hfarewell : s.farewell? act = none) (hdue : s.due act = false) : s.Moves act s' :=
    .still hsup hfarewell fun _ h => by simp [hdue] at h
  cases act with
  | read => exact still (aside_stepReader s h n).session.supervising rfl rfl
  | write => exact still (aside_stepWriter s h n).session.supervising rfl rfl
  | dispatch now =>
    obtain ⟨d, hd, -⟩ := hs.dispatch h now
    exact still (congrArg supervising hd :) rfl rfl
  | lapse =>
    obtain ⟨d, hd, -⟩ := hs.lapse h
    exact still (congrArg supervising hd :) rfl rfl
  | supervise now => exact moves_supervise s h n now
  | depart =>
    rw [Session.perform, Session.depart]
    split
    · exact .hears ‹_› rfl (.inl rfl)
    · rename_i hnot
      refine still rfl rfl ?_
      rw [due]
      split
      · exact absurd ‹_› (hnot _ _)
      · rfl
  | stream change => exact still rfl rfl rfl
  | hear e => exact still (alike_hear s h n e).supervising rfl rfl
  | drain => exact still (alike_drain s h n).supervising rfl rfl
  | mute => exact still (alike_mute s h n).supervising rfl rfl

/-- Nobody asks a room for something in the supervisor's name but the supervisor, when it turns to
that. -/
theorem Sound.brings_of_no_farewell (hs : s.Sound n) (hf : s.farewell? act = none) :
    h.Brings (fun _ e => ∀ t, e.reply? = some t → t.owner ≠ .supervisor n) (fun _ _ => True)
      (s.perform h n act).2.2 := by
  have stay : h.Brings (fun _ e => ∀ t, e.reply? = some t → t.owner ≠ .supervisor n)
      (fun _ _ => True) h := .refl _ _ _
  have dispatches : Hub.Enduring s.id (.dispatcher n) (h.Brings
      (fun _ e => ∀ t, e.reply? = some t → t.owner ≠ .supervisor n) (fun _ _ => True) ·) := by
    refine Hub.enduring_brings (fun _ e t ht howner t' ht' hsuper => ?_) _ _ _
    obtain rfl := Option.some.inj (ht.symm.trans ht')
    rw [howner] at hsuper
    contradiction
  cases ht : s.turn? h n act with
  | some t =>
    obtain ⟨-, rfl, hstep⟩ := hs.perform_of_turn ht
    rw [hstep]
    exact (t.step_enduring hs.dispatching dispatches stay).1
  | none =>
    cases act with
    | supervise now =>
      rw [Session.perform]
      by_cases hd : s.Departing
      · rw [stepSupervisor]
        split
        · exact stay
        · exact absurd ‹_› hd.1
        · exact absurd ‹_› hd.2
        · rename_i rooms hsup
          cases rooms with
          | nil => exact stay.apart (apart_tearDown s h n)
          | cons id rooms => simp [farewell?, hsup] at hf
        · rename_i w rooms _
          have hresume := stay.resume w now
          split <;> rename_i heq <;> rwa [heq] at hresume
      · exact stay.apart (apart_supervise hd h n now)
    | depart =>
      rw [Session.perform, Session.depart]
      split
      · exact stay.expire _
      · exact stay
    | _ => exact stay.apart (s.apart_perform ht (by simp) (by simp))

/-- A supervisor has turned to some rooms: to none before it begins, and from then on to those that
may list its player, but for the ones that are left. -/
inductive Bids (s : Session) (said : List RoomId) : Prop
  | waits (rooms : s.supervising.rooms? = none) (said : said = [])
  | goes {rooms : List RoomId} (duties : s.DutiesOver) (left : s.supervising.rooms? = some rooms)
      (said : said ++ rooms = s.memberships)

theorem Sound.bids (hs : s.Sound n) (hb : s.Bids said) (h : Hub) (act : Act) :
    (s.perform h n act).2.1.Bids (said ++ (s.farewell? act).toList) := by
  have hwanes := (hs.ebbs h act).session
  have hmoves := hs.moves h act
  generalize (s.perform h n act).2.1 = s' at hwanes hmoves ⊢
  cases hb with
  | waits hrooms hsaid =>
    subst hsaid
    cases hmoves with
    | still hsup hfarewell => exact .waits (hsup ▸ hrooms) (by simp [hfarewell])
    | starts hbefore => exact .waits rfl (by simp [farewell?, hbefore])
    | begins hbefore hover =>
      exact .goes (hwanes.dutiesOver hover) rfl
        (by simp [farewell?, hbefore, memberships, context?])
    | turns hbefore | hears hbefore | ends hbefore => simp [hbefore, Supervising.rooms?] at hrooms
  | @goes rooms hover hleft hsaid =>
    rw [← hwanes.memberships hover] at hsaid
    have hover' := hwanes.dutiesOver hover
    cases hmoves with
    | still hsup hfarewell => exact .goes hover' (hsup ▸ hleft) (by simpa [hfarewell] using hsaid)
    | starts hbefore | begins hbefore => simp [hbefore, Supervising.rooms?] at hleft
    | @turns _ id rooms' next hbefore hafter =>
      rw [hbefore] at hleft
      obtain rfl := Option.some.inj hleft
      have hnext : next.rooms? = some rooms' := by rcases hafter with rfl | ⟨w, rfl⟩ <;> rfl
      exact .goes hover' hnext (by simpa [farewell?, hbefore] using hsaid)
    | @hears _ w _ next hbefore hfarewell hafter =>
      have hnext : next.rooms? = some rooms := by
        rw [hbefore] at hleft
        rcases hafter with rfl | ⟨w', rfl, -⟩ <;> exact hleft
      exact .goes hover' hnext (by simpa [hfarewell] using hsaid)
    | ends hbefore =>
      rw [hbefore] at hleft
      exact .goes hover' hleft (by simpa [farewell?, hbefore] using hsaid)

/-- How many turns a supervisor takes at most until it comes to its end. It needs three for a room:
to turn to it, to give up on its mailbox or get in, and to hear from it or give up on that. -/
def left (s : Session) : Nat :=
  match s.supervising with
  | .starting => 3 * s.memberships.length + 3
  | .joining => 3 * s.memberships.length + 2
  | .leaving rooms => 3 * rooms.length + 1
  | .waiting w rooms => 3 * rooms.length + match w.stage with
    | .slot => 3
    | .answer => 2
  | .ended => 0

/-- A turn at which the supervisor goes on brings it nearer to its end, and nothing takes it
back. -/
theorem Sound.left_perform (hs : s.Sound n) (hover : s.DutiesOver) (h : Hub) (act : Act) :
    (s.perform h n act).2.1.left ≤ s.left - (s.due act).toNat := by
  have hwanes := (hs.ebbs h act).session
  have hmoves := hs.moves h act
  generalize (s.perform h n act).2.1 = s' at hwanes hmoves ⊢
  have hmemberships := hwanes.memberships hover
  cases hmoves with
  | still hsup _ hidle =>
    have hleft : s'.left = s.left := by
      rw [left, left, hsup, hmemberships]
    cases hdue : s.due act with
    | false => exact hleft.le
    | true => simp [left, hsup, hidle hover hdue]
  | starts hbefore =>
    rw [left, left, hmemberships, hbefore]
    simp [due, hbefore]
  | begins hbefore => simp [left, due, hbefore]
  | turns hbefore hafter =>
    rcases hafter with rfl | ⟨w, rfl⟩
    · simp only [left, due, hbefore, List.length_cons, Bool.toNat_true]
      omega
    · simp only [left, due, hbefore, List.length_cons, Bool.toNat_true]
      cases w.stage <;> simp only <;> omega
  | @hears _ w rooms next hbefore _ hafter =>
    have hdue : (s.due act).toNat ≤ 1 := Bool.toNat_le _
    rcases hafter with rfl | ⟨w', rfl, ⟨hstage, hnot⟩ | ⟨hslot, hanswer⟩⟩
    · simp only [left, hbefore]
      cases w.stage <;> simp only <;> omega
    · simp [left, hbefore, hstage, hnot]
    · simp only [left, hbefore, hslot, hanswer]
      omega
  | ends hbefore => simp [left]

end Session

namespace System
variable {σ : System} {act : Act} {n : Nat} {s : Session} {p : PlayerId} {said : List RoomId}

def farewell? (σ : System) (n : Nat) (act : Act) : Option RoomId :=
  (σ.own? n act).bind fun x => x.1.farewell? x.2

/-- The rooms that the supervisor of a player turns to at some acts, one after the other. -/
def farewells (n : Nat) : System → List Act → List RoomId
  | _, [] => []
  | σ, act :: rest => (σ.farewell? n act).toList ++ farewells n (σ.perform act) rest

/-- The supervisor of a player has turned to some rooms. -/
def Bids (σ : System) (n : Nat) (said : List RoomId) : Prop :=
  match σ.sessions[n]? with
  | none => said = []
  | some s => s.Bids said

theorem Bids.perform (hb : σ.Bids n said) (hσ : σ.Sound) (act : Act) :
    (σ.perform act).Bids n (said ++ (σ.farewell? n act).toList) := by
  cases hown : σ.own? n act with
  | some x =>
    obtain ⟨s, a⟩ := x
    obtain ⟨-, hs, hperform⟩ := own_eq_some hown
    have hfarewell : σ.farewell? n act = s.farewell? a := by rw [farewell?, hown]; rfl
    rw [Bids, hs] at hb
    rw [hfarewell, Bids, hperform, getElem?_after hs, if_pos rfl]
    exact (hσ.session hs).bids hb σ.hub a
  | none =>
    have hfarewell : σ.farewell? n act = none := by rw [farewell?, hown]; rfl
    rw [hfarewell, Option.toList_none, List.append_nil]
    cases hs : σ.sessions[n]? with
    | some s => rwa [Bids, session_of_own_none hown hs, ← hs]
    | none =>
      rw [Bids, hs] at hb
      rw [Bids]
      split
      · exact hb
      · rcases session_cases ‹_› with hs' | ⟨s₁, a, hs₁, -⟩ | ⟨_, _, _, _, -, -, rfl⟩
        · simp [hs] at hs'
        · simp [hs] at hs₁
        · exact .waits rfl hb

theorem Bids.performAll (hb : σ.Bids n said) (hσ : σ.Sound) (acts : List Act) :
    (σ.performAll acts).Bids n (said ++ farewells n σ acts) := by
  induction acts generalizing σ said with
  | nil => rwa [farewells, List.append_nil]
  | cons act rest ih =>
    have hrest := ih (hb.perform hσ act) (hσ.perform act)
    rwa [List.append_assoc] at hrest

/-- A supervisor turns to a room by a request for a leave, if the room is registered. -/
theorem hub_of_farewell {id : RoomId} (hf : σ.farewell? n act = some id) :
    ∃ s now rooms, σ.sessions[n]? = some s ∧ s.supervising = .leaving (id :: rooms) ∧
      act = .session n (.supervise now) ∧ (σ.perform act).hands = σ.hands ∧
      (σ.perform act).hub = match σ.hub.room? id with
        | none => σ.hub
        | some r =>
          (σ.hub.requestLeave (.supervisor n) r σ.hub.config.replyTimeout now s.id).2 := by
  obtain ⟨⟨s, a⟩, hown, hsaid⟩ := Option.bind_eq_some_iff.mp hf
  obtain ⟨rfl, hs, hperform⟩ := own_eq_some hown
  cases a with
  | supervise now =>
    simp only [Session.farewell?] at hsaid
    split at hsaid
    · rename_i id' rooms hsup
      obtain rfl := Option.some.inj hsaid
      refine ⟨s, now, rooms, hs, hsup, rfl, by rw [hperform]; rfl, ?_⟩
      rw [hperform]
      simp only [after, Session.perform, Session.stepSupervisor, hsup]
      rw [Session.leaveNext_cons]
      cases σ.hub.room? id' <;> rfl
    · contradiction
  | _ => contradiction

/-- Others make no requests in a supervisor's name. -/
private theorem holds_of_own_none (hσ : σ.Sound) (hact : act.Honest) (hown : σ.own? n act = none)
    {r : Nat} {e : Event Ticket} {t : Ticket} (hh : (σ.perform act).hub.Holds r e)
    (ht : e.reply? = some t) (howner : t.owner = .supervisor n) : σ.hub.Holds r e := by
  rcases (hσ.brings hact).holds hh ht with hh | ⟨-, -, hasks⟩
  · exact hh
  have hsuper := hasks t ht
  rw [howner] at hsuper
  cases act with
  | session m a =>
    obtain rfl : n = m := hsuper.elim (fun h => by contradiction) Task.supervisor.inj
    have hnone : σ.sessions[n]? = none := by simpa [own?] using hown
    rwa [System.perform, hnone] at hh
  | _ => contradiction

/-- A farewell brings one request, to the room that the supervisor turns to. -/
private theorem holds_of_farewell {id : RoomId} (hf : σ.farewell? n act = some id) {r : Nat}
    {e : Event Ticket} {t : Ticket} (hh : (σ.perform act).hub.Holds r e) (ht : e.reply? = some t) :
    σ.hub.Holds r e ∨ σ.hub.room? id = some r ∧ t = ⟨.supervisor n, σ.hub.nextSerial⟩ := by
  obtain ⟨s, now, -, -, -, -, -, hhub⟩ := hub_of_farewell hf
  rw [hhub] at hh
  split at hh
  · exact .inl hh
  · rename_i q hq
    have hb : σ.hub.Brings (fun q' e => q' = q ∧
        e = ⟨s.id, .leave (some ⟨.supervisor n, σ.hub.nextSerial⟩)⟩) (fun _ _ => True)
        (σ.hub.requestLeave (.supervisor n) q σ.hub.config.replyTimeout now s.id).2 := by
      rw [Hub.requestLeave]
      exact (Hub.Brings.refl _ _ _).request _ _ _ _ (fun _ => rfl) ⟨rfl, rfl⟩
    refine (hb.holds hh ht).imp_right ?_
    rintro ⟨-, -, rfl, rfl⟩
    exact ⟨hq, (Option.some.inj ht).symm⟩

/-- A request for which a supervisor gets the answer is one that it makes when it turns to the
room. -/
theorem Sound.farewell_of_request (hσ : σ.Sound) (hact : act.Honest) {r : Nat} {e : Event Ticket}
    {t : Ticket} (hh : (σ.perform act).Holds r e) (ht : e.reply? = some t)
    (howner : t.owner = .supervisor n) : σ.Holds r e ∨
      ∃ id, σ.farewell? n act = some id ∧ σ.hub.room? id = some r ∧
        t = ⟨.supervisor n, σ.hub.nextSerial⟩ := by
  rcases hh with hhand | hh
  · exact .inl (holds_of_hand hhand)
  cases hown : σ.own? n act with
  | none => exact .inl (.inr (holds_of_own_none hσ hact hown hh ht howner))
  | some x =>
    obtain ⟨s, a⟩ := x
    have hsaid : σ.farewell? n act = s.farewell? a := by rw [farewell?, hown]; rfl
    cases hf : s.farewell? a with
    | none =>
      obtain ⟨-, hs, hperform⟩ := own_eq_some hown
      rw [hperform] at hh
      refine .inl (.inr ((((hσ.session hs).brings_of_no_farewell hf).holds hh ht).resolve_right ?_))
      exact fun hnew => hnew.2.2 t ht howner
    | some id =>
      rw [hf] at hsaid
      exact (holds_of_farewell hsaid hh ht).imp .inr fun hnew => ⟨id, hsaid, hnew⟩

def dueTurns (n : Nat) : System → List Act → Nat
  | _, [] => 0
  | σ, act :: rest => ((σ.own? n act).any fun x => x.1.due x.2).toNat +
      dueTurns n (σ.perform act) rest

/-- A supervisor that goes on often enough comes to its end. -/
theorem Sound.runOver_of_dueTurns (hσ : σ.Sound) (hs : σ.sessions[n]? = some s)
    (hover : s.DutiesOver) {acts : List Act} (hdue : s.left ≤ dueTurns n σ acts) :
    (σ.performAll acts).RunOver s.id n := by
  induction acts generalizing σ s with
  | nil =>
    refine ⟨s, hs, rfl, ?_⟩
    have hzero : s.left = 0 := Nat.le_zero.mp hdue
    rw [Session.left] at hzero
    split at hzero
    · omega
    · omega
    · omega
    · split at hzero <;> omega
    · assumption
  | cons act rest ih =>
    rw [dueTurns] at hdue
    cases hown : σ.own? n act with
    | none =>
      rw [hown] at hdue
      exact ih (hσ.perform act) (session_of_own_none hown hs) hover (by simpa using hdue)
    | some x =>
      obtain ⟨s₁, a⟩ := x
      obtain ⟨rfl, hs₁, hperform⟩ := own_eq_some hown
      obtain rfl := Option.some.inj (hs.symm.trans hs₁)
      have hleft := (hσ.session hs).left_perform hover σ.hub a
      have hebbs := ((hσ.session hs).ebbs σ.hub a).session
      obtain ⟨s', hs', hid, -⟩ := (hσ.wanes (.session n a)).session hs
      have hafter := getElem?_after hs (s.perform σ.hub n a) n
      rw [if_pos rfl, ← hperform] at hafter
      obtain rfl := Option.some.inj (hs'.symm.trans hafter)
      rw [hown] at hdue
      simp only [Option.any_some] at hdue
      rw [← hid]
      exact ih (hσ.perform _) hs' (hebbs.dutiesOver hover) (by omega)

/-- A run comes to its end at a turn of its supervisor, when that has turned to all rooms. -/
theorem Sound.end_of_perform (hσ : σ.Sound) (hnot : ¬ σ.RunOver p n)
    (hover : (σ.perform act).RunOver p n) :
    ∃ now s, act = .session n (.supervise now) ∧ σ.sessions[n]? = some s ∧ s.id = p ∧
      s.supervising = .leaving [] := by
  obtain ⟨s', hs', hid', hended⟩ := hover
  rcases session_cases hs' with hs | ⟨s, a, hs, rfl, -, hafter⟩ | ⟨_, _, _, _, -, -, rfl⟩
  · exact absurd ⟨s', hs, hid', hended⟩ hnot
  · have hmoves := (hσ.session hs).moves σ.hub a
    obtain ⟨s₁, hs₁, hsame, -⟩ := (hσ.wanes (.session n a)).session hs
    obtain rfl := Option.some.inj (hs₁.symm.trans hs')
    have hid : s.id = p := hsame.symm.trans hid'
    rw [← hafter] at hmoves
    cases hmoves with
    | still hsup => exact absurd ⟨s, hs, hid, hsup.symm.trans hended⟩ hnot
    | starts | begins => contradiction
    | turns _ hnext => rcases hnext with rfl | ⟨w, rfl⟩ <;> contradiction
    | hears _ _ hnext => rcases hnext with rfl | ⟨w, rfl, -⟩ <;> contradiction
    | ends hsup => exact ⟨_, s, rfl, hs, hid, hsup⟩
  · contradiction

theorem Sound.end_of_run (hσ : σ.Sound) (hnot : ¬ σ.RunOver p n) {acts : List Act}
    (hover : (σ.performAll acts).RunOver p n) :
    ∃ before now after s, acts = before ++ .session n (.supervise now) :: after ∧
      (σ.performAll before).sessions[n]? = some s ∧ s.id = p ∧ s.supervising = .leaving [] := by
  induction acts using List.reverseRecOn with
  | nil => exact absurd hover hnot
  | append_singleton before act ih =>
    by_cases hbefore : (σ.performAll before).RunOver p n
    · obtain ⟨first, now, after, s, rfl, hs⟩ := ih hbefore
      exact ⟨first, now, after ++ [act], s, by simp, hs⟩
    · rw [performAll_append] at hover
      obtain ⟨now, s, rfl, hs⟩ := (hσ.performAll before).end_of_perform hbefore hover
      exact ⟨before, now, [], s, rfl, hs⟩

end System

end Lobby
