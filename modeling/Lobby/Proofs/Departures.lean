import Lobby.Proofs.DepartureSteps
import Lobby.Proofs.MembershipAgreement

/-! Once the tasks of a player have ended, no room goes on listing it, unless its supervisor has
given up on a room whose mailbox had no slot for a leave. -/
namespace Lobby

namespace Hub
variable {h h' : Hub} {hands : Hands} {p : PlayerId} {n r : Nat} {O : Outlook → Prop}
  {keeps : Nat → Prop} {s s' : Supervising} {e : Event Ticket} {c : Context}

structure Shows (h : Hub) (hands : Hands) (p : PlayerId) (n : Nat) (O : Outlook → Prop) : Prop where
  live : h.Live
  held : Held hands h
  outlook : O (h.outlook hands p n)

namespace Shows

theorem spares (hq : h.Shows hands p n O) (hO : Outlook.Lingers p n O)
    (hs : Spares hands p n h h') : h'.Shows hands p n O :=
  ⟨hs.live, hs.held hq.held, hO.grows hq.outlook hs.grows⟩

theorem apart (hq : h.Shows hands p n O) (hO : Outlook.Lingers p n O) (ha : h.Apart h') :
    h'.Shows hands p n O :=
  hq.spares hO (ha.spares hq.live)

/-- Whatever another task does in another player's name. -/
theorem enduring (hO : Outlook.Lingers p n O) {player : PlayerId} {owner : Task}
    (hp : player ≠ p) (hw : ¬ owner.ActsFor n) : Enduring player owner (·.Shows hands p n O) :=
  enduring_of_spares hp hw live held (fun hq => hO.owned hq.outlook) fun hq => hq.spares hO

theorem takeEvent (hq : h.Shows hands p n O) (hfree : hands r = none)
    (ht : h.takeEvent? r = some (e, h')) : h'.Shows (Function.update hands r (some e)) p n O := by
  obtain ⟨hl, hsize, hview⟩ := hq.live.takeEvent? hfree ht
  exact ⟨hl, hq.held.takeEvent hsize ht, hview.symm ▸ hq.outlook⟩

private theorem hasMember_meet (room : Room) {listener : Ticket → Listener}
    (hlisten : h.Listens listener) (he : e.Frees p ∨ (h.outlook hands p n).Spent p n e)
    (lookup : PlayerId → Option Nat) :
    (room.meet ⟨e, listener, lookup⟩).hasMember p = (room.hasMember p && e.kind ≠ .leave) := by
  rcases he with hfrees | hspent
  · obtain ⟨player, body⟩ := e
    obtain ⟨rfl, hk⟩ := hfrees
    cases body with
    | leave reply =>
      refine (room.hasMember_meet_of_leave _ rfl).trans ?_
      simp [Event.kind]
    | join | chat | move => contradiction
  · exact hasMember_of_spent room hlisten hspent lookup

theorem handleEvent (hq : h.Shows hands p n O) (hO : Outlook.Lingers p n O)
    (hhand : hands r = some e) {listener : Ticket → Listener} (hlisten : h.Listens listener) :
    (h.handleEvent listener r e).Shows (Function.update hands r none) p n O := by
  have hl := hq.live
  obtain ⟨cell, hc⟩ := hq.held.exists_cell hhand
  refine ⟨hl.handleEvent hc listener e,
    (hq.held.release r).of_size (size_handleEvent hl hc listener e).ge, ?_⟩
  cases he : e.concerns p n with
  | false =>
    have hspares : Spares (Function.update hands r none) p n h (h.handleEvent listener r e) :=
      hl.spares_handleEvent hc listener he
    have ho := hq.outlook
    rw [← outlook_unhand hhand he] at ho
    exact hO.grows ho hspares.grows
  | true =>
    have hv : (h.outlook hands p n).view r = some (cell.view (hands r) p n) := view_outlook hc
    rw [outlook_handled hl hc]
    exact hO.handled hq.outlook hv (events_view cell hhand he)
      (fun he => hasMember_meet cell.room hlisten he h.player?)
      fun t ht => reply?_of_none hl hc listener e t ht

theorem stepRoom (hq : h.Shows hands p n O) (hO : Outlook.Lingers p n O) (hfree : hands r = none) :
    (h.stepRoom r).2.Shows hands p n O :=
  hq.live.stepRoom_of (Q := fun hands h => h.Shows hands p n O) hfree hq
    (fun _ _ ht => hq.takeEvent hfree ht)
    fun _ h' _ hq' hhand => hq'.handleEvent hO hhand h'.listens_listener

end Shows

abbrev Parting (h : Hub) (hands : Hands) (p : PlayerId) (n : Nat) (keeps : Nat → Prop)
    (s : Supervising) : Prop :=
  h.Shows hands p n fun o => o.Parting p n keeps s

private theorem Tends.held (ht : Tends hands p n h h') (hh : Held hands h) : Held hands h' := by
  intro q hq
  apply hh
  cases hc : h.rooms[q]? with
  | none => rfl
  | some cell =>
    obtain ⟨v, hv, -⟩ := ht.outlook.kept (view_outlook hc)
    simp [Hub.outlook, hq] at hv

theorem Parting.tends (hp : h.Parting hands p n keeps s) (ht : Tends hands p n h h')
    (hs : ∀ r v, keeps r → (h.outlook hands p n).view r = some v → s.Owes r v.id →
      s'.Owes r v.id ∨ (h'.outlook hands p n).Clear r) : h'.Parting hands p n keeps s' :=
  ⟨ht.live, ht.held hp.held, hp.outlook.tends ht.outlook hs⟩

theorem mem_memberships {id : RoomId} :
    id ∈ c.memberships ↔ c.room = some id ∨ id ∈ c.unconfirmed := by
  simp [Context.memberships]

/-- The rooms that a dispatcher leaves behind are all that may list its player. -/
theorem Accord.parting (ha : h.Accord hands p n (.ended (some c))) (keeps : Nat → Prop) :
    h.Parting hands p n keeps (.leaving c.memberships) := by
  have hs : (h.outlook hands p n).Settled p n c none := ha.fits
  refine ⟨ha.live, ha.held, ?_, ?_, ?_⟩
  · intro r v hv w hw
    simp [(hs.quiet hv).1] at hw
  · intro r v hv e he
    exact .inr ((hs.quiet hv).2 e he)
  · intro r v _ hv
    have hagrees := hs.agrees hv (by simp)
    by_cases hroom : c.room = some v.id
    · exact .inr (mem_memberships.mpr (.inl hroom))
    · by_cases hmem : v.id ∈ c.unconfirmed
      · exact .inr (mem_memberships.mpr (.inr hmem))
      · exact .inl fun hlisted => (hagrees.other hroom hlisted).resolve_left hmem

end Hub

def Supervising.after (rooms : List RoomId) : Course → Supervising
  | .waiting w => .waiting w rooms
  | .ended _ => .leaving rooms

namespace Session
variable {s : Session} {h : Hub} {hands : Hands} {p : PlayerId} {n : Nat} {keeps : Nat → Prop}

theorem leaveNext_cons (s : Session) (h : Hub) (n now : Nat) (id : RoomId)
    (rooms : List RoomId) : (s.leaveNext h n now (id :: rooms)).2 =
      match h.room? id with
      | none => ({ s with supervising := .leaving rooms }, h)
      | some q =>
        ({ s with
            supervising := .after rooms
              (h.requestLeave (.supervisor n) q h.config.replyTimeout now s.id).1 },
          (h.requestLeave (.supervisor n) q h.config.replyTimeout now s.id).2) := by
  rw [leaveNext]
  cases h.room? id with
  | none => rfl
  | some q =>
    simp only
    generalize h.requestLeave (.supervisor n) q h.config.replyTimeout now s.id = result
    obtain ⟨_ | _, h'⟩ := result <;> rfl

theorem stepSupervisor_waiting (s : Session) (h : Hub) (n now : Nat) {w : Wait}
    {rooms : List RoomId} (hsup : s.supervising = .waiting w rooms) :
    (s.stepSupervisor h n now).2 =
      ({ s with supervising := .after rooms (h.resume w now).1 }, (h.resume w now).2) := by
  rw [stepSupervisor, hsup]
  simp only
  generalize h.resume w now = result
  obtain ⟨_ | _, h'⟩ := result <;> rfl

/-- A request to a room leaves the supervisor owing no room more than before, unless it gives up
for want of a slot. -/
private theorem parting_course {before : Supervising} (hp : h.Parting hands p n keeps before)
    {q : Nat} {stage : Stage} {result : Course × Hub}
    (hparts : Hub.Parts hands p n h q stage result) {rooms : List RoomId}
    (howes : ∀ r v, (h.outlook hands p n).view r = some v → before.Owes r v.id →
      v.id ∈ rooms ∨ q = r ∧ stage = .slot)
    (hkept : keeps q → stage = .slot → Supervising.after rooms result.1 = .leaving rooms →
      (result.2.outlook hands p n).Clear q) :
    result.2.Parting hands p n keeps (.after rooms result.1) := by
  refine hp.tends hparts.tends fun r v hr hv ho => ?_
  obtain ⟨w | answer, h'⟩ := result
  · obtain ⟨hroom, hstage⟩ := hparts.waiting rfl
    rcases howes r v hv ho with hmem | ⟨rfl, rfl⟩
    · exact .inl (.inl hmem)
    · exact hstage.imp_left fun hslot => .inr ⟨hroom, hslot⟩
  · rcases howes r v hv ho with hmem | ⟨rfl, hslot⟩
    · exact .inl hmem
    · exact .inr (hkept hr hslot rfl)

private theorem parting_leaveNext (hid : s.id = p) {rooms : List RoomId}
    (hp : h.Parting hands p n keeps (.leaving rooms)) (now : Nat)
    (hkept : ∀ r, keeps r →
      Supervising.Drops h r (.leaving rooms) (s.leaveNext h n now rooms).2.1.supervising →
        ((s.leaveNext h n now rooms).2.2.outlook hands p n).Clear r) :
    (s.leaveNext h n now rooms).2.2.Parting hands p n keeps
      (s.leaveNext h n now rooms).2.1.supervising := by
  subst hid
  have hi : (h.outlook hands s.id n).Indexed := hp.live.coherent
  cases rooms with
  | nil =>
    have hspares : Hub.Spares hands s.id n h (s.leaveNext h n now []).2.2 :=
      (apart_tearDown s h n).spares hp.live
    exact hp.tends hspares.tends fun _ _ _ _ ho => .inl (by simp [Supervising.Owes] at ho)
  | cons id rooms =>
    rw [leaveNext_cons] at hkept ⊢
    cases hreg : h.room? id with
    | none =>
      refine hp.tends hp.live.spares.tends fun r v _ hv ho => .inl ?_
      rcases List.mem_cons.mp ho with rfl | hmem
      · have hv' : h.room? v.id = some r := hi.registered hv
        simp [hreg] at hv'
      · exact hmem
    | some q =>
      rw [hreg] at hkept
      refine parting_course hp (hp.live.parts_requestLeave q _ now) ?_ ?_
      · intro r v hv ho
        rcases List.mem_cons.mp ho with rfl | hmem
        · have hv' : h.room? v.id = some r := hi.registered hv
          exact .inr ⟨Option.some.inj (hreg.symm.trans hv'), rfl⟩
        · exact .inl hmem
      · intro hq _ hafter
        apply hkept q hq
        simp only [hafter]
        exact ⟨rfl, hreg⟩

/-- A supervisor at its turn forgets no room that it keeps to. -/
theorem parting_supervise (hs : s.Sound n) (hid : s.id = p) (hd : s.Departing)
    (hp : h.Parting hands p n keeps s.supervising) (now : Nat)
    (hkept : ∀ r, keeps r →
      s.supervising.Drops h r (s.stepSupervisor h n now).2.1.supervising →
        ((s.stepSupervisor h n now).2.2.outlook hands p n).Clear r) :
    (s.stepSupervisor h n now).2.2.Parting hands p n keeps
      (s.stepSupervisor h n now).2.1.supervising := by
  cases hsup : s.supervising with
  | starting => exact absurd hsup hd.1
  | joining => exact absurd hsup hd.2
  | ended =>
    simp only [stepSupervisor, hsup]
    exact hsup ▸ hp
  | leaving rooms =>
    simp only [stepSupervisor, hsup] at hp hkept ⊢
    exact parting_leaveNext hid hp now hkept
  | waiting w rooms =>
    have hown := hs.waiting hsup
    rw [stepSupervisor_waiting s h n now hsup] at hkept ⊢
    rw [hsup] at hp hkept
    refine parting_course hp (hp.live.parts_resume hp.outlook hown now) (fun _ _ _ ho => ho) ?_
    intro hroom hslot hafter
    apply hkept w.room hroom
    simp only [hafter]
    exact ⟨rfl, rfl, hslot⟩

/-- A supervisor whose time is up forgets no room that it keeps to. -/
theorem parting_depart (hs : s.Sound n) {w : Wait} {rooms : List RoomId}
    (hsup : s.supervising = .waiting w rooms) (hp : h.Parting hands p n keeps s.supervising)
    (hkept : ∀ r, keeps r → s.supervising.Drops h r (.leaving rooms) →
      ((h.expire w).2.outlook hands p n).Clear r) :
    (h.expire w).2.Parting hands p n keeps (.leaving rooms) := by
  rw [hsup] at hp hkept
  have htends : Hub.Tends hands p n h (h.expire w).2 := hp.live.tends_expire (hs.waiting hsup)
  exact hp.tends htends fun r v hr _ ho => ho.imp_right fun hslot => hkept r hr ⟨rfl, hslot⟩

/-- A supervisor begins to take its player off rooms once the dispatcher has ended, and does nothing
else at that step. -/
theorem begins_departing (hnot : ¬ s.Departing) {now : Nat}
    (hd : (s.stepSupervisor h n now).2.1.Departing) :
    (∃ c, s.dispatching = .ended c) ∧ (s.stepSupervisor h n now).2 =
      ({ s with supervising := .leaving ((s.context?.map (·.memberships)).getD []) }, h) := by
  simp only [stepSupervisor] at hd ⊢
  cases hsup : s.supervising with
  | starting => simp [hsup, Departing] at hd
  | leaving | waiting | ended => exact absurd ⟨by simp [hsup], by simp [hsup]⟩ hnot
  | joining =>
    simp only [hsup] at hd ⊢
    split at hd
    · rename_i hended
      simp only [hended, if_true]
      simp only [Bool.and_eq_true, dispatcherEnded] at hended
      cases hdisp : s.dispatching with
      | idle | busy => simp [hdisp] at hended
      | ended c => exact ⟨⟨c, rfl⟩, trivial⟩
    · exact absurd hd hnot

end Session

namespace System
variable {σ σ' : System} {p : PlayerId} {n r : Nat} {O : Outlook → Prop} {keeps : Nat → Prop}
  {s s' : Session}

inductive Supervises (σ : System) (n : Nat) (s : Session) : System → Prop
  | turn (now : Nat) : Supervises σ n s (σ.after n (s.stepSupervisor σ.hub n now))
  | depart {w : Wait} {rooms : List RoomId} (hw : s.supervising = .waiting w rooms) :
      Supervises σ n s
        (σ.after n (true, { s with supervising := .leaving rooms }, (σ.hub.expire w).2))

private theorem supervising_after {m : Nat} (hs : σ.sessions[m]? = some s) {step : Session.Step}
    (hs' : (σ.after m step).sessions[n]? = some s')
    (hsup : m = n → step.2.1.supervising = s.supervising) :
    ∃ s, σ.sessions[n]? = some s ∧ s'.supervising = s.supervising := by
  rw [getElem?_after hs] at hs'
  split at hs'
  · rename_i hnm
    obtain rfl := Option.some.inj hs'
    exact ⟨s, hnm ▸ hs, hsup hnm.symm⟩
  · exact ⟨s', hs', rfl⟩

/-- Only the supervisor of a session moves itself. -/
theorem supervising_cases (hσ : σ.Sound) (hstep : Step p σ σ')
    (hs' : σ'.sessions[n]? = some s') :
    s'.supervising = .starting ∨
      (∃ s, σ.sessions[n]? = some s ∧ s'.supervising = s.supervising) ∨
        ∃ s, σ.sessions[n]? = some s ∧ σ.Supervises n s σ' := by
  cases hstep with
  | @read m s hs =>
    have haside := Session.aside_stepReader s σ.hub m
    exact .inr (.inl (supervising_after hs hs' fun _ => haside.session.supervising))
  | @write m s hs =>
    have haside := Session.aside_stepWriter s σ.hub m
    exact .inr (.inl (supervising_after hs hs' fun _ => haside.session.supervising))
  | @dispatch m s hs now =>
    refine .inr (.inl (supervising_after hs hs' fun _ => ?_))
    cases hcell : σ.hub.players[m]? with
    | none => rw [s.stepDispatcher_of_absent hcell now]
    | some cell =>
      obtain ⟨d, hd, -⟩ := (hσ.session hs).turn (t := s.turn hcell now) rfl
      rw [Session.step_turn (hσ.session hs) hcell now] at hd
      rw [hd]
  | @lapse m s cell c pending hs hcell hb =>
    refine .inr (.inl (supervising_after hs hs' fun _ => ?_))
    obtain ⟨d, hd, -⟩ := (hσ.session hs).turn (t := s.lastTurn hcell) rfl
    rw [Session.step_lastTurn (hσ.session hs) hcell hb] at hd
    rw [hd]
  | @supervise m s hs now =>
    by_cases hmn : m = n
    · subst hmn
      exact .inr (.inr ⟨s, hs, .turn now⟩)
    · exact .inr (.inl (supervising_after hs hs' fun h => absurd h hmn))
  | @depart m s w rooms hs hw =>
    by_cases hmn : m = n
    · subst hmn
      exact .inr (.inr ⟨s, hs, .depart hw⟩)
    · exact .inr (.inl (supervising_after hs hs' fun h => absurd h hmn))
  | connect =>
    simp only [Array.getElem?_push] at hs'
    split at hs'
    · obtain rfl := Option.some.inj hs'
      exact .inl rfl
    · exact .inr (.inl ⟨s', hs', rfl⟩)
  | stream hs f => exact .inr (.inl (supervising_after hs hs' fun _ => rfl))
  | _ => exact .inr (.inl ⟨s', hs', rfl⟩)

private theorem shows_turn {m : Nat} (hσ : σ.Sound) (hsole : σ.Sole p n)
    (hO : Outlook.Lingers p n O) (hq : σ.hub.Shows σ.hands p n O) (hs : σ.sessions[m]? = some s)
    {t : Turn m} (hh : t.hub = σ.hub) (hmn : m ≠ n) {step : Session.Step}
    (hstep : t.step s.dispatching = step) : step.2.2.Shows σ.hands p n O := by
  subst hstep
  rw [← hh] at hq
  have hid : s.id ≠ p := fun hid => hmn ((hsole m s hs).mp hid)
  have hw : ¬ (Task.dispatcher m).ActsFor n := by simpa [Task.ActsFor] using hmn
  exact (t.step_enduring (hσ.session hs).dispatching (Hub.Shows.enduring hO hid hw) hq).1

private theorem shows_visit {h : Hub} (hO : Outlook.Lingers p n O)
    (hq : σ.hub.Shows σ.hands p n O) (hv : Visit p σ.hub h) : h.Shows σ.hands p n O := by
  have hw : ¬ Task.visitor.ActsFor n := by simp [Task.ActsFor]
  have hl := hq.live
  have ho := hO.owned hq.outlook
  cases hv with
  | offer r he hr => exact (Hub.Shows.enduring hO he hw).offer hq rfl hr
  | request r timeout now hp he => exact (Hub.Shows.enduring hO hp hw).request hq he
  | resume ht now => exact hq.spares hO (hl.spares_resume ho (ht ▸ hw) now)
  | expire ht => exact hq.spares hO (hl.spares_expire ho (ht ▸ hw))

/-- Once the player's dispatcher has ended, only its supervisor acts for it. -/
theorem shows_step (hσ : σ.Sound) (hsole : σ.Sole p n) (hO : Outlook.Lingers p n O)
    (hq : σ.hub.Shows σ.hands p n O) (hsn : σ.sessions[n]? = some s) {c : Option Context}
    (hended : s.dispatching = .ended c) (hstep : Step p σ σ') :
    σ'.hub.Shows σ'.hands p n O ∨ σ.Supervises n s σ' := by
  have other {m : Nat} {s' : Session} (hs' : σ.sessions[m]? = some s') (hmn : m ≠ n) :
      Hub.Enduring s'.id (.supervisor m) (·.Shows σ.hands p n O) := by
    have hid : s'.id ≠ p := fun hid => hmn ((hsole m s' hs').mp hid)
    exact Hub.Shows.enduring hO hid (by simpa [Task.ActsFor] using hmn)
  cases hstep with
  | @read m s hs => exact .inl (hq.apart hO (Session.aside_stepReader s σ.hub m).hub)
  | @write m s hs => exact .inl (hq.apart hO (Session.aside_stepWriter s σ.hub m).hub)
  | @dispatch m s' hs now =>
    cases hcell : σ.hub.players[m]? with
    | none =>
      rw [s'.stepDispatcher_of_absent hcell now]
      exact .inl hq
    | some cell =>
      by_cases hmn : m = n
      · subst hmn
        obtain rfl := Option.some.inj (hsn.symm.trans hs)
        have hstill : s.stepDispatcher σ.hub m now = (false, s, σ.hub) := by
          simp [Session.stepDispatcher, hcell, hended]
        rw [hstill]
        exact .inl hq
      · exact .inl (shows_turn hσ hsole hO hq hs rfl hmn
          (Session.step_turn (hσ.session hs) hcell now))
  | @lapse m s' cell c pending hs hcell hb =>
    have hmn : m ≠ n := by
      rintro rfl
      obtain rfl := Option.some.inj (hsn.symm.trans hs)
      simp [hb] at hended
    exact .inl (shows_turn hσ hsole hO hq hs rfl hmn
      (Session.step_lastTurn (hσ.session hs) hcell hb))
  | @supervise m s' hs now =>
    by_cases hmn : m = n
    · subst hmn
      obtain rfl := Option.some.inj (hsn.symm.trans hs)
      exact .inr (.turn now)
    · exact .inl (Session.stepSupervisor_enduring (hσ.session hs) (other hs hmn) hq now).1
  | @depart m s' w rooms hs hw =>
    by_cases hmn : m = n
    · subst hmn
      obtain rfl := Option.some.inj (hsn.symm.trans hs)
      exact .inr (.depart hw)
    · exact .inl ((other hs hmn).expire hq ((hσ.session hs).waiting hw))
  | room hfree => exact .inl (hq.stepRoom hO hfree)
  | take hfree ht => exact .inl (hq.takeEvent hfree ht)
  | conclude hhand => exact .inl (hq.handleEvent hO hhand σ.hub.listens_lateListener)
  | connect window ho => exact .inl (hq.apart hO (Hub.apart_openPlayer ho))
  | stream hs f => exact .inl hq
  | openRoom id name => exact .inl (hq.spares hO (hq.live.spares_openRoom hq.held id name))
  | createRoom name => exact .inl (hq.spares hO (hq.live.spares_createRoom hq.held name))
  | visit hv =>
    have hvisit := shows_visit hO hq hv
    exact .inl hvisit
  | aside ha => exact .inl (hq.apart hO ha)

def Told (σ : System) (p : PlayerId) (r : Nat) : Prop :=
  ∃ cell, σ.hub.rooms[r]? = some cell ∧ ∃ e ∈ cell.events.queue, e.Frees p

/-- At a step, the player's supervisor goes on from a room in whose mailbox there is no leave of
the player. -/
def GivesUp (σ : System) (p : PlayerId) (n r : Nat) (σ' : System) : Prop :=
  (∃ s s', σ.sessions[n]? = some s ∧ σ'.sessions[n]? = some s' ∧
    s.supervising.Drops σ.hub r s'.supervising) ∧ ¬ σ'.Told p r

def Patient (p : PlayerId) (n : Nat) (keeps : Nat → Prop) (σ σ' : System) : Prop :=
  Step p σ σ' ∧ ∀ r, keeps r → ¬ σ.GivesUp p n r σ'

def Parting (σ : System) (p : PlayerId) (n : Nat) (keeps : Nat → Prop) : Prop :=
  ∃ s, σ.sessions[n]? = some s ∧ s.Departing ∧ σ.hub.Parting σ.hands p n keeps s.supervising

private theorem drops_departing {h : Hub} {next : Supervising}
    (hdrops : s.supervising.Drops h r next) : s.Departing := by
  constructor <;> intro hsup <;> rw [hsup] at hdrops <;> exact hdrops

/-- A room that a patient supervisor goes on from has a leave. -/
private theorem clear_of_drops (hs : σ.sessions[n]? = some s) {step : Session.Step}
    (hkept : ∀ r, keeps r → ¬ σ.GivesUp p n r (σ.after n step)) (r : Nat) (hr : keeps r)
    (hdrops : s.supervising.Drops σ.hub r step.2.1.supervising) :
    (step.2.2.outlook σ.hands p n).Clear r := by
  by_contra hclear
  refine hkept r hr ⟨⟨s, step.2.1, hs, (getElem?_after hs _ n).trans (if_pos rfl), hdrops⟩, ?_⟩
  rintro ⟨cell, hc, e, he, hfrees⟩
  exact hclear (Hub.clear_of_queued hc he hfrees)

private theorem parting_supervises (hσ : σ.Sound) (hsole : σ.Sole p n)
    (hs : σ.sessions[n]? = some s) (hd : s.Departing)
    (hp : σ.hub.Parting σ.hands p n keeps s.supervising) (hsup : σ.Supervises n s σ')
    (hkept : ∀ r, keeps r → ¬ σ.GivesUp p n r σ') : σ'.Parting p n keeps := by
  have hid : s.id = p := (hsole n s hs).mpr rfl
  cases hsup with
  | turn now =>
    exact ⟨_, (getElem?_after hs _ n).trans (if_pos rfl), hd.supervise σ.hub n now,
      Session.parting_supervise (hσ.session hs) hid hd hp now (clear_of_drops hs hkept)⟩
  | depart hw =>
    exact ⟨_, (getElem?_after hs _ n).trans (if_pos rfl), ⟨by simp, by simp⟩,
      Session.parting_depart (hσ.session hs) hw hp (clear_of_drops hs hkept)⟩

/-- While the player's supervisor takes it off its rooms, others act, or the supervisor does. -/
theorem departing_step (hσ : σ.Sound) (hsole : σ.Sole p n) (hO : Outlook.Lingers p n O)
    (hs : σ.sessions[n]? = some s) (hd : s.Departing) (hq : σ.hub.Shows σ.hands p n O)
    (hstep : Step p σ σ') :
    (∃ s', σ'.sessions[n]? = some s' ∧ s'.Departing ∧ s'.supervising = s.supervising ∧
        σ'.hub.Shows σ'.hands p n O) ∨ σ.Supervises n s σ' := by
  obtain ⟨c, hended⟩ := (hσ.session hs).ended_of_departing hd
  obtain ⟨s', hs', -, hkeeps⟩ := (hσ.moves hstep).kept hs
  rcases supervising_cases hσ hstep hs' with hstart | ⟨s₀, hs₀, hsame⟩ | ⟨s₀, hs₀, hsup⟩
  · exact absurd hstart (hkeeps hd).1
  · obtain rfl := Option.some.inj (hs.symm.trans hs₀)
    exact (shows_step hσ hsole hO hq hs hended hstep).imp_left fun hq' =>
      ⟨s', hs', hkeeps hd, hsame, hq'⟩
  · obtain rfl := Option.some.inj (hs.symm.trans hs₀)
    exact .inr hsup

theorem Parting.step (hσ : σ.Sound) (hsole : σ.Sole p n) (hp : σ.Parting p n keeps)
    (hstep : Patient p n keeps σ σ') : σ'.Parting p n keeps := by
  obtain ⟨s, hs, hd, hpart⟩ := hp
  rcases departing_step hσ hsole (Outlook.lingers_parting p n keeps s.supervising) hs hd hpart
    hstep.1 with ⟨s', hs', hd', hsame, hpart'⟩ | hsup
  · exact ⟨s', hs', hd', hsame ▸ hpart'⟩
  · exact parting_supervises hσ hsole hs hd hpart hsup hstep.2

/-- A supervisor that begins to leave rooms takes those that the dispatcher has left behind. -/
private theorem parting_of_joining (ha : σ.Accord p n) (hs : σ.sessions[n]? = some s) (now : Nat)
    (hnot : ¬ s.Departing) (hd : (s.stepSupervisor σ.hub n now).2.1.Departing)
    (keeps : Nat → Prop) : (σ.after n (s.stepSupervisor σ.hub n now)).Parting p n keeps := by
  have hat := getElem?_after hs (s.stepSupervisor σ.hub n now) n
  rw [if_pos rfl] at hat
  refine ⟨_, hat, hd, ?_⟩
  rw [Accord, seat_of_some hs] at ha
  obtain ⟨⟨c, hended⟩, hstep⟩ := Session.begins_departing hnot hd
  simp only [after, hstep, Session.context?, hended]
  rw [hended] at ha
  cases c with
  | none => exact ha.fits.elim
  | some c => exact ha.parting keeps

private theorem Parting.begin (hσ : σ.Sound) (ha : σ.Accord p n) (hnot : ¬ σ.Over n)
    (hstep : Step p σ σ') (hover : σ'.Over n) (keeps : Nat → Prop) : σ'.Parting p n keeps := by
  obtain ⟨s', hs', hd⟩ := hover
  rcases supervising_cases hσ hstep hs' with hstart | ⟨s, hs, hsame⟩ | ⟨s, hs, hsup⟩
  · exact absurd hstart hd.1
  · exact absurd ⟨s, hs, by rwa [Session.Departing, hsame] at hd⟩ hnot
  · have hbefore : ¬ s.Departing := fun hd => hnot ⟨s, hs, hd⟩
    cases hsup with
    | turn now =>
      rw [getElem?_after hs, if_pos rfl] at hs'
      obtain rfl := Option.some.inj hs'
      exact parting_of_joining ha hs now hbefore hd keeps
    | depart hw => exact absurd ⟨by simp [hw], by simp [hw]⟩ hbefore

theorem Patient.leads {σ₀ : System} (hl : Relation.ReflTransGen (Patient p n keeps) σ₀ σ) :
    Leads p σ₀ σ :=
  Relation.ReflTransGen.mono (fun _ _ hstep => hstep.1) _ _ hl

/-- Before it takes the player off its rooms, the supervisor gives up on none. -/
theorem patient_of_not_over {σ₀ : System} (hσ : σ₀.Sound) (hl : Leads p σ₀ σ) (hnot : ¬ σ.Over n)
    (keeps : Nat → Prop) : Relation.ReflTransGen (Patient p n keeps) σ₀ σ := by
  induction hl with
  | refl => exact .refl
  | @tail σ σ' hl hstep ih =>
    have hbefore : ¬ σ.Over n := fun ho => hnot (ho.step ((hσ.leads hl).moves hstep))
    refine (ih hbefore).tail ⟨hstep, ?_⟩
    rintro r - ⟨⟨s, s', hs, -, hdrops⟩, -⟩
    exact hbefore ⟨s, hs, drops_departing hdrops⟩

/-- The supervisor owes a leave at most to the rooms that it does not give up on. -/
theorem parting_of_patient {config : RoomConfig}
    (hl : Relation.ReflTransGen (Patient p n keeps) { hub := { config } } σ)
    (hsole : σ.Sole p n) (hover : σ.Over n) : σ.Parting p n keeps := by
  induction hl with
  | refl =>
    obtain ⟨s, hs, -⟩ := hover
    simp at hs
  | @tail σ σ' hl hstep ih =>
    have hl' := Patient.leads hl
    have hσ : σ.Sound := (sound_initial config).leads hl'
    have hsole₀ := hsole.before (hσ.moves hstep.1)
    by_cases ho : σ.Over n
    · exact (ih hsole₀ ho).step hσ hsole₀ hstep
    · have ha := (accord_of_leads hl' hsole₀).resolve_left ho
      exact Parting.begin hσ ha ho hstep.1 hover keeps

end System

end Lobby
