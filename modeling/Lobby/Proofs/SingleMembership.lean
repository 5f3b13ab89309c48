import Lobby.Proofs.Departures

/-! Of the rooms that list a player at most one means to keep it: any other has a leave of the
player in its mailbox, or the player's dispatcher remembers it. -/
namespace Lobby

namespace Outlook
variable {o : Outlook} {p : PlayerId} {n : Nat} {c : Context} {errand : Errand} {w : Wait}

/-- All rooms that list the player, but for one, are going to take it off, or the player remembers
them. -/
def AllBut (o : Outlook) (p : PlayerId) (c : Context) (own : Option Nat) : Prop :=
  ∀ r v, o.view r = some v → v.listed = true →
    own = some r ∨ v.id ∈ c.unconfirmed ∨ ∃ e ∈ v.events, e.Frees p

private theorem remembered_or_freed {v : View} (hq : o.Quiet p n v) (ha : c.Agrees v)
    (hroom : c.room ≠ some v.id) (hlisted : v.listed = true) :
    v.id ∈ c.unconfirmed ∨ ∃ e ∈ v.events, e.Frees p := by
  apply (ha.other hroom hlisted).imp_right
  rintro ⟨e, he, hk⟩
  exact ⟨e, he, (hq.2 e he).player, hk⟩

/-- Between two messages the exception is the player's room. -/
theorem Settled.allBut (hs : o.Settled p n c none) (hi : o.Indexed) :
    o.AllBut p c (c.room.bind o.room?) := by
  intro r v hv hlisted
  by_cases hroom : c.room = some v.id
  · rw [hroom]
    exact .inl (hi.registered hv)
  · exact .inr (remembered_or_freed (hs.quiet hv) (hs.agrees hv (by simp)) hroom hlisted)

/-- While a request is under way the exception is the room that has been asked. -/
theorem Engaged.allBut (he : o.Engaged p n c errand w) : o.AllBut p c (some w.room) := by
  intro r v hv hlisted
  by_cases hr : r = w.room
  · exact .inl (congrArg some hr.symm)
  · obtain ⟨hq, ha⟩ := he.elsewhere hv hr
    exact .inr (remembered_or_freed hq ha (c.room_ne he.free _) hlisted)

/-- Once the dispatcher has ended the exception is the room that the player was in. -/
theorem Parting.allBut (hp : o.Parting p n (fun _ => True) (.leaving c.memberships))
    (hi : o.Indexed) : o.AllBut p c (c.room.bind o.room?) := by
  intro r v hv hlisted
  rcases hp.clear trivial hv with hclear | howes
  · obtain ⟨e, he, hk⟩ := hclear hlisted
    exact .inr (.inr ⟨e, he, (hp.events hv e he).elim (·.1) (·.player), hk⟩)
  · rcases Hub.mem_memberships.mp howes with hroom | hmem
    · rw [hroom]
      exact .inl (hi.registered hv)
    · exact .inr (.inl hmem)

end Outlook

namespace Session
variable {s : Session} {h : Hub} {hands : Hands} {p : PlayerId} {n : Nat}

/-- Whatever the supervisor does, rooms get leaves of its player at most. -/
theorem tends_supervise (hs : s.Sound n) (hid : s.id = p) (hd : s.Departing) (hl : h.Live)
    {keeps : Nat → Prop} {before : Supervising}
    (hp : (h.outlook hands p n).Parting p n keeps before) (now : Nat) :
    Hub.Tends hands p n h (s.stepSupervisor h n now).2.2 := by
  subst hid
  cases hsup : s.supervising with
  | starting => exact absurd hsup hd.1
  | joining => exact absurd hsup hd.2
  | ended =>
    simp only [stepSupervisor, hsup]
    exact hl.spares.tends
  | leaving rooms =>
    simp only [stepSupervisor, hsup]
    cases rooms with
    | nil => exact ((apart_tearDown s h n).spares hl).tends
    | cons id rooms =>
      rw [leaveNext_cons]
      cases h.room? id with
      | none => exact hl.spares.tends
      | some r => exact (hl.parts_requestLeave r _ now).tends
  | waiting w rooms =>
    rw [stepSupervisor_waiting s h n now hsup]
    exact (hl.parts_resume hp (hs.waiting hsup) now).tends

end Session

namespace System
variable {σ σ' : System} {p : PlayerId} {n : Nat} {s : Session} {c : Context}

private theorem ended_after {m : Nat} (hs : σ.sessions[m]? = some s) {step : Session.Step}
    {s' : Session} (hs' : σ.sessions[n]? = some s')
    (hd : m = n → step.2.1.dispatching = s.dispatching) :
    ∃ s'', (σ.after m step).sessions[n]? = some s'' ∧ s''.dispatching = s'.dispatching := by
  rw [getElem?_after hs]
  split
  · rename_i hnm
    subst hnm
    obtain rfl := Option.some.inj (hs.symm.trans hs')
    exact ⟨_, rfl, hd rfl⟩
  · exact ⟨s', hs', rfl⟩

/-- A dispatcher that has ended leaves its state behind for good. -/
theorem dispatching_of_ended (hσ : σ.Sound) (hs : σ.sessions[n]? = some s) {c : Option Context}
    (hended : s.dispatching = .ended c) (hstep : Step p σ σ') :
    ∃ s', σ'.sessions[n]? = some s' ∧ s'.dispatching = .ended c := by
  rw [← hended]
  cases hstep with
  | @read m s' hs' =>
    exact ended_after hs' hs fun _ => (Session.aside_stepReader s' σ.hub m).session.dispatching
  | @write m s' hs' =>
    exact ended_after hs' hs fun _ => (Session.aside_stepWriter s' σ.hub m).session.dispatching
  | @dispatch m s' hs' now =>
    refine ended_after hs' hs ?_
    rintro rfl
    obtain rfl := Option.some.inj (hs.symm.trans hs')
    cases hcell : σ.hub.players[m]? with
    | none => rw [s.stepDispatcher_of_absent hcell now]
    | some cell => simp [Session.stepDispatcher, hcell, hended]
  | @lapse m s' cell c' pending hs' hcell hb =>
    refine ended_after hs' hs ?_
    rintro rfl
    obtain rfl := Option.some.inj (hs.symm.trans hs')
    simp [hb] at hended
  | @supervise m s' hs' now =>
    obtain ⟨next, hnext, -⟩ := (hσ.session hs').supervise σ.hub now
    exact ended_after hs' hs fun _ => by rw [hnext]
  | @depart m s' w rooms hs' hw => exact ended_after hs' hs fun _ => rfl
  | stream hs' f => exact ended_after hs' hs fun _ => rfl
  | connect window ho =>
    have hlt := (Array.getElem?_eq_some_iff.mp hs).1
    exact ⟨s, by simp [Array.getElem?_push, hlt.ne, hs], rfl⟩
  | _ => exact ⟨s, hs, rfl⟩

def Left (σ : System) (p : PlayerId) (n : Nat) : Prop :=
  ∃ s c, σ.sessions[n]? = some s ∧ s.Departing ∧ s.dispatching = .ended (some c) ∧
    σ.hub.Parting σ.hands p n (fun _ => True) (.leaving c.memberships)

private theorem Left.supervises (hσ : σ.Sound) (hsole : σ.Sole p n)
    (hs : σ.sessions[n]? = some s) (hd : s.Departing) {before : Supervising}
    (hp : σ.hub.Parting σ.hands p n (fun _ => True) before) (hsup : σ.Supervises n s σ') :
    σ'.hub.Parting σ'.hands p n (fun _ => True) before := by
  have hid : s.id = p := (hsole n s hs).mpr rfl
  have htends : Hub.Tends σ.hands p n σ.hub σ'.hub := by
    cases hsup with
    | turn now => exact Session.tends_supervise (hσ.session hs) hid hd hp.live hp.outlook now
    | depart hw => exact hp.live.tends_expire ((hσ.session hs).waiting hw)
  have hkept : σ'.hub.Parting σ.hands p n (fun _ => True) before :=
    hp.tends htends fun _ _ _ _ => .inl
  cases hsup <;> exact hkept

theorem Left.step (hσ : σ.Sound) (hsole : σ.Sole p n) (hleft : σ.Left p n)
    (hstep : Step p σ σ') : σ'.Left p n := by
  obtain ⟨s, c, hs, hd, hended, hp⟩ := hleft
  obtain ⟨s', hs', -, hkeeps⟩ := (hσ.moves hstep).kept hs
  obtain ⟨s'', hs'', hended'⟩ := dispatching_of_ended hσ hs hended hstep
  obtain rfl := Option.some.inj (hs'.symm.trans hs'')
  refine ⟨s', c, hs', hkeeps hd, hended', ?_⟩
  have hlingers := Outlook.lingers_parting p n (fun _ => True) (.leaving c.memberships)
  rcases departing_step hσ hsole hlingers hs hd hp hstep with ⟨-, -, -, -, hp'⟩ | hsup
  · exact hp'
  · exact Left.supervises hσ hsole hs hd hp hsup

private theorem Left.begin (hσ : σ.Sound) (ha : σ.Accord p n) (hnot : ¬ σ.Over n)
    (hstep : Step p σ σ') (hover : σ'.Over n) : σ'.Left p n := by
  obtain ⟨s', hs', hd⟩ := hover
  rcases supervising_cases hσ hstep hs' with hstart | ⟨s, hs, hsame⟩ | ⟨s, hs, hsup⟩
  · exact absurd hstart hd.1
  · exact absurd ⟨s, hs, by rwa [Session.Departing, hsame] at hd⟩ hnot
  · have hbefore : ¬ s.Departing := fun hd => hnot ⟨s, hs, hd⟩
    cases hsup with
    | depart hw => exact absurd ⟨by simp [hw], by simp [hw]⟩ hbefore
    | turn now =>
      rw [getElem?_after hs, if_pos rfl] at hs'
      obtain rfl := Option.some.inj hs'
      obtain ⟨⟨c, hended⟩, hturn⟩ := Session.begins_departing hbefore hd
      rw [Accord, seat_of_some hs, hended] at ha
      cases c with
      | none => exact ha.fits.elim
      | some c =>
        refine ⟨_, c, (getElem?_after hs _ n).trans (if_pos rfl), hd, ?_, ?_⟩
        · rw [hturn]
          exact hended
        · simp only [after, hturn]
          exact ha.parting fun _ => True

/-- The rooms agree with the player at all times, or they agree with what its dispatcher has left
behind. -/
theorem accord_or_left {config : RoomConfig} (hl : Leads p { hub := { config } } σ)
    (hsole : σ.Sole p n) : σ.Accord p n ∨ σ.Left p n := by
  suffices h : σ.Over n → σ.Left p n by
    exact (accord_of_leads hl hsole).symm.imp_right h
  induction hl with
  | refl =>
    rintro ⟨s, hs, -⟩
    simp at hs
  | @tail σ σ' hl hstep ih =>
    intro hover
    have hσ : σ.Sound := (sound_initial config).leads hl
    have hsole₀ := hsole.before (hσ.moves hstep)
    by_cases ho : σ.Over n
    · exact (ih hsole₀ ho).step hσ hsole₀ hstep
    · exact Left.begin hσ ((accord_of_leads hl hsole₀).resolve_left ho) ho hstep hover

def Remembers (σ : System) (p : PlayerId) (id : RoomId) : Prop :=
  ∃ (m : Nat) (s : Session) (c : Context), σ.sessions[m]? = some s ∧ s.id = p ∧
    s.context? = some c ∧ id ∈ c.unconfirmed

/-- The state of a player as its dispatcher has it or has left it behind, or as it will begin. -/
private theorem exists_allBut {config : RoomConfig} (hl : Leads p { hub := { config } } σ)
    (hsole : σ.Sole p n) : ∃ c own, (σ.hub.outlook σ.hands p n).AllBut p c own ∧
      ∀ id ∈ c.unconfirmed, σ.Remembers p id := by
  have remembers {s : Session} {c : Context} (hs : σ.sessions[n]? = some s)
      (hc : s.context? = some c) : ∀ id ∈ c.unconfirmed, σ.Remembers p id :=
    fun id hid => ⟨n, s, c, hs, (hsole n s hs).mpr rfl, hc, hid⟩
  rcases accord_or_left hl hsole with ha | ⟨s, c, hs, -, hended, hp⟩
  · have hi : (σ.hub.outlook σ.hands p n).Indexed := ha.live.coherent
    have hfits := ha.fits
    cases hs : σ.sessions[n]? with
    | none =>
      have hseat : σ.seat p n = .idle (blank p) := by simp [seat, hs]
      rw [hseat] at hfits
      exact ⟨_, _, Outlook.Settled.allBut hfits hi, by simp [blank]⟩
    | some s =>
      rw [seat_of_some hs] at hfits
      have hremembers := fun c => remembers (c := c) hs
      rw [Session.context?] at hremembers
      cases hd : s.dispatching with
      | idle c =>
        rw [hd] at hfits hremembers
        exact ⟨c, _, Outlook.Settled.allBut hfits hi, hremembers c rfl⟩
      | busy c pending =>
        rw [hd] at hfits hremembers
        exact ⟨c, _, Outlook.Engaged.allBut hfits, hremembers c rfl⟩
      | ended c =>
        rw [hd] at hfits hremembers
        cases c with
        | none => exact hfits.elim
        | some c => exact ⟨c, _, Outlook.Settled.allBut hfits hi, hremembers c rfl⟩
  · refine ⟨c, _, hp.outlook.allBut hp.live.coherent, remembers hs ?_⟩
    rw [Session.context?, hended]

def Unshared (σ : System) (p : PlayerId) : Prop :=
  ∀ (m m' : Nat) (s s' : Session), σ.sessions[m]? = some s → σ.sessions[m']? = some s' →
    s.id = p → s'.id = p → m = m'

private theorem Unshared.exists_sole (honly : σ.Unshared p) : ∃ n, σ.Sole p n := by
  by_cases hex : ∃ (n : Nat) (s : Session), σ.sessions[n]? = some s ∧ s.id = p
  · obtain ⟨n, s, hs, hid⟩ := hex
    exact ⟨n, sole_of_only hs hid fun m s' hs' hid' => honly m n s' s hs' hs hid' hid⟩
  · refine ⟨σ.sessions.size, fun m s hs => ⟨fun hid => absurd ⟨m, s, hs, hid⟩ hex, ?_⟩⟩
    rintro rfl
    simp at hs

/-- A player is kept by one room at most. In every state that a server can come to, of any two
rooms that list a player, one has a leave of the player in its mailbox, or is remembered by the
player's dispatcher as one that may list it all the same. -/
theorem kept_by_one_room (hr : Reachable p σ) (honly : σ.Unshared p) {r r' : Nat}
    {cell cell' : RoomCell} (hc : σ.hub.rooms[r]? = some cell)
    (hc' : σ.hub.rooms[r']? = some cell') (hne : r ≠ r') (hm : cell.room.hasMember p = true)
    (hm' : cell'.room.hasMember p = true) :
    (σ.Told p r ∨ σ.Remembers p cell.room.id) ∨ σ.Told p r' ∨ σ.Remembers p cell'.room.id := by
  obtain ⟨config, hl⟩ := hr
  obtain ⟨n, hsole⟩ := honly.exists_sole
  have hσ : σ.Sound := (sound_initial config).leads hl
  obtain ⟨c, own, hall, hremembers⟩ := exists_allBut hl hsole
  have except {r : Nat} {cell : RoomCell} (hc : σ.hub.rooms[r]? = some cell)
      (hm : cell.room.hasMember p = true) (hown : own ≠ some r) :
      σ.Told p r ∨ σ.Remembers p cell.room.id := by
    rcases hall r _ (Hub.view_outlook hc) hm with h | h | ⟨e, he, hfrees⟩
    · exact absurd h hown
    · exact .inr (hremembers _ h)
    · exact .inl ⟨cell, hc, e, hσ.queued_of_leave he hfrees.2, hfrees⟩
  by_cases hown : own = some r
  · exact .inr (except hc' hm' fun h => hne (Option.some.inj (hown.symm.trans h)))
  · exact .inl (except hc hm hown)

private def between : Session × Hub := serve (attend 1 (serve unanswered))

private theorem reachable_between : Reachable mover (lone between) :=
  ⟨{}, ((leads_unanswered.tail (step_serve _)).tail (step_attend 1 _)).tail (step_serve _)⟩

private theorem unshared_lone (x : Session × Hub) : (lone x).Unshared mover := by
  intro m m' s s' hs hs' _ _
  have hlt : m < 1 := (Array.getElem?_eq_some_iff.mp hs).1
  have hlt' : m' < 1 := (Array.getElem?_eq_some_iff.mp hs').1
  omega

private theorem listed_between {r : Nat} (hr : r < 2) :
    ∃ cell, (lone between).hub.rooms[r]? = some cell ∧ cell.room.hasMember mover = true := by
  have hlisted : ∀ r < 2, between.2.rooms[r]?.map (·.room.hasMember mover) = some true := by
    decide +kernel
  exact Option.map_eq_some_iff.mp (hlisted r hr)

theorem kept_by_one_room_mover : ∃ (σ : System) (p : PlayerId) (cell cell' : RoomCell),
    Reachable p σ ∧ σ.Unshared p ∧ σ.hub.rooms[0]? = some cell ∧ σ.hub.rooms[1]? = some cell' ∧
      cell.room.hasMember p = true ∧ cell'.room.hasMember p = true ∧
      ((σ.Told p 0 ∨ σ.Remembers p cell.room.id) ∨ σ.Told p 1 ∨ σ.Remembers p cell'.room.id) := by
  obtain ⟨cell, hc, hm⟩ := listed_between (r := 0) (by decide)
  obtain ⟨cell', hc', hm'⟩ := listed_between (r := 1) (by decide)
  exact ⟨_, mover, cell, cell', reachable_between, unshared_lone _, hc, hc', hm, hm',
    kept_by_one_room reachable_between (unshared_lone _) hc hc' (by decide) hm hm'⟩

/-- A player whose leave has not been answered in time comes to be listed by two rooms. -/
theorem mover_listed_twice : ∃ (σ : System) (p : PlayerId) (cell cell' : RoomCell),
    Reachable p σ ∧ σ.Unshared p ∧ σ.hub.rooms[0]? = some cell ∧ σ.hub.rooms[1]? = some cell' ∧
      cell.room.hasMember p = true ∧ cell'.room.hasMember p = true := by
  obtain ⟨cell, hc, hm⟩ := listed_between (r := 0) (by decide)
  obtain ⟨cell', hc', hm'⟩ := listed_between (r := 1) (by decide)
  exact ⟨_, mover, cell, cell', reachable_between, unshared_lone _, hc, hc', hm, hm'⟩

end System

end Lobby
