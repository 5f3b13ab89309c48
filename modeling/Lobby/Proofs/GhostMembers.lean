import Lobby.Proofs.Departures

/-! What a player leaves behind when all its tasks have ended. A room that its supervisor has not
given up on lists it only as long as a leave is queued there. A room that lists it without one
goes on doing so. -/
namespace Lobby

namespace Outlook
variable {o o' : Outlook} {p : PlayerId} {n r : Nat}

/-- A room lists the player, and no event on its way there will change that. -/
structure Haunted (o : Outlook) (p : PlayerId) (n r : Nat) : Prop where
  owned : o.Owned n
  listed : ∃ v, o.view r = some v ∧ v.listed = true ∧
    ∀ e ∈ v.events, o.Spent p n e ∧ e.kind ≠ .leave

theorem lingers_haunted (p : PlayerId) (n r : Nat) : Lingers p n fun o => o.Haunted p n r where
  owned := Haunted.owned
  grows hh hg := by
    obtain ⟨v, hv, hlisted, hevents⟩ := hh.listed
    refine ⟨hg.owned hh.owned, v, hg.kept hv, hlisted, fun e he => ?_⟩
    exact (hevents e he).imp_left fun hspent => hspent.grows hg
  handled {o q u e rest listed reply?} hh hu hev hlisted hreply := by
    obtain ⟨v, hv, hmember, hevents⟩ := hh.listed
    have hspent (e' : Event Ticket) (h : o.Spent p n e') :
        (o.handled q rest listed reply?).Spent p n e' :=
      h.lasts (Nat.le_refl _) fun t _ _ => hreply t
    constructor
    · intro q' v' w hv' hw
      rw [view_handled hu] at hv'
      split at hv'
      · obtain rfl := Option.some.inj hv'
        exact hh.owned q u w hu hw
      · exact hh.owned q' v' w hv' hw
    · rw [view_handled hu]
      by_cases hr : r = q
      · subst hr
        obtain rfl := Option.some.inj (hv.symm.trans hu)
        obtain ⟨he, hk⟩ := hevents e (by simp [hev])
        refine ⟨_, if_pos rfl, ?_, fun e' he' => ?_⟩
        · simp [hlisted (.inr he), hmember, hk]
        · exact (hevents e' (hev ▸ List.mem_cons_of_mem _ he')).imp_left (hspent e')
      · exact ⟨v, (if_neg hr).trans hv, hmember, fun e' he' =>
          (hevents e' he').imp_left (hspent e')⟩

end Outlook

namespace System
variable {σ σ' : System} {p : PlayerId} {n r : Nat} {s : Session} {cell : RoomCell}
  {O : Outlook → Prop} {keeps : Nat → Prop} {config : RoomConfig}

/-- Once its supervisor has ended, nobody acts for the player, unless it comes back. -/
private theorem ended_step (hσ : σ.Sound) (hsole : σ.Sole p n) (hO : Outlook.Lingers p n O)
    (hs : σ.sessions[n]? = some s) (hended : s.supervising = .ended)
    (hq : σ.hub.Shows σ.hands p n O) (hstep : Step p σ σ') :
    ∃ s', σ'.sessions[n]? = some s' ∧ s'.supervising = .ended ∧ σ'.hub.Shows σ'.hands p n O := by
  have hd : s.Departing := ⟨by simp [hended], by simp [hended]⟩
  rcases departing_step hσ hsole hO hs hd hq hstep with ⟨s', hs', -, hsame, hq'⟩ | hsup
  · exact ⟨s', hs', hsame.trans hended, hq'⟩
  · cases hsup with
    | turn now =>
      have hturn : s.stepSupervisor σ.hub n now = (false, s, σ.hub) := by
        simp [Session.stepSupervisor, hended]
      rw [hturn]
      exact ⟨s, (getElem?_after hs _ n).trans (if_pos rfl), hended, hq⟩
    | depart hw => simp [hended] at hw

private theorem ended_leads (hσ : σ.Sound) (hO : Outlook.Lingers p n O)
    (hs : σ.sessions[n]? = some s) (hended : s.supervising = .ended)
    (hq : σ.hub.Shows σ.hands p n O) (hl : Leads p σ σ') (hsole : σ'.Sole p n) :
    ∃ s', σ'.sessions[n]? = some s' ∧ s'.supervising = .ended ∧ σ'.hub.Shows σ'.hands p n O := by
  induction hl with
  | refl => exact ⟨s, hs, hended, hq⟩
  | tail hl hstep ih =>
    have hσ' := hσ.leads hl
    have hsole' := hsole.before (hσ'.moves hstep)
    obtain ⟨s', hs', hended', hq'⟩ := ih hsole'
    exact ended_step hσ' hsole' hO hs' hended' hq' hstep

private theorem kept_leads (hσ : σ.Sound) (hs : σ.sessions[n]? = some s) (hl : Leads p σ σ') :
    ∃ s', σ'.sessions[n]? = some s' ∧ s'.id = s.id := by
  induction hl with
  | refl => exact ⟨s, hs, rfl⟩
  | tail hl hstep ih =>
    obtain ⟨s₁, hs₁, hid₁⟩ := ih
    obtain ⟨s₂, hs₂, hid₂, -⟩ := ((hσ.leads hl).moves hstep).kept hs₁
    exact ⟨s₂, hs₂, hid₂.trans hid₁⟩

/-- The player has no other session at any time, if it has none in the end. -/
private theorem sole_throughout (hσ : σ.Sound) (hs : σ.sessions[n]? = some s) (hid : s.id = p)
    (hl : Leads p σ σ') (honly : ∀ m s', σ'.sessions[m]? = some s' → s'.id = p → m = n) :
    σ.Sole p n ∧ σ'.Sole p n := by
  obtain ⟨s', hs', hid'⟩ := kept_leads hσ hs hl
  have hsole := sole_of_only hs' (hid'.trans hid) honly
  refine ⟨?_, hsole⟩
  clear hs' honly
  induction hl with
  | refl => exact hsole
  | tail hl hstep ih => exact ih (hsole.before ((hσ.leads hl).moves hstep))

private theorem parting_of_ended
    (hl : Relation.ReflTransGen (Patient p n keeps) { hub := { config } } σ) (hsole : σ.Sole p n)
    (hs : σ.sessions[n]? = some s) (hended : s.supervising = .ended) :
    σ.hub.Parting σ.hands p n keeps .ended := by
  obtain ⟨s', hs', -, hpart⟩ := parting_of_patient hl hsole
    ⟨s, hs, by simp [hended], by simp [hended]⟩
  obtain rfl := Option.some.inj (hs.symm.trans hs')
  rwa [hended] at hpart

/-- Once all tasks of a player have ended, a room that its supervisor has not given up on lists it
only as long as a leave is queued there, whatever happens until the player comes back. -/
theorem taken_off_unless_given_up
    (hl : Relation.ReflTransGen (Patient p n (· = r)) { hub := { config } } σ)
    (hs : σ.sessions[n]? = some s) (hid : s.id = p) (hended : s.supervising = .ended)
    (hl' : Leads p σ σ') (honly : ∀ m s', σ'.sessions[m]? = some s' → s'.id = p → m = n)
    (hc : σ'.hub.rooms[r]? = some cell) (hmember : cell.room.hasMember p = true) :
    ∃ e ∈ cell.events.queue, e.player = p ∧ e.kind = .leave := by
  have hσ : σ.Sound := (sound_initial config).leads (Patient.leads hl)
  obtain ⟨hsole, hsole'⟩ := sole_throughout hσ hs hid hl' honly
  obtain ⟨-, -, -, hpart⟩ := ended_leads hσ (Outlook.lingers_parting p n (· = r) .ended) hs hended
    (parting_of_ended hl hsole hs hended) hl' hsole'
  have hv : (σ'.hub.outlook σ'.hands p n).view r = some (cell.view (σ'.hands r) p n) :=
    Hub.view_outlook hc
  obtain ⟨e, he, hk⟩ := (hpart.outlook.clear rfl hv).resolve_right id hmember
  refine ⟨e, (hσ.leads hl').queued_of_leave he hk, ?_, hk⟩
  exact (hpart.outlook.events hv e he).elim And.left Outlook.Spent.player

/-- A room that lists the player and has no leave of it in its mailbox is not going to take it
off. -/
private theorem haunted_of_parting (hσ : σ.Sound) {sup : Supervising}
    (hp : σ.hub.Parting σ.hands p n keeps sup) (hc : σ.hub.rooms[r]? = some cell)
    (hmember : cell.room.hasMember p = true)
    (hnone : ∀ e ∈ cell.events.queue, ¬ (e.player = p ∧ e.kind = .leave)) :
    (σ.hub.outlook σ.hands p n).Haunted p n r := by
  have hv : (σ.hub.outlook σ.hands p n).view r = some (cell.view (σ.hands r) p n) :=
    Hub.view_outlook hc
  refine ⟨hp.outlook.owned, _, hv, hmember, fun e he => ?_⟩
  have hnot : ¬ e.Frees p := fun hfrees => hnone e (hσ.queued_of_leave he hfrees.2) hfrees
  have hspent := (hp.outlook.events hv e he).resolve_left hnot
  exact ⟨hspent, fun hk => hnot ⟨hspent.player, hk⟩⟩

/-- Once all tasks of a player have ended, a room that lists it without a leave in its mailbox goes
on doing so, whatever happens until the player comes back. -/
theorem ghost_stays (hr : Reachable p σ) (hs : σ.sessions[n]? = some s) (hid : s.id = p)
    (hended : s.supervising = .ended) (hc : σ.hub.rooms[r]? = some cell)
    (hmember : cell.room.hasMember p = true)
    (hnone : ∀ e ∈ cell.events.queue, ¬ (e.player = p ∧ e.kind = .leave)) (hl' : Leads p σ σ')
    (honly : ∀ m s', σ'.sessions[m]? = some s' → s'.id = p → m = n) :
    ∃ cell', σ'.hub.rooms[r]? = some cell' ∧ cell'.room.hasMember p = true ∧
      ∀ e ∈ cell'.events.queue, ¬ (e.player = p ∧ e.kind = .leave) := by
  obtain ⟨config, hl⟩ := hr
  have hpatient : Relation.ReflTransGen (Patient p n fun _ => False) { hub := { config } } σ :=
    Relation.ReflTransGen.mono (fun _ _ hstep => ⟨hstep, by simp⟩) _ _ hl
  have hσ : σ.Sound := (sound_initial config).leads hl
  obtain ⟨hsole, hsole'⟩ := sole_throughout hσ hs hid hl' honly
  have hpart := parting_of_ended hpatient hsole hs hended
  have hnow : σ.hub.Shows σ.hands p n fun o => o.Haunted p n r :=
    ⟨hpart.live, hpart.held, haunted_of_parting hσ hpart hc hmember hnone⟩
  obtain ⟨-, -, -, hlater⟩ :=
    ended_leads hσ (Outlook.lingers_haunted p n r) hs hended hnow hl' hsole'
  obtain ⟨v, hv, hlisted, hevents⟩ := hlater.outlook.listed
  obtain ⟨cell', hc', rfl⟩ := Option.map_eq_some_iff.mp hv
  refine ⟨cell', hc', hlisted, ?_⟩
  rintro e he ⟨hplayer, hk⟩
  have hfrees : e.Frees p := ⟨hplayer, hk⟩
  have hmem : e ∈ (cell'.view (σ'.hands r) p n).events :=
    List.mem_filter.mpr ⟨List.mem_append_right _ he, hfrees.concerns n⟩
  exact (hevents e hmem).2 hk

private def hermit : PlayerId := ⟨"hermit"⟩

private def alone (x : Session × Hub) : System := ⟨x.2, #[x.1], fun _ => none⟩

private def dispatch (x : Session × Hub) : Session × Hub := (x.1.stepDispatcher x.2 0 0).2

private def supervise (x : Session × Hub) : Session × Hub := (x.1.stepSupervisor x.2 0 0).2

private def host (x : Session × Hub) : Session × Hub := (x.1, (x.2.stepRoom 0).2)

private def desert (x : Session × Hub) : Session × Hub :=
  let read := ({ x.1 with stream := x.1.stream.finish } : Session).stepReader x.2 0
  (read.2.1.stepWriter read.2.2 0).2

private theorem step_dispatch (x : Session × Hub) : Step hermit (alone x) (alone (dispatch x)) :=
  .dispatch rfl 0

private theorem step_supervise (x : Session × Hub) :
    Step hermit (alone x) (alone (supervise x)) :=
  .supervise rfl 0

private theorem leads_desert (x : Session × Hub) : Leads hermit (alone x) (alone (desert x)) := by
  have hfinish : Step hermit (alone x)
      (alone ({ x.1 with stream := x.1.stream.finish }, x.2)) :=
    .stream (n := 0) (s := x.1) rfl Stream.finish
  have hread : Step hermit (alone ({ x.1 with stream := x.1.stream.finish }, x.2))
      (alone (({ x.1 with stream := x.1.stream.finish } : Session).stepReader x.2 0).2) :=
    .read rfl
  have hwrite : Step hermit
      (alone (({ x.1 with stream := x.1.stream.finish } : Session).stepReader x.2 0).2)
      (alone (desert x)) :=
    .write rfl
  exact ((Relation.ReflTransGen.single hfinish).tail hread).tail hwrite

private def connected : Session × Hub :=
  (.start 0 hermit {} .standard none,
    (({ config := { eventCapacity := 1 } } : Hub).openPlayer hermit {}).2.2)

private def asking : Session × Hub :=
  (connected.1, connected.2.setPlayer 0
    { id := hermit
      inbound :=
        { Mailbox.ofCapacity "hermit/inbound" 1000 with
          queue := [{ kind := .createRoomRequest, data := [123, 125] }] } })

private def deserted : Session × Hub :=
  dispatch (desert (supervise (dispatch (host (dispatch asking)))))

private theorem leads_deserted :
    Leads hermit { hub := { config := { eventCapacity := 1 } } } (alone deserted) := by
  have hconnect : Step hermit { hub := { config := { eventCapacity := 1 } } } (alone connected) :=
    .connect none rfl
  have hask : Step hermit (alone connected) (alone asking) :=
    .aside ⟨rfl, rfl, rfl, rfl, Nat.le_refl _⟩
  have hhost : Step hermit (alone (dispatch asking)) (alone (host (dispatch asking))) := .room rfl
  have hhoused := ((((Relation.ReflTransGen.single hconnect).tail hask).tail
    (step_dispatch asking)).tail hhost).tail (step_dispatch _)
  exact ((hhoused.tail (step_supervise _)).trans (leads_desert _)).tail (step_dispatch _)

private theorem supervising_deserted : deserted.1.supervising = .joining := by decide +kernel

private theorem patient_deserted : Relation.ReflTransGen (Patient hermit 0 (· = 0))
    { hub := { config := { eventCapacity := 1 } } } (alone deserted) := by
  apply patient_of_not_over (sound_initial _) leads_deserted
  rintro ⟨s, hs, hd⟩
  obtain rfl : deserted.1 = s := Option.some.inj hs
  exact hd.2 supervising_deserted

private def departing : Session × Hub := supervise deserted

private theorem supervising_departing : departing.1.supervising = .leaving [⟨1⟩] := by
  decide +kernel

private def giveIn (w : Wait) (x : Session × Hub) : Session × Hub :=
  supervise ({ x.1 with supervising := .leaving [] }, (x.2.expire w).2)

private theorem step_depart {x : Session × Hub} {w : Wait} (hw : x.1.supervising = .waiting w []) :
    Step hermit (alone x) (alone ({ x.1 with supervising := .leaving [] }, (x.2.expire w).2)) :=
  .depart (n := 0) (s := x.1) rfl hw

private theorem patient_alone {x y : Session × Hub} (hstep : Step hermit (alone x) (alone y))
    (hdrops : ¬ x.1.supervising.Drops x.2 0 y.1.supervising) :
    Patient hermit 0 (· = 0) (alone x) (alone y) := by
  refine ⟨hstep, ?_⟩
  rintro r rfl ⟨⟨s, s', hs, hs', hd⟩, -⟩
  obtain rfl : x.1 = s := Option.some.inj hs
  obtain rfl : y.1 = s' := Option.some.inj hs'
  exact hdrops hd

private theorem only_alone (x : Session × Hub) (m : Nat) (s : Session)
    (hs : (alone x).sessions[m]? = some s) (_ : s.id = hermit) : m = 0 := by
  have hlt : m < 1 := (Array.getElem?_eq_some_iff.mp hs).1
  exact Nat.lt_one_iff.mp hlt

private def told : Wait := ⟨⟨.supervisor 0, 2⟩, 0, .answer, 5000, 0, 3⟩

private theorem supervising_told : (supervise departing).1.supervising = .waiting told [] := by
  decide +kernel

private theorem patient_told : Relation.ReflTransGen (Patient hermit 0 (· = 0))
    { hub := { config := { eventCapacity := 1 } } }
    (alone (giveIn told (supervise departing))) := by
  have hbegin : Patient hermit 0 (· = 0) (alone deserted) (alone departing) := by
    refine patient_alone (step_supervise _) ?_
    rw [supervising_deserted]
    exact id
  have htell : Patient hermit 0 (· = 0) (alone departing) (alone (supervise departing)) := by
    refine patient_alone (step_supervise _) ?_
    rw [supervising_departing, supervising_told]
    exact id
  have hlapse := patient_alone (step_depart supervising_told) (by
    rw [supervising_told]
    rintro ⟨-, -, hslot⟩
    contradiction)
  have hend := patient_alone (step_supervise
    ({ (supervise departing).1 with supervising := .leaving [] },
      ((supervise departing).2.expire told).2)) id
  exact (((patient_deserted.tail hbegin).tail htell).tail hlapse).tail hend

/-- A player whose tasks have ended before its room has handled the leave. -/
theorem taken_off_hermit : ∃ (σ : System) (p : PlayerId) (s : Session) (cell : RoomCell),
    Relation.ReflTransGen (Patient p 0 (· = 0))
      { hub := { config := { eventCapacity := 1 } } } σ ∧
    σ.sessions[0]? = some s ∧ s.id = p ∧ s.supervising = .ended ∧ Leads p σ σ ∧
    (∀ m s', σ.sessions[m]? = some s' → s'.id = p → m = 0) ∧
    σ.hub.rooms[0]? = some cell ∧ cell.room.hasMember p = true ∧
    ∃ e ∈ cell.events.queue, e.player = p ∧ e.kind = .leave := by
  have hid : (giveIn told (supervise departing)).1.id = hermit := by decide +kernel
  have hended : (giveIn told (supervise departing)).1.supervising = .ended := by decide +kernel
  have hlisted : ((giveIn told (supervise departing)).2.rooms[0]?.map
      (·.room.hasMember hermit)) = some true := by decide +kernel
  obtain ⟨cell, hc, hmember⟩ := Option.map_eq_some_iff.mp hlisted
  exact ⟨_, hermit, _, cell, patient_told, rfl, hid, hended, .refl, only_alone _, hc, hmember,
    taken_off_unless_given_up patient_told rfl hid hended .refl (only_alone _) hc hmember⟩

/-- A visitor has filled the mailbox of the room. -/
private def crowded : Session × Hub :=
  (departing.1, (departing.2.offerEvent 0 ⟨⟨"visitor"⟩, .chat "hello"⟩).2)

private def queuing : Wait := ⟨⟨.supervisor 0, 2⟩, 0, .slot, 5000, 0, 2⟩

private theorem supervising_queuing : (supervise crowded).1.supervising = .waiting queuing [] := by
  decide +kernel

private theorem leads_queuing : Leads hermit { hub := { config := { eventCapacity := 1 } } }
    (alone (giveIn queuing (supervise crowded))) := by
  have hvisit : Step hermit (alone departing) (alone crowded) :=
    .visit (.offer 0 (e := ⟨⟨"visitor"⟩, .chat "hello"⟩) (by decide) rfl)
  exact ((((leads_deserted.tail (step_supervise _)).tail hvisit).tail (step_supervise _)).tail
    (step_depart supervising_queuing)).tail (step_supervise _)

/-- A player whose supervisor has given up on a full mailbox is left behind as a ghost. -/
theorem hermit_stays_listed : ∃ (σ : System) (p : PlayerId) (s : Session),
    Reachable p σ ∧ σ.sessions[0]? = some s ∧ s.id = p ∧ s.supervising = .ended ∧
    (∀ m s', σ.sessions[m]? = some s' → s'.id = p → m = 0) ∧
    ∀ σ', Leads p σ σ' → (∀ m s', σ'.sessions[m]? = some s' → s'.id = p → m = 0) →
      ∃ cell, σ'.hub.rooms[0]? = some cell ∧ cell.room.hasMember p = true ∧
        ∀ e ∈ cell.events.queue, ¬ (e.player = p ∧ e.kind = .leave) := by
  have hid : (giveIn queuing (supervise crowded)).1.id = hermit := by decide +kernel
  have hended : (giveIn queuing (supervise crowded)).1.supervising = .ended := by decide +kernel
  have hghost : ((giveIn queuing (supervise crowded)).2.rooms[0]?.map fun cell =>
      decide (cell.room.hasMember hermit = true ∧
        ∀ e ∈ cell.events.queue, ¬ (e.player = hermit ∧ e.kind = .leave))) = some true := by
    decide +kernel
  obtain ⟨cell, hc, hcell⟩ := Option.map_eq_some_iff.mp hghost
  obtain ⟨hmember, hnone⟩ := of_decide_eq_true hcell
  have hr : Reachable hermit (alone (giveIn queuing (supervise crowded))) := ⟨_, leads_queuing⟩
  refine ⟨_, hermit, _, hr, rfl, hid, hended, only_alone _, fun σ' hl honly => ?_⟩
  exact ghost_stays hr rfl hid hended hc hmember hnone hl honly

end System

end Lobby
