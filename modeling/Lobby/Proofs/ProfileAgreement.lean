import Lobby.Proofs.ProfileTurns

/-! The copy that a player's room has of its profile is the player's own, once the room has handled
what it has been sent, as long as it has refused no update since it let the player in. -/
namespace Lobby.System
variable {σ σ' : System} {p : PlayerId} {n : Nat} {id : RoomId} {upToDate later : Prop}
  {s : Session} {c : Context}

def roomOf? (σ : System) (n : Nat) : Option RoomId :=
  (σ.sessions[n]?.bind (·.dispatching.context?)).bind (·.room)

/-- At a step, the dispatcher of session number `n` takes a request that changes its player's
profile, and the player's room refuses the update. -/
def Refuses (σ : System) (n : Nat) (id : RoomId) (σ' : System) : Prop :=
  ∃ (s : Session) (c : Context) (cell : PlayerCell) (hp : σ.hub.players[n]? = some cell)
    (now : Nat), σ.sessions[n]? = some s ∧ s.dispatching = .idle c ∧ c.room = some id ∧
      (s.turn hp now).Rebuffed c ∧ σ' = σ.after n (s.stepDispatcher σ.hub n now)

/-- A state that a server without rooms and players has come to, and since a room has let in the
player of session number `n` it has refused no update of the player's profile. -/
inductive Unrefused (p : PlayerId) (n : Nat) (id : RoomId) : System → Prop
  | admitted {σ σ' : System} (hr : Reachable p σ) (hstep : Step p σ σ')
      (hout : σ.roomOf? n ≠ some id) (hin : σ'.roomOf? n = some id) : Unrefused p n id σ'
  | step {σ σ' : System} (hu : Unrefused p n id σ) (hstep : Step p σ σ')
      (hnot : ¬ σ.Refuses n id σ') : Unrefused p n id σ'

theorem Unrefused.reachable (hu : Unrefused p n id σ) : Reachable p σ := by
  induction hu with
  | admitted hr hstep => exact hr.step hstep
  | step _ hstep _ ih => exact ih.step hstep

/-- A player that is in a room: either the room has refused none of its updates since it let the
player in, or it has refused one, and the player has been there ever since. -/
theorem unrefused_or_refused (hr : Reachable p σ) (hin : σ.roomOf? n = some id) :
    Unrefused p n id σ ∨ ∃ before after, Reachable p before ∧ before.Refuses n id after ∧
      Relation.ReflTransGen (fun a b => Step p a b ∧ b.roomOf? n = some id) after σ := by
  obtain ⟨config, hl⟩ := hr
  induction hl with
  | refl => simp [roomOf?] at hin
  | @tail σ₁ σ₂ hl hstep ih =>
    by_cases hroom : σ₁.roomOf? n = some id
    · rcases ih hroom with hu | ⟨before, after, hbefore, hrefuses, hstay⟩
      · by_cases hrefuses : σ₁.Refuses n id σ₂
        · exact .inr ⟨σ₁, σ₂, hu.reachable, hrefuses, .refl⟩
        · exact .inl (hu.step hstep hrefuses)
      · exact .inr ⟨before, after, hbefore, hrefuses, hstay.tail ⟨hstep, hin⟩⟩
    · exact .inl (.admitted ⟨config, hl⟩ hstep hroom hin)

def Traces (σ : System) (p : PlayerId) (n : Nat) (id : RoomId) (upToDate : Prop) : Prop :=
  σ.hub.Traces σ.hands p n id upToDate (σ.seat p n)

private theorem roomOf?_of_idle (hs : σ.sessions[n]? = some s) {c : Context}
    (hc : s.dispatching.context? = some c) : σ.roomOf? n = c.room := by
  simp [roomOf?, hs, hc]

/-- What the copy is matters only while the player is in the room. -/
private theorem Traces.weaken (ht : σ.Traces p n id upToDate)
    (hup : later → upToDate ∨ σ.roomOf? n ≠ some id) : σ.Traces p n id later := by
  refine ⟨ht.accord, ht.inquires, ?_⟩
  have hfollows := ht.follows
  cases hs : σ.sessions[n]? with
  | none =>
    have hseat : σ.seat p n = .idle (blank p) := by simp [seat, hs]
    rw [hseat]
    intro hin
    simp [blank] at hin
  | some s =>
    rw [seat_of_some hs] at hfollows ⊢
    cases hd : s.dispatching with
    | ended => trivial
    | busy c pending =>
      rw [hd] at hfollows
      exact hfollows
    | idle c =>
      rw [hd] at hfollows
      intro hin hlater
      refine hfollows hin ((hup hlater).resolve_right fun hnot => hnot ?_)
      rw [roomOf?_of_idle hs (by rw [hd]; rfl), hin]

private theorem traces_turn {m : Nat} (hσ : σ.Sound) (hsole : σ.Sole p n)
    (ht : σ.Traces p n id upToDate) (hs : σ.sessions[m]? = some s) {t : Turn m}
    (hh : t.hub = σ.hub) {step : Session.Step} (hstep : t.step s.dispatching = step)
    (hup : later → upToDate ∨ σ.roomOf? n ≠ some id)
    (htaken : m = n → later → σ.roomOf? n = some id →
      ∀ c, s.dispatching = .idle c → ¬ t.Rebuffed c) :
    (σ.after m step).Traces p n id later := by
  subst hstep
  by_cases hmn : m = n
  · subst hmn
    rw [Traces, seat_after hs, if_pos rfl]
    rw [Traces, seat_of_some hs, ← hh] at ht
    apply t.traces_step ht
    intro hlater
    by_cases hin : σ.roomOf? m = some id
    · refine .inl ⟨(hup hlater).resolve_right fun hnot => hnot hin, ?_⟩
      exact htaken rfl hlater hin
    · refine .inr fun c hc hroom => hin ?_
      rw [roomOf?_of_idle hs hc, hroom]
  · have hkept := ht.weaken hup
    rw [Traces, ← hh] at hkept
    rw [Traces, seat_after hs, if_neg (Ne.symm hmn)]
    have hid : s.id ≠ p := fun hid => hmn ((hsole m s hs).mp hid)
    have hw : ¬ (Task.dispatcher m).ActsFor n := by simpa [Task.ActsFor] using hmn
    exact (t.step_enduring (hσ.session hs).dispatching (Hub.enduring_traces hid hw) hkept).1

private theorem traces_supervisor {m : Nat} (hσ : σ.Sound) (hsole : σ.Sole p n)
    (hover : ¬ σ.Over n) (ht : σ.Traces p n id upToDate) (hs : σ.sessions[m]? = some s)
    (now : Nat) : (σ.after m (s.stepSupervisor σ.hub m now)).Traces p n id upToDate := by
  obtain ⟨next, hnext, -⟩ := (hσ.session hs).supervise σ.hub now
  rw [Traces, seat_after_of_same hs (by rw [hnext])]
  by_cases hmn : m = n
  · subst hmn
    have hnot : ¬ s.Departing := fun hd => hover ⟨s, hs, hd⟩
    exact Hub.Traces.apart ht (Session.apart_supervise hnot σ.hub m now)
  · have hid : s.id ≠ p := fun hid => hmn ((hsole m s hs).mp hid)
    have hw : ¬ (Task.supervisor m).ActsFor n := by simpa [Task.ActsFor] using hmn
    exact (Session.stepSupervisor_enduring (hσ.session hs) (Hub.enduring_traces hid hw) ht now).1

private theorem traces_visit {h : Hub} (ht : σ.Traces p n id upToDate) (hv : Visit p σ.hub h) :
    ({ σ with hub := h } : System).Traces p n id upToDate := by
  have hw : ¬ Task.visitor.ActsFor n := by simp [Task.ActsFor]
  have ht : σ.hub.Traces σ.hands p n id upToDate (σ.seat p n) := ht
  have hkept : h.Traces σ.hands p n id upToDate (σ.seat p n) := by
    cases hv with
    | offer r he hr => exact (Hub.enduring_traces he hw).offer ht rfl hr
    | request r timeout now hp he => exact (Hub.enduring_traces hp hw).request ht he
    | resume ho now => exact ht.resume (ho ▸ hw) now
    | expire ho => exact ht.expire (ho ▸ hw)
  exact hkept

private theorem traces_connect {h : Hub} (ht : σ.Traces p n id upToDate) (ha : σ.hub.Apart h)
    {s : Session} {c : Context} (hd : s.dispatching = .idle c) (hroom : c.room = none)
    (haccord : ({ σ with hub := h, sessions := σ.sessions.push s } : System).Accord p n) :
    ({ σ with hub := h, sessions := σ.sessions.push s } : System).Traces p n id upToDate := by
  have ht' := Hub.Traces.apart ht ha
  refine ⟨haccord, ht'.inquires, ?_⟩
  have hfollows := ht'.follows
  rw [seat] at hfollows ⊢
  simp only [Array.getElem?_push] at hfollows ⊢
  split
  · simp only [Option.map_some, Option.getD_some, hd]
    intro hin
    simp [hroom] at hin
  · exact hfollows

/-- A step keeps the copy in the player's room as the player has its profile, if the room refuses no
update; and a step that brings the player into the room makes it so. -/
theorem Traces.step (hσ : σ.Sound) (hsole : σ'.Sole p n) (hover : ¬ σ.Over n)
    (ht : σ.Traces p n id upToDate) (hstep : Step p σ σ')
    (hup : later → upToDate ∧ ¬ σ.Refuses n id σ' ∨ σ.roomOf? n ≠ some id) :
    σ'.Traces p n id later := by
  have hsole₀ : σ.Sole p n := hsole.before (hσ.moves hstep)
  have hup₀ (h : later) : upToDate ∨ σ.roomOf? n ≠ some id := (hup h).imp_left (·.1)
  have hkept : σ.Traces p n id later := ht.weaken hup₀
  have haccord : σ'.Accord p n := Accord.step hσ hsole hover ht.accord hstep
  cases hstep with
  | @read m s hs =>
    have haside := Session.aside_stepReader s σ.hub m
    rw [Traces, seat_after_of_same hs haside.session.dispatching]
    exact Hub.Traces.apart hkept haside.hub
  | @write m s hs =>
    have haside := Session.aside_stepWriter s σ.hub m
    rw [Traces, seat_after_of_same hs haside.session.dispatching]
    exact Hub.Traces.apart hkept haside.hub
  | @dispatch m s hs now =>
    cases hp : σ.hub.players[m]? with
    | none =>
      rw [s.stepDispatcher_of_absent hp now, Traces, seat_after_of_same hs rfl]
      exact hkept
    | some cell =>
      refine traces_turn hσ hsole₀ ht hs rfl (Session.step_turn (hσ.session hs) hp now) hup₀ ?_
      rintro rfl hlater hin c hidle hrebuffed
      have hroom : c.room = some id := by
        rw [← hin, roomOf?_of_idle hs (by rw [hidle]; rfl)]
      exact ((hup hlater).resolve_right fun hnot => hnot hin).2
        ⟨s, c, cell, hp, now, hs, hidle, hroom, hrebuffed, rfl⟩
  | lapse hs hp hb =>
    refine traces_turn hσ hsole₀ ht hs rfl (Session.step_lastTurn (hσ.session hs) hp hb) hup₀ ?_
    intro _ _ _ c hidle
    simp [hb] at hidle
  | supervise hs now => exact traces_supervisor hσ hsole₀ hover hkept hs now
  | @depart m s w rooms hs hw =>
    rw [Traces, seat_after_of_same hs rfl]
    have hmn : m ≠ n := by
      rintro rfl
      exact hover ⟨s, hs, by simp [hw], by simp [hw]⟩
    have howner : ¬ (Task.supervisor m).ActsFor n := by simpa [Task.ActsFor] using hmn
    exact Hub.Traces.expire hkept ((hσ.session hs).waiting hw ▸ howner)
  | room hfree => exact Hub.Traces.stepRoom hkept hfree
  | take hfree ht => exact Hub.Traces.takeEvent hkept hfree ht
  | conclude hhand => exact Hub.Traces.handleEvent hkept hhand σ.hub.listens_lateListener
  | connect window ho =>
    exact traces_connect hkept (Hub.apart_openPlayer ho) rfl rfl haccord
  | stream hs f =>
    rw [Traces, seat_after_of_same hs rfl]
    exact hkept
  | openRoom id' name =>
    refine Hub.Traces.retains hkept
      ⟨Hub.Live.spares_openRoom hkept.accord.live hkept.accord.held id' name, ?_⟩
      (hkept.inquires.openRoom id' name)
    exact Hub.copy?_openRoom
  | createRoom name =>
    refine Hub.Traces.retains hkept
      ⟨Hub.Live.spares_createRoom hkept.accord.live hkept.accord.held name, ?_⟩
      (hkept.inquires.createRoom name)
    exact Hub.copy?_createRoom
  | visit hv => exact traces_visit hkept hv
  | aside ha => exact Hub.Traces.apart hkept ha

private theorem traces_initial (config : RoomConfig) (p : PlayerId) (n : Nat) (id : RoomId) :
    ({ hub := { config } } : System).Traces p n id False := by
  refine ⟨accord_initial config p n, ?_, ?_⟩
  · intro r cell hc
    simp at hc
  · intro _ hup
    exact hup.elim

/-- A step of a run, unless a supervisor has begun to take the player off its rooms. -/
private theorem traces_next (hr : Reachable p σ) (hstep : Step p σ σ') (hsole : σ'.Sole p n)
    (hbefore : σ.Sole p n → σ.Over n ∨ σ.Traces p n id upToDate)
    (hup : later → upToDate ∧ ¬ σ.Refuses n id σ' ∨ σ.roomOf? n ≠ some id) :
    σ'.Over n ∨ σ'.Traces p n id later := by
  have hσ : σ.Sound := hr.sound
  have hm := hσ.moves hstep
  by_cases hover : σ.Over n
  · exact .inl (hover.step hm)
  · rcases hbefore (hsole.before hm) with ho | ht
    · exact absurd ho hover
    · exact .inr (ht.step hσ hsole hover hstep hup)

/-- A join under way always brings what the player has. -/
private theorem traces_of_reachable (hr : Reachable p σ) (hsole : σ.Sole p n) :
    σ.Over n ∨ σ.Traces p n id False := by
  obtain ⟨config, hl⟩ := hr
  induction hl with
  | refl => exact .inr (traces_initial config p n id)
  | tail hl hstep ih => exact traces_next ⟨config, hl⟩ hstep hsole ih False.elim

/-- From the last time that the room has let the player in, the copy is up to date. -/
private theorem traces_of_unrefused (hu : Unrefused p n id σ) (hsole : σ.Sole p n) :
    σ.Over n ∨ σ.Traces p n id True := by
  induction hu with
  | admitted hr hstep hout =>
    exact traces_next hr hstep hsole (traces_of_reachable hr) fun _ => .inr hout
  | step hu hstep hnot ih =>
    exact traces_next hu.reachable hstep hsole ih fun _ => .inl ⟨trivial, hnot⟩

/-- Between two messages a player in a room is not about to leave it: whatever the room has yet to
handle of it keeps it in. -/
private theorem stays_of_settled {r : Nat} {cell : RoomCell} (hl : σ.hub.Live)
    (hs : (σ.hub.outlook σ.hands p n).Settled p n c none) (hroom : c.room = some id)
    (hr : σ.hub.room? id = some r) (hc : σ.hub.rooms[r]? = some cell) :
    ∀ e ∈ (σ.hands r).toList ++ cell.events.queue, e.bindsTo p = false := by
  obtain ⟨cell', hc', hid⟩ := hl.indexed hr
  obtain rfl := Option.some.inj (hc.symm.trans hc')
  subst hid
  have hevents := ((hs.agrees (Hub.view_outlook hc) (by simp)).own hroom).2
  intro e he
  rw [← Bool.not_eq_true]
  intro hb
  have hmem : e ∈ (cell.view (σ.hands r) p n).events :=
    List.mem_filter.mpr ⟨he, Event.concerns_of_bindsTo hb n⟩
  simp [hevents] at hmem

/-- Whenever the dispatcher of a player is between two messages and has it in a room that has
refused none of its updates since it let the player in: once the room has handled what is queued
there, it lists the player under exactly the name and the position that the player has. It makes no
difference whom the directory knows then, who waits for answers, or whether the room has another
event in hand. -/
theorem copy_follows_player (hu : Unrefused p n id σ) (hs : σ.sessions[n]? = some s)
    (hid : s.id = p) (honly : ∀ m s', σ.sessions[m]? = some s' → s'.id = p → m = n)
    (hidle : s.dispatching = .idle c) (hroom : c.room = some id) :
    ∃ (r : Nat) (cell : RoomCell), σ.hub.room? id = some r ∧ σ.hub.rooms[r]? = some cell ∧
      ∀ history : List (Occasion Ticket),
        history.map (·.event) = cell.events.queue ∨
          history.map (·.event) = (σ.hands r).toList ++ cell.events.queue →
        ∃ room m, cell.room.after? history = some room ∧ room.member? p = some m ∧
          m.profile.name = c.name ∧ m.profile.position = c.position := by
  obtain ⟨hσ, hl, hset⟩ := settled_of_idle hu.reachable hs hid honly hidle
  have ht : σ.Traces p n id True := by
    rcases traces_of_unrefused hu (sole_of_only hs hid honly) with ⟨s', hs', hd⟩ | ht
    · obtain rfl := Option.some.inj (hs.symm.trans hs')
      obtain ⟨c', hended⟩ := (hσ.session hs).ended_of_departing hd
      simp [hidle] at hended
    · exact ht
  have hfollows := ht.follows
  rw [seat_of_some hs, hidle] at hfollows
  obtain ⟨r, k, hr, hk, current, hprofile, hbecomes⟩ := hfollows hroom trivial
  obtain ⟨cell, hc, rfl⟩ := Option.map_eq_some_iff.mp hk
  have hstays := stays_of_settled hl hset hroom hr hc
  refine ⟨r, cell, hr, hc, fun history hhistory => ?_⟩
  have htrail : (history.map (·.event)).filter (·.player = p) =
      (cell.copy (σ.hands r) p).trail := by
    rcases hhistory with h | h
    · -- the event in hand is a join, and so it is somebody else's
      have hhand : (σ.hands r).toList.filter (·.player = p) = [] := by
        rw [List.filter_eq_nil_iff]
        intro e he
        have hk := hσ.hand (Option.mem_toList.mp he)
        have hb := hstays e (List.mem_append_left _ he)
        simpa [Event.bindsTo, hk] using hb
      rw [h, RoomCell.copy, List.filter_append, hhand, List.nil_append]
    · rw [h, RoomCell.copy]
  have hmem (o : Occasion Ticket) (ho : o ∈ history) :
      o.event ∈ (σ.hands r).toList ++ cell.events.queue := by
    have hevent := List.mem_map_of_mem (f := (·.event)) ho
    rcases hhistory with h | h
    · rw [h] at hevent
      exact List.mem_append_right _ hevent
    · rwa [h] at hevent
  have hdone := cell.room.profile?_meet_all history hprofile fun o ho hplayer hleave => by
    have hb := hstays o.event (hmem o ho)
    simp [Event.bindsTo, hplayer, hleave] at hb
  rw [htrail, hbecomes] at hdone
  obtain ⟨m, hm, hprofile⟩ := Option.map_eq_some_iff.mp hdone
  exact ⟨_, m, cell.room.after?_eq history, hm, by rw [hprofile]; rfl, by rw [hprofile]; rfl⟩

private def tenant : PlayerId := ⟨"tenant"⟩

private def orders : List Envelope :=
  [{ kind := .createRoomRequest, data := [123, 125] },
    { kind := .loginRequest, data := Wire.encode ({ playerName := "Ada" } : LoginRequest) }]

private def lodging (step : Session.Step) : System := ⟨step.2.2, #[step.2.1], fun _ => none⟩

private def served (step : Session.Step) : Session.Step := step.2.1.stepDispatcher step.2.2 0 0

private def arrived : Session.Step :=
  (true, .start 0 tenant {} .standard none, (({} : Hub).openPlayer tenant {}).2.2)

private def ordered : Session.Step :=
  (true, arrived.2.1, arrived.2.2.setPlayer 0
    { id := tenant
      inbound := { Mailbox.ofCapacity "tenant/inbound" 1000 with queue := orders } })

private def welcomed : Session.Step :=
  (true, (served ordered).2.1, ((served ordered).2.2.stepRoom 0).2)

private def entered : Session.Step := served welcomed

private def renamed : Session.Step := served entered

private theorem step_served (step : Session.Step) : Step p (lodging step) (lodging (served step)) :=
  .dispatch rfl 0

private theorem reachable_welcomed : Reachable tenant (lodging welcomed) := by
  have hconnect : Step tenant {} (lodging arrived) := .connect none rfl
  have horder : Step tenant (lodging arrived) (lodging ordered) :=
    .aside ⟨rfl, rfl, rfl, rfl, Nat.le_refl _⟩
  have hroom : Step tenant (lodging (served ordered)) (lodging welcomed) := .room rfl
  exact ⟨{}, .tail (.tail (.tail (.single hconnect) horder) (step_served ordered)) hroom⟩

private theorem unrefused_entered : Unrefused tenant 0 ⟨1⟩ (lodging entered) := by
  have hout : (lodging welcomed).roomOf? 0 ≠ some ⟨1⟩ := by decide +kernel
  have hin : (lodging entered).roomOf? 0 = some ⟨1⟩ := by decide +kernel
  exact .admitted reachable_welcomed (step_served welcomed) hout hin

/-- The room takes the new name. -/
private theorem not_refuses_renamed : ¬ (lodging entered).Refuses 0 ⟨1⟩ (lodging renamed) := by
  rintro ⟨s, c, cell, hp, now, hs, hidle, hroom, ⟨request, profile, r, fault, -, -, hr, hmove⟩, -⟩
  have hreceived : (lodging entered).hub.Apart (s.turn hp now).received :=
    (s.turn hp now).apart_received
  have hfirst : entered.2.2.room? ⟨1⟩ = some 0 := by decide +kernel
  have htakes : entered.2.2.rooms[0]?.map (fun cell => (cell.events.closed, cell.events.isFull)) =
      some (false, false) := by decide +kernel
  have hr : entered.2.2.room? ⟨1⟩ = some r := by
    rw [Context.room?, hroom, Option.bind_some, Hub.room?, hreceived.roomIndex] at hr
    exact hr
  obtain rfl := Option.some.inj (hfirst.symm.trans hr)
  obtain ⟨cell', hc, htakes⟩ := Option.map_eq_some_iff.mp htakes
  have hc' : (s.turn hp now).received.rooms[0]? = some cell' := hreceived.rooms ▸ hc
  simp only [Prod.mk.injEq] at htakes
  simp [Hub.sendMove, Hub.offerEvent, hc', Mailbox.offer, htakes] at hmove

theorem copy_follows_player_renamed : ∃ (σ : System) (s : Session) (c : Context),
    Unrefused tenant 0 ⟨1⟩ σ ∧ σ.sessions[0]? = some s ∧ s.id = tenant ∧
      (∀ m s', σ.sessions[m]? = some s' → s'.id = tenant → m = 0) ∧ s.dispatching = .idle c ∧
        c.room = some ⟨1⟩ ∧ c.name = "Ada" ∧
          ∃ (r : Nat) (cell : RoomCell) (room : Room) (m : Member),
            σ.hub.rooms[r]? = some cell ∧
              cell.room.after? (cell.events.queue.map (⟨·, fun _ => .gone, fun _ => none⟩)) =
                some room ∧
              room.member? tenant = some m ∧ m.profile.name = "Ada" := by
  have hu : Unrefused tenant 0 ⟨1⟩ (lodging renamed) :=
    .step unrefused_entered (step_served entered) not_refuses_renamed
  have hs : (lodging renamed).sessions[0]? = some renamed.2.1 := by simp [lodging]
  have honly (m : Nat) (s' : Session) (hs : (lodging renamed).sessions[m]? = some s')
      (_ : s'.id = tenant) : m = 0 := by
    have hlt := (Array.getElem?_eq_some_iff.mp hs).1
    simpa [lodging] using hlt
  have hid : renamed.2.1.id = tenant := by decide +kernel
  have hidle : renamed.2.1.dispatching = .idle
      { id := tenant, name := "Ada", room := some ⟨1⟩, outbox := 0, replyTimeout := 5000 } := by
    decide +kernel
  obtain ⟨r, cell, -, hc, hcopy⟩ := copy_follows_player hu hs hid honly hidle rfl
  obtain ⟨room, m, hroom, hm, hname, -⟩ :=
    hcopy (cell.events.queue.map (⟨·, fun _ => .gone, fun _ => none⟩))
      (.inl (by rw [List.map_map]; exact List.map_id _))
  exact ⟨_, _, _, hu, hs, hid, honly, hidle, rfl, rfl, r, cell, room, m, hc, hroom, hm, hname⟩

end Lobby.System
