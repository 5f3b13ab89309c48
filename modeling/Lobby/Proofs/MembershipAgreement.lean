import Lobby.Proofs.GoneRequesters

/-! A player and the rooms agree on its memberships whenever its dispatcher is between two messages,
however the tasks of the system have run. -/
namespace Lobby

namespace Hub
variable {h : Hub} {hands : Hands} {p : PlayerId} {n : Nat} {d : Dispatching}

/-- What lasts while the player is left alone lasts through whatever another task does in another
player's name. -/
theorem enduring_of_spares {Q : Hub → Prop} {player : PlayerId} {owner : Task} (hp : player ≠ p)
    (hw : ¬ owner.ActsFor n) (live : ∀ {h}, Q h → h.Live) (held : ∀ {h}, Q h → Held hands h)
    (owned : ∀ {h}, Q h → (h.outlook hands p n).Owned n)
    (spares : ∀ {h h'}, Q h → Spares hands p n h h' → Q h') : Enduring player owner Q where
  offer hq he hr :=
    spares hq ((lasting_spares (owned hq) (held hq) hp hw).offer (live hq).spares he hr)
  request hq he :=
    spares hq ((lasting_spares (owned hq) (held hq) hp hw).request (live hq).spares he)
  resume hq ht :=
    spares hq ((lasting_spares (owned hq) (held hq) hp hw).resume (live hq).spares ht)
  expire hq ht :=
    spares hq ((lasting_spares (owned hq) (held hq) hp hw).expire (live hq).spares ht)
  create hq := spares hq ((lasting_spares (owned hq) (held hq) hp hw).create (live hq).spares)
  apart hq hs := spares hq (hs.spares (live hq))

/-- Whatever another task does in another player's name keeps the agreement. -/
theorem enduring_accord {player : PlayerId} {owner : Task} (hp : player ≠ p)
    (hw : ¬ owner.ActsFor n) : Enduring player owner fun h => h.Accord hands p n d :=
  enduring_of_spares hp hw Accord.live Accord.held (fun ha => ha.fits.owned) Accord.spares

end Hub

namespace System
variable {σ σ' : System} {p : PlayerId} {n : Nat} {s : Session}

def Sole (σ : System) (p : PlayerId) (n : Nat) : Prop :=
  ∀ m s, σ.sessions[m]? = some s → (s.id = p ↔ m = n)

def blank (p : PlayerId) : Context := { id := p, outbox := 0, replyTimeout := 0 }

/-- Where the dispatcher of session number `n` is, or will be when there is one. -/
def seat (σ : System) (p : PlayerId) (n : Nat) : Dispatching :=
  (σ.sessions[n]?.map (·.dispatching)).getD (.idle (blank p))

def Over (σ : System) (n : Nat) : Prop := ∃ s, σ.sessions[n]? = some s ∧ s.Departing

def Accord (σ : System) (p : PlayerId) (n : Nat) : Prop :=
  σ.hub.Accord σ.hands p n (σ.seat p n)

theorem seat_of_some (hs : σ.sessions[n]? = some s) : σ.seat p n = s.dispatching := by
  rw [seat, hs]
  rfl

theorem seat_after {m : Nat} (hs : σ.sessions[m]? = some s) (step : Session.Step) :
    (σ.after m step).seat p n = if n = m then step.2.1.dispatching else σ.seat p n := by
  rw [seat, getElem?_after hs]
  split
  · rfl
  · rfl

theorem seat_after_of_same {m : Nat} (hs : σ.sessions[m]? = some s) {step : Session.Step}
    (hd : step.2.1.dispatching = s.dispatching) : (σ.after m step).seat p n = σ.seat p n := by
  rw [seat_after hs]
  split
  · rename_i hnm
    subst hnm
    exact hd.trans (seat_of_some hs).symm
  · rfl

/-- Sessions last, and keep their identities. -/
theorem Moves.kept {sessions : Array Session} (hm : σ.Moves sessions) {m : Nat}
    (hs : σ.sessions[m]? = some s) :
    ∃ s', sessions[m]? = some s' ∧ s'.id = s.id ∧ (s.Departing → s'.Departing) := by
  have hlt := (Array.getElem?_eq_some_iff.mp hs).1
  cases hm with
  | still h => exact ⟨s, h ▸ hs, rfl, id⟩
  | @one k _ s' hs' sound h hid departing =>
    subst h
    by_cases hk : k = m
    · subst hk
      obtain rfl := Option.some.inj (hs.symm.trans hs')
      exact ⟨s', by simp [hlt], hid, departing⟩
    · exact ⟨s, by simp [hk, hs], rfl, id⟩
  | more sound h =>
    subst h
    exact ⟨s, by simp [Array.getElem?_push, hlt.ne, hs], rfl, id⟩

theorem sole_of_only (hs : σ.sessions[n]? = some s) (hid : s.id = p)
    (honly : ∀ m s', σ.sessions[m]? = some s' → s'.id = p → m = n) : σ.Sole p n := by
  intro m s' hs'
  refine ⟨honly m s' hs', ?_⟩
  rintro rfl
  obtain rfl := Option.some.inj (hs.symm.trans hs')
  exact hid

theorem Sole.before (hsole : σ'.Sole p n) (hm : σ.Moves σ'.sessions) : σ.Sole p n := by
  intro m s hs
  obtain ⟨s', hs', hid, -⟩ := hm.kept hs
  exact hid ▸ hsole m s' hs'

theorem Over.step (ho : σ.Over n) (hm : σ.Moves σ'.sessions) : σ'.Over n := by
  obtain ⟨s, hs, hd⟩ := ho
  obtain ⟨s', hs', -, hkeeps⟩ := hm.kept hs
  exact ⟨s', hs', hkeeps hd⟩

/-- A turn of any dispatcher keeps the agreement. -/
private theorem accord_turn {m : Nat} (hσ : σ.Sound) (hsole : σ.Sole p n) (ha : σ.Accord p n)
    (hs : σ.sessions[m]? = some s) {t : Turn m} (ht : t.session = s) (hh : t.hub = σ.hub)
    {step : Session.Step} (hstep : t.step s.dispatching = step) : (σ.after m step).Accord p n := by
  subst hstep
  rw [Accord] at ha ⊢
  rw [← hh] at ha
  by_cases hmn : n = m
  · subst hmn
    rw [seat_after hs, if_pos rfl]
    rw [seat_of_some hs] at ha
    exact t.accord_step ha
  · rw [seat_after hs, if_neg hmn]
    have hid : s.id ≠ p := fun hid => hmn ((hsole m s hs).mp hid).symm
    have hw : ¬ (Task.dispatcher m).ActsFor n := by simpa [Task.ActsFor] using Ne.symm hmn
    exact (t.step_enduring (hσ.session hs).dispatching (Hub.enduring_accord hid hw) ha).1

private theorem accord_supervisor {m : Nat} (hσ : σ.Sound) (hsole : σ.Sole p n)
    (hover : ¬ σ.Over n) (ha : σ.Accord p n) (hs : σ.sessions[m]? = some s) (now : Nat) :
    (σ.after m (s.stepSupervisor σ.hub m now)).Accord p n := by
  obtain ⟨next, hnext, -⟩ := (hσ.session hs).supervise σ.hub now
  have hseat : (σ.after m (s.stepSupervisor σ.hub m now)).seat p n = σ.seat p n :=
    seat_after_of_same hs (by rw [hnext])
  rw [Accord, hseat]
  by_cases hmn : m = n
  · subst hmn
    have hnot : ¬ s.Departing := fun hd => hover ⟨s, hs, hd⟩
    exact Hub.Accord.apart ha (Session.apart_supervise hnot σ.hub m now)
  · have hid : s.id ≠ p := fun hid => hmn ((hsole m s hs).mp hid)
    exact (Session.stepSupervisor_enduring (hσ.session hs)
      (Hub.enduring_accord hid (by simpa [Task.ActsFor] using hmn)) ha now).1

private theorem accord_visit {h : Hub} (ha : σ.Accord p n) (hv : Visit p σ.hub h) :
    ({ σ with hub := h } : System).Accord p n := by
  have hw : ¬ Task.visitor.ActsFor n := by simp [Task.ActsFor]
  have ha : σ.hub.Accord σ.hands p n (σ.seat p n) := ha
  have hkept : h.Accord σ.hands p n (σ.seat p n) := by
    cases hv with
    | offer r he hr => exact (Hub.enduring_accord he hw).offer ha rfl hr
    | request r timeout now hp he => exact (Hub.enduring_accord hp hw).request ha he
    | resume ht now => exact ha.spares (ha.live.spares_resume ha.fits.owned (ht ▸ hw) now)
    | expire ht => exact ha.spares (ha.live.spares_expire ha.fits.owned (ht ▸ hw))
  exact hkept

/-- A new session is that of a player who is nowhere, or somebody else's. -/
private theorem accord_connect {h : Hub} (ha : σ.hub.Accord σ.hands p n (σ.seat p n))
    (hs : σ.hub.Apart h) {s : Session} {c : Context} (hd : s.dispatching = .idle c)
    (hc : s.id = p → c.id = p ∧ c.room = none ∧ c.unconfirmed = [])
    (hsole : ({ σ with hub := h, sessions := σ.sessions.push s } : System).Sole p n) :
    ({ σ with hub := h, sessions := σ.sessions.push s } : System).Accord p n := by
  have ha' := ha.apart hs
  rw [Accord, seat]
  rw [seat] at ha'
  simp only [Array.getElem?_push] at ha' ⊢
  split
  · rename_i hsize
    have hnone : σ.sessions[n]? = none := by
      rw [hsize]
      exact Array.getElem?_size
    have hid : s.id = p := (hsole n s (by simp [hsize])).mpr rfl
    obtain ⟨hcid, hroom, hrooms⟩ := hc hid
    rw [hnone] at ha'
    refine ⟨ha'.live, ha'.held, ?_⟩
    have hblank : (h.outlook σ.hands p n).Settled p n (blank p) none := ha'.fits
    simp only [Option.map_some, Option.getD_some, hd]
    exact hblank.of_context hcid hroom hrooms
  · exact ha'

/-- A step keeps the agreement, until the player's supervisor takes it off its rooms. -/
theorem Accord.step (hσ : σ.Sound) (hsole : σ'.Sole p n) (hover : ¬ σ.Over n)
    (ha : σ.Accord p n) (hstep : Step p σ σ') : σ'.Accord p n := by
  have hsole₀ : σ.Sole p n := hsole.before (hσ.moves hstep)
  cases hstep with
  | @read m s hs =>
    have haside := Session.aside_stepReader s σ.hub m
    rw [Accord, seat_after_of_same hs haside.session.dispatching]
    exact Hub.Accord.apart ha haside.hub
  | @write m s hs =>
    have haside := Session.aside_stepWriter s σ.hub m
    rw [Accord, seat_after_of_same hs haside.session.dispatching]
    exact Hub.Accord.apart ha haside.hub
  | @dispatch m s hs now =>
    cases hp : σ.hub.players[m]? with
    | none =>
      rw [s.stepDispatcher_of_absent hp now, Accord, seat_after_of_same hs rfl]
      exact ha
    | some cell =>
      exact accord_turn hσ hsole₀ ha hs rfl rfl (Session.step_turn (hσ.session hs) hp now)
  | lapse hs hp hb =>
    exact accord_turn hσ hsole₀ ha hs rfl rfl (Session.step_lastTurn (hσ.session hs) hp hb)
  | supervise hs now => exact accord_supervisor hσ hsole₀ hover ha hs now
  | @depart m s w rooms hs hw =>
    rw [Accord, seat_after_of_same hs rfl]
    have hmn : m ≠ n := by
      rintro rfl
      exact hover ⟨s, hs, by simp [hw], by simp [hw]⟩
    have hid : s.id ≠ p := fun hid => hmn ((hsole₀ m s hs).mp hid)
    have howner : ¬ (Task.supervisor m).ActsFor n := by simpa [Task.ActsFor] using hmn
    exact (Hub.enduring_accord hid howner).expire ha ((hσ.session hs).waiting hw)
  | room hfree => exact Hub.Accord.stepRoom ha hfree
  | take hfree ht => exact Hub.Accord.takeEvent ha hfree ht
  | conclude hhand => exact Hub.Accord.handleEvent ha hhand σ.hub.listens_lateListener
  | connect window ho =>
    exact accord_connect ha (Hub.apart_openPlayer ho) rfl (fun hid => ⟨hid, rfl, rfl⟩) hsole
  | stream hs f =>
    rw [Accord, seat_after_of_same hs rfl]
    exact ha
  | openRoom id name =>
    exact Hub.Accord.spares ha (Hub.Live.spares_openRoom ha.live ha.held id name)
  | createRoom name =>
    exact Hub.Accord.spares ha (Hub.Live.spares_createRoom ha.live ha.held name)
  | visit hv => exact accord_visit ha hv
  | aside hs => exact Hub.Accord.apart ha hs

theorem accord_initial (config : RoomConfig) (p : PlayerId) (n : Nat) :
    ({ hub := { config } } : System).Accord p n := by
  refine ⟨⟨rfl, by simp, by simp, ?_⟩, fun _ _ => rfl, ⟨rfl, by simp [blank], ?_, ?_⟩⟩
  · intro id r hr
    simp [Hub.room?] at hr
  · intro r v hv
    simp [Hub.outlook] at hv
  · intro r v hv
    simp [Hub.outlook] at hv

/-- The agreement holds at all times, until the player's supervisor takes it off its rooms. -/
theorem accord_of_leads {config : RoomConfig} (hl : Leads p { hub := { config } } σ)
    (hsole : σ.Sole p n) : σ.Over n ∨ σ.Accord p n := by
  induction hl with
  | refl => exact .inr (accord_initial config p n)
  | @tail σ σ' hl hstep ih =>
    have hσ : σ.Sound := (sound_initial config).leads hl
    have hm := hσ.moves hstep
    by_cases hover : σ.Over n
    · exact .inl (hover.step hm)
    · rcases ih (hsole.before hm) with ho | ha
      · exact absurd ho hover
      · exact .inr (ha.step hσ hsole hover hstep)

/-- Between two messages of a player, nothing is in doubt. -/
theorem settled_of_idle {c : Context} (hr : Reachable p σ) (hs : σ.sessions[n]? = some s)
    (hid : s.id = p) (honly : ∀ m s', σ.sessions[m]? = some s' → s'.id = p → m = n)
    (hidle : s.dispatching = .idle c) :
    σ.Sound ∧ σ.hub.Live ∧ (σ.hub.outlook σ.hands p n).Settled p n c none := by
  obtain ⟨config, hl⟩ := hr
  have hσ : σ.Sound := (sound_initial config).leads hl
  have hsole := sole_of_only hs hid honly
  rcases accord_of_leads hl hsole with ⟨s', hs', hd⟩ | ha
  · obtain rfl := Option.some.inj (hs.symm.trans hs')
    obtain ⟨c', hended⟩ := (hσ.session hs).ended_of_departing hd
    simp [hidle] at hended
  · have hfits := ha.fits
    rw [seat_of_some hs, hidle] at hfits
    exact ⟨hσ, ha.live, hfits⟩

/-- The events on their way to a room: the one that it has taken, those in its mailbox, and those
that wait for a slot there. -/
def unhandled (σ : System) (r : Nat) : List (Event Ticket) :=
  match σ.hub.rooms[r]? with
  | some cell => (σ.hands r).toList ++ cell.events.queue ++ cell.events.underWay.map (·.2)
  | none => []

variable {c : Context} {r : Nat} {cell : RoomCell} {e : Event Ticket}

/-- Whatever is on its way to a room and binds the player is spent. -/
private theorem spent_of_unhandled (hs : (σ.hub.outlook σ.hands p n).Settled p n c none)
    (hc : σ.hub.rooms[r]? = some cell) (he : e ∈ σ.unhandled r) (hb : e.bindsTo p = true) :
    e ∈ (cell.view (σ.hands r) p n).events ∧ (σ.hub.outlook σ.hands p n).Spent p n e := by
  have hconcerns : e.concerns p n = true := Event.concerns_of_bindsTo hb n
  obtain ⟨hwaits, hspent⟩ := hs.quiet (Hub.view_outlook hc)
  rw [unhandled, hc] at he
  simp only at he
  rcases List.mem_append.mp he with he | he
  · have hmem : e ∈ (cell.view (σ.hands r) p n).events :=
      List.mem_filter.mpr ⟨he, hconcerns⟩
    exact ⟨hmem, hspent e hmem⟩
  · obtain ⟨w, hw, rfl⟩ := List.mem_map.mp he
    have hmem : w ∈ (cell.view (σ.hands r) p n).waits :=
      List.mem_filter.mpr ⟨hw, by simp [hconcerns]⟩
    simp [hwaits] at hmem

private theorem own_room (hl : σ.hub.Live)
    (hs : (σ.hub.outlook σ.hands p n).Settled p n c none) {id : RoomId} (hroom : c.room = some id) :
    ∃ (r : Nat) (cell : RoomCell), σ.hub.room? id = some r ∧ σ.hub.rooms[r]? = some cell ∧
      cell.room.hasMember p = true ∧ ∀ e ∈ σ.unhandled r, e.bindsTo p = false := by
  obtain ⟨r, hreg⟩ := hs.confirmed hroom
  obtain ⟨cell, hc, rfl⟩ := hl.indexed hreg
  obtain ⟨hmember, hevents⟩ := (hs.agrees (Hub.view_outlook hc) (by simp)).own hroom
  refine ⟨r, cell, hreg, hc, hmember, ?_⟩
  intro e he
  rw [← Bool.not_eq_true]
  intro hb
  obtain ⟨hmem, -⟩ := spent_of_unhandled hs hc he hb
  simp [hevents] at hmem

/-- A leave that a room has yet to handle is in its mailbox: rooms take their time with joins
only. -/
theorem Sound.queued_of_leave (hσ : σ.Sound) (he : e ∈ (cell.view (σ.hands r) p n).events)
    (hk : e.kind = .leave) : e ∈ cell.events.queue := by
  rcases List.mem_append.mp (List.mem_filter.mp he).1 with hhand | hqueue
  · have hjoin := hσ.hand (Option.mem_toList.mp hhand)
    simp [hk] at hjoin
  · exact hqueue

private theorem other_room (hσ : σ.Sound) (hs : (σ.hub.outlook σ.hands p n).Settled p n c none)
    (hc : σ.hub.rooms[r]? = some cell) (hmember : cell.room.hasMember p = true)
    (hroom : c.room ≠ some cell.room.id) : cell.room.id ∈ c.unconfirmed ∨
      ∃ e ∈ cell.events.queue, e.player = p ∧ e.kind = .leave := by
  apply ((hs.agrees (Hub.view_outlook hc) (by simp)).other hroom hmember).imp_right
  rintro ⟨e, he, hk⟩
  have hspent := (hs.quiet (Hub.view_outlook hc)).2 e he
  exact ⟨e, hσ.queued_of_leave he hk, hspent.player, hk⟩

private theorem gone_of_join (hs : (σ.hub.outlook σ.hands p n).Settled p n c none)
    (he : e ∈ σ.unhandled r) (hplayer : e.player = p) (hk : e.kind = .join) :
    ∃ t, e.reply? = some t ∧ σ.hub.Gone t := by
  cases hc : σ.hub.rooms[r]? with
  | none => simp [unhandled, hc] at he
  | some cell =>
    have hb : e.bindsTo p = true := by simp [Event.bindsTo, hplayer, hk]
    obtain ⟨-, hspent⟩ := spent_of_unhandled hs hc he hb
    obtain ⟨t, ht⟩ := Option.isSome_iff_exists.mp (hspent.replied hk)
    obtain ⟨-, hserial, hnone⟩ := hspent.closed ht
    exact ⟨t, ht, hserial, hnone⟩

/-- Handling a join whose requester has gone leaves a room as it is. -/
private theorem handle_of_gone {h : Hub} {t : Ticket} (ht : h.reply? t = none)
    (hk : e.kind = .join) (hr : e.reply? = some t) {listener : Ticket → Listener}
    (hl : h.Listens listener) (room : Room) (lookup : PlayerId → Option Nat) :
    ∃ effects, room.handle .standard listener lookup e = some (room, effects) := by
  obtain ⟨player, body⟩ := e
  cases body with
  | join profile reply =>
    obtain rfl : reply = some t := hr
    have hsame := room.meet_of_gone (o := ⟨⟨player, .join profile (some t)⟩, listener, lookup⟩) rfl
      (fun hw => by simp [(hl t).mp hw] at ht)
    exact ⟨_, (room.handle_standard ..).trans (congrArg some (Prod.ext hsame rfl))⟩
  | leave | chat | move => contradiction

/-- Whenever the dispatcher of a player is between two messages: its room lists it, and no join or
leave of it is on its way there; any other room that lists it is remembered, or a leave is queued
there; and no join of it that is on its way anywhere can make it a member. -/
theorem membership_agrees (hr : Reachable p σ) (hs : σ.sessions[n]? = some s) (hid : s.id = p)
    (honly : ∀ m s', σ.sessions[m]? = some s' → s'.id = p → m = n)
    (hidle : s.dispatching = .idle c) :
    (∀ id, c.room = some id → ∃ (r : Nat) (cell : RoomCell), σ.hub.room? id = some r ∧
      σ.hub.rooms[r]? = some cell ∧ cell.room.hasMember p = true ∧
        ∀ e ∈ σ.unhandled r, e.bindsTo p = false) ∧
    (∀ (r : Nat) (cell : RoomCell), σ.hub.rooms[r]? = some cell →
      cell.room.hasMember p = true → c.room ≠ some cell.room.id →
        cell.room.id ∈ c.unconfirmed ∨
          ∃ e ∈ cell.events.queue, e.player = p ∧ e.kind = .leave) ∧
    ∀ r, ∀ e ∈ σ.unhandled r, e.player = p → e.kind = .join → ∃ t, e.reply? = some t ∧
      ∀ σ', Leads p σ σ' → σ'.hub.reply? t = none ∧
        ∀ listener, σ'.hub.Listens listener → ∀ (room : Room) (lookup : PlayerId → Option Nat),
          ∃ effects, room.handle .standard listener lookup e = some (room, effects) := by
  obtain ⟨hσ, hl, hset⟩ := settled_of_idle hr hs hid honly hidle
  refine ⟨?_, ?_, ?_⟩
  · intro id hroom
    exact own_room hl hset hroom
  · intro r cell hc hmember hroom
    exact other_room hσ hset hc hmember hroom
  · intro r e he hplayer hk
    obtain ⟨t, ht, hgone⟩ := gone_of_join hset he hplayer hk
    refine ⟨t, ht, fun σ' hl' => ?_⟩
    have hnone := (gone_leads hσ hgone hl').reply?
    exact ⟨hnone, fun listener hlisten => handle_of_gone hnone hk ht hlisten⟩

def mover : PlayerId := ⟨"mover"⟩

def lone (x : Session × Hub) : System := ⟨x.2, #[x.1], fun _ => none⟩

def serve (x : Session × Hub) : Session × Hub := (x.1.stepDispatcher x.2 0 0).2

def attend (r : Nat) (x : Session × Hub) : Session × Hub := (x.1, (x.2.stepRoom r).2)

def giveUp (x : Session × Hub) : Session × Hub :=
  match x.1.dispatching with
  | .busy c pending =>
    (x.1.dispatched pending.request (c.follow pending.request pending.errand pending.wait.room
      (x.2.expire pending.wait))).2
  | _ => x

theorem step_serve (x : Session × Hub) : Step mover (lone x) (lone (serve x)) :=
  .dispatch rfl 0

theorem step_attend (r : Nat) (x : Session × Hub) : Step mover (lone x) (lone (attend r x)) :=
  .room rfl

theorem leads_giveUp {x : Session × Hub} (hp : x.2.players[0]?.isSome = true) :
    Leads mover (lone x) (lone (giveUp x)) := by
  obtain ⟨cell, hcell⟩ := Option.isSome_iff_exists.mp hp
  rw [giveUp]
  cases hb : x.1.dispatching with
  | busy c pending => exact .single (.lapse (n := 0) rfl hcell hb)
  | idle | ended => exact .refl

/-- The mover has come, and asks for a room, to leave it, and for two more. -/
def moving : Session × Hub :=
  (.start 0 mover {} .standard none,
    (({} : Hub).openPlayer mover {}).2.2.setPlayer 0
      { id := mover
        inbound :=
          { Mailbox.ofCapacity "mover/inbound" 1000 with
            queue := [{ kind := .createRoomRequest, data := [123, 125] },
              { kind := .leaveRoomRequest, data := [123, 125] },
              { kind := .createRoomRequest, data := [123, 125] },
              { kind := .createRoomRequest, data := [123, 125] }] } })

/-- Its leave is in the first room's mailbox, and its time is up. -/
def unanswered : Session × Hub := giveUp (serve (serve (attend 0 (serve moving))))

theorem leads_unanswered : Leads mover {} (lone unanswered) := by
  have hconnect : Step mover {} (lone (moving.1, (({} : Hub).openPlayer mover {}).2.2)) :=
    .connect none rfl
  have hask : Step mover (lone (moving.1, (({} : Hub).openPlayer mover {}).2.2)) (lone moving) :=
    .aside ⟨rfl, rfl, rfl, rfl, Nat.le_refl _⟩
  have hout : Leads mover {} (lone (serve (serve (attend 0 (serve moving))))) :=
    (((((Relation.ReflTransGen.single hconnect).tail hask).tail (step_serve _)).tail
      (step_attend 0 _)).tail (step_serve _)).tail (step_serve _)
  exact hout.trans (leads_giveUp (by decide +kernel))

/-- Its join is in the second room's mailbox, and its time is up as well. -/
private def forgotten : Session × Hub := giveUp (serve unanswered)

/-- The third room has let it in, and the first two have handled nothing since. -/
private def lodged : Session × Hub := serve (attend 2 (serve forgotten))

private theorem reachable_lodged : Reachable mover (lone lodged) := by
  have hforgotten : Leads mover {} (lone forgotten) :=
    (leads_unanswered.tail (step_serve _)).trans (leads_giveUp (by decide +kernel))
  exact ⟨{}, ((hforgotten.tail (step_serve _)).tail (step_attend 2 _)).tail (step_serve _)⟩

private def lateJoin : Event Ticket := ⟨mover, .join {} (some ⟨.dispatcher 0, 4⟩)⟩

/-- A player is in its third room, while the first has yet to handle its leave, and the second a
join that it has given up. -/
theorem membership_agrees_mover : ∃ (σ : System) (s : Session) (c : Context) (r : Nat)
    (cell former : RoomCell) (e : Event Ticket),
    Reachable mover σ ∧ σ.sessions[0]? = some s ∧ s.id = mover ∧
      (∀ m s', σ.sessions[m]? = some s' → s'.id = mover → m = 0) ∧ s.dispatching = .idle c ∧
      (c.room = some ⟨3⟩ ∧ σ.hub.room? ⟨3⟩ = some r ∧ σ.hub.rooms[r]? = some cell ∧
        cell.room.hasMember mover = true ∧ ∀ e ∈ σ.unhandled r, e.bindsTo mover = false) ∧
      (σ.hub.rooms[0]? = some former ∧ former.room.hasMember mover = true ∧
        (former.room.id ∈ c.unconfirmed ∨
          ∃ e ∈ former.events.queue, e.player = mover ∧ e.kind = .leave)) ∧
      e ∈ σ.unhandled 1 ∧ e.kind = .join ∧ ∃ t, e.reply? = some t ∧ σ.hub.reply? t = none := by
  have honly (m : Nat) (s' : Session) (hs : #[lodged.1][m]? = some s') (_ : s'.id = mover) :
      m = 0 := by
    have hlt := (Array.getElem?_eq_some_iff.mp hs).1
    simpa using hlt
  have hidle : lodged.1.dispatching = .idle
      { id := mover, room := some ⟨3⟩, outbox := 0, replyTimeout := 5000 } := by decide +kernel
  obtain ⟨hown, hother, hlate⟩ := membership_agrees reachable_lodged rfl rfl honly hidle
  obtain ⟨r, cell, hown⟩ := hown ⟨3⟩ rfl
  have hlisted : lodged.2.rooms[0]?.map (fun cell => (cell.room.id, cell.room.hasMember mover)) =
      some (⟨1⟩, true) := by decide +kernel
  obtain ⟨former, hformer, hboth⟩ := Option.map_eq_some_iff.mp hlisted
  obtain ⟨hid, hmember⟩ := Prod.mk.inj hboth
  have hunsure := hother 0 former hformer hmember (by rw [hid]; decide)
  have hmem : lateJoin ∈ (lone lodged).unhandled 1 := by decide +kernel
  obtain ⟨t, ht, hgone⟩ := hlate 1 lateJoin hmem rfl rfl
  exact ⟨_, _, _, r, cell, former, lateJoin, reachable_lodged, rfl, rfl, honly, hidle,
    ⟨rfl, hown⟩, ⟨hformer, hmember, hunsure⟩, hmem, rfl, t, ht, (hgone _ .refl).1⟩

end System

end Lobby
