import Lobby.Proofs.ProfileCopies

/-! A player between two messages knows what the copy in its room will be, and a join under way will
bring one. What rooms and others do keeps it so. -/
namespace Lobby

namespace Outlook
variable {o o' : Outlook} {f f' : Copies} {p : PlayerId} {n : Nat} {c : Context} {w : Wait}
  {id : RoomId} {profile : Profile}

def Current (o : Outlook) (f : Copies) (id : RoomId) (profile : Profile) : Prop :=
  ∃ r k, o.room? id = some r ∧ f r = some k ∧ k.Becomes profile

/-- The join under way is for the player's own profile. Nothing of the player comes after it, and
when it has been granted its profile is the copy. -/
structure Bears (o : Outlook) (f : Copies) (p : PlayerId) (c : Context) (w : Wait) : Prop where
  waits {v : View} {e : Event Ticket} : o.view w.room = some v → (w.ticket, e) ∈ v.waits →
    e = ⟨p, .join c.profile (some w.ticket)⟩
  last {k : Copy} {before after : List (Event Ticket)} {e : Event Ticket} :
    f w.room = some k → k.trail = before ++ e :: after → e.reply? = some w.ticket →
      e = ⟨p, .join c.profile (some w.ticket)⟩ ∧ after = []
  granted {outcome : Outcome} : o.reply? w.ticket = some (.answered outcome) →
    outcome.ret = .ok → f w.room = some ⟨some c.profile, []⟩

end Outlook

/-- Where a dispatcher is, it goes by what the room of an identity will have of its player, if it is
in that room and the copy is up to date; and a join under way will bring the copy up to date. -/
def Dispatching.Follows (o : Outlook) (f : Copies) (p : PlayerId) (id : RoomId)
    (upToDate : Prop) : Dispatching → Prop
  | .idle c => c.room = some id → upToDate → o.Current f id c.profile
  | .busy c pending => pending.errand ≠ .leave → o.Bears f p c pending.wait
  | .ended _ => True

def Progress.Follows (hands : Hands) (p : PlayerId) (n : Nat) (id : RoomId) (upToDate : Prop) :
    Progress × Context × Hub → Prop
  | (.pending begun, c, h) =>
    begun.errand ≠ .leave → (h.outlook hands p n).Bears (h.copy? hands p) p c begun.wait
  | (.answered _, c, h) | (.unreadable, c, h) =>
    c.room = some id → upToDate → (h.outlook hands p n).Current (h.copy? hands p) id c.profile

structure Hub.Traces (h : Hub) (hands : Hands) (p : PlayerId) (n : Nat) (id : RoomId)
    (upToDate : Prop) (d : Dispatching) : Prop where
  accord : h.Accord hands p n d
  inquires : h.Inquires
  follows : d.Follows (h.outlook hands p n) (h.copy? hands p) p id upToDate

namespace Hub
variable {h h' : Hub} {hands : Hands} {p : PlayerId} {n r : Nat} {id : RoomId} {upToDate : Prop}
  {d : Dispatching} {cell : RoomCell} {e : Event Ticket} {c : Context} {w : Wait}
  {errand : Errand}

structure Retains (hands : Hands) (p : PlayerId) (n : Nat) (h h' : Hub) : Prop where
  spares : Spares hands p n h h'
  copy? {r : Nat} {k : Copy} : h.copy? hands p r = some k → h'.copy? hands p r = some k

theorem Retains.copy?_eq (hr : Retains hands p n h h') (hc : h.rooms[r]? = some cell) :
    h'.copy? hands p r = h.copy? hands p r := by
  have hk : h.copy? hands p r = some (cell.copy (hands r) p) := copy?_of_cell hc
  rw [hk]
  exact hr.copy? hk

theorem Retains.bears (hr : Retains hands p n h h')
    (he : (h.outlook hands p n).Engaged p n c errand w)
    (hb : (h.outlook hands p n).Bears (h.copy? hands p) p c w) :
    (h'.outlook hands p n).Bears (h'.copy? hands p) p c w := by
  obtain ⟨v, hv, -⟩ := he.here
  obtain ⟨cell, hc, -⟩ := Option.map_eq_some_iff.mp hv
  have hcopy := hr.copy?_eq hc
  refine ⟨?_, ?_, ?_⟩
  · intro v' e hv' hw
    obtain rfl := Option.some.inj ((hr.spares.grows.kept hv).symm.trans hv')
    exact hb.waits hv hw
  · intro k before after e hk
    exact hb.last (hcopy ▸ hk)
  · intro outcome ho hret
    rw [hcopy]
    exact hb.granted ((hr.spares.grows.reply? he.owner).symm.trans ho) hret

theorem Retains.follows (hr : Retains hands p n h h') (hd : d.Fits (h.outlook hands p n) p n)
    (hf : d.Follows (h.outlook hands p n) (h.copy? hands p) p id upToDate) :
    d.Follows (h'.outlook hands p n) (h'.copy? hands p) p id upToDate := by
  cases d with
  | ended => trivial
  | busy c pending =>
    intro herrand
    exact hr.bears hd (hf herrand)
  | idle c =>
    intro hroom hup
    obtain ⟨r, k, hreg, hk, hb⟩ := hf hroom hup
    exact ⟨r, k, hr.spares.grows.room? hreg, hr.copy? hk, hb⟩

theorem Traces.retains (ht : h.Traces hands p n id upToDate d) (hr : Retains hands p n h h')
    (hi : h'.Inquires) : h'.Traces hands p n id upToDate d :=
  ⟨ht.accord.spares hr.spares, hi, hr.follows ht.accord.fits ht.follows⟩

theorem Traces.apart (ht : h.Traces hands p n id upToDate d) (ha : h.Apart h') :
    h'.Traces hands p n id upToDate d := by
  refine ht.retains ⟨ha.spares ht.accord.live, ?_⟩ (ht.inquires.congr ha.rooms)
  intro r k hk
  rwa [copy?_congr ha.rooms]

/-- Whoever has somebody else's request to deliver delivers nothing of the player. -/
private theorem player_ne_of_underWay (ht : h.Traces hands p n id upToDate d)
    (hw : ¬ w.ticket.owner.ActsFor n) (hc : h.rooms[r]? = some cell)
    (he : (w.ticket, e) ∈ cell.events.underWay) : e.player ≠ p := by
  rintro hp
  have hb : e.bindsTo p = true := by
    have hreply := ht.inquires r cell hc _ he
    obtain ⟨player, body⟩ := e
    cases body with
    | join | leave => simpa [Event.bindsTo, Event.kind] using hp
    | chat | move => simp [Event.reply?] at hreply
  have hmem : (w.ticket, e) ∈ (cell.view (hands r) p n).waits :=
    List.mem_filter.mpr ⟨he, by simp [Event.concerns_of_bindsTo hb]⟩
  exact hw (ht.accord.fits.owned r _ _ (view_outlook hc) hmem)

theorem Traces.expire (ht : h.Traces hands p n id upToDate d) (hw : ¬ w.ticket.owner.ActsFor n) :
    (h.expire w).2.Traces hands p n id upToDate d := by
  refine ht.retains ⟨ht.accord.live.spares_expire ht.accord.fits.owned hw, ?_⟩
    (ht.inquires.expire w)
  intro r k hk
  rwa [copy?_expire]

theorem Traces.resume (ht : h.Traces hands p n id upToDate d) (hw : ¬ w.ticket.owner.ActsFor n)
    (now : Nat) : (h.resume w now).2.Traces hands p n id upToDate d := by
  have hl := ht.accord.live
  refine ht.retains ⟨hl.spares_resume ht.accord.fits.owned hw now, ?_⟩ (ht.inquires.resume w now)
  intro r k hk
  rcases hl.copy?_resume hands p w now with hcopy | ⟨cell, e, hc, he, hcopy⟩
  · rwa [hcopy]
  · rwa [hcopy, Copies.push_of_ne (player_ne_of_underWay ht hw hc he)]

/-- Whatever another task does in another player's name. -/
theorem enduring_traces {player : PlayerId} {owner : Task} (hp : player ≠ p)
    (hw : ¬ owner.ActsFor n) :
    Enduring player owner fun h => h.Traces hands p n id upToDate d where
  offer {h r e} ht he hr := by
    have hl := ht.accord.live
    refine ht.retains ⟨(lasting_spares ht.accord.fits.owned ht.accord.held hp hw).offer hl.spares
      he hr, ?_⟩ (ht.inquires.offerEvent r e)
    intro s k hk
    rcases hl.copy?_offerEvent hands p r e with ⟨h', ho, hcopy⟩ | ⟨fault, h', ho, hcopy⟩
    · rwa [ho, hcopy, Copies.push_of_ne (he ▸ hp)]
    · rwa [ho, hcopy]
  request {h r timeout now event} ht he := by
    have hl := ht.accord.live
    refine ht.retains ⟨(lasting_spares ht.accord.fits.owned ht.accord.held hp hw).request hl.spares
      he, ?_⟩ (ht.inquires.request owner r timeout now fun t => by simp [(he t).2])
    intro s k hk
    rcases hl.copy?_request hands p owner r timeout now event with hcopy | hcopy
    · rwa [hcopy]
    · rwa [hcopy, Copies.push_of_ne ((he _).1 ▸ hp)]
  resume ht howner := ht.resume (howner ▸ hw) _
  expire ht howner := ht.expire (howner ▸ hw)
  create {h name} ht := by
    refine ht.retains ⟨ht.accord.live.spares_createRoom ht.accord.held name, ?_⟩
      (ht.inquires.createRoom name)
    intro s k hk
    exact copy?_createRoom hk
  apart ht ha := ht.apart ha

theorem Traces.takeEvent (ht : h.Traces hands p n id upToDate d) (hfree : hands r = none)
    (htake : h.takeEvent? r = some (e, h')) :
    h'.Traces (Function.update hands r (some e)) p n id upToDate d := by
  refine ⟨ht.accord.takeEvent hfree htake, ht.inquires.takeEvent htake, ?_⟩
  obtain ⟨-, -, hview⟩ := ht.accord.live.takeEvent? (p := p) (n := n) hfree htake
  rw [hview, copy?_takeEvent hfree htake]
  exact ht.follows

private theorem becomes_handled (hhand : hands r = some e)
    (hk : e.player = p → e.kind ≠ .leave) {listener : Ticket → Listener}
    {lookup : PlayerId → Option Nat} {profile : Profile}
    (hb : (cell.copy (hands r) p).Becomes profile) :
    (⟨(cell.room.meet ⟨e, listener, lookup⟩).profile? p,
      cell.events.queue.filter (·.player = p)⟩ : Copy).Becomes profile := by
  obtain ⟨current, hp, hfold⟩ := hb
  refine ⟨_, cell.room.profile?_meet_of_stays ⟨e, listener, lookup⟩ hp hk, ?_⟩
  rw [← hfold]
  by_cases hplayer : e.player = p
  · simp [RoomCell.copy, hhand, hplayer]
  · simp [RoomCell.copy, hhand, hplayer]

/-- A room that grants a join records the profile that comes with it. -/
private theorem profile?_of_granted (room : Room) {o : Occasion Ticket} {profile : Profile}
    {t : Ticket} (h : o.event = ⟨p, .join profile (some t)⟩) (hl : o.listener t = .waiting)
    {outcome : Outcome} (ho : Effect.outcome? (room.effects o) = some outcome)
    (hret : outcome.ret = .ok) : (room.meet o).profile? p = some profile := by
  obtain ⟨outcome', ho', hgranted⟩ := room.outcome_of_join o h hl
  obtain rfl := Option.some.inj (ho'.symm.trans ho)
  obtain ⟨hmember, hknown⟩ := hgranted.mp hret
  have hnone : room.profile? p = none := by simpa [Room.hasMember_eq] using hmember
  rw [Room.profile?_meet]
  simp [h, hnone, hknown, hl, Occasion.gist, EventBody.map, nextProfile]

private theorem granted_handled (hl : h.Live) (hc : h.rooms[r]? = some cell)
    (hhand : hands r = some e) {listener : Ticket → Listener} (hlisten : h.Listens listener)
    (he : (h.outlook hands p n).Engaged p n c errand w)
    (hb : (h.outlook hands p n).Bears (h.copy? hands p) p c w) {outcome : Outcome}
    (ho : (h.handleEvent listener r e).reply? w.ticket = some (.answered outcome))
    (hret : outcome.ret = .ok) :
    Function.update (h.copy? hands p) r (some
      ⟨(cell.room.meet ⟨e, listener, h.player?⟩).profile? p,
        cell.events.queue.filter (·.player = p)⟩) w.room = some ⟨some c.profile, []⟩ := by
  have hcopy : h.copy? hands p r = some (cell.copy (hands r) p) := copy?_of_cell hc
  rw [reply?_handleEvent hl.reactions hc] at ho
  split at ho
  · rename_i hasked
    obtain ⟨hreply, hawaited⟩ := hasked
    -- the event is the one that the dispatcher waits for
    have hconcerns : e.concerns p n = true := by
      simp [Event.concerns, hreply, he.owner]
    have hev := events_view cell hhand hconcerns
    rcases he.head_cases (view_outlook hc) hev with hspent | ⟨rfl, -, -, hasks, -⟩
    · have hclosed : h.reply? w.ticket = none := (hspent.closed hreply).2.2
      simp [hawaited] at hclosed
    · have htrail : (cell.copy (hands w.room) p).trail =
          [] ++ e :: cell.events.queue.filter (·.player = p) := by
        simp [RoomCell.copy, hhand, hasks.reply.1]
      obtain ⟨hjoin, hrest⟩ := hb.last hcopy htrail hreply
      rw [Function.update_self, hrest]
      rw [Reply.after] at ho
      split at ho
      · rename_i outcome' hout
        obtain rfl : outcome' = outcome := by simpa using ho
        rw [profile?_of_granted cell.room hjoin ((hlisten _).mpr hawaited) hout hret]
      · simp at ho
  · have hdone := hb.granted ho hret
    by_cases hr : w.room = r
    · subst hr
      obtain ⟨hp, htrail⟩ := Copy.mk.inj (Option.some.inj (hcopy.symm.trans hdone))
      -- the event is somebody else's, as nothing of the player is left to handle
      have hplayer : e.player ≠ p := by
        intro hplayer
        simp [hhand, hplayer] at htrail
      have hqueue : cell.events.queue.filter (·.player = p) = [] := by
        simpa [hhand, hplayer] using htrail
      rw [Function.update_self, hqueue,
        cell.room.profile?_meet_of_stays ⟨e, listener, h.player?⟩ hp fun hp => absurd hp hplayer,
        if_neg hplayer]
    · rw [Function.update_of_ne hr, hdone]

private theorem bears_handled (hl : h.Live) (hc : h.rooms[r]? = some cell)
    (hhand : hands r = some e) {listener : Ticket → Listener} (hlisten : h.Listens listener)
    (he : (h.outlook hands p n).Engaged p n c errand w)
    (hb : (h.outlook hands p n).Bears (h.copy? hands p) p c w) :
    ((h.handleEvent listener r e).outlook (Function.update hands r none) p n).Bears
      ((h.handleEvent listener r e).copy? (Function.update hands r none) p) p c w := by
  have hv : (h.outlook hands p n).view r = some (cell.view (hands r) p n) := view_outlook hc
  rw [outlook_handled hl hc, hl.copy?_handleEvent hc]
  refine ⟨?_, ?_, granted_handled hl hc hhand hlisten he hb⟩
  · intro v e' hv' hw
    rw [Outlook.view_handled hv] at hv'
    split at hv'
    · rename_i hr
      subst hr
      obtain rfl := Option.some.inj hv'
      exact hb.waits hv hw
    · exact hb.waits hv' hw
  · intro k before after e' hk htrail hreply
    by_cases hr : w.room = r
    · subst hr
      rw [Function.update_self, Option.some.injEq] at hk
      subst hk
      have hcopy : h.copy? hands p w.room = some (cell.copy (hands w.room) p) := copy?_of_cell hc
      by_cases hplayer : e.player = p
      · have hbefore : (cell.copy (hands w.room) p).trail = (e :: before) ++ e' :: after := by
          simpa [RoomCell.copy, hhand, hplayer] using htrail
        exact hb.last hcopy hbefore hreply
      · have hbefore : (cell.copy (hands w.room) p).trail = before ++ e' :: after := by
          simpa [RoomCell.copy, hhand, hplayer] using htrail
        exact hb.last hcopy hbefore hreply
    · rw [Function.update_of_ne hr] at hk
      exact hb.last hk htrail hreply

/-- A room that handles an event keeps the player's profile as its dispatcher has it. -/
theorem Traces.handleEvent (ht : h.Traces hands p n id upToDate d) (hhand : hands r = some e)
    {listener : Ticket → Listener} (hlisten : h.Listens listener) :
    (h.handleEvent listener r e).Traces (Function.update hands r none) p n id upToDate d := by
  have hl := ht.accord.live
  obtain ⟨cell, hc⟩ := ht.accord.held.exists_cell hhand
  refine ⟨ht.accord.handleEvent hhand hlisten, ht.inquires.handleEvent hl hc listener e, ?_⟩
  cases d with
  | ended => trivial
  | busy c pending =>
    intro herrand
    exact bears_handled hl hc hhand hlisten ht.accord.fits (ht.follows herrand)
  | idle c =>
    intro hroom hup
    obtain ⟨s, k, hreg, hk, hb⟩ := ht.follows hroom hup
    rw [outlook_handled hl hc, hl.copy?_handleEvent hc]
    by_cases hs : s = r
    · subst hs
      obtain rfl := Option.some.inj ((copy?_of_cell hc).symm.trans hk)
      refine ⟨s, _, hreg, Function.update_self .., becomes_handled hhand ?_ hb⟩
      -- nothing binds a player between two messages that is in its room
      rintro hplayer hkind
      obtain ⟨cell', hc', hid⟩ := hl.indexed hreg
      obtain rfl := Option.some.inj (hc.symm.trans hc')
      have hs : (h.outlook hands p n).Settled p n c none := ht.accord.fits
      have hev := ((hs.agrees (view_outlook hc) (by simp)).own (hroom.trans (by rw [← hid]; rfl))).2
      rw [events_view cell hhand (Event.concerns_of_bindsTo
        (by simp [Event.bindsTo, hplayer, hkind]) n)] at hev
      contradiction
    · exact ⟨s, k, hreg, (Function.update_of_ne hs ..).trans hk, hb⟩

theorem Traces.stepRoom (ht : h.Traces hands p n id upToDate d) (hfree : hands r = none) :
    (h.stepRoom r).2.Traces hands p n id upToDate d :=
  ht.accord.live.stepRoom_of (Q := fun hands h => h.Traces hands p n id upToDate d) hfree ht
    (fun _ _ htake => ht.takeEvent hfree htake)
    fun _ h' _ ht' hhand => ht'.handleEvent hhand h'.listens_listener

end Hub

end Lobby
