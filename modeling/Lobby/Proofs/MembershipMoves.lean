import Lobby.Proofs.Memberships

/-! A player's own state and the rooms go on agreeing on its memberships whatever its dispatcher
does: what it queues, remembers and forgets, and how it makes a request and ends one. -/
namespace Lobby

namespace Outlook
variable {o o' : Outlook} {p : PlayerId} {n : Nat} {c : Context} {doubt : Option Nat}
  {errand : Errand} {w : Wait} {v : View} {e : Event Ticket} {r : Nat}

theorem view_modify (o : Outlook) (r : Nat) (f : View → View) (s : Nat) :
    (o.modify r f).view s = if s = r then (o.view s).map f else o.view s :=
  rfl

theorem Spent.modify (hs : o.Spent p n e) (r : Nat) (f : View → View) :
    (o.modify r f).Spent p n e :=
  ⟨hs.player, hs.replied, hs.closed⟩

/-- A leave clears up a doubt. -/
theorem Settled.push_leave (hs : o.Settled p n c (some r)) (hfree : c.room = none) :
    (o.push r ⟨p, .leave none⟩).Settled p n c none := by
  have hleave : o.Spent p n ⟨p, .leave none⟩ := ⟨rfl, by simp [Event.kind], by simp [Event.reply?]⟩
  refine ⟨hs.id, by simp [hfree], ?_, ?_⟩
  · intro s v hv
    rw [push, view_modify] at hv
    split at hv
    · obtain ⟨v', hv', rfl⟩ := Option.map_eq_some_iff.mp hv
      obtain ⟨hwaits, hspent⟩ := hs.quiet hv'
      refine ⟨hwaits, ?_⟩
      intro e he
      rcases List.mem_append.mp he with he | he
      · exact (hspent e he).modify r _
      · obtain rfl := List.mem_singleton.mp he
        exact hleave.modify r _
    · exact (hs.quiet hv).lasts fun e he => he.modify r _
  · intro s v hv _
    rw [push, view_modify] at hv
    split at hv
    · obtain ⟨v', hv', rfl⟩ := Option.map_eq_some_iff.mp hv
      exact Context.agrees_of_leave hfree (List.mem_append_right _ List.mem_cons_self) rfl
    · rename_i hne
      exact hs.agrees hv (by simpa using Ne.symm hne)

/-- A doubt that is remembered is none. -/
theorem Settled.remember (hs : o.Settled p n c (some r)) (hfree : c.room = none)
    (hv : o.view r = some v) {rooms : List RoomId} (hold : ∀ id ∈ c.unconfirmed, id ∈ rooms)
    (hnew : v.id ∈ rooms) : o.Settled p n { c with unconfirmed := rooms } none := by
  refine ⟨hs.id, by simp [hfree], hs.quiet, ?_⟩
  intro s v' hv' _
  apply Context.agrees_of_other
  · exact c.room_ne hfree _
  · intro hlisted
    by_cases hne : r = s
    · subst hne
      obtain rfl := Option.some.inj (hv.symm.trans hv')
      exact .inl hnew
    · have ha := hs.agrees hv' (by simpa using hne)
      exact (ha.other (c.room_ne hfree _) hlisted).imp_left (hold _)

/-- A doubt that is forgotten is one again, if the room of that identity lists the player. -/
theorem Settled.forget {before after : List RoomId} {id : RoomId}
    (hs : o.Settled p n { c with unconfirmed := before ++ id :: after } none)
    (hd : ∀ s v, o.view s = some v → v.id = id → doubt = some s) :
    o.Settled p n { c with unconfirmed := before ++ after } doubt := by
  refine ⟨hs.id, hs.confirmed, hs.quiet, ?_⟩
  intro s v hv hs'
  have hid : v.id ≠ id := fun hid => hs' (hd s v hv hid)
  have ha := hs.agrees hv (by simp)
  rw [Context.Agrees] at ha ⊢
  simpa [hid] using ha

/-- A room that agrees is not in doubt. -/
theorem Settled.resolve (hs : o.Settled p n c (some r)) (hv : o.view r = some v)
    (ha : c.Agrees v) : o.Settled p n c none := by
  refine ⟨hs.id, hs.confirmed, hs.quiet, ?_⟩
  intro s v' hv' _
  by_cases hne : r = s
  · subst hne
    obtain rfl := Option.some.inj (hv.symm.trans hv')
    exact ha
  · exact hs.agrees hv' (by simpa using hne)

/-- A player that gives up its room puts that in doubt. -/
theorem Settled.let_go (hs : o.Settled p n c none) (hi : o.Indexed) {id : RoomId}
    (hroom : c.room = some id) (hr : o.room? id = some r) :
    o.Settled p n { c with room := none } (some r) := by
  refine ⟨hs.id, by simp, hs.quiet, ?_⟩
  intro s v hv hd
  have hid : v.id ≠ id := by
    rintro rfl
    exact hd (hr.symm.trans (hi.registered hv))
  have ha := hs.agrees hv (by simp)
  apply Context.agrees_of_other (Context.room_ne rfl _)
  exact ha.other (by simpa [hroom] using Ne.symm hid)

/-- Only the player's identity and its rooms matter. -/
theorem Settled.of_context (hs : o.Settled p n c doubt) {c' : Context} (hid : c'.id = c.id)
    (hroom : c'.room = c.room) (hrooms : c'.unconfirmed = c.unconfirmed) :
    o.Settled p n c' doubt := by
  refine ⟨hid.trans hs.id, fun h => hs.confirmed (hroom ▸ h), hs.quiet, ?_⟩
  intro r v hv hd
  have ha := hs.agrees hv hd
  rw [Context.Agrees] at ha ⊢
  rwa [hroom, hrooms]

/-- A granted membership is the player's own. -/
theorem Settled.confirm (hs : o.Settled p n c (some r)) (hi : o.Indexed) (hfree : c.room = none)
    (hv : o.view r = some v) (hlisted : v.listed = true) (hevents : v.events = []) :
    o.Settled p n
      { c with room := some v.id, unconfirmed := c.unconfirmed.filter (· ≠ v.id) } none := by
  refine ⟨hs.id, ?_, hs.quiet, ?_⟩
  · intro id hid
    obtain rfl := Option.some.inj hid
    exact ⟨r, hi.registered hv⟩
  · intro s v' hv' _
    by_cases hid : v'.id = v.id
    · -- two rooms of one identity are one room
      have hs' := hi.registered hv'
      rw [hid, hi.registered hv] at hs'
      obtain rfl := Option.some.inj hs'
      obtain rfl := Option.some.inj (hv.symm.trans hv')
      rw [Context.Agrees, if_pos rfl]
      exact ⟨hlisted, hevents⟩
    · have hne : r ≠ s := by
        rintro rfl
        exact hid (congrArg View.id (Option.some.inj (hv'.symm.trans hv)))
      have ha := hs.agrees hv' (by simpa using hne)
      apply Context.agrees_of_other (by simpa using Ne.symm hid)
      intro hl
      refine (ha.other (c.room_ne hfree _) hl).imp_left fun hm => ?_
      simpa [hid] using hm

def opened (o : Outlook) (t : Ticket) : Outlook :=
  { o with
    nextSerial := o.nextSerial + 1
    reply? := fun t' => if t' = t then some .awaited else o.reply? t' }

def closed (o : Outlook) (t : Ticket) : Outlook :=
  { o with reply? := fun t' => if t' = t then none else o.reply? t' }

theorem Spent.opened (hs : o.Spent p n e) {t : Ticket} (ht : t.serial = o.nextSerial) :
    (o.opened t).Spent p n e := by
  refine hs.lasts (Nat.le_succ _) fun t' _ hold hnone => ?_
  have hne : t' ≠ t := by
    rintro rfl
    omega
  exact (if_neg hne).trans hnone

theorem Spent.close (hs : o.Spent p n e) (t : Ticket) : (o.closed t).Spent p n e := by
  refine hs.lasts (Nat.le_refl _) fun t' _ _ hnone => ?_
  by_cases ht : t' = t
  · exact if_pos ht
  · exact (if_neg ht).trans hnone

/-- A request under way that has no slot yet. -/
theorem Settled.await_slot (hs : o.Settled p n c doubt) (hfree : c.room = none)
    (hd : doubt = none ∨ errand = .leave ∧ doubt = some w.room) (hv : o.view w.room = some v)
    (hstage : w.stage = .slot) (howner : w.ticket.owner = .dispatcher n)
    (hserial : w.ticket.serial = o.nextSerial) (hasks : errand.Asks p w.ticket e) :
    ((o.opened w.ticket).modify w.room fun v =>
      { v with waits := v.waits ++ [(w.ticket, e)] }).Engaged p n c errand w := by
  have hlast (e' : Event Ticket) (h : o.Spent p n e') :
      ((o.opened w.ticket).modify w.room fun v =>
        { v with waits := v.waits ++ [(w.ticket, e)] }).Spent p n e' :=
    (h.opened hserial).modify _ _
  obtain ⟨hwaits, hspent⟩ := hs.quiet hv
  refine ⟨hs.id, hfree, howner, by simp [hserial, Outlook.opened, Outlook.modify], ?_,
    { v with waits := v.waits ++ [(w.ticket, e)] }, ?_, ?_⟩
  · intro s v' hv' hne
    rw [view_modify, if_neg hne] at hv'
    refine ⟨(hs.quiet hv').lasts hlast, hs.agrees hv' ?_⟩
    rcases hd with rfl | ⟨-, rfl⟩
    · simp
    · simpa using Ne.symm hne
  · rw [view_modify, if_pos rfl]
    exact Option.map_eq_some_iff.mpr ⟨v, hv, rfl⟩
  · refine .slot e hstage hasks (if_pos rfl) (by simp [hwaits])
      (fun e' he' => hlast e' (hspent e' he')) fun hjoin => ?_
    have ha : c.Agrees v := by
      apply hs.agrees hv
      rcases hd with rfl | ⟨rfl, -⟩
      · simp
      · exact absurd rfl hjoin
    exact ha

/-- A request under way whose event is with the room. -/
theorem engaged_sent {before : List (Event Ticket)} (hid : c.id = p) (hfree : c.room = none)
    (howner : w.ticket.owner = .dispatcher n) (hserial : w.ticket.serial < o.nextSerial)
    (helse : ∀ s v, o.view s = some v → s ≠ w.room → o.Quiet p n v ∧ c.Agrees v)
    (hstage : w.stage = .answer) (hasks : errand.Asks p w.ticket e)
    (hreply : o.reply? w.ticket = some .awaited) (hv : o.view w.room = some v)
    (hwaits : v.waits = []) (hevents : v.events = before ++ [e])
    (hspent : ∀ e ∈ before, o.Spent p n e)
    (hagrees : errand ≠ .leave → c.Agrees { v with events := before }) :
    o.Engaged p n c errand w := by
  refine ⟨hid, hfree, howner, hserial, helse _ _, v, hv,
    .sent e before hstage hasks hreply hwaits hevents hspent ?_⟩
  by_cases hleave : errand = .leave
  · subst hleave
    obtain rfl : e = _ := hasks
    have he : ⟨p, .leave (some w.ticket)⟩ ∈ v.events := by simp [hevents]
    exact Context.agrees_of_leave hfree he rfl
  · have ha := (hagrees hleave).push hfree e
    rw [← hevents] at ha
    exact ha

/-- A new request whose event gets into the mailbox at once. -/
theorem Settled.send (hs : o.Settled p n c doubt) (hfree : c.room = none)
    (hd : doubt = none ∨ errand = .leave ∧ doubt = some w.room) (hv : o.view w.room = some v)
    (hstage : w.stage = .answer) (howner : w.ticket.owner = .dispatcher n)
    (hserial : w.ticket.serial = o.nextSerial) (hasks : errand.Asks p w.ticket e) :
    ((o.opened w.ticket).push w.room e).Engaged p n c errand w := by
  have hlast (e' : Event Ticket) (h : o.Spent p n e') :
      ((o.opened w.ticket).push w.room e).Spent p n e' :=
    (h.opened hserial).modify _ _
  obtain ⟨hwaits, hspent⟩ := hs.quiet hv
  have hagrees {s : Nat} {v' : View} (hv' : o.view s = some v')
      (hne : s ≠ w.room ∨ errand ≠ .leave) : c.Agrees v' := by
    apply hs.agrees hv'
    rcases hd with rfl | ⟨rfl, rfl⟩
    · simp
    · simpa using fun h => hne.elim (fun hne => hne h.symm) fun hne => hne rfl
  refine engaged_sent (v := { v with events := v.events ++ [e] }) hs.id hfree howner ?_ ?_ hstage
    hasks (if_pos rfl) ?_ hwaits rfl (fun e' he' => hlast e' (hspent e' he')) ?_
  · simp [hserial, Outlook.opened, Outlook.push, Outlook.modify]
  · intro s v' hv' hne
    rw [push, view_modify, if_neg hne] at hv'
    exact ⟨(hs.quiet hv').lasts hlast, hagrees hv' (.inl hne)⟩
  · rw [push, view_modify, if_pos rfl]
    exact Option.map_eq_some_iff.mpr ⟨v, hv, rfl⟩
  · intro hjoin
    exact hagrees hv (.inr hjoin)

/-- A request under way gets its slot, and its event is with the room. -/
theorem Engaged.settle (he : o.Engaged p n c errand w) (hv : o.view w.room = some v)
    (hw : v.waits = [(w.ticket, e)]) (w' : Wait) (hticket : w'.ticket = w.ticket)
    (hroom : w'.room = w.room) (hstage : w'.stage = .answer) :
    (o.modify w.room fun v =>
      { v with events := v.events ++ [e], waits := [] }).Engaged p n c errand w' := by
  have hlast (e' : Event Ticket) (h : o.Spent p n e') :
      (o.modify w.room fun v => { v with events := v.events ++ [e], waits := [] }).Spent p n e' :=
    h.modify _ _
  obtain ⟨v', hv', hr⟩ := he.here
  obtain rfl := Option.some.inj (hv.symm.trans hv')
  cases hr with
  | sent _ _ _ _ _ waits => simp [hw] at waits
  | answered _ _ _ waits => simp [hw] at waits
  | slot e' stage asks reply waits spent agrees =>
    obtain rfl : e = e' := by simpa [hw] using waits
    refine engaged_sent (v := { v with events := v.events ++ [e], waits := [] }) he.id he.free
      (hticket ▸ he.owner) (hticket ▸ he.serial) ?_ hstage (hticket ▸ asks) (hticket ▸ reply) ?_
      rfl rfl (fun e' he' => hlast e' (spent e' he')) agrees
    · intro s v' hv' hne
      rw [view_modify, if_neg (hroom ▸ hne)] at hv'
      obtain ⟨hq, ha⟩ := he.elsewhere hv' (hroom ▸ hne)
      exact ⟨hq.lasts hlast, ha⟩
    · rw [view_modify, if_pos hroom, hroom]
      exact Option.map_eq_some_iff.mpr ⟨v, hv, rfl⟩

/-- A requester that gives up leaves its room in doubt. -/
theorem Engaged.give_up (he : o.Engaged p n c errand w) :
    ((o.modify w.room fun v => { v with waits := [] }).closed w.ticket).Settled p n c
      (some w.room) := by
  have hlast (e' : Event Ticket) (h : o.Spent p n e') :
      ((o.modify w.room fun v => { v with waits := [] }).closed w.ticket).Spent p n e' :=
    (h.modify _ _).close _
  obtain ⟨v, hv, hr⟩ := he.here
  refine ⟨he.id, by simp [he.free], ?_, ?_⟩
  · intro s v' hv'
    rw [closed, view_modify] at hv'
    split at hv'
    · rename_i hs
      subst hs
      rw [hv, Option.map_some] at hv'
      obtain rfl := Option.some.inj hv'
      refine ⟨rfl, ?_⟩
      intro e' he'
      cases hr with
      | slot _ _ _ _ _ spent => exact hlast e' (spent e' he')
      | answered _ _ _ _ events => simp [events] at he'
      | sent e before stage asks reply waits events spent =>
        rw [events, List.mem_append, List.mem_singleton] at he'
        rcases he' with he' | rfl
        · exact hlast e' (spent e' he')
        · refine ⟨asks.reply.1, fun _ => by simp [asks.reply.2], ?_⟩
          intro t ht
          obtain rfl := Option.some.inj (asks.reply.2.symm.trans ht)
          exact ⟨he.owner, he.serial, if_pos rfl⟩
    · rename_i hs
      exact (he.elsewhere hv' hs).1.lasts hlast
  · intro s v' hv' hd
    have hs : s ≠ w.room := by
      rintro rfl
      exact hd rfl
    rw [closed, view_modify, if_neg hs] at hv'
    exact (he.elsewhere hv' hs).2

theorem modify_waits_of_nil (hv : o.view r = some v) (hw : v.waits = []) :
    o.modify r (fun v => { v with waits := [] }) = o := by
  rw [modify]
  congr 1
  funext s
  split
  · rename_i hs
    rw [hs, hv, Option.map_some, ← hw]
  · rfl

/-- Once its event is with the room, no delivery of a request waits. -/
theorem Engaged.waits_of_answer (he : o.Engaged p n c errand w) (hstage : w.stage = .answer) :
    ∃ v, o.view w.room = some v ∧ v.waits = [] := by
  obtain ⟨v, hv, hr⟩ := he.here
  refine ⟨v, hv, ?_⟩
  cases hr with
  | slot _ stage => simp [stage] at hstage
  | sent _ _ _ _ _ waits => exact waits
  | answered _ _ _ waits => exact waits

theorem Engaged.close (he : o.Engaged p n c errand w) (hstage : w.stage = .answer) :
    (o.closed w.ticket).Settled p n c (some w.room) := by
  obtain ⟨v, hv, hw⟩ := he.waits_of_answer hstage
  have hgive := he.give_up
  rwa [modify_waits_of_nil hv hw] at hgive

end Outlook

end Lobby
