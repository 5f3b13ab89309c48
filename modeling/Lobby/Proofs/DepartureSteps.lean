import Lobby.Proofs.RoomTurns

/-! What the supervisor of a session does to the rooms while it takes its player off them, and what
it has yet to do. It sends them leaves, and no room comes to list the player again. -/
namespace Lobby

def Event.Frees (e : Event Ticket) (p : PlayerId) : Prop := e.player = p ∧ e.kind = .leave

theorem Event.Frees.concerns {e : Event Ticket} {p : PlayerId} (h : e.Frees p) (n : Nat) :
    e.concerns p n = true :=
  concerns_of_bindsTo (by simp [bindsTo, h.1, h.2]) n

namespace View
variable {p : PlayerId} {n : Nat} {v v' v'' : View}

structure Tends (p : PlayerId) (n : Nat) (v v' : View) : Prop where
  id : v'.id = v.id
  listed : v'.listed = v.listed
  events : ∃ leaves, v'.events = v.events ++ leaves ∧ ∀ e ∈ leaves, e.Frees p
  waits : ∀ w ∈ v'.waits, w ∈ v.waits ∨ w.1.owner = .supervisor n ∧ w.2.Frees p

theorem Tends.refl (p : PlayerId) (n : Nat) (v : View) : v.Tends p n v :=
  ⟨rfl, rfl, ⟨[], by simp⟩, fun _ => .inl⟩

theorem Tends.trans (h : v.Tends p n v') (h' : v'.Tends p n v'') : v.Tends p n v'' := by
  obtain ⟨leaves, hev, hleaves⟩ := h.events
  obtain ⟨leaves', hev', hleaves'⟩ := h'.events
  refine ⟨h'.id.trans h.id, h'.listed.trans h.listed, ⟨leaves ++ leaves', ?_, ?_⟩, ?_⟩
  · rw [hev', hev, List.append_assoc]
  · intro e he
    exact (List.mem_append.mp he).elim (hleaves e) (hleaves' e)
  · intro w hw
    rcases h'.waits w hw with hw | hw
    · exact h.waits w hw
    · exact .inr hw

def blank (id : RoomId) : View := { id, listed := false, events := [], waits := [] }

def Clear (v : View) : Prop := v.listed = true → ∃ e ∈ v.events, e.kind = .leave

theorem clear_blank (id : RoomId) : (blank id).Clear := by
  intro hlisted
  contradiction

theorem Clear.tends (hc : v.Clear) (ht : v.Tends p n v') : v'.Clear := by
  intro hlisted
  obtain ⟨e, he, hk⟩ := hc (ht.listed ▸ hlisted)
  obtain ⟨leaves, hev, -⟩ := ht.events
  exact ⟨e, hev ▸ List.mem_append_left _ he, hk⟩

/-- Handling a leave takes the player off, and handling another event uses up no leave. -/
theorem Clear.handled {e : Event Ticket} {rest : List (Event Ticket)} (hc : v.Clear)
    (hev : v.events = e :: rest) :
    ({ v with listed := v.listed && e.kind ≠ .leave, events := rest } : View).Clear := by
  intro hlisted
  simp only [Bool.and_eq_true, decide_eq_true_eq] at hlisted
  obtain ⟨e', he', hk⟩ := hc hlisted.1
  rw [hev, List.mem_cons] at he'
  rcases he' with rfl | he'
  · exact absurd hk hlisted.2
  · exact ⟨e', he', hk⟩

end View

namespace Supervising

/-- The supervisor has yet to get a leave into the mailbox of a room. -/
def Owes (r : Nat) (id : RoomId) : Supervising → Prop
  | .leaving rooms => id ∈ rooms
  | .waiting w rooms => id ∈ rooms ∨ w.room = r ∧ w.stage = .slot
  | _ => False

/-- The supervisor goes on from a room that it was to ask, or in whose mailbox it waited for a
slot. -/
def Drops (h : Hub) (r : Nat) : Supervising → Supervising → Prop
  | .leaving (id :: rooms), .leaving rest => rest = rooms ∧ h.room? id = some r
  | .waiting w rooms, .leaving rest => rest = rooms ∧ w.room = r ∧ w.stage = .slot
  | _, _ => False

end Supervising

namespace Outlook
variable {o o' o'' : Outlook} {p : PlayerId} {n r : Nat} {v : View} {e : Event Ticket}
  {keeps : Nat → Prop} {s : Supervising}

structure Tends (p : PlayerId) (n : Nat) (o o' : Outlook) : Prop where
  kept {r : Nat} {v : View} : o.view r = some v → ∃ v', o'.view r = some v' ∧ v.Tends p n v'
  fresh {r : Nat} {v : View} : o'.view r = some v → o.view r = none →
    (View.blank v.id).Tends p n v
  reply? {t : Ticket} : t.owner = .dispatcher n → o'.reply? t = o.reply? t
  nextSerial : o.nextSerial ≤ o'.nextSerial

theorem Grows.tends (hg : o.Grows n o') : o.Tends p n o' := by
  refine ⟨fun hv => ⟨_, hg.kept hv, .refl p n _⟩, ?_, hg.reply?, hg.nextSerial⟩
  rintro r ⟨id, listed, events, waits⟩ hv hnone
  obtain ⟨-, rfl, rfl, rfl⟩ := hg.fresh hv hnone
  exact .refl p n _

/-- A view comes from the one before, or it is of a new room. -/
theorem Tends.view_cases (ht : o.Tends p n o') (hv : o'.view r = some v) :
    (∃ v₀, o.view r = some v₀ ∧ v₀.Tends p n v) ∨
      o.view r = none ∧ (View.blank v.id).Tends p n v := by
  cases hv₀ : o.view r with
  | none => exact .inr ⟨rfl, ht.fresh hv hv₀⟩
  | some v₀ =>
    obtain ⟨v', hv', htends⟩ := ht.kept hv₀
    obtain rfl := Option.some.inj (hv'.symm.trans hv)
    exact .inl ⟨v₀, rfl, htends⟩

theorem Tends.trans (h : o.Tends p n o') (h' : o'.Tends p n o'') : o.Tends p n o'' := by
  refine ⟨?_, ?_, fun ht => (h'.reply? ht).trans (h.reply? ht),
    Nat.le_trans h.nextSerial h'.nextSerial⟩
  · intro r v hv
    obtain ⟨v', hv', htends⟩ := h.kept hv
    obtain ⟨v'', hv'', htends'⟩ := h'.kept hv'
    exact ⟨v'', hv'', htends.trans htends'⟩
  · intro r v hv hnone
    rcases h'.view_cases hv with ⟨v', hv', htends⟩ | ⟨-, htends⟩
    · rw [htends.id]
      exact (h.fresh hv' hnone).trans htends
    · exact htends

theorem tends_modify {f : View → View} (hf : ∀ v, o.view r = some v → v.Tends p n (f v)) :
    o.Tends p n (o.modify r f) := by
  refine ⟨?_, ?_, fun _ => rfl, Nat.le_refl _⟩
  · intro s v hv
    rw [view_modify]
    split
    · rename_i hs
      rw [hv]
      exact ⟨f v, rfl, hf v (hs ▸ hv)⟩
    · exact ⟨v, hv, .refl p n v⟩
  · intro s v hv hnone
    rw [view_modify] at hv
    simp [hnone] at hv

def Clear (o : Outlook) (r : Nat) : Prop := ∀ v, o.view r = some v → v.Clear

theorem Clear.tends (hc : o.Clear r) (ht : o.Tends p n o') : o'.Clear r := by
  intro v hv
  rcases ht.view_cases hv with ⟨v₀, hv₀, htends⟩ | ⟨-, htends⟩
  · exact (hc v₀ hv₀).tends htends
  · exact (View.clear_blank v.id).tends htends

/-- What holds while the player's supervisor takes it off its rooms: only leaves wait to get into
them, and what has got there are leaves, and joins whose requester has gone. Of the rooms that it
keeps to, those that list the player and are not going to take it off are yet to be told. -/
structure Parting (o : Outlook) (p : PlayerId) (n : Nat) (keeps : Nat → Prop) (s : Supervising) :
    Prop where
  waits {r : Nat} {v : View} : o.view r = some v → ∀ w ∈ v.waits,
    w.1.owner = .supervisor n ∧ w.2.Frees p
  events {r : Nat} {v : View} : o.view r = some v → ∀ e ∈ v.events, e.Frees p ∨ o.Spent p n e
  clear {r : Nat} {v : View} : keeps r → o.view r = some v → v.Clear ∨ s.Owes r v.id

theorem Parting.owned (hp : o.Parting p n keeps s) : o.Owned n :=
  fun _ _ w hv hw => .inr (hp.waits hv w hw).1

/-- The supervisor may act for the player, as long as it forgets no room that it keeps to. -/
theorem Parting.tends (hp : o.Parting p n keeps s) (ht : o.Tends p n o') {s' : Supervising}
    (hs : ∀ r v, keeps r → o.view r = some v → s.Owes r v.id → s'.Owes r v.id ∨ o'.Clear r) :
    o'.Parting p n keeps s' := by
  have hspent (e : Event Ticket) (he : o.Spent p n e) : o'.Spent p n e :=
    he.lasts ht.nextSerial fun t howner _ hnone => (ht.reply? howner).trans hnone
  refine ⟨?_, ?_, ?_⟩
  · intro r v hv w hw
    rcases ht.view_cases hv with ⟨v₀, hv₀, htends⟩ | ⟨-, htends⟩
    · exact (htends.waits w hw).elim (hp.waits hv₀ w) id
    · exact (htends.waits w hw).elim (by simp [View.blank]) id
  · intro r v hv e he
    rcases ht.view_cases hv with ⟨v₀, hv₀, htends⟩ | ⟨-, htends⟩
    · obtain ⟨leaves, hev, hleaves⟩ := htends.events
      rw [hev, List.mem_append] at he
      rcases he with he | he
      · exact (hp.events hv₀ e he).imp_right (hspent e)
      · exact .inl (hleaves e he)
    · obtain ⟨leaves, hev, hleaves⟩ := htends.events
      rw [hev] at he
      exact .inl (hleaves e he)
  · intro r v hr hv
    rcases ht.view_cases hv with ⟨v₀, hv₀, htends⟩ | ⟨-, htends⟩
    · rcases hp.clear hr hv₀ with hc | ho
      · exact .inl (hc.tends htends)
      · rw [htends.id]
        exact (hs r v₀ hr hv₀ ho).symm.imp_left fun hc => hc v hv
    · exact .inl ((View.clear_blank v.id).tends htends)

/-- A property that lasts while others act, and while rooms handle events. Those that take the
player off, and those whose requester has gone, make nobody a member. -/
structure Lingers (p : PlayerId) (n : Nat) (O : Outlook → Prop) : Prop where
  owned {o : Outlook} : O o → o.Owned n
  grows {o o' : Outlook} : O o → o.Grows n o' → O o'
  handled {o : Outlook} {r : Nat} {v : View} {e : Event Ticket} {rest : List (Event Ticket)}
    {listed : Bool} {reply? : Ticket → Option Reply} : O o → o.view r = some v →
      v.events = e :: rest →
      (e.Frees p ∨ o.Spent p n e → listed = (v.listed && e.kind ≠ .leave)) →
      (∀ t, o.reply? t = none → reply? t = none) → O (o.handled r rest listed reply?)

private theorem Parting.handled (hp : o.Parting p n keeps s) (hv : o.view r = some v)
    {rest : List (Event Ticket)} (hev : v.events = e :: rest) {reply? : Ticket → Option Reply}
    (hreply : ∀ t, o.reply? t = none → reply? t = none) :
    (o.handled r rest (v.listed && e.kind ≠ .leave) reply?).Parting p n keeps s := by
  have hspent (e' : Event Ticket) (h : o.Spent p n e') :
      (o.handled r rest (v.listed && e.kind ≠ .leave) reply?).Spent p n e' :=
    h.lasts (Nat.le_refl _) fun t _ _ => hreply t
  refine ⟨?_, ?_, ?_⟩
  · intro q v' hv' w hw
    rw [view_handled hv] at hv'
    split at hv'
    · obtain rfl := Option.some.inj hv'
      exact hp.waits hv w hw
    · exact hp.waits hv' w hw
  · intro q v' hv' e' he'
    rw [view_handled hv] at hv'
    split at hv'
    · obtain rfl := Option.some.inj hv'
      have hmem : e' ∈ v.events := hev ▸ List.mem_cons_of_mem _ he'
      exact (hp.events hv e' hmem).imp_right (hspent e')
    · exact (hp.events hv' e' he').imp_right (hspent e')
  · intro q v' hq hv'
    rw [view_handled hv] at hv'
    split at hv'
    · rename_i hqr
      subst hqr
      obtain rfl := Option.some.inj hv'
      exact (hp.clear hq hv).imp_left fun hc => hc.handled hev
    · exact hp.clear hq hv'

theorem lingers_parting (p : PlayerId) (n : Nat) (keeps : Nat → Prop) (s : Supervising) :
    Lingers p n fun o => o.Parting p n keeps s where
  owned := Parting.owned
  grows hp hg := hp.tends hg.tends fun _ _ _ _ => .inl
  handled hp hv hev hlisted hreply := by
    rw [hlisted (hp.events hv _ (by simp [hev]))]
    exact hp.handled hv hev hreply

end Outlook

namespace Hub
variable {h h' h'' : Hub} {hands : Hands} {p : PlayerId} {n r : Nat} {cell : RoomCell}
  {e : Event Ticket} {w : Wait} {keeps : Nat → Prop} {s : Supervising}

structure Tends (hands : Hands) (p : PlayerId) (n : Nat) (h h' : Hub) : Prop where
  live : h'.Live
  outlook : (h.outlook hands p n).Tends p n (h'.outlook hands p n)

theorem Spares.tends (hs : Spares hands p n h h') : Tends hands p n h h' :=
  ⟨hs.live, hs.grows.tends⟩

theorem Tends.trans (ht : Tends hands p n h h') (ht' : Tends hands p n h' h'') :
    Tends hands p n h h'' :=
  ⟨ht'.live, ht.outlook.trans ht'.outlook⟩

/-- A room's mailbox gets leaves of the player at most, and the supervisor's deliveries of them. -/
private theorem Live.tends_setEvents (hl : h.Live) (hc : h.rooms[r]? = some cell)
    (leaves : List (Event Ticket)) {events : Mailbox Ticket (Event Ticket)}
    (hclosed : events.closed = cell.events.closed) (hsenders : events.senders = cell.events.senders)
    (hqueue : events.queue = cell.events.queue ++ leaves) (hleaves : ∀ e ∈ leaves, e.Frees p)
    (hwaits : ∀ w ∈ events.underWay,
      w ∈ cell.events.underWay ∨ w.1.owner = .supervisor n ∧ w.2.Frees p) :
    Tends hands p n h (h.setRoom r { cell with events }) := by
  refine ⟨hl.setEvents hc hclosed hsenders, ?_⟩
  rw [outlook_setRoom hc]
  apply Outlook.tends_modify
  intro v hv
  obtain rfl := Option.some.inj ((view_outlook hc).symm.trans hv)
  refine ⟨rfl, rfl, ⟨leaves.filter (·.concerns p n), ?_, ?_⟩, ?_⟩
  · simp only [RoomCell.view, hqueue, List.filter_append, List.append_assoc]
  · intro e he
    exact hleaves e (List.mem_filter.mp he).1
  · intro w hw
    obtain ⟨hmem, hkey⟩ := List.mem_filter.mp hw
    exact (hwaits w hmem).imp_left fun hold => List.mem_filter.mpr ⟨hold, hkey⟩

/-- A room that has a leave of the player in its mailbox is going to take it off. -/
theorem clear_of_queued (hc : h.rooms[r]? = some cell) (he : e ∈ cell.events.queue)
    (hf : e.Frees p) : (h.outlook hands p n).Clear r := by
  intro v hv _
  obtain rfl := Option.some.inj ((view_outlook hc).symm.trans hv)
  exact ⟨e, List.mem_filter.mpr ⟨List.mem_append_right _ he, hf.concerns n⟩, hf.2⟩

/-- A leave of the player gets into a room's mailbox. -/
private theorem Live.tends_accept (hl : h.Live) (hc : h.rooms[r]? = some cell) (hf : e.Frees p)
    {granted : List (Ticket × Event Ticket)} (hg : ∀ w ∈ granted, w ∈ cell.events.granted) :
    Tends hands p n h (h.setRoom r
        { cell with events := { cell.events with granted, queue := cell.events.queue ++ [e] } }) ∧
      ((h.setRoom r { cell with events :=
        { cell.events with granted, queue := cell.events.queue ++ [e] } }).outlook hands p n).Clear
          r := by
  constructor
  · refine hl.tends_setEvents hc [e] rfl rfl rfl (by simpa using hf) fun w hw => .inl ?_
    exact List.mem_append.mpr ((List.mem_append.mp hw).imp_left (hg w))
  · have hnow := (getElem?_setRoom hc { cell with events :=
      { cell.events with granted, queue := cell.events.queue ++ [e] } } r).trans (if_pos rfl)
    exact clear_of_queued hnow (List.mem_append_right _ List.mem_cons_self) hf

private theorem Tends.closeReply (ht : Tends hands p n h h') {t : Ticket}
    (hown : t.owner = .supervisor n) : Tends hands p n h (h'.closeReply t) :=
  ht.trans (ht.live.spares_closeReply (by simp [hown])).tends

private theorem Tends.signal (ht : Tends hands p n h h') (sig : Signal) :
    Tends hands p n h (h'.signal sig) :=
  ht.trans (ht.live.spares_signal sig).tends

theorem Live.tends_expire (hl : h.Live) (hown : w.ticket.owner = .supervisor n) :
    Tends hands p n h (h.expire w).2 := by
  rw [expire]
  refine Tends.closeReply ?_ hown
  split
  · rename_i cell _ hc
    obtain ⟨next, granted, waiting, hwith, hu⟩ := cell.events.exists_withdraw w.ticket
    have hset : Tends hands p n h
        (h.setRoom w.room { cell with events := { cell.events with granted, waiting } }) := by
      refine hl.tends_setEvents hc [] rfl rfl (by simp) (by simp) fun w' hw' => .inl ?_
      rw [Mailbox.underWay] at hw' ⊢
      rcases hu with ⟨hu, -⟩ | ⟨hu, -⟩ <;> rw [hu] at hw'
      · exact List.mem_append.mpr
          ((List.mem_append.mp hw').imp_left fun hm => (List.mem_filter.mp hm).1)
      · exact List.mem_append.mpr
          ((List.mem_append.mp hw').imp_right fun hm => (List.mem_filter.mp hm).1)
    rw [hwith]
    cases next with
    | some t => exact hset.signal _
    | none => exact hset
  · exact hl.spares.tends

/-- How the supervisor's request to a room goes on from a stage: it waits in the same stage, or the
leave has got into the mailbox, or it has ended. -/
structure Parts (hands : Hands) (p : PlayerId) (n : Nat) (h : Hub) (r : Nat) (stage : Stage)
    (result : Course × Hub) : Prop where
  tends : Tends hands p n h result.2
  waiting {w : Wait} : result.1 = .waiting w →
    w.room = r ∧ (w.stage = stage ∨ (result.2.outlook hands p n).Clear r)

private theorem parts_expire {h₀ : Hub} {stage : Stage} (ht : Tends hands p n h₀ h)
    (hown : w.ticket.owner = .supervisor n) : Parts hands p n h₀ r stage (h.expire w) :=
  ⟨ht.trans (ht.live.tends_expire hown), by simp [expire, conclude]⟩

private theorem parts_awaitAnswer {h₀ : Hub} {stage : Stage} (ht : Tends hands p n h₀ h)
    (hown : w.ticket.owner = .supervisor n) (hclear : (h.outlook hands p n).Clear w.room)
    (now : Nat) : Parts hands p n h₀ w.room stage (h.awaitAnswer w now) := by
  have hfresh : Tends hands p n h h.freshSerial.2 := ht.live.spares_freshSerial.tends
  have hsig := hfresh.signal (.arrived (.room w.room))
  rw [awaitAnswer]
  simp only
  split
  · exact parts_expire (ht.trans hsig) hown
  · refine ⟨ht.trans hsig, ?_⟩
    rintro _ ⟨⟩
    exact ⟨rfl, .inr (hclear.tends hsig.outlook)⟩

/-- A delivery of the supervisor that has been granted a slot is a leave. -/
private theorem frees_of_granted (ho : (h.outlook hands p n).Parting p n keeps s)
    (hc : h.rooms[w.room]? = some cell) (hown : w.ticket.owner = .supervisor n)
    (hm : (w.ticket, e) ∈ cell.events.granted) : e.Frees p := by
  refine (ho.waits (view_outlook hc) (w.ticket, e) (List.mem_filter.mpr ?_)).2
  exact ⟨List.mem_append_left _ hm, by simp [Task.ActsFor, hown]⟩

theorem Live.parts_resume (hl : h.Live) (ho : (h.outlook hands p n).Parting p n keeps s)
    (hown : w.ticket.owner = .supervisor n) (now : Nat) :
    Parts hands p n h w.room w.stage (h.resume w now) := by
  have hrefl : Tends hands p n h h := hl.spares.tends
  have closed {answer : Answer} :
      Parts hands p n h w.room w.stage (.ended answer, h.closeReply w.ticket) :=
    ⟨hrefl.closeReply hown, by simp⟩
  have late : Parts hands p n h w.room w.stage
      (if w.deadline ≤ now then h.expire w else (.waiting w, h)) := by
    split
    · exact parts_expire hrefl hown
    · refine ⟨hrefl, ?_⟩
      rintro _ ⟨⟩
      exact ⟨rfl, .inl rfl⟩
  rw [resume]
  cases hstage : w.stage with
  | answer =>
    rw [hstage] at closed late
    simp only
    split
    · exact closed
    · exact late
    · exact closed
  | slot =>
    rw [hstage] at closed late
    simp only
    cases hc : h.rooms[w.room]? with
    | none => exact closed
    | some cell =>
      rcases Mailbox.settle_cases (hl.running hc).closed w.ticket with ⟨e, hm, hs⟩ | hs <;>
        simp only [hs]
      · have hfrees := frees_of_granted ho hc hown hm
        obtain ⟨hset, hclear⟩ := hl.tends_accept hc hfrees
          fun w' hw' => (List.mem_filter.mp hw').1
        exact parts_awaitAnswer hset hown hclear now
      · exact late

theorem Live.parts_requestLeave (hl : h.Live) (r timeout now : Nat) :
    Parts hands p n h r .slot (h.requestLeave (.supervisor n) r timeout now p) := by
  have hopen : Tends hands p n h (h.freshSerial.2.openReply ⟨.supervisor n, h.nextSerial⟩) := by
    have hfresh : Spares hands p n h h.freshSerial.2 := hl.spares_freshSerial
    exact (hfresh.trans (hfresh.live.spares_openReply (by simp))).tends
  rw [requestLeave, request]
  simp only [freshSerial] at hopen ⊢
  generalize ({ h with nextSerial := h.nextSerial + 1 } : Hub).openReply
    ⟨.supervisor n, h.nextSerial⟩ = h' at hopen ⊢
  obtain ⟨t, ht⟩ : ∃ t : Ticket, t = ⟨.supervisor n, h.nextSerial⟩ := ⟨_, rfl⟩
  have hown : t.owner = .supervisor n := by rw [ht]
  rw [← ht]
  cases hc : h'.rooms[r]? with
  | none => exact ⟨hopen.closeReply hown, by simp [conclude]⟩
  | some cell =>
    have hfrees : (⟨p, .leave (some t)⟩ : Event Ticket).Frees p := ⟨rfl, rfl⟩
    rcases Mailbox.send_cases (hopen.live.running hc).closed t ⟨p, .leave (some t)⟩ with hs | hs <;>
      simp only [hs]
    · obtain ⟨hset, hclear⟩ := hopen.live.tends_accept hc hfrees fun _ hw => hw
      exact parts_awaitAnswer (w := ⟨t, r, .slot, timeout, now, h.nextSerial⟩) (hopen.trans hset)
        hown hclear now
    · have hset : Tends hands p n h' (h'.setRoom r { cell with events := { cell.events with
          waiting := cell.events.waiting ++ [(t, ⟨p, .leave (some t)⟩)] } }) := by
        refine hopen.live.tends_setEvents hc [] rfl rfl (by simp) (by simp) ?_
        intro w hw
        simp only [Mailbox.underWay, ← List.append_assoc] at hw ⊢
        rcases List.mem_append.mp hw with hw | hw
        · exact .inl hw
        · obtain rfl := List.mem_singleton.mp hw
          exact .inr ⟨hown, hfrees⟩
      split
      · exact parts_expire (hopen.trans hset) hown
      · refine ⟨hopen.trans hset, ?_⟩
        rintro _ ⟨⟩
        exact ⟨rfl, .inl rfl⟩

end Hub

end Lobby
