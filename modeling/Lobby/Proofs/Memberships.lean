import Lobby.Player.Service
import Lobby.Proofs.RoomViews

/-! How a player's own state and the rooms agree on its memberships, between two messages and while
a request is under way, and that they go on agreeing whatever the rooms and others do. -/
namespace Lobby

/-- An event of the player whose requester has gone, or a leave that nobody asked to be told of. -/
structure Outlook.Spent (o : Outlook) (p : PlayerId) (n : Nat) (e : Event Ticket) : Prop where
  player : e.player = p
  replied : e.kind = .join → e.reply?.isSome
  closed {t : Ticket} : e.reply? = some t →
    t.owner = .dispatcher n ∧ t.serial < o.nextSerial ∧ o.reply? t = none

def Outlook.Quiet (o : Outlook) (p : PlayerId) (n : Nat) (v : View) : Prop :=
  v.waits = [] ∧ ∀ e ∈ v.events, o.Spent p n e

/-- A room agrees with the player: if it is the player's own it lists it, and nothing will change
that; else the player knows that it may be listed, or it is going to be taken off. -/
def Context.Agrees (c : Context) (v : View) : Prop :=
  if c.room = some v.id then v.listed = true ∧ v.events = []
  else v.listed = true → v.id ∈ c.unconfirmed ∨ ∃ e ∈ v.events, e.kind = .leave

theorem Context.Agrees.own {c : Context} {v : View} (ha : c.Agrees v) (h : c.room = some v.id) :
    v.listed = true ∧ v.events = [] := by
  rwa [Context.Agrees, if_pos h] at ha

theorem Context.Agrees.other {c : Context} {v : View} (ha : c.Agrees v)
    (h : c.room ≠ some v.id) (hl : v.listed = true) :
    v.id ∈ c.unconfirmed ∨ ∃ e ∈ v.events, e.kind = .leave := by
  rw [Context.Agrees, if_neg h] at ha
  exact ha hl

theorem Context.agrees_of_other {c : Context} {v : View} (h : c.room ≠ some v.id)
    (hl : v.listed = true → v.id ∈ c.unconfirmed ∨ ∃ e ∈ v.events, e.kind = .leave) :
    c.Agrees v := by
  rwa [Context.Agrees, if_neg h]

theorem Context.room_ne {c : Context} (hfree : c.room = none) (id : RoomId) : c.room ≠ some id := by
  simp [hfree]

/-- Handling an event of the player that is spent takes it off, or does nothing to it. -/
theorem Context.Agrees.handled {c : Context} {v : View} {e : Event Ticket}
    {rest : List (Event Ticket)} (ha : c.Agrees v) (hev : v.events = e :: rest) :
    c.Agrees { v with listed := v.listed && e.kind ≠ .leave, events := rest } := by
  rw [Context.Agrees] at ha ⊢
  split at ha
  · simp [hev] at ha
  · rename_i hroom
    rw [if_neg hroom]
    intro hlisted
    simp only [Bool.and_eq_true, decide_eq_true_eq] at hlisted
    rcases ha hlisted.1 with h | ⟨e', he', hk⟩
    · exact .inl h
    · rw [hev, List.mem_cons] at he'
      rcases he' with rfl | he'
      · exact absurd hk hlisted.2
      · exact .inr ⟨e', he', hk⟩

/-- A player in no room agrees with any room that is going to take it off. -/
theorem Context.agrees_of_leave {c : Context} {v : View} {e : Event Ticket} (hfree : c.room = none)
    (he : e ∈ v.events) (hk : e.kind = .leave) : c.Agrees v := by
  apply agrees_of_other (c.room_ne hfree _)
  intro _
  exact .inr ⟨e, he, hk⟩

/-- A player in no room goes on agreeing with a room that gets more events. -/
theorem Context.Agrees.push {c : Context} {v : View} {before : List (Event Ticket)}
    (ha : c.Agrees { v with events := before }) (hfree : c.room = none) (e : Event Ticket) :
    c.Agrees { v with events := before ++ [e] } := by
  apply agrees_of_other (c.room_ne hfree _)
  intro hlisted
  apply (ha.other (c.room_ne hfree _) hlisted).imp_right
  rintro ⟨e', he', hk⟩
  exact ⟨e', List.mem_append_left _ he', hk⟩

/-- What holds between two messages, but for a room in doubt. -/
structure Outlook.Settled (o : Outlook) (p : PlayerId) (n : Nat) (c : Context)
    (doubt : Option Nat) : Prop where
  id : c.id = p
  confirmed {id : RoomId} : c.room = some id → ∃ r, o.room? id = some r
  quiet {r : Nat} {v : View} : o.view r = some v → o.Quiet p n v
  agrees {r : Nat} {v : View} : o.view r = some v → doubt ≠ some r → c.Agrees v

def Errand.Asks (errand : Errand) (p : PlayerId) (t : Ticket) (e : Event Ticket) : Prop :=
  match errand with
  | .leave => e = ⟨p, .leave (some t)⟩
  | _ => ∃ profile, e = ⟨p, .join profile (some t)⟩

theorem Errand.Asks.reply {errand : Errand} {p : PlayerId} {t : Ticket} {e : Event Ticket}
    (h : errand.Asks p t e) : e.player = p ∧ e.reply? = some t := by
  cases errand with
  | create | join =>
    obtain ⟨profile, rfl⟩ := h
    exact ⟨rfl, rfl⟩
  | leave =>
    obtain rfl := h
    exact ⟨rfl, rfl⟩

def Errand.Grants (errand : Errand) (outcome : Outcome) : Prop :=
  errand ≠ .leave ∧ outcome.ret = .ok

inductive Outlook.Rendezvous (o : Outlook) (p : PlayerId) (n : Nat) (c : Context) (errand : Errand)
    (w : Wait) (v : View) : Prop
  | slot (e : Event Ticket) (stage : w.stage = .slot) (asks : errand.Asks p w.ticket e)
      (reply : o.reply? w.ticket = some .awaited) (waits : v.waits = [(w.ticket, e)])
      (spent : ∀ e ∈ v.events, o.Spent p n e) (agrees : errand ≠ .leave → c.Agrees v)
  | sent (e : Event Ticket) (before : List (Event Ticket)) (stage : w.stage = .answer)
      (asks : errand.Asks p w.ticket e) (reply : o.reply? w.ticket = some .awaited)
      (waits : v.waits = []) (events : v.events = before ++ [e])
      (spent : ∀ e ∈ before, o.Spent p n e) (agrees : c.Agrees v)
  | answered (outcome : Outcome) (stage : w.stage = .answer)
      (reply : o.reply? w.ticket = some (.answered outcome)) (waits : v.waits = [])
      (events : v.events = []) (granted : errand.Grants outcome → v.listed = true)
      (refused : ¬ errand.Grants outcome → c.Agrees v)

structure Outlook.Engaged (o : Outlook) (p : PlayerId) (n : Nat) (c : Context) (errand : Errand)
    (w : Wait) : Prop where
  id : c.id = p
  free : c.room = none
  owner : w.ticket.owner = .dispatcher n
  serial : w.ticket.serial < o.nextSerial
  elsewhere {r : Nat} {v : View} : o.view r = some v → r ≠ w.room → o.Quiet p n v ∧ c.Agrees v
  here : ∃ v, o.view w.room = some v ∧ o.Rendezvous p n c errand w v

namespace Outlook
variable {o o' : Outlook} {p : PlayerId} {n : Nat} {c : Context} {doubt : Option Nat}
  {errand : Errand} {w : Wait} {v : View} {e : Event Ticket} {r : Nat}

theorem Spent.lasts (hs : o.Spent p n e) (hserial : o.nextSerial ≤ o'.nextSerial)
    (hreply : ∀ t, t.owner = .dispatcher n → t.serial < o.nextSerial → o.reply? t = none →
      o'.reply? t = none) : o'.Spent p n e := by
  refine ⟨hs.player, hs.replied, ?_⟩
  intro t ht
  obtain ⟨howner, hold, hnone⟩ := hs.closed ht
  exact ⟨howner, Nat.lt_of_lt_of_le hold hserial, hreply t howner hold hnone⟩

theorem Spent.grows (hs : o.Spent p n e) (hg : o.Grows n o') : o'.Spent p n e :=
  hs.lasts hg.nextSerial fun _ howner _ hnone => (hg.reply? howner).trans hnone

theorem Quiet.lasts (hq : o.Quiet p n v) (hspent : ∀ e, o.Spent p n e → o'.Spent p n e) :
    o'.Quiet p n v :=
  ⟨hq.1, fun e he => hspent e (hq.2 e he)⟩

theorem Quiet.grows (hq : o.Quiet p n v) (hg : o.Grows n o') : o'.Quiet p n v :=
  hq.lasts fun _ he => he.grows hg

/-- A view after others have acted is as it was, or it is of a new room, which the player has
nothing to do with. -/
theorem Grows.view_cases (hg : o.Grows n o') (hv : o'.view r = some v)
    (hc : ∀ id, c.room = some id → ∃ s, o.room? id = some s) :
    o.view r = some v ∨ o.view r = none ∧ o'.Quiet p n v ∧ c.Agrees v := by
  cases hv' : o.view r with
  | some v' => exact .inl (congrArg some (Option.some.inj ((hg.kept hv').symm.trans hv)))
  | none =>
    obtain ⟨hid, hlisted, hevents, hwaits⟩ := hg.fresh hv hv'
    refine .inr ⟨rfl, ⟨hwaits, by simp [hevents]⟩, ?_⟩
    apply Context.agrees_of_other
    · intro hroom
      obtain ⟨s, hs⟩ := hc v.id hroom
      simp [hid] at hs
    · simp [hlisted]

theorem Settled.grows (hs : o.Settled p n c doubt) (hg : o.Grows n o') :
    o'.Settled p n c doubt := by
  refine ⟨hs.id, ?_, ?_, ?_⟩
  · intro id hid
    obtain ⟨r, hr⟩ := hs.confirmed hid
    exact ⟨r, hg.room? hr⟩
  · intro r v hv
    rcases hg.view_cases hv fun id => hs.confirmed with h | ⟨-, h, -⟩
    · exact (hs.quiet h).grows hg
    · exact h
  · intro r v hv hd
    rcases hg.view_cases (p := p) hv fun id => hs.confirmed with h | ⟨-, -, h⟩
    · exact hs.agrees h hd
    · exact h

theorem Rendezvous.lasts (hr : o.Rendezvous p n c errand w v)
    (hreply : o'.reply? w.ticket = o.reply? w.ticket)
    (hspent : ∀ e, o.Spent p n e → o'.Spent p n e) : o'.Rendezvous p n c errand w v := by
  cases hr with
  | slot e stage asks reply waits spent agrees =>
    exact .slot e stage asks (hreply.trans reply) waits (fun e he => hspent e (spent e he)) agrees
  | sent e before stage asks reply waits events spent agrees =>
    exact .sent e before stage asks (hreply.trans reply) waits events
      (fun e he => hspent e (spent e he)) agrees
  | answered outcome stage reply waits events granted refused =>
    exact .answered outcome stage (hreply.trans reply) waits events granted refused

theorem Engaged.grows (he : o.Engaged p n c errand w) (hg : o.Grows n o') :
    o'.Engaged p n c errand w := by
  obtain ⟨v, hv, hr⟩ := he.here
  refine ⟨he.id, he.free, he.owner, Nat.lt_of_lt_of_le he.serial hg.nextSerial, ?_, v, hg.kept hv,
    hr.lasts (hg.reply? he.owner) fun e he => he.grows hg⟩
  intro r v hv hne
  rcases hg.view_cases (p := p) (c := c) hv (by simp [he.free]) with h | ⟨-, h⟩
  · obtain ⟨hq, ha⟩ := he.elsewhere h hne
    exact ⟨hq.grows hg, ha⟩
  · exact h

/-- Of a wait, only what is waited for matters, and not since when. -/
theorem Engaged.of_wait (he : o.Engaged p n c errand w) {w' : Wait} (ht : w'.ticket = w.ticket)
    (hr : w'.room = w.room) (hs : w'.stage = w.stage) : o.Engaged p n c errand w' := by
  obtain ⟨ticket, room, stage, timeout, began, turn⟩ := w'
  simp only at ht hr hs
  subst ht hr hs
  obtain ⟨v, hv, hrv⟩ := he.here
  refine ⟨he.id, he.free, he.owner, he.serial, he.elsewhere, v, hv, ?_⟩
  cases hrv with
  | slot e stage asks reply waits spent agrees =>
    exact .slot e stage asks reply waits spent agrees
  | sent e before stage asks reply waits events spent agrees =>
    exact .sent e before stage asks reply waits events spent agrees
  | answered outcome stage reply waits events granted refused =>
    exact .answered outcome stage reply waits events granted refused

theorem Settled.owned (hs : o.Settled p n c doubt) : o.Owned n := by
  intro r v w hv hw
  simp [(hs.quiet hv).1] at hw

theorem Engaged.owned (he : o.Engaged p n c errand w) : o.Owned n := by
  obtain ⟨v, hv, hr⟩ := he.here
  intro r v' w' hv' hw'
  by_cases hne : r = w.room
  · subst hne
    obtain rfl := Option.some.inj (hv.symm.trans hv')
    cases hr with
    | slot e stage asks reply waits =>
      rw [waits, List.mem_singleton] at hw'
      rw [hw']
      exact .inl he.owner
    | sent _ _ _ _ _ waits => simp [waits] at hw'
    | answered _ _ _ waits => simp [waits] at hw'
  · simp [((he.elsewhere hv' hne).1).1] at hw'

def handled (o : Outlook) (r : Nat) (rest : List (Event Ticket)) (listed : Bool)
    (reply? : Ticket → Option Reply) : Outlook :=
  { o.modify r fun v => { v with listed, events := rest } with reply? }

theorem view_handled {rest : List (Event Ticket)} {listed : Bool} {reply? : Ticket → Option Reply}
    (hv : o.view r = some v) (s : Nat) : (o.handled r rest listed reply?).view s =
      if s = r then some { v with listed, events := rest } else o.view s := by
  simp only [handled, modify]
  split
  · rename_i hs
    rw [hs, hv]
    rfl
  · rfl

theorem Settled.handled (hs : o.Settled p n c doubt) (hv : o.view r = some v)
    {rest : List (Event Ticket)} (hev : v.events = e :: rest) {reply? : Ticket → Option Reply}
    (hreply : ∀ t, o.reply? t = none → reply? t = none) :
    (o.handled r rest (v.listed && e.kind ≠ .leave) reply?).Settled p n c doubt := by
  have hspent {e' : Event Ticket} (h : o.Spent p n e') :
      (o.handled r rest (v.listed && e.kind ≠ .leave) reply?).Spent p n e' :=
    h.lasts (Nat.le_refl _) fun t _ _ => hreply t
  refine ⟨hs.id, hs.confirmed, ?_, ?_⟩
  · intro s v' hv'
    rw [view_handled hv] at hv'
    split at hv'
    · obtain rfl := Option.some.inj hv'
      refine ⟨(hs.quiet hv).1, fun e' he' => hspent ((hs.quiet hv).2 e' ?_)⟩
      rw [hev]
      exact List.mem_cons_of_mem _ he'
    · exact (hs.quiet hv').lasts fun _ => hspent
  · intro s v' hv' hd
    rw [view_handled hv] at hv'
    split at hv'
    · rename_i hsr
      obtain rfl := Option.some.inj hv'
      exact (hs.agrees hv (hsr ▸ hd)).handled hev
    · exact hs.agrees hv' hd

/-- The first event of a room is spent, or it is the one whose answer the dispatcher waits for. -/
theorem Engaged.head_cases (he : o.Engaged p n c errand w) (hv : o.view r = some v)
    {rest : List (Event Ticket)} (hev : v.events = e :: rest) :
    o.Spent p n e ∨ r = w.room ∧ rest = [] ∧ w.stage = .answer ∧ errand.Asks p w.ticket e ∧
      o.reply? w.ticket = some .awaited ∧ v.waits = [] ∧ c.Agrees v := by
  obtain ⟨v', hv', hr⟩ := he.here
  by_cases hne : r = w.room
  · subst hne
    obtain rfl := Option.some.inj (hv.symm.trans hv')
    cases hr with
    | slot _ stage asks reply waits spent => exact .inl (spent e (by simp [hev]))
    | answered outcome stage reply waits events => simp [hev] at events
    | sent e' before stage asks reply waits events spent agrees =>
      cases before with
      | nil =>
        obtain ⟨rfl, rfl⟩ : e = e' ∧ rest = [] := by simpa [hev] using events
        exact .inr ⟨rfl, rfl, stage, asks, reply, waits, agrees⟩
      | cons e'' before =>
        obtain ⟨rfl, -⟩ : e = e'' ∧ _ := by simpa [hev] using events
        exact .inl (spent e List.mem_cons_self)
  · exact .inl ((he.elsewhere hv hne).1.2 e (by simp [hev]))

theorem Engaged.handled (he : o.Engaged p n c errand w) (hv : o.view r = some v)
    {rest : List (Event Ticket)} (hev : v.events = e :: rest) (hspent : o.Spent p n e)
    {reply? : Ticket → Option Reply} (hnone : ∀ t, o.reply? t = none → reply? t = none)
    (hreply : reply? w.ticket = o.reply? w.ticket) :
    (o.handled r rest (v.listed && e.kind ≠ .leave) reply?).Engaged p n c errand w := by
  have hlast {e' : Event Ticket} (h : o.Spent p n e') :
      (o.handled r rest (v.listed && e.kind ≠ .leave) reply?).Spent p n e' :=
    h.lasts (Nat.le_refl _) fun t _ _ => hnone t
  obtain ⟨v', hv', hr⟩ := he.here
  refine ⟨he.id, he.free, he.owner, he.serial, ?_, ?_⟩
  · intro s v'' hv'' hne
    rw [view_handled hv] at hv''
    split at hv''
    · rename_i hsr
      subst hsr
      obtain rfl := Option.some.inj hv''
      obtain ⟨hq, ha⟩ := he.elsewhere hv hne
      refine ⟨⟨hq.1, fun e' he' => hlast (hq.2 e' ?_)⟩, ha.handled hev⟩
      rw [hev]
      exact List.mem_cons_of_mem _ he'
    · obtain ⟨hq, ha⟩ := he.elsewhere hv'' hne
      exact ⟨hq.lasts fun _ => hlast, ha⟩
  · by_cases hne : w.room = r
    · subst hne
      obtain rfl := Option.some.inj (hv.symm.trans hv')
      refine ⟨_, (view_handled hv _).trans (if_pos rfl), ?_⟩
      cases hr with
      | slot e' stage asks reply waits spent agrees =>
        refine .slot e' stage asks (hreply.trans reply) waits (fun e'' he'' => ?_)
          fun hne => (agrees hne).handled hev
        exact hlast (spent e'' (by rw [hev]; exact List.mem_cons_of_mem _ he''))
      | answered outcome stage reply waits events => simp [hev] at events
      | sent e' before stage asks reply waits events spent agrees =>
        cases before with
        | nil =>
          -- the event is the one under way, and so it is not spent
          obtain ⟨rfl, -⟩ : e = e' ∧ rest = [] := by simpa [hev] using events
          have hclosed := (hspent.closed asks.reply.2).2.2
          simp [reply] at hclosed
        | cons e'' before =>
          obtain ⟨-, rfl⟩ : e = e'' ∧ rest = before ++ [e'] := by simpa [hev] using events
          exact .sent e' before stage asks (hreply.trans reply) waits rfl
            (fun e'' he'' => hlast (spent e'' (List.mem_cons_of_mem _ he''))) (agrees.handled hev)
    · exact ⟨v', by rw [view_handled hv, if_neg hne]; exact hv', hr.lasts hreply fun _ => hlast⟩

/-- The room of a request has handled its event, and the answer is there. -/
theorem Engaged.answered (he : o.Engaged p n c errand w) (hv : o.view w.room = some v)
    (hstage : w.stage = .answer) (hwaits : v.waits = []) {listed : Bool}
    {reply? : Ticket → Option Reply} {outcome : Outcome}
    (hnone : ∀ t, o.reply? t = none → reply? t = none)
    (hreply : reply? w.ticket = some (.answered outcome))
    (hgranted : errand.Grants outcome → listed = true)
    (hrefused : ¬ errand.Grants outcome → c.Agrees { v with listed, events := [] }) :
    (o.handled w.room [] listed reply?).Engaged p n c errand w := by
  refine ⟨he.id, he.free, he.owner, he.serial, ?_, _, (view_handled hv _).trans (if_pos rfl), ?_⟩
  · intro s v' hv' hne
    rw [view_handled hv, if_neg hne] at hv'
    obtain ⟨hq, ha⟩ := he.elsewhere hv' hne
    exact ⟨hq.lasts fun e he => he.lasts (Nat.le_refl _) fun t _ _ => hnone t, ha⟩
  · exact .answered outcome hstage hreply hwaits rfl hgranted hrefused

end Outlook

end Lobby
