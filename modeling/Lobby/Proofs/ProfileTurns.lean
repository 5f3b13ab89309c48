import Lobby.Proofs.ProfileTraces

/-! What a dispatcher does at its turns keeps the copy of its player's profile as the player has it,
unless the room refuses an update. -/
namespace Lobby

namespace Hub
variable {h h' : Hub} {hands : Hands} {p : PlayerId} {n r : Nat} {cell : RoomCell} {c : Context}
  {w : Wait} {errand : Errand}

/-- All that a new request that waits has done: it has a ticket of its own, and its event is in the
mailbox or waits for a slot there. -/
private theorem request_waiting (hl : h.Live) {owner : Task} {timeout now : Nat}
    {event : Ticket → Event Ticket} (hw : (h.request owner r timeout now event).1 = .waiting w) :
    w.ticket = ⟨owner, h.nextSerial⟩ ∧ w.room = r ∧
      (h.request owner r timeout now event).2.reply? w.ticket = some .awaited ∧
      ∃ cell events, h.rooms[r]? = some cell ∧
        (h.request owner r timeout now event).2.rooms =
          (h.setRoom r { cell with events }).rooms ∧
        (events = { cell.events with queue := cell.events.queue ++ [event w.ticket] } ∨
          events = { cell.events with
            waiting := cell.events.waiting ++ [(w.ticket, event w.ticket)] }) := by
  rw [request] at hw ⊢
  simp only [freshSerial] at hw ⊢
  cases hc : h.rooms[r]? with
  | none =>
    simp only [openReply, hc, conclude] at hw
    contradiction
  | some cell =>
    have hc' : (({ h with nextSerial := h.nextSerial + 1 } : Hub).openReply
        ⟨owner, h.nextSerial⟩).rooms[r]? = some cell := hc
    simp only [hc'] at hw ⊢
    rcases Mailbox.send_cases (hl.running hc).closed ⟨owner, h.nextSerial⟩
        (event ⟨owner, h.nextSerial⟩) with hs | hs <;> simp only [hs] at hw ⊢
    · simp only [awaitAnswer, freshSerial] at hw ⊢
      split at hw
      · simp [Hub.expire, conclude] at hw
      · rename_i htimeout
        cases hw
        rw [if_neg htimeout]
        refine ⟨rfl, rfl, ?_, cell, _, rfl, rfl, .inl rfl⟩
        exact (reply?_openReply ..).trans (if_pos rfl)
    · split at hw
      · simp [Hub.expire, conclude] at hw
      · rename_i htimeout
        cases hw
        rw [if_neg htimeout]
        refine ⟨rfl, rfl, ?_, cell, _, rfl, rfl, .inr rfl⟩
        exact (reply?_openReply ..).trans (if_pos rfl)

/-- All that a request that goes on waiting has done: nothing, or it has put its event into the
mailbox. -/
private theorem resume_waiting (hl : h.Live) {now : Nat} {w' : Wait}
    (hw : (h.resume w now).1 = .waiting w') :
    (w' = w ∧ (h.resume w now).2 = h) ∨
      w.stage = .slot ∧ w'.ticket = w.ticket ∧ w'.room = w.room ∧
        (h.resume w now).2.reply? w.ticket = h.reply? w.ticket ∧
        ∃ cell e, h.rooms[w.room]? = some cell ∧ (w.ticket, e) ∈ cell.events.granted ∧
          (h.resume w now).2.rooms = (h.setRoom w.room { cell with events := { cell.events with
            granted := cell.events.granted.filter (·.1 ≠ w.ticket)
            queue := cell.events.queue ++ [e] } }).rooms := by
  have late (hw : (if w.deadline ≤ now then h.expire w else (.waiting w, h)).1 = .waiting w') :
      w' = w ∧ (if w.deadline ≤ now then h.expire w else (.waiting w, h)).2 = h := by
    split at hw
    · simp [Hub.expire, conclude] at hw
    · rename_i htime
      cases hw
      exact ⟨rfl, by rw [if_neg htime]⟩
  rw [resume] at hw ⊢
  cases hstage : w.stage with
  | slot =>
    simp only [hstage] at hw ⊢
    cases hc : h.rooms[w.room]? with
    | none =>
      simp only [hc, conclude] at hw
      contradiction
    | some cell =>
      simp only [hc] at hw ⊢
      rcases Mailbox.settle_cases (hl.running hc).closed w.ticket with ⟨e, he, hs⟩ | hs <;>
        simp only [hs] at hw ⊢
      · simp only [awaitAnswer, freshSerial] at hw ⊢
        split at hw
        · simp [Hub.expire, conclude] at hw
        · rename_i htimeout
          cases hw
          rw [if_neg htimeout]
          exact .inr ⟨trivial, rfl, rfl, rfl, cell, e, rfl, he, rfl⟩
      · exact .inl (late hw)
  | answer =>
    simp only [hstage] at hw ⊢
    cases hr : h.reply? w.ticket with
    | none => simp [hr, conclude] at hw
    | some reply =>
      cases reply with
      | awaited =>
        simp only [hr] at hw ⊢
        exact .inl (late hw)
      | answered outcome => simp [hr, conclude] at hw
      | abandoned => simp [hr, conclude] at hw

private theorem last_of_push {t : Ticket} {trail before after : List (Event Ticket)}
    {e new : Event Ticket} (hold : ∀ x ∈ trail, x.reply? ≠ some t)
    (h : trail ++ [new] = before ++ e :: after) (he : e.reply? = some t) :
    e = new ∧ after = [] := by
  rcases List.eq_nil_or_concat after with rfl | ⟨after, last, rfl⟩
  · obtain ⟨-, hlast⟩ := List.append_inj' h rfl
    exact ⟨(List.cons.inj hlast).1.symm, rfl⟩
  · rw [List.concat_eq_append, ← List.cons_append, ← List.append_assoc] at h
    obtain ⟨rfl, -⟩ := List.append_inj' h rfl
    exact absurd he (hold e (by simp))

/-- An event of the dispatcher's requests that a room has yet to handle is one that the room is seen
to have. -/
private theorem mem_view_of_trail {x : Event Ticket} {t : Ticket} (ht : t.owner = .dispatcher n)
    (hx : x ∈ (cell.copy (hands r) p).trail) (hr : x.reply? = some t) :
    x ∈ (cell.view (hands r) p n).events :=
  List.mem_filter.mpr ⟨(List.mem_filter.mp hx).1, by simp [Event.concerns, hr, ht]⟩

/-- A join that has just been asked for is for the player's own profile. -/
theorem bears_request (hl : h.Live) (hs : (h.outlook hands p n).Settled p n c none)
    {timeout now : Nat}
    (hw : (h.requestJoin (.dispatcher n) r timeout now p c.profile).1 = .waiting w) :
    ((h.requestJoin (.dispatcher n) r timeout now p c.profile).2.outlook hands p n).Bears
      ((h.requestJoin (.dispatcher n) r timeout now p c.profile).2.copy? hands p) p c w := by
  obtain ⟨hticket, rfl, hreply, cell, events, hc, hrooms, hevents⟩ := request_waiting hl hw
  rw [requestJoin] at hw ⊢
  generalize h.request (.dispatcher n) w.room timeout now
    (fun t => ⟨p, .join c.profile (some t)⟩) = result at hreply hrooms ⊢
  obtain ⟨course, h'⟩ := result
  simp only at hreply hrooms ⊢
  have hnow : h'.rooms[w.room]? = some { cell with events } := by
    rw [hrooms, getElem?_setRoom hc, if_pos rfl]
  obtain ⟨hnowaits, hspent⟩ := hs.quiet (view_outlook hc)
  have hold : ∀ x ∈ (cell.copy (hands w.room) p).trail, x.reply? ≠ some w.ticket := by
    intro x hx hr
    have hx' := mem_view_of_trail (n := n) (by rw [hticket]) hx hr
    have hserial : w.ticket.serial < h.nextSerial := ((hspent x hx').closed hr).2.1
    simp [hticket] at hserial
  refine ⟨?_, ?_, ?_⟩
  · intro v e hv hmem
    obtain rfl := Option.some.inj ((view_outlook hnow).symm.trans hv)
    obtain ⟨hunder, hk⟩ := List.mem_filter.mp hmem
    have hnot : (w.ticket, e) ∉ cell.events.underWay := by
      intro h
      have hwaits : (w.ticket, e) ∈ (cell.view (hands w.room) p n).waits :=
        List.mem_filter.mpr ⟨h, hk⟩
      simp [hnowaits] at hwaits
    rcases hevents with rfl | rfl
    · exact absurd hunder hnot
    · simp only [Mailbox.underWay, ← List.append_assoc, List.mem_append,
        List.mem_singleton] at hunder hnot
      exact (Prod.mk.inj (hunder.resolve_left hnot)).2
  · intro k before after e hk htrail hr
    rw [copy?_of_cell hnow, Option.some.injEq] at hk
    subst hk
    rcases hevents with rfl | rfl
    · have hpush : (cell.copy (hands w.room) p).trail ++
          [⟨p, .join c.profile (some w.ticket)⟩] = before ++ e :: after := by
        rw [← htrail]
        simp [RoomCell.copy, List.filter_append]
      exact last_of_push hold hpush hr
    · have hmem : e ∈ (cell.copy (hands w.room) p).trail := by
        change (cell.copy (hands w.room) p).trail = _ at htrail
        simp [htrail]
      exact absurd hr (hold e hmem)
  · intro outcome ho
    have hanswered : h'.reply? w.ticket = some (.answered outcome) := ho
    simp [hreply] at hanswered

/-- A join that goes on waiting is still for the player's own profile. -/
theorem bears_resume (hl : h.Live) (he : (h.outlook hands p n).Engaged p n c errand w)
    (hb : (h.outlook hands p n).Bears (h.copy? hands p) p c w) {now : Nat} {w' : Wait}
    (hw : (h.resume w now).1 = .waiting w') :
    ((h.resume w now).2.outlook hands p n).Bears ((h.resume w now).2.copy? hands p) p c w' := by
  rcases resume_waiting hl hw with ⟨rfl, hsame⟩ |
    ⟨hstage, hticket, hroom, hreply, cell, new, hc, hnew, hrooms⟩
  · rw [hsame]
    exact hb
  generalize h.resume w now = result at hreply hrooms ⊢
  obtain ⟨course, h'⟩ := result
  simp only at hreply hrooms ⊢
  obtain ⟨v, hv, hr⟩ := he.here
  obtain rfl := Option.some.inj ((view_outlook hc).symm.trans hv)
  cases hr with
  | sent _ _ stage => simp [hstage] at stage
  | answered _ stage => simp [hstage] at stage
  | slot own stage asks reply waits spent =>
    have hawaited : h.reply? w.ticket = some .awaited := reply
    have hold : ∀ x ∈ (cell.copy (hands w.room) p).trail, x.reply? ≠ some w.ticket := by
      intro x hx hr
      have hx' := mem_view_of_trail (n := n) he.owner hx hr
      have hclosed : h.reply? w.ticket = none := ((spent x hx').closed hr).2.2
      simp [hawaited] at hclosed
    have hjoin : new = ⟨p, .join c.profile (some w.ticket)⟩ := by
      apply hb.waits hv
      exact List.mem_filter.mpr
        ⟨List.mem_append_left _ hnew, by simp [Task.ActsFor, he.owner]⟩
    rw [← hroom] at hc hrooms hold
    have hnow := getElem?_setRoom hc { cell with events := { cell.events with
      granted := cell.events.granted.filter (·.1 ≠ w.ticket)
      queue := cell.events.queue ++ [new] } } w'.room
    rw [← hrooms, if_pos rfl] at hnow
    refine ⟨?_, ?_, ?_⟩
    · intro v' e hv' hmem
      obtain rfl := Option.some.inj ((view_outlook hnow).symm.trans hv')
      obtain ⟨hunder, hk⟩ := List.mem_filter.mp hmem
      rw [hticket] at hunder hk ⊢
      apply hb.waits hv
      refine List.mem_filter.mpr ⟨?_, hk⟩
      rcases List.mem_append.mp hunder with hg | hwaiting
      · simp at hg
      · exact List.mem_append_right _ hwaiting
    · intro k before after e hk htrail hreply'
      rw [copy?_of_cell hnow, Option.some.injEq] at hk
      subst hk
      rw [hticket] at hreply' ⊢
      have hpush : (cell.copy (hands w'.room) p).trail ++ [new] = before ++ e :: after := by
        rw [← htrail]
        simp [RoomCell.copy, List.filter_append, hjoin]
      rw [← hjoin]
      exact last_of_push hold hpush hreply'
    · intro outcome ho
      rw [hticket] at ho
      have hanswered := hreply.symm.trans ho
      simp [hawaited] at hanswered

end Hub

namespace Context
variable {h : Hub} {hands : Hands} {p : PlayerId} {n r : Nat} {id : RoomId} {upToDate : Prop}
  {c : Context} {errand : Errand} {request : Envelope} {service : Service}

def revised? (c : Context) (request : Envelope) : Option Profile :=
  match request.kind with
  | .loginRequest =>
    (Wire.decode? (α := LoginRequest) request.data).map fun body =>
      ⟨body.playerName, c.position⟩
  | .moveRequest =>
    (Wire.decode? (α := MoveRequest) request.data).map fun body => ⟨c.name, body.position⟩
  | _ => none

/-- A request that changes a player's profile is answered at once, and the player's room is sent
the update. -/
theorem serve_revised (h : Hub) (owner : Task) (now : Nat)
    (hk : Service.ofKind? request.kind = some service) {profile : Profile}
    (hr : c.revised? request = some profile) :
    ∃ response c', c.serve h owner now service request = (.answered response, c',
        (c.room? h).elim h fun r => (h.sendMove r c.id profile).2) ∧
      c'.profile = profile ∧ c'.room = c.room := by
  rw [revised?.eq_def] at hr
  split at hr
  · rename_i hkind
    rw [hkind] at hk
    cases hk
    obtain ⟨body, hbody, rfl⟩ := Option.map_eq_some_iff.mp hr
    simp only [serve, reading, hbody, login]
    have hroom : ({ c with name := body.playerName } : Context).room? h = c.room? h := rfl
    rw [hroom]
    cases c.room? h with
    | none => exact ⟨_, _, rfl, rfl, rfl⟩
    | some r => exact ⟨_, _, rfl, rfl, rfl⟩
  · rename_i hkind
    rw [hkind] at hk
    cases hk
    obtain ⟨body, hbody, rfl⟩ := Option.map_eq_some_iff.mp hr
    simp only [serve, reading, hbody, move]
    have hroom : ({ c with position := body.position } : Context).room? h = c.room? h := rfl
    rw [hroom]
    cases c.room? h with
    | none => exact ⟨_, _, rfl, rfl, rfl⟩
    | some r => exact ⟨_, _, rfl, rfl, rfl⟩
  · contradiction

private theorem room_abandon (c : Context) (h : Hub) (r : Nat) :
    (c.abandon h r).1.room = c.room := by
  rw [abandon]
  generalize h.sendLeave r c.id = result
  obtain ⟨_ | _, h'⟩ := result
  · simp only
    split <;> rfl
  · rfl

/-- A player in no room gets into one by a granted join alone. -/
private theorem follows_follow (hfree : c.room = none) (course : Course × Hub)
    (hwait : ∀ w, course.1 = .waiting w → errand ≠ .leave →
      (course.2.outlook hands p n).Bears (course.2.copy? hands p) p c w)
    (hgrant : ∀ outcome, course.1 = .ended (.ok outcome) → outcome.ret = .ok → errand ≠ .leave →
      (course.2.outlook hands p n).Current (course.2.copy? hands p) (course.2.roomId r) c.profile) :
    Progress.Follows hands p n id upToDate (c.follow request errand r course) := by
  obtain ⟨w | answer, h⟩ := course
  · exact hwait w rfl
  have nowhere {c' : Context} {h' : Hub} {response : Response} (hroom : c'.room = c.room) :
      Progress.Follows hands p n id upToDate (.answered response, c', h') := by
    intro hin
    simp [hroom, hfree] at hin
  have join (response : Response) (herrand : errand ≠ .leave) :
      Progress.Follows hands p n id upToDate (.answered response, c.concludeJoin h r answer) := by
    rw [concludeJoin.eq_def]
    split
    · rename_i outcome
      split
      · rename_i hret
        intro hin _
        obtain rfl := Option.some.inj hin
        exact hgrant outcome rfl hret herrand
      · exact nowhere rfl
    · exact nowhere (room_abandon c h r)
    · exact nowhere rfl
  cases errand with
  | create created => exact join (errandResponse (.create created) answer) (by simp)
  | join => exact join (errandResponse .join answer) (by simp)
  | leave =>
    simp only [follow, complete, concludeLeave]
    split
    · exact nowhere (room_abandon c h r)
    · exact nowhere rfl

private theorem follows_enter (hl : h.Live) (hs : (h.outlook hands p n).Settled p n c none)
    (hfree : c.room = none) (now : Nat) :
    Progress.Follows hands p n id upToDate (c.enter h (.dispatcher n) now request errand r) := by
  obtain rfl : c.id = p := hs.id
  have hall := settled_leaveAll c.unconfirmed [] hl hfree hs
  rw [enter, settle]
  generalize leaveAll c.id c.unconfirmed h = result at hall ⊢
  obtain ⟨kept, h'⟩ := result
  obtain ⟨hl', hs'⟩ := hall
  have hfree' : ({ c with unconfirmed := kept } : Context).room = none := hfree
  refine follows_follow hfree'
    (h'.requestJoin (.dispatcher n) r c.replyTimeout now c.id c.profile) ?_ ?_
  · intro w hw _
    exact Hub.bears_request hl' hs' hw
  · intro outcome ho
    exact absurd ho (Hub.request_ne_ok _ _ _ _ _ _ outcome)

/-- An update that is taken is what the room's copy will be. -/
private theorem current_sendMove (hl : h.Live) {profile next : Profile}
    (hcur : (h.outlook hands p n).Current (h.copy? hands p) id profile)
    (hr : h.room? id = some r) (htaken : (h.sendMove r p next).1 = .ok ()) :
    ((h.sendMove r p next).2.outlook hands p n).Current ((h.sendMove r p next).2.copy? hands p) id
      next := by
  obtain ⟨s, k, hs, hk, hb⟩ := hcur
  obtain rfl := Option.some.inj (hr.symm.trans hs)
  have hspares : Hub.Spares hands p n h (h.sendMove r p next).2 :=
    hl.spares_offerEvent r (by simp [Event.concerns, Event.bindsTo, Event.kind, Event.reply?])
  refine ⟨r, _, hspares.grows.room? hs, ?_, hb.push_move p next⟩
  rw [Hub.sendMove] at htaken ⊢
  rcases hl.copy?_offerEvent hands p r ⟨p, .move next⟩ with ⟨h', ho, hcopy⟩ | ⟨fault, h', ho, -⟩
  · rw [ho, hcopy]
    exact Copies.push_self rfl hk
  · simp [ho] at htaken

private theorem follows_reading {α : Type} [Wire α] (hf : Progress.Follows hands p n id upToDate
      (.unreadable, c, h)) {serve : α → Progress × Context × Hub}
    (hserve : ∀ body, Progress.Follows hands p n id upToDate (serve body)) :
    Progress.Follows hands p n id upToDate (c.reading h request serve) := by
  rw [reading]
  split
  · exact hserve _
  · exact hf

/-- A request that does not change the player's profile has nothing to do with the copy in its
room. -/
private theorem follows_unrevised (hl : h.Live) (hs : (h.outlook hands p n).Settled p n c none)
    (hh : Hub.Held hands h) (now : Nat) (hk : Service.ofKind? request.kind = some service)
    (hcur : c.room = some id → upToDate →
      (h.outlook hands p n).Current (h.copy? hands p) id c.profile)
    (hrev : c.revised? request = none) :
    Progress.Follows hands p n id upToDate
      (c.serve h (.dispatcher n) now service request) := by
  have stay (response : Response) :
      Progress.Follows hands p n id upToDate (.answered response, c, h) := hcur
  have unread : Progress.Follows hands p n id upToDate (.unreadable, c, h) := hcur
  rw [revised?.eq_def] at hrev
  cases hkind : request.kind <;> rw [hkind] at hk <;> cases hk
  case loginRequest =>
    simp only [hkind, Option.map_eq_none_iff] at hrev
    simp only [serve, reading, hrev]
    exact unread
  case moveRequest =>
    simp only [hkind, Option.map_eq_none_iff] at hrev
    simp only [serve, reading, hrev]
    exact unread
  case getRoomListRequest => exact follows_reading unread fun _ => stay _
  case createRoomRequest =>
    refine follows_reading unread fun body => ?_
    rw [createRoom]
    split
    · exact stay _
    · rename_i hroom
      have hcreate : Hub.Spares hands p n h (h.createRoom body.name).2 :=
        hl.spares_createRoom hh _
      exact follows_enter hcreate.live (hs.grows hcreate.grows) (by simpa using hroom) now
  case joinRoomRequest =>
    refine follows_reading unread fun body => ?_
    rw [joinRoom]
    split
    · exact stay _
    · rename_i hroom
      split
      · exact follows_enter hl hs (by simpa using hroom) now
      · exact stay _
  case leaveRoomRequest =>
    refine follows_reading unread fun _ => ?_
    rw [leaveRoom]
    split
    · exact follows_follow rfl _ (fun _ _ hne => absurd rfl hne) fun _ _ _ hne => absurd rfl hne
    · intro hin
      simp at hin

/-- Every service leaves the copy as the player will find it, if its room takes the update that it
may send. -/
theorem follows_serve (hl : h.Live) (hs : (h.outlook hands p n).Settled p n c none)
    (hh : Hub.Held hands h) (now : Nat) (hk : Service.ofKind? request.kind = some service)
    (hcur : c.room = some id → upToDate →
      (h.outlook hands p n).Current (h.copy? hands p) id c.profile)
    (htaken : c.room = some id → upToDate → ∀ r profile, c.revised? request = some profile →
      c.room? h = some r → (h.sendMove r c.id profile).1 = .ok ()) :
    Progress.Follows hands p n id upToDate
      (c.serve h (.dispatcher n) now service request) := by
  cases hrev : c.revised? request with
  | none => exact follows_unrevised hl hs hh now hk hcur hrev
  | some profile =>
    obtain ⟨response, c', hserve, hprofile, hroom⟩ :=
      serve_revised h (.dispatcher n) now hk hrev
    rw [hserve]
    intro hin hup
    rw [hroom] at hin
    obtain ⟨r, hr⟩ := hs.confirmed hin
    have hreg : c.room? h = some r := by
      rw [room?, hin]
      exact hr
    rw [hreg, hprofile]
    have hok := htaken hin hup r profile hrev hreg
    obtain rfl : c.id = p := hs.id
    exact current_sendMove hl (hcur hin hup) hr hok

end Context

namespace Hub
variable {h h' : Hub} {hands : Hands} {p : PlayerId} {n : Nat} {id : RoomId} {c : Context}
  {errand : Errand} {w : Wait} {profile : Profile}

private theorem current_apart (ha : h.Apart h')
    (hc : (h.outlook hands p n).Current (h.copy? hands p) id profile) :
    (h'.outlook hands p n).Current (h'.copy? hands p) id profile := by
  obtain ⟨r, k, hr, hk, hb⟩ := hc
  refine ⟨r, k, ?_, ?_, hb⟩
  · simpa only [outlook, room?, ha.roomIndex] using hr
  · rwa [copy?_congr ha.rooms]

/-- A granted join leaves the copy as the player asked for it. -/
private theorem current_resume (hl : h.Live) (he : (h.outlook hands p n).Engaged p n c errand w)
    (hb : (h.outlook hands p n).Bears (h.copy? hands p) p c w) {now : Nat} {outcome : Outcome}
    (ho : (h.resume w now).1 = .ended (.ok outcome)) (hret : outcome.ret = .ok) :
    ((h.resume w now).2.outlook hands p n).Current ((h.resume w now).2.copy? hands p)
      ((h.resume w now).2.roomId w.room) c.profile := by
  have hanswered : h.reply? w.ticket = some (.answered outcome) := answered_of_resume ho
  have hcopy := hb.granted hanswered hret
  obtain ⟨v, hv, hr⟩ := he.here
  have hstage : w.stage = .answer := by
    cases hr with
    | slot _ _ _ reply | sent _ _ _ _ reply => exact absurd (reply.symm.trans hanswered) (by simp)
    | answered _ stage => exact stage
  have hresult : h.resume w now = h.conclude w (.ok outcome) := by
    simp [resume, hstage, hanswered]
  rw [hresult, conclude]
  refine ⟨w.room, _, ?_, hcopy, c.profile, rfl, rfl⟩
  have hid : (h.closeReply w.ticket).roomId w.room = v.id := roomId_eq hv
  rw [hid]
  exact hl.coherent.registered hv

end Hub

namespace Turn
variable {n : Nat} (t : Turn n) {d : Dispatching} {hands : Hands} {p : PlayerId} {id : RoomId}
  {upToDate : Prop}

/-- The dispatcher takes a request that changes its player's profile, and the player's room does not
take the update. -/
def Rebuffed (c : Context) : Prop :=
  ∃ request profile r fault, t.taken (.idle c) = some request ∧
    c.revised? request = some profile ∧ c.room? t.received = some r ∧
    (t.received.sendMove r c.id profile).1 = .error fault

private theorem follows_dispatched (s : Session) (request : Envelope)
    {result : Progress × Context × Hub}
    (hr : Progress.Follows hands p n id upToDate result) :
    (s.dispatched request result).2.1.dispatching.Follows
      ((s.dispatched request result).2.2.outlook hands p n)
      ((s.dispatched request result).2.2.copy? hands p) p id upToDate := by
  obtain ⟨progress, c, h⟩ := result
  cases progress with
  | answered response =>
    intro hin hup
    exact Hub.current_apart (c.apart_respond h request response) (hr hin hup)
  | pending begun => exact hr
  | unreadable => exact hr

private theorem follows_later {o : Outlook} {f : Copies} {later : Prop}
    (hf : d.Follows o f p id upToDate)
    (hup : later → upToDate ∨ ∀ c, d.context? = some c → c.room ≠ some id) :
    d.Follows o f p id later := by
  cases d with
  | idle c =>
    intro hin hlater
    exact hf hin ((hup hlater).resolve_right fun hnot => hnot c rfl hin)
  | busy c pending => exact hf
  | ended c => trivial

private theorem follows_step {later : Prop} (ht : t.hub.Traces hands p n id upToDate d)
    (hup : later → upToDate ∧ (∀ c, d = .idle c → ¬ t.Rebuffed c) ∨
      ∀ c, d.context? = some c → c.room ≠ some id) :
    (t.next d).Follows ((t.step d).2.2.outlook hands p n) ((t.step d).2.2.copy? hands p) p id
      later := by
  have hreceived : t.received.Traces hands p n id upToDate d := ht.apart t.apart_received
  have hlater (h : later) : upToDate ∨ ∀ c, d.context? = some c → c.room ≠ some id :=
    (hup h).imp_left (·.1)
  rw [next]
  cases hw : t.work d with
  | none =>
    rcases t.step_of_no_work d hw with ⟨hstep, -⟩ | ⟨-, hstep | ⟨c, rfl, hstep⟩⟩ <;> rw [hstep]
    · exact follows_later hreceived.follows hlater
    · exact follows_later ht.follows hlater
    · trivial
  | some work =>
    obtain ⟨request, result⟩ := work
    rw [t.step_of_work d hw]
    apply follows_dispatched
    cases d with
    | ended => contradiction
    | busy c pending =>
      have he : (t.hub.outlook hands p n).Engaged p n c pending.errand pending.wait :=
        ht.accord.fits
      obtain ⟨rfl, rfl⟩ : pending.request = request ∧ _ = result := by
        simpa [work] using hw
      split
      · refine Context.follows_follow he.free (t.hub.expire pending.wait) ?_ ?_
        · simp [Hub.expire, Hub.conclude]
        · simp [Hub.expire, Hub.conclude]
      · refine Context.follows_follow he.free (t.hub.resume pending.wait t.now) ?_ ?_
        · intro w hwaits herrand
          exact Hub.bears_resume ht.accord.live he (ht.follows herrand) hwaits
        · intro outcome ho hret herrand
          exact Hub.current_resume ht.accord.live he (ht.follows herrand) ho hret
    | idle c =>
      simp only [work, Option.bind_eq_bind, Option.bind_eq_some_iff] at hw
      obtain ⟨e, htaken, service, hk, hr⟩ := hw
      obtain ⟨rfl, rfl⟩ := Prod.mk.inj (Option.some.inj hr)
      refine Context.follows_serve hreceived.accord.live hreceived.accord.fits
        hreceived.accord.held t.now hk (follows_later hreceived.follows hlater) ?_
      intro hin h r profile hrev hroom
      obtain ⟨-, hnot⟩ := (hup h).resolve_right fun hne => hne c rfl hin
      cases hsent : (t.received.sendMove r c.id profile).1 with
      | ok => rfl
      | error fault => exact absurd ⟨e, profile, r, fault, htaken, hrev, hroom, hsent⟩ (hnot c rfl)

/-- A dispatcher's turn keeps the copy in the player's room as the player has its profile, if no
update is refused. A turn that ends in a room that it did not begin in needs nothing more: the room
has granted a join. -/
theorem traces_step {later : Prop} (ht : t.hub.Traces hands p n id upToDate d)
    (hup : later → upToDate ∧ (∀ c, d = .idle c → ¬ t.Rebuffed c) ∨
      ∀ c, d.context? = some c → c.room ≠ some id) :
    (t.step d).2.2.Traces hands p n id later (t.next d) :=
  ⟨t.accord_step ht.accord,
    (t.step_enduring ht.accord.fits.proper (Hub.enduring_inquires p _) ht.inquires).1,
    t.follows_step ht hup⟩

end Turn

end Lobby
