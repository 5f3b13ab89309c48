import Lobby.Proofs.QueueGains
import Lobby.Proofs.GrantedServices

/-! How services treat the rooms that may list a player without its knowledge: they forget one of
them only once a leave is queued there, the player is let in, or the room is gone. -/
namespace Lobby

namespace Context
variable {c c' : Context} {h : Hub} {P : Event Ticket → Prop}

structure Tidy (c : Context) : Prop where
  once : c.unconfirmed.Nodup
  apart {id : RoomId} : c.room = some id → id ∉ c.unconfirmed

theorem tidy_of_outside (hroom : c.room = none) (honce : c.unconfirmed.Nodup) : c.Tidy :=
  ⟨honce, by simp [hroom]⟩

private theorem eraseDups_of_nodup {ids : List RoomId} (hnodup : ids.Nodup) :
    ids.eraseDups = ids := by
  induction ids with
  | nil => rfl
  | cons id rest ih =>
    obtain ⟨hid, hrest⟩ := List.nodup_cons.mp hnodup
    have hfilter : rest.filter (fun other => !other == id) = rest := by
      refine List.filter_eq_self.mpr fun other hother => ?_
      have hne : other ≠ id := fun heq => hid (heq ▸ hother)
      simpa using hne
    rw [List.eraseDups_cons, hfilter, ih hrest]

/-- All rooms that may list the player, the one that it is in first. -/
theorem Tidy.memberships_eq (ht : c.Tidy) :
    c.memberships = c.room.toList ++ c.unconfirmed ∧ c.memberships.Nodup := by
  have hnodup : (c.room.toList ++ c.unconfirmed).Nodup := by
    cases hroom : c.room with
    | none => exact ht.once
    | some id => exact List.nodup_cons.mpr ⟨ht.apart hroom, ht.once⟩
  rw [memberships, eraseDups_of_nodup hnodup]
  exact ⟨rfl, hnodup⟩

/-- Leaves are queued for the rooms that are dropped, where these are registered, and nothing else
is. -/
theorem leaveAll_frees (player : PlayerId) (ids : List RoomId) (h : Hub)
    (hP : P ⟨player, .leave none⟩) :
    (leaveAll player ids h).1.Sublist ids ∧ h.Gains (leaveAll player ids h).2 P ∧
      ∀ id ∈ ids, id ∉ (leaveAll player ids h).1 → h.Frees (leaveAll player ids h).2 player id := by
  induction ids generalizing h with
  | nil => exact ⟨.slnil, .refl h, by simp⟩
  | cons id rest ih =>
    rw [leaveAll]
    cases hroom : h.room? id with
    | none =>
      obtain ⟨hsub, hgains, hfrees⟩ := ih h
      refine ⟨hsub.cons id, hgains, fun other hmem hnot => ?_⟩
      rcases List.mem_cons.mp hmem with rfl | hmem
      · exact .inl hroom
      · exact hfrees other hmem hnot
    | some r =>
      have hoffer : h.Gains (h.sendLeave r player).2 P := h.gains_offerEvent r hP
      have hgets : (h.sendLeave r player).1.isOk = true →
          h.Gets (h.sendLeave r player).2 r ⟨player, .leave none⟩ := h.gets_offerEvent
      have hindex : ∀ id, (h.sendLeave r player).2.room? id = h.room? id :=
        h.room?_offerEvent r _
      simp only
      generalize h.sendLeave r player = result at hoffer hgets hindex ⊢
      rcases result with ⟨fault | _, h'⟩
      · obtain ⟨hsub, hgains, hfrees⟩ := ih h'
        refine ⟨hsub.cons_cons id, hoffer.trans hgains, fun other hmem hnot => ?_⟩
        obtain ⟨hne, hnot⟩ := not_or.mp (mt List.mem_cons.mpr hnot)
        have hmem := (List.mem_cons.mp hmem).resolve_left hne
        exact (hfrees other hmem hnot).after hoffer fun r hr => (hindex other).trans hr
      · obtain ⟨hsub, hgains, hfrees⟩ := ih h'
        refine ⟨hsub.cons id, hoffer.trans hgains, fun other hmem hnot => ?_⟩
        rcases List.mem_cons.mp hmem with rfl | hmem
        · exact .inr ⟨r, hroom, (hgets rfl).before hgains⟩
        · exact (hfrees other hmem hnot).after hoffer fun r hr => (hindex other).trans hr

/-- A membership that is in doubt is remembered once, if its leave cannot be queued. -/
theorem abandon_keeps (c : Context) (h : Hub) (r : Nat) (honce : c.unconfirmed.Nodup) :
    (c.abandon h r).1.id = c.id ∧ (c.abandon h r).1.room = c.room ∧
      (c.abandon h r).1.unconfirmed.Nodup ∧ c.unconfirmed ⊆ (c.abandon h r).1.unconfirmed ∧
      h.Gains (c.abandon h r).2 fun _ => True := by
  have hoffer : h.Gains (h.sendLeave r c.id).2 fun _ => True := h.gains_offerEvent r trivial
  rw [abandon]
  generalize h.sendLeave r c.id = result at hoffer ⊢
  rcases result with ⟨fault | _, h'⟩
  · simp only
    split
    · exact ⟨rfl, rfl, honce, List.Subset.refl _, hoffer⟩
    · rename_i hnot
      refine ⟨rfl, rfl, ?_, List.subset_append_left .., hoffer⟩
      simpa using honce.concat hnot
  · exact ⟨rfl, rfl, honce, List.Subset.refl _, hoffer⟩

structure GoesOn (c : Context) (request : Envelope) (errand : Errand) (r : Nat)
    (course : Course × Hub) (result : Progress × Context × Hub) : Prop where
  id : result.2.1.id = c.id
  tidy : result.2.1.Tidy
  gains : course.2.Gains result.2.2 fun _ => True
  /-- Who comes to be in a room has its answer, and asks nothing more. -/
  entered : result.2.1.room.isSome →
    (∃ outcome, course.1 = .ended (.ok outcome)) ∧ result.2.2 = course.2
  /-- A room is forgotten by being granted. -/
  kept {id : RoomId} : id ∈ c.unconfirmed → id ∉ result.2.1.unconfirmed →
    errand ≠ .leave ∧ (∃ outcome, course.1 = .ended (.ok outcome) ∧ outcome.ret = .ok) ∧
      course.2.roomId r = id ∧ result.2.1.room = some id
  waits {pending : Pending} : result.1 = .pending pending →
    ∃ w, course.1 = .waiting w ∧ pending = ⟨request, errand, w⟩ ∧ result.2 = (c, course.2)

theorem goesOn_follow (hroom : c.room = none) (honce : c.unconfirmed.Nodup) (request : Envelope)
    (errand : Errand) (r : Nat) (course : Course × Hub) :
    c.GoesOn request errand r course (c.follow request errand r course) := by
  obtain ⟨w | fault | outcome, h⟩ := course
  · refine ⟨rfl, tidy_of_outside hroom honce, .refl h, ?_, fun hmem hnot => absurd hmem hnot, ?_⟩
    · simp [follow, hroom]
    · rintro pending ⟨⟩
      exact ⟨w, rfl, rfl, rfl⟩
  · -- without an outcome the player stays outside
    have stays (result : Context × Hub) (response : Response)
        (hid : result.1.id = c.id) (hresult : result.1.room = none)
        (hnodup : result.1.unconfirmed.Nodup) (hkeeps : c.unconfirmed ⊆ result.1.unconfirmed)
        (hgains : h.Gains result.2 fun _ => True) :
        c.GoesOn request errand r (.ended (.error fault), h) (.answered response, result) := by
      refine ⟨hid, tidy_of_outside hresult hnodup, hgains, ?_, fun hmem hnot => ?_, by simp⟩
      · simp [hresult]
      · exact absurd (hkeeps hmem) hnot
    have quiet (response : Response) :
        c.GoesOn request errand r (.ended (.error fault), h) (.answered response, c, h) :=
      stays (c, h) response rfl hroom honce (List.Subset.refl _) (.refl h)
    have doubtful (response : Response) : c.GoesOn request errand r (.ended (.error fault), h)
        (.answered response, c.abandon h r) := by
      obtain ⟨hid, hsame, hnodup, hkeeps, hgains⟩ := c.abandon_keeps h r honce
      exact stays _ response hid (hsame.trans hroom) hnodup hkeeps hgains
    cases errand <;> cases fault <;> first | exact quiet _ | exact doubtful _
  · have refused (response : Response) :
        c.GoesOn request errand r (.ended (.ok outcome), h) (.answered response, c, h) :=
      ⟨rfl, tidy_of_outside hroom honce, .refl h, by simp [hroom],
        fun hmem hnot => absurd hmem hnot, by simp⟩
    have answered (herrand : errand ≠ .leave) (response : Response) :
        c.GoesOn request errand r (.ended (.ok outcome), h)
          (.answered response, c.concludeJoin h r (.ok outcome)) := by
      rw [concludeJoin]
      split
      · rename_i hret
        refine ⟨rfl, ⟨honce.filter _, ?_⟩, .refl h, fun _ => ⟨⟨_, rfl⟩, rfl⟩, ?_, by simp⟩
        · rintro id ⟨⟩
          simp
        · intro id hmem hnot
          obtain rfl : id = h.roomId r := by simpa [hmem] using hnot
          exact ⟨herrand, ⟨outcome, rfl, hret⟩, rfl, rfl⟩
      · exact refused response
    cases errand with
    | create | join => exact answered (by simp) _
    | leave => exact refused _

/-- How a request is served as far as it goes without waiting: what becomes of the rooms that a
player's state tells of. -/
structure Careful (c : Context) (h : Hub) (owner : Task) (now : Nat) (request : Envelope)
    (result : Progress × Context × Hub) : Prop where
  id : result.2.1.id = c.id
  tidy : result.2.1.Tidy
  gains : h.Gains result.2.2 fun _ => True
  spares : result.2.1.room.isSome ∨ (c.room.isSome ∧ request.leaving = false) →
    h.Gains result.2.2 (· ≠ ⟨c.id, .leave none⟩)
  frees {id : RoomId} : id ∈ c.unconfirmed → id ∉ result.2.1.unconfirmed →
    h.Frees result.2.2 c.id id
  waits {pending : Pending} : result.1 = .pending pending → result.2.1.room = none ∧
    (pending.errand ≠ .leave → result.2.1.unconfirmed ⊆ c.unconfirmed ∧
      ∃ hub : Hub, hub.requestJoin owner pending.wait.room c.replyTimeout now c.id c.profile =
        (.waiting pending.wait, result.2.2))

variable {owner : Task} {now : Nat} {request : Envelope}

private theorem careful_aside (ht : c.Tidy) {progress : Progress} {h' : Hub}
    (hprogress : ∀ pending, progress ≠ .pending pending) (hid : c'.id = c.id)
    (hroom : c'.room = c.room) (hsame : c'.unconfirmed = c.unconfirmed)
    (hg : h.Gains h' (· ≠ ⟨c.id, .leave none⟩)) :
    c.Careful h owner now request (progress, c', h') := by
  refine ⟨hid, ⟨hsame ▸ ht.once, ?_⟩, hg.mono fun _ _ => trivial, fun _ => hg, ?_, ?_⟩
  · intro id hin
    exact hsame ▸ ht.apart (hroom ▸ hin)
  · intro id hmem hnot
    exact absurd (hsame ▸ hmem) hnot
  · intro pending hp
    exact absurd hp (hprogress pending)

/-- Whoever asks a room in is in none, so that no leave that is made up for can be for its own. -/
private theorem careful_enter (hroom : c.room = none) (ht : c.Tidy) {h₁ : Hub}
    (hg : h.Gains h₁ fun _ => True)
    (hindex : ∀ id r, h.room? id = some r → h₁.room? id = some r) (errand : Errand) (r : Nat) :
    c.Careful h owner now request (c.enter h₁ owner now request errand r) := by
  obtain ⟨hsub, hsettled, hfrees⟩ :=
    leaveAll_frees (P := fun _ => True) c.id c.unconfirmed h₁ trivial
  have hcourse : (c.settle h₁).2.Gains ((c.settle h₁).2.requestJoin owner r c.replyTimeout now c.id
      c.profile).2 fun _ => True := Hub.gains_request _ _ _ _ _ fun _ => trivial
  have hgoes := goesOn_follow (c := (c.settle h₁).1) hroom (hsub.nodup ht.once) request errand r
    ((c.settle h₁).2.requestJoin owner r c.replyTimeout now c.id c.profile)
  have hpending (outcome : Outcome) : ((c.settle h₁).2.requestJoin owner r c.replyTimeout now c.id
      c.profile).1 ≠ .ended (.ok outcome) := Hub.request_ne_ok _ _ _ _ _ _ outcome
  refine ⟨hgoes.id, hgoes.tidy, ?_, ?_, ?_, ?_⟩
  · exact ((hg.trans hsettled).trans hcourse).trans hgoes.gains
  · rintro (hin | ⟨hin, -⟩)
    · obtain ⟨⟨outcome, hout⟩, -⟩ := hgoes.entered hin
      exact absurd hout (hpending outcome)
    · simp [hroom] at hin
  · intro id hmem hnot
    by_cases hkept : id ∈ (leaveAll c.id c.unconfirmed h₁).1
    · obtain ⟨-, ⟨outcome, hout, -⟩, -⟩ := hgoes.kept hkept hnot
      exact absurd hout (hpending outcome)
    · exact ((hfrees id hmem hkept).before (hcourse.trans hgoes.gains)).after hg (hindex id)
  · intro pending hp
    obtain ⟨w, hw, rfl, hresult⟩ := hgoes.waits hp
    obtain ⟨rfl, -⟩ := Hub.exists_of_request_waiting hw
    refine ⟨(congrArg (·.1.room) hresult).trans hroom, fun _ => ⟨?_, (c.settle h₁).2, ?_⟩⟩
    · exact (congrArg (·.1.unconfirmed) hresult).symm ▸ hsub.subset
    · exact Prod.ext hw (congrArg (·.2) hresult).symm

/-- Whoever asks a room to let it go is in none from then on. -/
private theorem careful_leaveRoom (ht : c.Tidy) (hleaving : request.leaving = true) :
    c.Careful h owner now request (c.leaveRoom h owner now request) := by
  have hout : ({ c with room := none } : Context).Tidy := tidy_of_outside rfl ht.once
  rw [leaveRoom]
  cases hroom : c.room? h with
  | none =>
    refine ⟨rfl, hout, .refl h, by simp [hleaving], fun hmem hnot => absurd hmem hnot, by simp⟩
  | some r =>
    have hcourse : h.Gains (h.requestLeave owner r c.replyTimeout now c.id).2 fun _ => True :=
      h.gains_request _ _ _ _ fun _ => trivial
    have hgoes := goesOn_follow (c := { c with room := none }) rfl ht.once request .leave r
      (h.requestLeave owner r c.replyTimeout now c.id)
    have hpending (outcome : Outcome) : (h.requestLeave owner r c.replyTimeout now c.id).1 ≠
        .ended (.ok outcome) := Hub.request_ne_ok _ _ _ _ _ _ outcome
    refine ⟨hgoes.id, hgoes.tidy, hcourse.trans hgoes.gains, ?_, ?_, ?_⟩
    · rintro (hin | ⟨-, hnot⟩)
      · obtain ⟨⟨outcome, hout⟩, -⟩ := hgoes.entered hin
        exact absurd hout (hpending outcome)
      · simp [hleaving] at hnot
    · intro id hmem hnot
      exact absurd rfl (hgoes.kept hmem hnot).1
    · intro pending hp
      obtain ⟨w, hw, rfl, hresult⟩ := hgoes.waits hp
      exact ⟨congrArg (·.1.room) hresult, fun hne => absurd rfl hne⟩

private theorem careful_reading {α : Type} [Wire α] (ht : c.Tidy)
    {serve : α → Progress × Context × Hub}
    (hs : ∀ body, c.Careful h owner now request (serve body)) :
    c.Careful h owner now request (c.reading h request serve) := by
  rw [reading]
  split
  · exact hs _
  · exact careful_aside ht (by simp) rfl rfl rfl (.refl h)

theorem careful_serve (ht : c.Tidy) {service : Service}
    (hk : Service.ofKind? request.kind = some service) :
    c.Careful h owner now request (c.serve h owner now service request) := by
  have refused (response : Response) :
      c.Careful h owner now request (.answered response, c, h) :=
    careful_aside ht (by simp) rfl rfl rfl (.refl h)
  cases hkind : request.kind <;> rw [hkind] at hk <;> cases hk
  case loginRequest =>
    refine careful_reading ht fun body => ?_
    rw [login]
    refine careful_aside ht (by simp) rfl rfl rfl ?_
    split
    · exact h.gains_offerEvent _ (by simp)
    · exact .refl h
  case getRoomListRequest => exact careful_reading ht fun body => refused _
  case moveRequest =>
    refine careful_reading ht fun body => ?_
    rw [move]
    simp only
    split
    · exact careful_aside ht (by simp) rfl rfl rfl (h.gains_offerEvent _ (by simp))
    · exact careful_aside ht (by simp) rfl rfl rfl (.refl h)
  case createRoomRequest =>
    refine careful_reading ht fun body => ?_
    rw [createRoom]
    split
    · exact refused _
    · rename_i hroom
      exact careful_enter (by simpa using hroom) ht (h.gains_createRoom body.name)
        (fun id r hr => Hub.room?_createRoom hr body.name) _ _
  case joinRoomRequest =>
    refine careful_reading ht fun body => ?_
    rw [joinRoom]
    split
    · exact refused _
    · rename_i hroom
      split
      · exact careful_enter (by simpa using hroom) ht (.refl h) (fun id r hr => hr) _ _
      · exact refused _
  case leaveRoomRequest =>
    rw [serve, reading]
    cases hbody : Wire.decode? (α := LeaveRoomRequest) request.data with
    | none => exact careful_aside ht (by simp) rfl rfl rfl (.refl h)
    | some body =>
      exact careful_leaveRoom ht (by simp [Envelope.leaving, Envelope.answerable, hkind, hbody])

end Context

end Lobby
