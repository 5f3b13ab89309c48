import Lobby.Proofs.DutySteps
import Lobby.Proofs.MembershipSteps

/-! Every service leaves the player and the rooms in agreement, or a request under way, and so does
every turn of the dispatcher. -/
namespace Lobby

inductive Progress.Fits (hands : Hands) (p : PlayerId) (n : Nat) : Progress × Context × Hub → Prop
  | answered {response : Response} {c : Context} {h : Hub} (live : h.Live)
      (settled : (h.outlook hands p n).Settled p n c none) :
      Fits hands p n (.answered response, c, h)
  | pending {pending : Pending} {c : Context} {h : Hub} (live : h.Live)
      (engaged : (h.outlook hands p n).Engaged p n c pending.errand pending.wait) :
      Fits hands p n (.pending pending, c, h)
  | unreadable {c : Context} {h : Hub} (live : h.Live)
      (settled : (h.outlook hands p n).Settled p n c none) : Fits hands p n (.unreadable, c, h)

namespace Context
variable {h : Hub} {hands : Hands} {p : PlayerId} {n : Nat} {c : Context} {errand : Errand}
  {r : Nat}

private theorem settled_complete {answer : Answer}
    (hf : Course.Fits hands p n c errand r (.ended answer, h)) :
    (c.complete h errand r answer).2.2.Live ∧
      ((c.complete h errand r answer).2.2.outlook hands p n).Settled p n
        (c.complete h errand r answer).2.1 none := by
  cases hf with
  | timeout live free settled view =>
    have habandon := settled_abandon live settled free view
    cases errand <;> exact habandon
  | @answered outcome _ v live free settled view events granted refused =>
    have hrefused (hr : ¬ errand.Grants outcome) : (h.outlook hands p n).Settled p n c none :=
      settled.resolve view (refused hr)
    have join (herrand : errand ≠ .leave) : (c.concludeJoin h r (.ok outcome)).2.Live ∧
        ((c.concludeJoin h r (.ok outcome)).2.outlook hands p n).Settled p n
          (c.concludeJoin h r (.ok outcome)).1 none := by
      simp only [concludeJoin]
      split
      · rename_i hret
        refine ⟨live, ?_⟩
        simp only [Hub.roomId_eq view]
        exact settled.confirm live.coherent free view (granted ⟨herrand, hret⟩) events
      · rename_i hret
        exact ⟨live, hrefused fun hg => hret hg.2⟩
    cases errand with
    | create => exact join (by simp)
    | join => exact join (by simp)
    | leave => exact ⟨live, hrefused fun hg => hg.1 rfl⟩

/-- An errand is followed to its end, or it goes on. -/
theorem fits_follow {course : Course × Hub} (hf : Course.Fits hands p n c errand r course)
    (request : Envelope) : Progress.Fits hands p n (c.follow request errand r course) := by
  obtain ⟨w | answer, h⟩ := course
  · cases hf with
    | waiting live room engaged => exact .pending live engaged
  · obtain ⟨hl, hs⟩ := settled_complete hf
    exact .answered hl hs

private theorem fits_enter (hl : h.Live) (hs : (h.outlook hands p n).Settled p n c none)
    (hfree : c.room = none) (hr : r < h.rooms.size) (now : Nat) (request : Envelope)
    (herrand : errand ≠ .leave) :
    Progress.Fits hands p n (c.enter h (.dispatcher n) now request errand r) := by
  obtain rfl : c.id = p := hs.id
  have hall := settled_leaveAll c.unconfirmed [] hl hfree hs
  have hrooms : r + 1 ≤ (leaveAll c.id c.unconfirmed h).2.rooms.size :=
    serves_leaveAll ((Hub.robust_size (r + 1)).lasting c.id (.dispatcher n)) c.unconfirmed hr
  rw [enter, settle]
  generalize leaveAll c.id c.unconfirmed h = result at hall hrooms ⊢
  obtain ⟨kept, h'⟩ := result
  obtain ⟨hl', hs'⟩ := hall
  have hc : h'.rooms[r]? = some h'.rooms[r] := Array.getElem?_eq_getElem hrooms
  refine fits_follow (Hub.fits_request hl' hs' hfree (.inl rfl) hc _ now ?_) request
  intro t
  cases errand with
  | create | join => exact ⟨_, rfl⟩
  | leave => exact absurd rfl herrand

private theorem spares_move (hl : h.Live) (r : Nat) (player : PlayerId) (profile : Profile) :
    Hub.Spares hands p n h (h.sendMove r player profile).2 :=
  hl.spares_offerEvent r (by simp [Event.concerns, Event.bindsTo, Event.kind, Event.reply?])

private theorem fits_login (hl : h.Live) (hs : (h.outlook hands p n).Settled p n c none)
    (body : LoginRequest) : Progress.Fits hands p n (c.login h body) := by
  rw [login]
  simp only
  split
  · rename_i r _
    have hmove : Hub.Spares hands p n h (h.sendMove r c.id ⟨body.playerName, c.position⟩).2 :=
      spares_move hl r _ _
    exact .answered hmove.live ((hs.grows hmove.grows).of_context rfl rfl rfl)
  · exact .answered hl (hs.of_context rfl rfl rfl)

private theorem fits_move (hl : h.Live) (hs : (h.outlook hands p n).Settled p n c none)
    (body : MoveRequest) : Progress.Fits hands p n (c.move h body) := by
  rw [move]
  simp only
  split
  · rename_i r _
    have hmove : Hub.Spares hands p n h (h.sendMove r c.id ⟨c.name, body.position⟩).2 :=
      spares_move hl r _ _
    exact .answered hmove.live ((hs.grows hmove.grows).of_context rfl rfl rfl)
  · exact .answered hl (hs.of_context rfl rfl rfl)

private theorem openRoom_lt (hl : h.Live) (id : RoomId) (name : String) :
    (h.openRoom id name).1 < (h.openRoom id name).2.2.rooms.size := by
  rw [Hub.openRoom]
  split
  · rename_i r hr
    obtain ⟨cell, hc, -⟩ := hl.indexed hr
    exact (Array.getElem?_eq_some_iff.mp hc).1
  · simp [Hub.signal]

private theorem fits_createRoom (hl : h.Live) (hs : (h.outlook hands p n).Settled p n c none)
    (hh : Hub.Held hands h) (now : Nat) (request : Envelope) (body : CreateRoomRequest) :
    Progress.Fits hands p n (c.createRoom h (.dispatcher n) now request body) := by
  rw [createRoom]
  split
  · exact .answered hl hs
  · rename_i hroom
    have hcreate : Hub.Spares hands p n h (h.createRoom body.name).2 := hl.spares_createRoom hh _
    have htaken : h.takeRoomId.2.Live := hl.congr rfl rfl rfl
    have hlt : (h.createRoom body.name).1 < (h.createRoom body.name).2.rooms.size :=
      openRoom_lt htaken h.takeRoomId.1 body.name
    exact fits_enter hcreate.live (hs.grows hcreate.grows) (by simpa using hroom) hlt now request
      (by simp)

private theorem fits_joinRoom (hl : h.Live) (hs : (h.outlook hands p n).Settled p n c none)
    (now : Nat) (request : Envelope) (body : JoinRoomRequest) :
    Progress.Fits hands p n (c.joinRoom h (.dispatcher n) now request body) := by
  rw [joinRoom]
  split
  · exact .answered hl hs
  · rename_i hroom
    split
    · rename_i r hr
      obtain ⟨cell, hc, -⟩ := hl.indexed hr
      exact fits_enter hl hs (by simpa using hroom) (Array.getElem?_eq_some_iff.mp hc).1 now request
        (by simp)
    · exact .answered hl hs

private theorem fits_leaveRoom (hl : h.Live) (hs : (h.outlook hands p n).Settled p n c none)
    (now : Nat) (request : Envelope) :
    Progress.Fits hands p n (c.leaveRoom h (.dispatcher n) now request) := by
  obtain rfl : c.id = p := hs.id
  rw [leaveRoom, room?]
  cases hroom : c.room with
  | none =>
    have hleft : { c with room := none } = c := by rw [← hroom]
    rw [hleft]
    exact .answered hl hs
  | some id =>
    obtain ⟨r, hr⟩ := hs.confirmed hroom
    have hreg : h.room? id = some r := hr
    obtain ⟨cell, hc, -⟩ := hl.indexed hreg
    simp only [Option.bind_some, hreg]
    have hleft := hs.let_go hl.coherent hroom hr
    exact fits_follow (Hub.fits_request hl hleft rfl (.inr ⟨rfl, rfl⟩) hc _ now fun t => rfl)
      request

private theorem fits_reading {α : Type} [Wire α] (hl : h.Live)
    (hs : (h.outlook hands p n).Settled p n c none) {request : Envelope}
    {serve : α → Progress × Context × Hub} (hserve : ∀ body, Progress.Fits hands p n (serve body)) :
    Progress.Fits hands p n (c.reading h request serve) := by
  rw [reading]
  split
  · exact hserve _
  · exact .unreadable hl hs

/-- Every service leaves the player and the rooms in agreement, or a request under way. -/
theorem fits_serve (hl : h.Live) (hs : (h.outlook hands p n).Settled p n c none)
    (hh : Hub.Held hands h) (now : Nat) (service : Service) (request : Envelope) :
    Progress.Fits hands p n (c.serve h (.dispatcher n) now service request) := by
  cases service with
  | login => exact fits_reading hl hs (fits_login hl hs)
  | listRooms => exact fits_reading hl hs fun _ => .answered hl hs
  | createRoom => exact fits_reading hl hs (fits_createRoom hl hs hh now request)
  | joinRoom => exact fits_reading hl hs (fits_joinRoom hl hs now request)
  | move => exact fits_reading hl hs (fits_move hl hs)
  | leaveRoom => exact fits_reading hl hs fun _ => fits_leaveRoom hl hs now request

end Context

def Dispatching.Fits (o : Outlook) (p : PlayerId) (n : Nat) : Dispatching → Prop
  | .idle c | .ended (some c) => o.Settled p n c none
  | .busy c pending => o.Engaged p n c pending.errand pending.wait
  | .ended none => False

namespace Dispatching
variable {o o' : Outlook} {p : PlayerId} {n : Nat} {d : Dispatching}

theorem Fits.grows (hd : d.Fits o p n) (hg : o.Grows n o') : d.Fits o' p n := by
  cases d with
  | idle c => exact Outlook.Settled.grows hd hg
  | busy c pending => exact Outlook.Engaged.grows hd hg
  | ended c =>
    cases c with
    | some c => exact Outlook.Settled.grows hd hg
    | none => exact hd

theorem Fits.owned (hd : d.Fits o p n) : o.Owned n := by
  cases d with
  | idle c => exact Outlook.Settled.owned hd
  | busy c pending => exact Outlook.Engaged.owned hd
  | ended c =>
    cases c with
    | some c => exact Outlook.Settled.owned hd
    | none => exact hd.elim

theorem Fits.proper (hd : d.Fits o p n) : d.Proper n p := by
  cases d with
  | idle c =>
    refine ⟨?_, by simp⟩
    rintro _ ⟨⟩
    exact Outlook.Settled.id hd
  | busy c pending =>
    refine ⟨?_, ?_⟩
    · rintro _ ⟨⟩
      exact Outlook.Engaged.id hd
    · rintro _ _ ⟨⟩
      exact Outlook.Engaged.owner hd
  | ended c =>
    refine ⟨?_, by simp⟩
    rintro c ⟨⟩
    exact Outlook.Settled.id hd

end Dispatching

/-- Nothing is different for the player when rooms, registry and replies are as before. -/
theorem Hub.Apart.spares {h h' : Hub} {hands : Hands} {p : PlayerId} {n : Nat} (ha : h.Apart h')
    (hl : h.Live) : Spares hands p n h h' := by
  apply hl.spares_of_rooms ha.rooms ha.roomIndex ha.reactions
  · intro t _
    rw [reply?, reply?, ha.replies]
  · exact ha.nextSerial

structure Hub.Accord (h : Hub) (hands : Hands) (p : PlayerId) (n : Nat) (d : Dispatching) :
    Prop where
  live : h.Live
  held : Held hands h
  fits : d.Fits (h.outlook hands p n) p n

namespace Hub
variable {h h' : Hub} {hands : Hands} {p : PlayerId} {n : Nat} {d : Dispatching}

theorem Accord.spares (ha : h.Accord hands p n d) (hs : Spares hands p n h h') :
    h'.Accord hands p n d :=
  ⟨hs.live, hs.held ha.held, ha.fits.grows hs.grows⟩

theorem Accord.apart (ha : h.Accord hands p n d) (hs : h.Apart h') : h'.Accord hands p n d :=
  ha.spares (hs.spares ha.live)

theorem enduring_size (player : PlayerId) (owner : Task) (k : Nat) :
    Enduring player owner (k ≤ ·.rooms.size) where
  toLasting := (robust_size k).lasting player owner
  apart hk ha := by
    rw [ha.rooms]
    exact hk

end Hub

namespace Turn
variable {n : Nat} (t : Turn n) {d : Dispatching} {hands : Hands} {p : PlayerId}

private theorem fits_dispatched (s : Session) (request : Envelope)
    {result : Progress × Context × Hub} (hr : Progress.Fits hands p n result) :
    (s.dispatched request result).2.2.Live ∧
      (s.dispatched request result).2.1.dispatching.Fits
        ((s.dispatched request result).2.2.outlook hands p n) p n := by
  cases hr with
  | @answered response c h live settled =>
    have hrespond : Hub.Spares hands p n h (c.respond h request response).2 :=
      (c.apart_respond h request response).spares live
    exact ⟨hrespond.live, settled.grows hrespond.grows⟩
  | pending live engaged => exact ⟨live, engaged⟩
  | unreadable live settled => exact ⟨live, settled⟩

private theorem fits_step (ha : t.hub.Accord hands p n d) :
    (t.step d).2.2.Live ∧ (t.next d).Fits ((t.step d).2.2.outlook hands p n) p n := by
  have hreceived : t.received.Accord hands p n d := ha.apart t.apart_received
  rw [next]
  cases hw : t.work d with
  | none =>
    rcases t.step_of_no_work d hw with ⟨hstep, -⟩ | ⟨-, hstep | ⟨c, rfl, hstep⟩⟩
    · rw [hstep]
      exact ⟨hreceived.live, hreceived.fits⟩
    · rw [hstep]
      exact ⟨ha.live, ha.fits⟩
    · rw [hstep]
      have hend : (Session.endDuty t.hub n).Accord hands p n (.idle c) :=
        ha.apart (t.hub.apart_endDuty n)
      exact ⟨hend.live, hend.fits⟩
  | some work =>
    obtain ⟨request, result⟩ := work
    rw [t.step_of_work d hw]
    apply fits_dispatched
    cases d with
    | ended => contradiction
    | busy c pending =>
      obtain ⟨rfl, rfl⟩ : pending.request = request ∧ _ = result := by
        simpa [work] using hw
      split
      · exact Context.fits_follow (Hub.fits_expire ha.live ha.fits) _
      · exact Context.fits_follow (Hub.fits_resume ha.live ha.fits t.now) _
    | idle c =>
      simp only [work, Option.bind_eq_bind, Option.bind_eq_some_iff] at hw
      obtain ⟨e, -, service, -, hr⟩ := hw
      obtain ⟨rfl, rfl⟩ := Prod.mk.inj (Option.some.inj hr)
      exact Context.fits_serve hreceived.live hreceived.fits hreceived.held t.now service e

/-- A dispatcher's turn leaves its player and the rooms in agreement, or a request under way. -/
theorem accord_step (ha : t.hub.Accord hands p n d) :
    (t.step d).2.2.Accord hands p n (t.next d) := by
  obtain ⟨hlive, hfits⟩ := t.fits_step ha
  have hsize : t.hub.rooms.size ≤ (t.step d).2.2.rooms.size :=
    (t.step_enduring ha.fits.proper (Hub.enduring_size p _ _) (Nat.le_refl _)).1
  exact ⟨hlive, ha.held.of_size hsize, hfits⟩

end Turn

end Lobby
