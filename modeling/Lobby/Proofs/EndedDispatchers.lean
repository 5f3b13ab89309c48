import Lobby.Proofs.ClosedMailboxes
import Lobby.Proofs.ServiceRequests

/-! A dispatcher that has ended: it has left the player's state behind, the player has been asked to
stop, and no reply is waited for in its name. -/
namespace Lobby

namespace Hub
variable {h h' : Hub} {T : Ticket → Prop} {t : Ticket} {w : Wait}

def Heeds (h : Hub) (T : Ticket → Prop) : Prop := ∀ t, h.reply? t = some .awaited → T t

def HeedsCourse (T : Ticket → Prop) (result : Course × Hub) : Prop :=
  result.2.Heeds fun t => T t ∨ ∃ w, result.1 = .waiting w ∧ w.ticket = t

namespace Heeds

theorem mono {T' : Ticket → Prop} (hh : h.Heeds T) (hT : ∀ t, T t → T' t) : h.Heeds T' :=
  fun t ht => hT t (hh t ht)

theorem of_replies (hh : h.Heeds T) (hr : h'.replies = h.replies) : h'.Heeds T := by
  intro t ht
  rw [reply?, hr] at ht
  exact hh t ht

theorem closeReply (hh : h.Heeds fun t' => T t' ∨ t' = t) : (h.closeReply t).Heeds T := by
  intro t' ht
  rw [reply?_closeReply] at ht
  split at ht
  · contradiction
  · exact (hh t' ht).resolve_right ‹_›

theorem settleReply (hh : h.Heeds T) (t : Ticket) (reply : Reply) :
    (h.settleReply t reply).Heeds T := by
  intro t' ht
  rw [reply?_settleReply] at ht
  split at ht
  · rename_i hawaited
    exact hh t' (hawaited.1 ▸ hawaited.2)
  · exact hh t' ht

theorem offerEvent (hh : h.Heeds T) (r : Nat) (e : Event Ticket) :
    (h.offerEvent r e).2.Heeds T := by
  rw [Hub.offerEvent]
  split
  · split <;> exact hh.of_replies rfl
  · exact hh

theorem openRoom (hh : h.Heeds T) (id : RoomId) (name : String) :
    (h.openRoom id name).2.2.Heeds T := by
  rw [Hub.openRoom]
  split
  · exact hh
  · exact hh.of_replies rfl

theorem createRoom (hh : h.Heeds T) (name : String) : (h.createRoom name).2.Heeds T := by
  have htaken : h.takeRoomId.2.Heeds T := hh.of_replies rfl
  exact htaken.openRoom h.takeRoomId.1 name

theorem cancelRoom (hh : h.Heeds T) (r : Nat) : (h.cancelRoom r).Heeds T := by
  rw [Hub.cancelRoom]
  split
  · split
    · exact hh
    · exact hh.of_replies rfl
  · exact hh

theorem removeRoom (hh : h.Heeds T) (id : RoomId) : (h.removeRoom id).2.Heeds T := by
  rw [Hub.removeRoom]
  split
  · exact (hh.cancelRoom _).of_replies rfl
  · exact hh

/-- A request adds its own reply to those that are waited for, as long as it goes on. -/
private theorem tracks (T : Ticket → Prop) :
    Tracks (fun t h => h.Heeds fun t' => T t' ∨ t' = t) (·.Heeds T) where
  signal hh := hh.of_replies rfl
  setEvents hh _ := hh.of_replies rfl
  freshSerial hh := hh.of_replies rfl
  openReply {h owner} hh := by
    intro t ht
    rw [reply?_openReply] at ht
    split at ht
    · exact .inr ‹_›
    · exact .inl (hh t ht)
  closeReply hh := hh.closeReply

private theorem of_tracked {out : Course × Hub}
    (h : Tracked (fun t h => h.Heeds fun t' => T t' ∨ t' = t) (·.Heeds T) out) :
    HeedsCourse T out := by
  obtain ⟨course, hub⟩ := out
  cases course with
  | waiting w => exact mono h fun t => .imp_right fun ht => ⟨w, rfl, ht.symm⟩
  | ended answer => exact mono h fun t => .inl

theorem expire (hh : h.Heeds fun t => T t ∨ t = w.ticket) : (h.expire w).2.Heeds T :=
  (tracks T).expire w hh

theorem resume (hh : h.Heeds fun t => T t ∨ t = w.ticket) (now : Nat) :
    HeedsCourse T (h.resume w now) :=
  of_tracked ((tracks T).resume hh now)

theorem request (hh : h.Heeds T) (owner : Task) (r timeout now : Nat)
    (event : Ticket → Event Ticket) : HeedsCourse T (h.request owner r timeout now event) :=
  of_tracked ((tracks T).request hh owner r timeout now event)

end Heeds

/-- What tasks do whose replies are left out of account. -/
theorem enduring_heeds {owner : Task} (hT : ∀ t, t.owner = owner → T t) (player : PlayerId) :
    Enduring player owner (·.Heeds T) where
  offer hh _ _ := hh.offerEvent _ _
  request hh _ := (hh.request _ _ _ _ _).mono fun t ht => ht.elim id fun ⟨_, hw, heq⟩ =>
    hT t (heq ▸ request_owner _ hw)
  resume {h w now} hh how := by
    have hresume := Heeds.resume (w := w) (hh.mono fun _ => .inl) now
    exact hresume.mono fun t ht => ht.elim id fun ⟨_, hw, heq⟩ =>
      hT t (heq ▸ (resume_ticket _ hw).symm ▸ how)
  expire hh _ := Heeds.expire (hh.mono fun _ => .inl)
  create hh := hh.createRoom _
  apart hh ha := hh.of_replies ha.replies

theorem steady_heeds (T : Ticket → Prop) : Steady (·.Heeds T) where
  signal hh := hh.of_replies rfl
  setRoom hh _ _ _ := hh.of_replies rfl
  settleReply hh := hh.settleReply _ _
  post {h i message} hh := hh.of_replies (h.apart_post i message).replies

end Hub

def Dispatching.Awaits (d : Dispatching) (n : Nat) (t : Ticket) : Prop :=
  t.owner = .dispatcher n → ∃ c pending, d = .busy c pending ∧ pending.wait.ticket = t

namespace Context
variable {T : Ticket → Prop} {owner : Task} {request : Envelope}
  {result : Progress × Context × Hub}

def HeedsService (T : Ticket → Prop) (result : Progress × Context × Hub) : Prop :=
  result.2.2.Heeds fun t => T t ∨ ∃ pending, result.1 = .pending pending ∧ pending.wait.ticket = t

private theorem heeds_abandon {h : Hub} (hh : h.Heeds T) (c : Context) (r : Nat) :
    (c.abandon h r).2.Heeds T := by
  have hoffer : (h.sendLeave r c.id).2.Heeds T := hh.offerEvent r _
  rw [abandon]
  generalize h.sendLeave r c.id = sent at hoffer ⊢
  obtain ⟨_ | _, h'⟩ := sent <;> exact hoffer

theorem heeds_follow {course : Course × Hub} (hh : Hub.HeedsCourse T course) (c : Context)
    (request : Envelope) (errand : Errand) (r : Nat) :
    HeedsService T (c.follow request errand r course) := by
  obtain ⟨w | answer, h⟩ := course
  · exact hh.mono fun t => .imp_right fun ⟨_, hw, ht⟩ => by
      obtain rfl := Course.waiting.inj hw
      exact ⟨_, rfl, ht⟩
  · have hended : h.Heeds T := hh.mono fun t ht => ht.elim (fun h => h) fun ⟨_, hw, _⟩ => by
      contradiction
    have hcomplete : (c.complete h errand r answer).2.2.Heeds T := by
      cases errand <;> simp only [complete, concludeJoin, concludeLeave] <;> split <;>
        first | exact heeds_abandon hended c r | exact hended | skip
      all_goals split <;> exact hended
    exact hcomplete.mono fun _ => .inl

theorem Runs.heeds (hr : Runs (·.Heeds T) owner request result) : HeedsService T result := by
  cases hr with
  | aside hub => exact hub.mono fun _ => .inl
  | asks hub => exact heeds_follow (hub.request _ _ _ _ _) _ _ _ _

end Context

namespace Turn
variable {p : Nat} (t : Turn p) {d : Dispatching}

private theorem replies_received : t.received.replies = t.hub.replies := by
  obtain ⟨signals, hr⟩ := t.received_eq
  rw [hr]
  rfl

/-- A dispatcher gets its result at once, or waits for it and for nothing else. -/
private theorem heeds_work {request : Envelope} {result : Progress × Context × Hub}
    (hh : t.hub.Heeds (d.Awaits p)) (hw : t.work d = some (request, result)) :
    Context.HeedsService (fun t => t.owner ≠ .dispatcher p) result := by
  cases d with
  | ended => contradiction
  | idle c =>
    obtain ⟨-, service, hk, rfl⟩ := t.serve_of_work hw
    have hidle : t.received.Heeds fun t => t.owner ≠ .dispatcher p := by
      refine (hh.of_replies t.replies_received).mono fun t ht howner => ?_
      obtain ⟨_, _, hbusy, -⟩ := ht howner
      contradiction
    exact (Context.runs_serve (fun hh _ => hh.offerEvent _ _) (fun hh => hh.createRoom _) hidle
      hk).heeds
  | busy c pending =>
    obtain rfl := (Prod.mk.inj (Option.some.inj hw)).2
    have hbusy : t.hub.Heeds fun t => t.owner ≠ .dispatcher p ∨ t = pending.wait.ticket := by
      refine hh.mono fun t ht => ?_
      by_cases howner : t.owner = .dispatcher p
      · obtain ⟨_, _, hd, heq⟩ := ht howner
        obtain ⟨rfl, rfl⟩ := Dispatching.busy.inj hd
        exact .inr heq.symm
      · exact .inl howner
    split
    · refine Context.heeds_follow ?_ _ _ _ _
      exact hbusy.expire.mono fun _ => .inl
    · exact Context.heeds_follow (hbusy.resume _) _ _ _ _

/-- A dispatcher waits for one reply at most. -/
theorem heeds_step (hh : t.hub.Heeds (d.Awaits p)) :
    (t.step d).2.2.Heeds ((t.next d).Awaits p) := by
  rw [next]
  cases hw : t.work d with
  | none =>
    rcases t.step_of_no_work d hw with ⟨hstep, -⟩ | ⟨-, hstep | ⟨c, rfl, hstep⟩⟩ <;> rw [hstep]
    · exact hh.of_replies t.replies_received
    · exact hh
    · refine (hh.of_replies (t.hub.apart_endDuty p).replies).mono fun t ht howner => ?_
      obtain ⟨_, _, hbusy, -⟩ := ht howner
      contradiction
  | some work =>
    obtain ⟨request, progress, c, h⟩ := work
    have hwork := t.heeds_work hh hw
    rw [t.step_of_work d hw]
    cases progress with
    | pending pending =>
      refine hwork.mono fun t ht howner => ?_
      obtain ⟨_, hp, heq⟩ := ht.resolve_left fun h => h howner
      obtain rfl := Progress.pending.inj hp
      exact ⟨_, _, rfl, heq⟩
    | answered response =>
      have hrespond := hwork.of_replies (c.apart_respond h request response).replies
      refine hrespond.mono fun t ht howner => ?_
      obtain ⟨_, hp, -⟩ := ht.resolve_left fun h => h howner
      contradiction
    | unreadable =>
      refine hwork.mono fun t ht howner => ?_
      obtain ⟨_, hp, -⟩ := ht.resolve_left fun h => h howner
      contradiction

/-- A dispatcher that comes to its end leaves the player's state behind and asks the player to
stop. -/
theorem ends_step {o : Option Context} (hbefore : ∀ o, d ≠ .ended o) (hd : t.next d = .ended o) :
    o.isSome ∧ (t.step d).2.2.isCancelled p = true := by
  rw [next] at hd
  cases hw : t.work d with
  | none =>
    rcases t.step_of_no_work d hw with ⟨hstep, -⟩ | ⟨-, hstep | ⟨c, rfl, hstep⟩⟩ <;>
      rw [hstep] at hd ⊢
    · exact absurd hd (hbefore o)
    · exact absurd hd (hbefore o)
    · refine ⟨Dispatching.ended.inj hd ▸ rfl, ?_⟩
      have hstanding : t.hub.standing? p = some (t.cell.id, t.cell.cancelled) := by
        rw [Hub.standing?, t.present]
        rfl
      change (t.hub.cancelPlayer p).isCancelled p = true
      rw [Hub.isCancelled_eq, Hub.standing?_cancelPlayer, if_pos rfl, hstanding]
      rfl
  | some work =>
    obtain ⟨request, progress, c, h⟩ := work
    rw [t.step_of_work d hw] at hd
    cases progress <;> contradiction

end Turn

private theorem Session.Sound.heeds {s : Session} {h : Hub} {n : Nat} (hs : s.Sound n)
    (hh : h.Heeds (s.dispatching.Awaits n)) (act : Session.Act) :
    (s.perform h n act).2.2.Heeds ((s.perform h n act).2.1.dispatching.Awaits n) := by
  cases ht : s.turn? h n act with
  | some t =>
    obtain ⟨-, rfl, hstep⟩ := hs.perform_of_turn ht
    rw [hstep]
    exact t.heeds_step hh
  | none =>
    rw [hs.dispatching_of_no_turn ht]
    refine hs.rest_enduring ht (Hub.enduring_heeds (fun t howner hdispatch => ?_) _) hh
    rw [howner] at hdispatch
    contradiction

private theorem Session.Sound.ends {s : Session} {h : Hub} {n : Nat} (hs : s.Sound n)
    (hbefore : ∀ o, s.dispatching ≠ .ended o) {act : Session.Act} {o : Option Context}
    (hd : (s.perform h n act).2.1.dispatching = .ended o) :
    o.isSome ∧ (s.perform h n act).2.2.isCancelled n = true := by
  cases ht : s.turn? h n act with
  | some t =>
    obtain ⟨-, rfl, hstep⟩ := hs.perform_of_turn ht
    rw [hstep] at hd ⊢
    exact t.ends_step hbefore hd
  | none => exact absurd ((hs.dispatching_of_no_turn ht).symm.trans hd) (hbefore o)

theorem Hub.Wanes.isCancelled {h h' : Hub} (hw : h.Wanes h') {n : Nat}
    (hc : h.isCancelled n = true) : h'.isCancelled n = true := by
  rw [Hub.isCancelled] at hc
  cases hp : h.players[n]? with
  | none => simp [hp] at hc
  | some cell =>
    obtain ⟨cell', hp', hcell⟩ := hw.player hp
    rw [hp] at hc
    rw [Hub.isCancelled, hp']
    exact hcell.cancelled hc

namespace System
variable {σ σ' : System} {n : Nat} {s s' : Session} {act : Act}

/-- Where a session comes from at an act. -/
theorem session_cases (hs' : (σ.perform act).sessions[n]? = some s') :
    σ.sessions[n]? = some s' ∨
      (∃ s a, σ.sessions[n]? = some s ∧ act = .session n a ∧
        σ.perform act = σ.after n (s.perform σ.hub n a) ∧ s' = (s.perform σ.hub n a).2.1) ∨
      ∃ m id config window, act = .connect id config window ∧ σ.sessions[n]? = none ∧
        s' = .start m id config .standard window := by
  cases act with
  | session m a =>
    simp only [System.perform] at hs'
    split at hs'
    · rename_i s hs
      rw [getElem?_after hs] at hs'
      split at hs'
      · rename_i hnm
        subst hnm
        refine .inr (.inl ⟨s, a, hs, rfl, ?_, (Option.some.inj hs').symm⟩)
        rw [System.perform, hs]
      · exact .inl hs'
    · exact .inl hs'
  | connect id config window =>
    simp only [System.perform] at hs'
    split at hs'
    · rename_i m hub _
      rw [Array.getElem?_push] at hs'
      split at hs'
      · rename_i hn
        refine .inr (.inr ⟨m, id, config, window, rfl, ?_, (Option.some.inj hs').symm⟩)
        exact Array.getElem?_eq_none hn.ge
      · exact .inl hs'
    · exact .inl hs'
  | room r | conclude r =>
    simp only [System.perform] at hs'
    split at hs' <;> exact .inl hs'
  | take r =>
    simp only [System.perform, takeUp] at hs'
    split at hs'
    · split at hs' <;> exact .inl hs'
    · exact .inl hs'
  | call c => exact .inl hs'

def Awaits (σ : System) (t : Ticket) : Prop :=
  ∀ n, t.owner = .dispatcher n → ∃ s, σ.sessions[n]? = some s ∧ s.dispatching.Awaits n t

/-- Dispatchers wait for their own requests, and those that have ended have left their players'
states behind and asked them to stop. -/
structure Attended (σ : System) : Prop where
  heeds : σ.hub.Heeds σ.Awaits
  ended {n : Nat} {s : Session} {o : Option Context} : σ.sessions[n]? = some s →
    s.dispatching = .ended o → o.isSome ∧ σ.hub.isCancelled n = true

private theorem heeds_session (hσ : σ.Sound) (hh : σ.hub.Heeds σ.Awaits) {m : Nat}
    (hs : σ.sessions[m]? = some s) (a : Session.Act) :
    (s.perform σ.hub m a).2.2.Heeds (σ.after m (s.perform σ.hub m a)).Awaits := by
  have hown : (s.perform σ.hub m a).2.2.Heeds
      ((s.perform σ.hub m a).2.1.dispatching.Awaits m) := by
    refine (hσ.session hs).heeds (hh.mono fun t ht howner => ?_) a
    obtain ⟨s₁, hs₁, hawaits⟩ := ht m howner
    obtain rfl := Option.some.inj (hs.symm.trans hs₁)
    exact hawaits howner
  have hothers : (s.perform σ.hub m a).2.2.Heeds fun t => t.owner ≠ .dispatcher m → σ.Awaits t := by
    have hbefore : σ.hub.Heeds fun t => t.owner ≠ .dispatcher m → σ.Awaits t :=
      hh.mono fun t ht _ => ht
    refine (hσ.session hs).perform_enduring (Hub.enduring_heeds ?_ _) (Hub.enduring_heeds ?_ _)
      hbefore a
    · exact fun t howner hother => absurd howner hother
    · intro t howner _ n hn
      rw [howner] at hn
      contradiction
  intro t ht n howner
  rw [getElem?_after hs]
  split
  · rename_i hnm
    subst hnm
    exact ⟨_, rfl, hown t ht⟩
  · rename_i hnm
    refine hothers t ht (fun h => hnm ?_) n howner
    exact Task.dispatcher.inj (howner.symm.trans h)

private theorem heeds_call (hh : σ.hub.Heeds σ.Awaits) {c : Hub.Call} (hc : c.Honest) :
    (σ.hub.call c).Heeds σ.Awaits := by
  have visit : Hub.Enduring ⟨""⟩ .visitor (·.Heeds σ.Awaits) := by
    refine Hub.enduring_heeds (fun t howner n hn => ?_) _
    rw [howner] at hn
    contradiction
  cases c with
  | openRoom id name => exact hh.openRoom id name
  | createRoom name => exact hh.createRoom name
  | removeRoom id => exact hh.removeRoom id
  | cancelRoom r => exact hh.cancelRoom r
  | removePlayer id => exact visit.apart hh (σ.hub.apart_removePlayer id)
  | cancelPlayer n => exact visit.apart hh (σ.hub.apart_cancelPlayer n)
  | offer r e => exact hh.offerEvent r e
  | request r timeout now event =>
    refine (hh.request _ _ _ _ _).mono fun t ht => ht.elim id fun ⟨_, hw, heq⟩ n hn => ?_
    rw [← heq, Hub.request_owner _ hw] at hn
    contradiction
  | resume w now => exact visit.resume hh hc
  | expire w => exact visit.expire hh hc

private theorem heeds_perform (hσ : σ.Sound) (hh : σ.hub.Heeds σ.Awaits) (hact : act.Honest) :
    (σ.perform act).hub.Heeds (σ.perform act).Awaits := by
  have stay {hub : Hub} (hh : hub.Heeds σ.Awaits) {hands : Hands} :
      hub.Heeds (System.mk hub σ.sessions hands).Awaits := hh
  cases act with
  | session m a =>
    rw [System.perform]
    split
    · exact heeds_session hσ hh ‹_› a
    · exact hh
  | room r =>
    rw [System.perform]
    split
    · exact stay ((Hub.steady_heeds _).stepRoom hh r)
    · exact hh
  | take r =>
    rw [System.perform, takeUp]
    split
    · split
      · exact stay ((Hub.steady_heeds _).takeEvent? hh ‹_›)
      · exact hh
    · exact hh
  | conclude r =>
    rw [System.perform]
    split
    · exact stay ((Hub.steady_heeds _).handleEvent hh _ r _)
    · exact hh
  | connect id config window =>
    rw [System.perform]
    split
    · rename_i m hub ho
      refine (hh.of_replies (Hub.apart_openPlayer ho).replies).mono fun t ht n howner => ?_
      obtain ⟨s, hs, hawaits⟩ := ht n howner
      refine ⟨s, ?_, hawaits⟩
      rw [Array.getElem?_push, if_neg (Array.getElem?_eq_some_iff.mp hs).1.ne]
      exact hs
    · exact hh
  | call c => exact stay (heeds_call hh hact)

theorem Attended.perform (ha : σ.Attended) (hσ : σ.Sound) (hact : act.Honest) :
    (σ.perform act).Attended := by
  refine ⟨heeds_perform hσ ha.heeds hact, fun {n s' o} hs' hd => ?_⟩
  have stays {s : Session} (hs : σ.sessions[n]? = some s) (hended : s.dispatching = .ended o) :
      o.isSome ∧ (σ.perform act).hub.isCancelled n = true := by
    obtain ⟨ho, hc⟩ := ha.ended hs hended
    exact ⟨ho, (hσ.wanes act).hub.isCancelled hc⟩
  rcases session_cases hs' with hs | ⟨s, a, hs, -, hperform, rfl⟩ | ⟨m, _, _, _, -, -, rfl⟩
  · exact stays hs hd
  · by_cases hbefore : ∃ o, s.dispatching = .ended o
    · obtain ⟨o', ho'⟩ := hbefore
      obtain rfl : o' = o := Dispatching.ended.inj
        ((((hσ.session hs).ebbs σ.hub a).session.dispatching ho').symm.trans hd)
      exact stays hs ho'
    · rw [hperform]
      exact (hσ.session hs).ends (not_exists.mp hbefore) hd
  · contradiction

theorem attended_initial (config : RoomConfig) (reactions : Reactions) :
    (initial config reactions).Attended := by
  constructor
  · intro t ht
    simp [initial, Hub.reply?] at ht
  · intro n s o hs
    simp [initial] at hs

end System

end Lobby
