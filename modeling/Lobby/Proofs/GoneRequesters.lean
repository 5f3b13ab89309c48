import Lobby.Proofs.Systems

/-! A requester that has gone does not come back: no task ever waits again for a reply that nobody
waits for. -/
namespace Lobby

namespace Hub

/-- A ticket has been handed out, and nobody waits for the reply. -/
structure Gone (t : Ticket) (h : Hub) : Prop where
  serial : t.serial < h.nextSerial
  reply? : h.reply? t = none

variable {h h' : Hub} {t : Ticket}

theorem Gone.of_replies (hg : h.Gone t) (hr : h'.replies = h.replies)
    (hs : h.nextSerial ≤ h'.nextSerial) : h'.Gone t := by
  refine ⟨Nat.lt_of_lt_of_le hg.serial hs, ?_⟩
  rw [Hub.reply?, hr]
  exact hg.reply?

/-- A change of anything but replies and tickets. -/
private theorem Gone.keep (hg : h.Gone t) (hr : h'.replies = h.replies)
    (hs : h'.nextSerial = h.nextSerial) : h'.Gone t :=
  hg.of_replies hr hs.ge

theorem gone_openRoom (hg : h.Gone t) (id : RoomId) (name : String) :
    (h.openRoom id name).2.2.Gone t := by
  rw [openRoom]
  split
  · exact hg
  · exact hg.keep rfl rfl

theorem robust_gone (t : Ticket) : Robust (·.Gone t) where
  signal hg := hg.keep rfl rfl
  setEvents hg _ := hg.keep rfl rfl
  freshSerial hg := hg.of_replies rfl (Nat.le_succ _)
  openReply {h owner} hg := by
    refine ⟨Nat.lt_succ_of_lt hg.serial, ?_⟩
    rw [reply?_openReply, if_neg]
    · exact hg.reply?
    · rintro rfl
      exact absurd hg.serial (Nat.lt_irrefl _)
  closeReply {h t'} hg := by
    refine ⟨hg.serial, ?_⟩
    rw [reply?_closeReply]
    split
    · rfl
    · exact hg.reply?
  createRoom {h name} hg := by
    have htaken : h.takeRoomId.2.Gone t := hg.keep rfl rfl
    exact gone_openRoom htaken h.takeRoomId.1 name

theorem enduring_gone (player : PlayerId) (owner : Task) (t : Ticket) :
    Enduring player owner (·.Gone t) where
  toLasting := (robust_gone t).lasting player owner
  apart hg ha := hg.of_replies ha.replies ha.nextSerial

private theorem gone_settleReply (hg : h.Gone t) (t' : Ticket) (reply : Reply) :
    (h.settleReply t' reply).Gone t := by
  constructor
  · rw [settleReply]
    split <;> exact hg.serial
  · rw [reply?_settleReply, if_neg]
    · exact hg.reply?
    · rintro ⟨rfl, ha⟩
      simp [hg.reply?] at ha

private theorem gone_discardEvent (hg : h.Gone t) (e : Event Ticket) :
    (h.discardEvent e).Gone t := by
  rw [discardEvent]
  split
  · exact gone_settleReply hg _ _
  · exact hg

private theorem gone_applyAll (hg : h.Gone t) (effects : List (Effect Ticket)) :
    (h.applyAll effects).Gone t := by
  induction effects generalizing h with
  | nil => exact hg
  | cons effect rest ih =>
    have hone : (h.apply effect).Gone t := by
      cases effect with
      | answer t' outcome => exact gone_settleReply hg t' _
      | post i message =>
        rw [apply, post]
        split <;> exact hg.keep rfl rfl
    exact ih hone

private theorem gone_stopRoom (hg : h.Gone t) (r : Nat) : (h.stopRoom r).Gone t := by
  rw [stopRoom]
  split
  · rename_i cell _
    apply List.foldlRecOn cell.events.queue discardEvent
    · apply List.foldlRecOn cell.events.waiting
      · exact hg.keep rfl rfl
      · intro h hg w _
        exact hg.keep rfl rfl
    · intro h hg e _
      exact gone_discardEvent hg e
  · exact hg

theorem gone_handleEvent (hg : h.Gone t) (listener : Ticket → Listener) (r : Nat)
    (e : Event Ticket) : (h.handleEvent listener r e).Gone t := by
  rw [handleEvent]
  split
  · rename_i cell _
    split
    · rename_i room effects _
      have hset : (h.setRoom r { cell with room }).Gone t := hg.keep rfl rfl
      exact gone_discardEvent (gone_applyAll hset effects) e
    · exact gone_stopRoom (gone_discardEvent hg e) r
  · exact hg

theorem gone_takeEvent (hg : h.Gone t) {r : Nat} {e : Event Ticket}
    (ht : h.takeEvent? r = some (e, h')) : h'.Gone t := by
  obtain ⟨_, _, _, _, -, -, -, rfl⟩ := exists_of_drawEvent ht
  exact hg.keep rfl rfl

theorem gone_stepRoom (hg : h.Gone t) (r : Nat) : (h.stepRoom r).2.Gone t := by
  rw [stepRoom]
  split
  · split
    · exact hg
    · split
      · exact gone_stopRoom hg r
      · split
        · apply gone_handleEvent
          split <;> exact hg.keep rfl rfl
        · exact hg
        · exact gone_stopRoom hg r
  · exact hg

end Hub

namespace System
variable {σ σ' : System} {p : PlayerId} {t : Ticket}

private theorem gone_turn {m : Nat} {s : Session} (hs : s.Sound m) {turn : Turn m}
    (hh : turn.hub = σ.hub) (hg : σ.hub.Gone t) {step : Session.Step}
    (hstep : turn.step s.dispatching = step) : (σ.after m step).hub.Gone t := by
  subst hstep
  rw [← hh] at hg
  exact (turn.step_enduring hs.dispatching (Hub.enduring_gone s.id _ t) hg).1

theorem gone_step (hσ : σ.Sound) (hg : σ.hub.Gone t) (hstep : Step p σ σ') : σ'.hub.Gone t := by
  have hall (player : PlayerId) (owner : Task) := Hub.enduring_gone player owner t
  cases hstep with
  | @read n s hs => exact (hall p .visitor).apart hg (Session.aside_stepReader s σ.hub n).hub
  | @write n s hs => exact (hall p .visitor).apart hg (Session.aside_stepWriter s σ.hub n).hub
  | @dispatch n s hs now =>
    cases hp : σ.hub.players[n]? with
    | none =>
      rw [s.stepDispatcher_of_absent hp now]
      exact hg
    | some cell =>
      exact gone_turn (hσ.session hs) rfl hg (Session.step_turn (hσ.session hs) hp now)
  | lapse hs hp hb =>
    exact gone_turn (hσ.session hs) rfl hg (Session.step_lastTurn (hσ.session hs) hp hb)
  | @supervise n s hs now =>
    exact (Session.stepSupervisor_enduring (hσ.session hs) (hall s.id _) hg now).1
  | @depart n s w rooms hs hw => exact (hall p _).expire hg ((hσ.session hs).waiting hw)
  | room hfree => exact Hub.gone_stepRoom hg _
  | take hfree ht => exact Hub.gone_takeEvent hg ht
  | conclude hhand => exact Hub.gone_handleEvent hg _ _ _
  | connect window ho => exact (hall p .visitor).apart hg (Hub.apart_openPlayer ho)
  | stream hs f => exact hg
  | openRoom id name => exact Hub.gone_openRoom hg id name
  | createRoom name => exact (hall p .visitor).create hg
  | visit hv =>
    cases hv with
    | offer r he hr => exact (hall _ .visitor).offer hg rfl hr
    | request r timeout now hp he => exact (hall _ .visitor).request hg he
    | resume hw now => exact (hall p .visitor).resume hg hw
    | expire hw => exact (hall p .visitor).expire hg hw
  | aside ha => exact (hall p .visitor).apart hg ha

/-- Who has gone does not come back. -/
theorem gone_leads (hσ : σ.Sound) (hg : σ.hub.Gone t) (hl : Leads p σ σ') : σ'.hub.Gone t := by
  induction hl with
  | refl => exact hg
  | tail hl hstep ih => exact gone_step (hσ.leads hl) ih hstep

end System

end Lobby
