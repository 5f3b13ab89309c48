import Lobby.Proofs.PlayerRegistry

/-! Where the events of requests are. An event goes into the mailbox of the room that is asked,
under a ticket that nobody has had before, and leaves it only when the room takes it or the
requester gives it up. -/
namespace Lobby

namespace Mailbox
variable {τ α : Type}

/-- The messages in a mailbox, and those that wait to get there. -/
def pile (m : Mailbox τ α) : List α := m.queue ++ m.underWay.map (·.2)

variable {m : Mailbox τ α} {x y : α}

theorem mem_pile : x ∈ m.pile ↔ x ∈ m.queue ∨ ∃ name, (name, x) ∈ m.underWay := by
  simp [pile]

theorem mem_pile_offer (hx : x ∈ (m.offer y).2.pile) : x ∈ m.pile ∨ x = y := by
  rw [mem_pile, underWay_offer] at hx
  rw [mem_pile]
  rcases hx with hx | hx
  · rw [offer] at hx
    split at hx
    · exact .inl (.inl hx)
    · split at hx
      · exact .inl (.inl hx)
      · exact (List.mem_append.mp hx).imp .inl List.mem_singleton.mp
  · exact .inl (.inr hx)

theorem mem_pile_send {name : τ} (hx : x ∈ (m.send name y).2.pile) : x ∈ m.pile ∨ x = y := by
  rw [mem_pile] at hx ⊢
  rcases hx with hx | ⟨name', hx⟩
  · rw [send] at hx
    split at hx
    · exact .inl (.inl hx)
    · split at hx
      · exact .inl (.inl hx)
      · exact (List.mem_append.mp hx).imp .inl List.mem_singleton.mp
  · rcases mem_underWay_send hx with hx | hx
    · exact .inl (.inr ⟨name', hx⟩)
    · exact .inr (congrArg Prod.snd hx)

theorem mem_pile_receive (hx : x ∈ m.receive.2.2.pile) : x ∈ m.pile := by
  cases hq : m.queue with
  | nil => rcases receive_nil hq with hr | hr <;> rwa [hr] at hx
  | cons first rest =>
    obtain ⟨next, granted, waiting, hr, hu⟩ := exists_release { m with queue := rest }
    rw [receive_cons hq, hr] at hx
    rw [mem_pile] at hx ⊢
    refine hx.imp (fun hx => hq ▸ List.mem_cons_of_mem _ hx) ?_
    rintro ⟨name, hx⟩
    exact ⟨name, hu ▸ hx⟩

theorem mem_pile_of_received {next : Option τ} {m' : Mailbox τ α}
    (h : m.receive = (.message x, next, m')) : x ∈ m.pile := by
  cases hq : m.queue with
  | nil => rcases receive_nil hq with hr | hr <;> simp [hr] at h
  | cons first rest =>
    rw [receive_cons hq] at h
    obtain rfl := Received.message.inj (Prod.mk.inj h).1
    exact mem_pile.mpr (.inl (hq ▸ List.mem_cons_self))

theorem mem_pile_discard (hx : x ∈ m.discard.pile) : x ∈ m.pile := by
  rw [mem_pile] at hx ⊢
  exact hx.imp_left fun hx => absurd hx (List.not_mem_nil)

variable [DecidableEq τ]

theorem mem_pile_settle {name : τ} (hx : x ∈ (m.settle name).2.pile) : x ∈ m.pile := by
  rw [mem_pile] at hx ⊢
  rcases hx with hx | ⟨name', hx⟩
  · cases hc : m.closed with
    | true =>
      simp only [settle, hc, if_true] at hx
      exact .inl hx
    | false =>
      rcases settle_cases hc name with ⟨message, hm, hs⟩ | hs <;> rw [hs] at hx
      · rcases List.mem_append.mp hx with hx | hx
        · exact .inl hx
        · obtain rfl := List.mem_singleton.mp hx
          exact .inr ⟨name, List.mem_append_left _ hm⟩
      · exact .inl hx
  · exact .inr ⟨name', mem_underWay_settle hx⟩

theorem mem_pile_withdraw {name : τ} (hx : x ∈ (m.withdraw name).2.pile) : x ∈ m.pile := by
  rw [mem_pile] at hx ⊢
  refine hx.imp ?_ fun ⟨name', hx⟩ => ⟨name', mem_underWay_withdraw hx⟩
  obtain ⟨next, granted, waiting, hw, -⟩ := m.exists_withdraw name
  rw [hw]
  exact id

end Mailbox

namespace Hub
variable {h h₀ h' h'' : Hub} {r : Nat} {cell cell' : RoomCell} {N : Nat → Event Ticket → Prop}
  {A B : Ticket → Outcome → Prop}

def Holds (h : Hub) (r : Nat) (e : Event Ticket) : Prop :=
  ∃ cell, h.rooms[r]? = some cell ∧ e ∈ cell.events.pile

/-- A change that brings no requests to rooms and no answers but some that are said. Requests come
under tickets that were handed out meanwhile, and rooms stay who they are. -/
structure Brings (N : Nat → Event Ticket → Prop) (A : Ticket → Outcome → Prop) (h h' : Hub) :
    Prop where
  reactions : h'.reactions = h.reactions
  nextSerial : h.nextSerial ≤ h'.nextSerial
  room {r : Nat} {cell : RoomCell} : h.rooms[r]? = some cell →
    ∃ cell', h'.rooms[r]? = some cell' ∧ cell'.room.header = cell.room.header
  holds {r : Nat} {e : Event Ticket} {t : Ticket} : h'.Holds r e → e.reply? = some t →
    h.Holds r e ∨ h.nextSerial ≤ t.serial ∧ t.serial < h'.nextSerial ∧ N r e
  answered {t : Ticket} {outcome : Outcome} : h'.reply? t = some (.answered outcome) →
    h.reply? t = some (.answered outcome) ∨ A t outcome

namespace Brings

theorem refl (N : Nat → Event Ticket → Prop) (A : Ticket → Outcome → Prop) (h : Hub) :
    h.Brings N A h :=
  ⟨rfl, Nat.le_refl _, fun hc => ⟨_, hc, rfl⟩, fun hh _ => .inl hh, fun ha => .inl ha⟩

theorem trans (hb : h.Brings N A h') (hb' : h'.Brings N A h'') : h.Brings N A h'' := by
  refine ⟨hb'.reactions.trans hb.reactions, Nat.le_trans hb.nextSerial hb'.nextSerial, ?_, ?_, ?_⟩
  · intro r cell hc
    obtain ⟨cell', hc', hheader⟩ := hb.room hc
    obtain ⟨cell'', hc'', hheader'⟩ := hb'.room hc'
    exact ⟨cell'', hc'', hheader'.trans hheader⟩
  · intro r e t hh ht
    rcases hb'.holds hh ht with hh | ⟨hle, hlt, hN⟩
    · exact (hb.holds hh ht).imp_right fun hs =>
        ⟨hs.1, Nat.lt_of_lt_of_le hs.2.1 hb'.nextSerial, hs.2.2⟩
    · exact .inr ⟨Nat.le_trans hb.nextSerial hle, hlt, hN⟩
  · intro t outcome ha
    rcases hb'.answered ha with ha | ha
    · exact hb.answered ha
    · exact .inr ha

theorem mono {M : Nat → Event Ticket → Prop} (hb : h.Brings N A h') (hNM : ∀ r e, N r e → M r e)
    (hAB : ∀ t outcome, A t outcome → B t outcome) : h.Brings M B h' :=
  ⟨hb.reactions, hb.nextSerial, hb.room,
    fun hh ht => (hb.holds hh ht).imp_right fun hs => ⟨hs.1, hs.2.1, hNM _ _ hs.2.2⟩,
    fun ha => (hb.answered ha).imp_right (hAB _ _)⟩

/-- A change that leaves the rooms alone. -/
theorem of_rooms (hb : h₀.Brings N A h) (hreactions : h'.reactions = h.reactions)
    (hrooms : h'.rooms = h.rooms) (hserial : h.nextSerial ≤ h'.nextSerial)
    (hanswered : ∀ t outcome, h'.reply? t = some (.answered outcome) →
      h.reply? t = some (.answered outcome) ∨ A t outcome) : h₀.Brings N A h' := by
  refine hb.trans ⟨hreactions, hserial, ?_, ?_, fun ha => hanswered _ _ ha⟩
  · intro r cell hc
    exact ⟨cell, hrooms ▸ hc, rfl⟩
  · rintro r e t ⟨cell, hc, he⟩ -
    exact .inl ⟨cell, hrooms ▸ hc, he⟩

theorem signal (hb : h₀.Brings N A h) (s : Signal) : h₀.Brings N A (h.signal s) :=
  hb.of_rooms rfl rfl (Nat.le_refl _) fun _ _ => .inl

/-- What comes into a room's mailbox is no request, or one under a new ticket. -/
theorem setRoom (hb : h₀.Brings N A h) (hc : h.rooms[r]? = some cell)
    (hheader : cell'.room.header = cell.room.header)
    (hpile : ∀ e ∈ cell'.events.pile, e ∈ cell.events.pile ∨
      ∀ t, e.reply? = some t → h₀.nextSerial ≤ t.serial ∧ t.serial < h.nextSerial ∧ N r e) :
    h₀.Brings N A (h.setRoom r cell') := by
  refine ⟨hb.reactions, hb.nextSerial, ?_, ?_, fun ha => hb.answered ha⟩
  · intro q old hold
    obtain ⟨now, hnow, hheader'⟩ := hb.room hold
    rw [getElem?_setRoom hc]
    split
    · rename_i hq
      subst hq
      obtain rfl := Option.some.inj (hc.symm.trans hnow)
      exact ⟨cell', rfl, hheader.trans hheader'⟩
    · exact ⟨now, hnow, hheader'⟩
  · rintro q e t ⟨now, hnow, he⟩ ht
    rw [getElem?_setRoom hc] at hnow
    split at hnow
    · rename_i hq
      subst hq
      obtain rfl := Option.some.inj hnow
      rcases hpile e he with he | hnew
      · exact hb.holds ⟨cell, hc, he⟩ ht
      · exact .inr (hnew t ht)
    · exact hb.holds ⟨now, hnow, he⟩ ht

theorem setEvents (hb : h₀.Brings N A h) (hc : h.rooms[r]? = some cell)
    {events : Mailbox Ticket (Event Ticket)} (hpile : ∀ e ∈ events.pile, e ∈ cell.events.pile) :
    h₀.Brings N A (h.setRoom r { cell with events }) :=
  hb.setRoom hc rfl fun e he => .inl (hpile e he)

theorem closeReply (hb : h₀.Brings N A h) (t : Ticket) : h₀.Brings N A (h.closeReply t) := by
  refine hb.of_rooms rfl rfl (Nat.le_refl _) fun t' outcome ha => ?_
  rw [reply?_closeReply] at ha
  split at ha
  · contradiction
  · exact .inl ha

theorem settleReply (hb : h₀.Brings N A h) {t : Ticket} {reply : Reply}
    (hreply : ∀ outcome, reply = .answered outcome → A t outcome) :
    h₀.Brings N A (h.settleReply t reply) := by
  refine hb.of_rooms ?_ ?_ ?_ fun t' outcome ha => ?_
  · rw [Hub.settleReply]
    split <;> rfl
  · rw [Hub.settleReply]
    split <;> rfl
  · rw [Hub.settleReply]
    split <;> exact Nat.le_refl _
  · rw [reply?_settleReply] at ha
    split at ha
    · rename_i ht
      obtain ⟨rfl, -⟩ := ht
      exact .inr (hreply outcome (Option.some.inj ha))
    · exact .inl ha

theorem apart (hb : h₀.Brings N A h) (ha : h.Apart h') : h₀.Brings N A h' := by
  refine hb.of_rooms ha.reactions ha.rooms ha.nextSerial fun t outcome hr => .inl ?_
  rwa [reply?, ha.replies] at hr

theorem offerEvent (hb : h₀.Brings N A h) (r : Nat) {e : Event Ticket} (he : e.reply? = none) :
    h₀.Brings N A (h.offerEvent r e).2 := by
  rw [Hub.offerEvent]
  split
  · rename_i cell hc
    have hset : h₀.Brings N A (h.setRoom r { cell with events := (cell.events.offer e).2 }) := by
      refine hb.setRoom hc rfl fun e' he' => ?_
      refine (Mailbox.mem_pile_offer he').imp_right ?_
      rintro rfl t ht
      simp [he] at ht
    split <;> rename_i heq <;> rw [heq] at hset
    · exact hset.signal _
    · exact hset
    · exact hset
  · exact hb

theorem expire (hb : h₀.Brings N A h) (w : Wait) : h₀.Brings N A (h.expire w).2 := by
  rw [Hub.expire]
  apply closeReply
  split
  · rename_i cell _ hc
    have hset : h₀.Brings N A
        (h.setRoom w.room { cell with events := (cell.events.withdraw w.ticket).2 }) :=
      hb.setEvents hc fun _ => Mailbox.mem_pile_withdraw
    simp only
    split
    · exact hset.signal _
    · exact hset
  · exact hb

private theorem awaitAnswer (hb : h₀.Brings N A h) (w : Wait) (now : Nat) :
    h₀.Brings N A (h.awaitAnswer w now).2 := by
  have hfresh : h₀.Brings N A h.freshSerial.2 :=
    hb.of_rooms rfl rfl (Nat.le_succ _) fun _ _ => .inl
  have hsignal := hfresh.signal (.arrived (.room w.room))
  rw [Hub.awaitAnswer]
  simp only
  split
  · exact hsignal.expire _
  · exact hsignal

theorem resume (hb : h₀.Brings N A h) (w : Wait) (now : Nat) :
    h₀.Brings N A (h.resume w now).2 := by
  rw [Hub.resume]
  split
  · split
    · rename_i cell hc
      have hset : h₀.Brings N A
          (h.setRoom w.room { cell with events := (cell.events.settle w.ticket).2 }) :=
        hb.setEvents hc fun _ => Mailbox.mem_pile_settle
      split
      · rename_i heq
        rw [heq] at hset
        exact hset.awaitAnswer w now
      · rename_i heq
        rw [heq] at hset
        exact hset.closeReply _
      · split
        · exact hb.expire w
        · exact hb
    · exact hb.closeReply _
  · split
    · exact hb.closeReply _
    · split
      · exact hb.expire w
      · exact hb
    · exact hb.closeReply _

theorem request (hb : h₀.Brings N A h) (owner : Task) (r timeout now : Nat)
    {event : Ticket → Event Ticket} (he : ∀ t, (event t).reply? = some t)
    (hN : N r (event ⟨owner, h.nextSerial⟩)) :
    h₀.Brings N A (h.request owner r timeout now event).2 := by
  have hopen : h₀.Brings N A (h.freshSerial.2.openReply ⟨owner, h.nextSerial⟩) := by
    refine hb.of_rooms rfl rfl (Nat.le_succ _) fun t outcome ha => ?_
    rw [reply?_openReply] at ha
    split at ha
    · simp at ha
    · exact .inl ha
  have hserial : (h.freshSerial.2.openReply ⟨owner, h.nextSerial⟩).nextSerial =
      h.nextSerial + 1 := rfl
  have hstart := hb.nextSerial
  rw [Hub.request]
  simp only [Hub.freshSerial] at hopen hserial ⊢
  generalize ({ h with nextSerial := h.nextSerial + 1 } : Hub).openReply ⟨owner, h.nextSerial⟩ = h'
    at hopen hserial ⊢
  split
  · rename_i cell hc
    have hset : h₀.Brings N A (h'.setRoom r { cell with
        events := (cell.events.send ⟨owner, h.nextSerial⟩ (event ⟨owner, h.nextSerial⟩)).2 }) := by
      refine hopen.setRoom hc rfl fun e' he' => ?_
      refine (Mailbox.mem_pile_send he').imp_right ?_
      rintro rfl t ht
      obtain rfl := Option.some.inj ((he _).symm.trans ht)
      exact ⟨hstart, hserial ▸ Nat.lt_succ_self _, hN⟩
    split
    · rename_i heq
      rw [heq] at hset
      exact hset.awaitAnswer _ now
    · rename_i heq
      rw [heq] at hset
      split
      · exact hset.expire _
      · exact hset
    · exact hopen.closeReply _
  · exact hopen.closeReply _

theorem lt_nextSerial_request (h : Hub) (owner : Task) (r timeout now : Nat)
    (event : Ticket → Event Ticket) :
    h.nextSerial < (h.request owner r timeout now event).2.nextSerial := by
  have any (h' : Hub) : h'.Brings (fun _ _ => True) (fun _ _ => True) h' := .refl _ _ h'
  have hserial : (h.freshSerial.2.openReply ⟨owner, h.nextSerial⟩).nextSerial =
      h.nextSerial + 1 := rfl
  rw [Hub.request]
  simp only [Hub.freshSerial] at hserial ⊢
  generalize ({ h with nextSerial := h.nextSerial + 1 } : Hub).openReply ⟨owner, h.nextSerial⟩ = h'
    at hserial ⊢
  rw [← Nat.succ_le_iff, Nat.succ_eq_add_one, ← hserial]
  split
  · rename_i cell hc
    split
    · rename_i events _
      exact ((any (h'.setRoom r { cell with events })).awaitAnswer _ now).nextSerial
    · rename_i events _
      split
      · exact ((any (h'.setRoom r { cell with events })).expire _).nextSerial
      · exact Nat.le_refl _
    · exact Nat.le_refl _
  · exact Nat.le_refl _

theorem openRoom (hb : h₀.Brings N A h) (id : RoomId) (name : String) :
    h₀.Brings N A (h.openRoom id name).2.2 := by
  rw [Hub.openRoom]
  split
  · exact hb
  · apply signal
    refine hb.trans ⟨rfl, Nat.le_refl _, ?_, ?_, fun ha => .inl ha⟩
    · intro q cell hc
      refine ⟨cell, ?_, rfl⟩
      have hlt := (Array.getElem?_eq_some_iff.mp hc).1
      rw [Array.getElem?_push, if_neg hlt.ne]
      exact hc
    · rintro q e t ⟨cell, hc, he⟩ -
      rw [Array.getElem?_push] at hc
      split at hc
      · obtain rfl := Option.some.inj hc
        simp [Mailbox.pile, Mailbox.underWay, Mailbox.ofCapacity] at he
      · exact .inl ⟨cell, hc, he⟩

theorem createRoom (hb : h₀.Brings N A h) (name : String) :
    h₀.Brings N A (h.createRoom name).2 := by
  have htake : h₀.Brings N A h.takeRoomId.2 := hb.of_rooms rfl rfl (Nat.le_refl _) fun _ _ => .inl
  exact htake.openRoom h.takeRoomId.1 name

theorem cancelRoom (hb : h₀.Brings N A h) (r : Nat) : h₀.Brings N A (h.cancelRoom r) := by
  rw [Hub.cancelRoom]
  split
  · rename_i cell hc
    split
    · exact hb
    · have hset : h₀.Brings N A (h.setRoom r { cell with cancelled := true }) :=
        hb.setRoom hc rfl fun _ => .inl
      exact hset.signal _
  · exact hb

theorem removeRoom (hb : h₀.Brings N A h) (id : RoomId) : h₀.Brings N A (h.removeRoom id).2 := by
  rw [Hub.removeRoom]
  split
  · exact (hb.cancelRoom _).of_rooms rfl rfl (Nat.le_refl _) fun _ _ => .inl
  · exact hb

private theorem foldl {α : Type} {f : Hub → α → Hub} (l : List α)
    (hf : ∀ h, ∀ x ∈ l, h₀.Brings N A h → h₀.Brings N A (f h x)) (hb : h₀.Brings N A h) :
    h₀.Brings N A (l.foldl f h) :=
  List.foldlRecOn l f hb fun h hb x hx => hf h x hx hb

theorem discardEvent (hb : h₀.Brings N A h) (e : Event Ticket) :
    h₀.Brings N A (h.discardEvent e) := by
  rw [Hub.discardEvent]
  split
  · exact hb.settleReply (by simp)
  · exact hb

theorem stopRoom (hb : h₀.Brings N A h) (r : Nat) : h₀.Brings N A (h.stopRoom r) := by
  rw [Hub.stopRoom]
  split
  · rename_i cell hc
    apply foldl _ fun _ e _ hb => hb.discardEvent e
    apply foldl _ fun _ w _ hb => hb.signal _
    exact hb.setRoom hc rfl fun _ he => .inl (Mailbox.mem_pile_discard he)
  · exact hb

theorem post (hb : h₀.Brings N A h) (i : Nat) (message : Envelope) :
    h₀.Brings N A (h.post i message).2 :=
  hb.apart (h.apart_post i message)

theorem applyAll (hb : h₀.Brings N A h) {effects : List (Effect Ticket)}
    (ha : ∀ t outcome, .answer t outcome ∈ effects → A t outcome) :
    h₀.Brings N A (h.applyAll effects) := by
  refine foldl effects (fun h effect he hb => ?_) hb
  cases effect with
  | answer t outcome =>
    refine hb.settleReply fun outcome' ho => ?_
    obtain rfl := Reply.answered.inj ho
    exact ha t outcome he
  | post i message => exact hb.post i message

end Brings

end Hub

end Lobby
