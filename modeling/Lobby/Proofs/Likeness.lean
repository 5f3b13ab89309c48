import Mathlib.Data.List.Forall2
import Lobby.Proofs.BlindCalls

/-! Hubs and sessions that are alike but for what one player's messages say about themselves. What
tasks do keeps them alike. -/
namespace Lobby

/-- Results that are the same, with states after them that are related. -/
theorem exists_pair {β γ : Type} {S : γ → γ → Prop} {x x' : β × γ} (h : x'.1 = x.1 ∧ S x.2 x'.2) :
    ∃ result y y', x = (result, y) ∧ x' = (result, y') ∧ S y y' :=
  ⟨x.1, x.2, x'.2, rfl, Prod.ext h.1 rfl, h.2⟩

def Entrywise {α : Type} (R : Nat → α → α → Prop) (a b : Array α) : Prop :=
  ∀ j, Option.Rel (R j) a[j]? b[j]?

namespace Entrywise
variable {α : Type} {R : Nat → α → α → Prop} {a b : Array α} {i : Nat} {x y : α}

theorem refl (hR : ∀ j x, R j x x) (a : Array α) : Entrywise R a a := by
  intro j
  cases a[j]? with
  | none => exact .none
  | some x => exact .some (hR j x)

private theorem lt_iff (h : Entrywise R a b) (i : Nat) : i < a.size ↔ i < b.size := by
  have hi := h i
  rcases Nat.lt_or_ge i a.size with ha | ha <;> rcases Nat.lt_or_ge i b.size with hb | hb
  · simp [ha, hb]
  · rw [Array.getElem?_eq_getElem ha, Array.getElem?_eq_none hb] at hi
    contradiction
  · rw [Array.getElem?_eq_none ha, Array.getElem?_eq_getElem hb] at hi
    contradiction
  · omega

theorem size_eq (h : Entrywise R a b) : b.size = a.size := by
  have ha := h.lt_iff a.size
  have hb := h.lt_iff b.size
  omega

theorem set (h : Entrywise R a b) (hx : R i x y) :
    Entrywise R (a.setIfInBounds i x) (b.setIfInBounds i y) := by
  intro j
  rw [Array.getElem?_setIfInBounds, Array.getElem?_setIfInBounds, ← h.size_eq]
  split
  · rename_i hij
    subst hij
    split
    · exact .some hx
    · exact .none
  · exact h j

theorem push (h : Entrywise R a b) (hx : R a.size x y) : Entrywise R (a.push x) (b.push y) := by
  intro j
  rw [Array.getElem?_push, Array.getElem?_push, h.size_eq]
  split
  · rename_i hj
    exact .some (hj ▸ hx)
  · exact h j

theorem cases (h : Entrywise R a b) (j : Nat) : (a[j]? = none ∧ b[j]? = none) ∨
    ∃ x y, a[j]? = some x ∧ b[j]? = some y ∧ R j x y := by
  have hj := h j
  generalize a[j]? = u at hj ⊢
  generalize b[j]? = v at hj ⊢
  cases hj with
  | none => exact .inl ⟨rfl, rfl⟩
  | some hxy => exact .inr ⟨_, _, rfl, rfl, hxy⟩

theorem modify (h : Entrywise R a b) {f : α → α} (hf : ∀ x y, R i x y → R i (f x) (f y)) :
    Entrywise R (a.modify i f) (b.modify i f) := by
  intro j
  rw [Array.getElem?_modify, Array.getElem?_modify]
  split
  · rename_i hij
    subst hij
    rcases h.cases i with ⟨ha, hb⟩ | ⟨x, y, ha, hb, hxy⟩
    · rw [ha, hb]
      exact .none
    · rw [ha, hb]
      exact .some (hf x y hxy)
  · exact h j

end Entrywise

namespace Mailbox
variable {τ α : Type} {R : α → α → Prop} {m m' : Mailbox τ α} {x x' : α} {name : τ}

def SameDelivery (R : α → α → Prop) (w w' : τ × α) : Prop := w'.1 = w.1 ∧ R w.2 w'.2

structure Alike (R : α → α → Prop) (m m' : Mailbox τ α) : Prop where
  label : m'.label = m.label
  capacity : m'.capacity = m.capacity
  dropped : m'.dropped = m.dropped
  senders : m'.senders = m.senders
  closed : m'.closed = m.closed
  queue : List.Forall₂ R m.queue m'.queue
  granted : List.Forall₂ (SameDelivery R) m.granted m'.granted
  waiting : List.Forall₂ (SameDelivery R) m.waiting m'.waiting

inductive Received.Alike (R : α → α → Prop) : Received α → Received α → Prop
  | message {x x' : α} (h : R x x') : Alike R (.message x) (.message x')
  | empty : Alike R .empty .empty
  | disconnected : Alike R .disconnected .disconnected

private theorem forall₂_refl {β : Type} {S : β → β → Prop} (hS : ∀ x, S x x) (l : List β) :
    List.Forall₂ S l l := List.forall₂_same.mpr fun x _ => hS x

namespace Alike

theorem refl (hR : ∀ x, R x x) (m : Mailbox τ α) : m.Alike R m :=
  ⟨rfl, rfl, rfl, rfl, rfl, forall₂_refl hR _, forall₂_refl (fun w => ⟨rfl, hR w.2⟩) _,
    forall₂_refl (fun w => ⟨rfl, hR w.2⟩) _⟩

theorem eq (hR : ∀ x x', R x x' → x' = x) (h : m.Alike R m') : m' = m := by
  have hlist {β : Type} {S : β → β → Prop} (hS : ∀ x x', S x x' → x' = x) {l l' : List β}
      (hl : List.Forall₂ S l l') : l' = l :=
    (List.forall₂_eq_eq_eq ▸ hl.imp fun x x' hx => (hS x x' hx).symm : l = l').symm
  have hpair (w w' : τ × α) (hw : SameDelivery R w w') : w' = w :=
    Prod.ext hw.1 (hR _ _ hw.2)
  obtain ⟨label, capacity, queue, granted, waiting, dropped, senders, closed⟩ := m
  obtain ⟨label', capacity', queue', granted', waiting', dropped', senders', closed'⟩ := m'
  obtain ⟨rfl, rfl, rfl, rfl, rfl, hq, hg, hw⟩ := h
  obtain rfl := hlist hR hq
  obtain rfl := hlist hpair hg
  obtain rfl := hlist hpair hw
  rfl

theorem imp {S : α → α → Prop} (hRS : ∀ x x', R x x' → S x x') (h : m.Alike R m') :
    m.Alike S m' where
  label := h.label
  capacity := h.capacity
  dropped := h.dropped
  senders := h.senders
  closed := h.closed
  queue := h.queue.imp fun x x' => hRS x x'
  granted := h.granted.imp fun _ _ hw => ⟨hw.1, hRS _ _ hw.2⟩
  waiting := h.waiting.imp fun _ _ hw => ⟨hw.1, hRS _ _ hw.2⟩

private theorem parts (h : m.Alike R m') : ∃ queue granted waiting,
    m' = { m with queue, granted, waiting } ∧ List.Forall₂ R m.queue queue ∧
      List.Forall₂ (SameDelivery R) m.granted granted ∧
      List.Forall₂ (SameDelivery R) m.waiting waiting := by
  obtain ⟨label, capacity, queue, granted, waiting, dropped, senders, closed⟩ := m'
  obtain ⟨rfl, rfl, rfl, rfl, rfl, hq, hg, hw⟩ := h
  exact ⟨queue, granted, waiting, rfl, hq, hg, hw⟩

private theorem isFull (h : m.Alike R m') : m'.isFull = m.isFull := by
  rw [Mailbox.isFull, Mailbox.isFull, occupied, occupied, h.capacity, h.queue.length_eq,
    h.granted.length_eq]

theorem offer (h : m.Alike R m') (hx : R x x') :
    (m'.offer x').1 = (m.offer x).1 ∧ (m.offer x).2.Alike R (m'.offer x').2 := by
  have hfull := h.isFull
  obtain ⟨queue, granted, waiting, rfl, hq, hg, hw⟩ := h.parts
  rw [Mailbox.offer, Mailbox.offer, hfull]
  split
  · exact ⟨rfl, h⟩
  · split
    · exact ⟨rfl, rfl, rfl, rfl, rfl, rfl, hq, hg, hw⟩
    · exact ⟨rfl, rfl, rfl, rfl, rfl, rfl, List.rel_append hq (.cons hx .nil), hg, hw⟩

theorem send (h : m.Alike R m') (name : τ) (hx : R x x') :
    (m'.send name x').1 = (m.send name x).1 ∧ (m.send name x).2.Alike R (m'.send name x').2 := by
  have hfull := h.isFull
  obtain ⟨queue, granted, waiting, rfl, hq, hg, hw⟩ := h.parts
  rw [Mailbox.send, Mailbox.send, hfull]
  split
  · exact ⟨rfl, h⟩
  · split
    · exact ⟨rfl, rfl, rfl, rfl, rfl, rfl, hq, hg,
        List.rel_append hw (.cons ⟨rfl, hx⟩ .nil)⟩
    · exact ⟨rfl, rfl, rfl, rfl, rfl, rfl, List.rel_append hq (.cons hx .nil), hg, hw⟩

private theorem release (h : m.Alike R m') :
    m'.release.1 = m.release.1 ∧ m.release.2.Alike R m'.release.2 := by
  obtain ⟨queue, granted, waiting, rfl, hq, hg, hw⟩ := h.parts
  rw [Mailbox.release, Mailbox.release]
  cases hm : m.waiting with
  | nil =>
    rw [hm, List.forall₂_nil_left_iff] at hw
    subst hw
    exact ⟨rfl, h⟩
  | cons w rest =>
    rw [hm] at hw
    obtain ⟨w', rest', hw', hrest, rfl⟩ := List.forall₂_cons_left_iff.mp hw
    exact ⟨congrArg some hw'.1, rfl, rfl, rfl, rfl, rfl, hq,
      List.rel_append hg (.cons hw' .nil), hrest⟩

theorem receive (h : m.Alike R m') : m.receive.1.Alike R m'.receive.1 ∧
    m'.receive.2.1 = m.receive.2.1 ∧ m.receive.2.2.Alike R m'.receive.2.2 := by
  obtain ⟨queue, granted, waiting, rfl, hq, hg, hw⟩ := h.parts
  cases hm : m.queue with
  | nil =>
    rw [hm, List.forall₂_nil_left_iff] at hq
    subst hq
    have hempty {l l' : List (τ × α)} (hl : List.Forall₂ (SameDelivery R) l l') :
        l'.isEmpty = l.isEmpty := by
      cases hl <;> rfl
    rw [Mailbox.receive, Mailbox.receive, hm]
    simp only [hempty hg, hempty hw]
    split
    · exact ⟨.disconnected, trivial, h⟩
    · exact ⟨.empty, trivial, h⟩
  | cons x rest =>
    rw [hm] at hq
    obtain ⟨x', rest', hx, hrest, rfl⟩ := List.forall₂_cons_left_iff.mp hq
    have hrel : ({ m with queue := rest } : Mailbox τ α).Alike R
        { m with queue := rest', granted, waiting } :=
      ⟨rfl, rfl, rfl, rfl, rfl, hrest, hg, hw⟩
    rw [receive_cons hm, receive_cons rfl]
    exact ⟨.message hx, hrel.release⟩

variable [DecidableEq τ]

private theorem lookup {l l' : List (τ × α)} (h : List.Forall₂ (SameDelivery R) l l') (name : τ) :
    Option.Rel R (l.lookup name) (l'.lookup name) := by
  induction h with
  | nil => exact .none
  | @cons w w' rest rest' hw _ ih =>
    obtain ⟨key, x⟩ := w
    obtain ⟨key', x'⟩ := w'
    obtain ⟨rfl, hx⟩ := hw
    rw [List.lookup_cons, List.lookup_cons]
    cases name == key' with
    | true => exact .some hx
    | false => exact ih

private theorem filter {l l' : List (τ × α)} (h : List.Forall₂ (SameDelivery R) l l') (name : τ) :
    List.Forall₂ (SameDelivery R) (l.filter (·.1 ≠ name)) (l'.filter (·.1 ≠ name)) := by
  refine List.rel_filter ?_ h
  intro w w' hw
  simp [hw.1]

theorem settle (h : m.Alike R m') (name : τ) :
    (m'.settle name).1 = (m.settle name).1 ∧ (m.settle name).2.Alike R (m'.settle name).2 := by
  obtain ⟨queue, granted, waiting, rfl, hq, hg, hw⟩ := h.parts
  have hlookup := lookup hg name
  rw [Mailbox.settle, Mailbox.settle]
  split
  · exact ⟨rfl, rfl, rfl, rfl, rfl, rfl, hq, filter hg name, filter hw name⟩
  · simp only
    generalize m.granted.lookup name = a at hlookup ⊢
    generalize granted.lookup name = b at hlookup ⊢
    cases hlookup with
    | none => exact ⟨rfl, h⟩
    | some hx =>
      exact ⟨rfl, rfl, rfl, rfl, rfl, rfl, List.rel_append hq (.cons hx .nil), filter hg name, hw⟩

theorem withdraw (h : m.Alike R m') (name : τ) : (m'.withdraw name).1 = (m.withdraw name).1 ∧
    (m.withdraw name).2.Alike R (m'.withdraw name).2 := by
  obtain ⟨queue, granted, waiting, rfl, hq, hg, hw⟩ := h.parts
  have hlookup : (granted.lookup name).isSome = (m.granted.lookup name).isSome := by
    have hl := lookup hg name
    generalize m.granted.lookup name = a at hl ⊢
    generalize granted.lookup name = b at hl ⊢
    cases hl <;> rfl
  rw [Mailbox.withdraw, Mailbox.withdraw]
  simp only [hlookup]
  split
  · have hrest : ({ m with granted := m.granted.filter (·.1 ≠ name) } : Mailbox τ α).Alike R
        { m with queue, granted := granted.filter (·.1 ≠ name), waiting } :=
      ⟨rfl, rfl, rfl, rfl, rfl, hq, filter hg name, hw⟩
    exact hrest.release
  · exact ⟨rfl, rfl, rfl, rfl, rfl, rfl, hq, hg, filter hw name⟩

omit [DecidableEq τ] in
theorem discard (h : m.Alike R m') : m.discard.Alike R m'.discard :=
  ⟨h.label, h.capacity, h.dropped, h.senders, rfl, .nil, h.granted, h.waiting⟩

end Alike

end Mailbox

def Envelope.SameTell (e e' : Envelope) : Prop :=
  e' = e ∨ (∃ k : MessageKind, k.response? = some e.kind) ∧ e'.kind = e.kind ∧ e'.data = e.data

/-- What player number `j` is asked, when player number `n` may disguise itself. -/
def Heard (n j : Nat) (e e' : Envelope) : Prop := e.SameAsk e' ∧ (j ≠ n → e' = e)

def Told (n j : Nat) (e e' : Envelope) : Prop := e.SameTell e' ∧ (j ≠ n → e' = e)

structure PlayerCell.Alike (n j : Nat) (cell cell' : PlayerCell) : Prop where
  id : cell'.id = cell.id
  cancelled : cell'.cancelled = cell.cancelled
  inbound : cell.inbound.Alike (Heard n j) cell'.inbound

namespace Hub

structure Alike (n : Nat) (h h' : Hub) : Prop where
  same : h' = h.populate h'.players h'.outboxes
  players : Entrywise (PlayerCell.Alike n) h.players h'.players
  outboxes : Entrywise (fun j => Mailbox.Alike (Told n j)) h.outboxes h'.outboxes

variable {n j r : Nat} {h h' : Hub}

theorem heard_refl (n j : Nat) (e : Envelope) : Heard n j e e := ⟨.refl e, fun _ => rfl⟩

theorem told_refl (n j : Nat) (e : Envelope) : Told n j e e := ⟨.inl rfl, fun _ => rfl⟩

namespace Alike

theorem refl (n : Nat) (h : Hub) : h.Alike n h where
  same := rfl
  players := .refl (fun j _ => ⟨rfl, rfl, .refl (heard_refl n j) _⟩) _
  outboxes := .refl (fun j => .refl (told_refl n j)) _

/-- What neither looks at players nor changes them keeps hubs alike. -/
theorem map (ha : h.Alike n h') {f : Hub → Hub}
    (hf : ∀ (h : Hub) (players : Array PlayerCell) (outboxes : Outboxes),
      f (h.populate players outboxes) = (f h).populate players outboxes) :
    (f h).Alike n (f h') := by
  have hsame : f h' = (f h).populate h'.players h'.outboxes := by
    conv_lhs => rw [ha.same]
    exact hf h _ _
  have hkept : f h = (f h).populate h.players h.outboxes := hf h h.players h.outboxes
  refine ⟨?_, ?_, ?_⟩
  · rw [hsame]
    rfl
  · rw [hsame, hkept]
    exact ha.players
  · rw [hsame, hkept]
    exact ha.outboxes

theorem setPlayer (ha : h.Alike n h') {cell cell' : PlayerCell} (hc : cell.Alike n j cell') :
    (h.setPlayer j cell).Alike n (h'.setPlayer j cell') := by
  refine ⟨?_, ha.players.set hc, ha.outboxes⟩
  rw [Hub.setPlayer, ha.same]
  rfl

theorem setInbound (ha : h.Alike n h') {cell cell' : PlayerCell} (hc : cell.Alike n j cell')
    {inbound inbound' : Mailbox Ticket Envelope} (hm : inbound.Alike (Heard n j) inbound') :
    (h.setPlayer j { cell with inbound }).Alike n
      (h'.setPlayer j { cell' with inbound := inbound' }) :=
  ha.setPlayer ⟨hc.id, hc.cancelled, hm⟩

theorem setOutbox (ha : h.Alike n h') {box box' : Outbox} (hb : box.Alike (Told n j) box') :
    ({ h with outboxes := h.outboxes.setIfInBounds j box } : Hub).Alike n
      { h' with outboxes := h'.outboxes.setIfInBounds j box' } := by
  refine ⟨?_, ha.players, ha.outboxes.set hb⟩
  conv_lhs => rw [ha.same]
  rfl

theorem closeOutbox (ha : h.Alike n h') (j : Nat) :
    ({ h with outboxes := h.outboxes.modify j (·.discard) } : Hub).Alike n
      { h' with outboxes := h'.outboxes.modify j (·.discard) } := by
  refine ⟨?_, ha.players, ha.outboxes.modify fun _ _ hb => hb.discard⟩
  conv_lhs => rw [ha.same]
  rfl

theorem signal (ha : h.Alike n h') (s : Signal) : (h.signal s).Alike n (h'.signal s) :=
  ha.map (f := (·.signal s)) fun _ _ _ => rfl

/-- What does not depend on players is the same in hubs that are alike. -/
theorem read {α : Type} (ha : h.Alike n h') {f : Hub → α}
    (hf : ∀ (h : Hub) (players : Array PlayerCell) (outboxes : Outboxes),
      f (h.populate players outboxes) = f h) : f h' = f h := by
  rw [ha.same, hf]

theorem rooms (ha : h.Alike n h') : h'.rooms = h.rooms := ha.read fun _ _ _ => rfl

theorem room? (ha : h.Alike n h') (id : RoomId) : h'.room? id = h.room? id :=
  ha.read (f := (·.room? id)) fun _ _ _ => rfl

theorem player? (ha : h.Alike n h') (id : PlayerId) : h'.player? id = h.player? id :=
  ha.read (f := (·.player? id)) fun _ _ _ => rfl

theorem isCancelled (ha : h.Alike n h') (j : Nat) : h'.isCancelled j = h.isCancelled j := by
  rw [Hub.isCancelled, Hub.isCancelled]
  rcases ha.players.cases j with ⟨hp, hp'⟩ | ⟨cell, cell', hp, hp', hc⟩
  · rw [hp, hp']
  · simp [hp, hp', hc.cancelled]

theorem cancelPlayer (ha : h.Alike n h') (j : Nat) :
    (h.cancelPlayer j).Alike n (h'.cancelPlayer j) := by
  rw [Hub.cancelPlayer, Hub.cancelPlayer]
  rcases ha.players.cases j with ⟨hp, hp'⟩ | ⟨cell, cell', hp, hp', hc⟩
  · rw [hp, hp']
    exact ha
  · rw [hp, hp']
    simp only [hc.cancelled]
    have hstopped : ({ cell with cancelled := true } : PlayerCell).Alike n j
        { cell' with cancelled := true } := ⟨hc.id, rfl, hc.inbound⟩
    split
    · exact ha
    · exact (ha.setPlayer hstopped).signal _

theorem endDuty (ha : h.Alike n h') (j : Nat) :
    (Session.endDuty h j).Alike n (Session.endDuty h' j) :=
  (ha.cancelPlayer j).signal _

theorem removePlayer (ha : h.Alike n h') (id : PlayerId) :
    (h'.removePlayer id).1 = (h.removePlayer id).1 ∧
      (h.removePlayer id).2.Alike n (h'.removePlayer id).2 := by
  rw [Hub.removePlayer, Hub.removePlayer, ha.player?]
  split
  · rename_i j _
    refine ⟨rfl, (ha.cancelPlayer j).map (f := fun h => { h with
      playerIndex := h.playerIndex.filter (·.1 ≠ id) }) fun _ _ _ => rfl⟩
  · exact ⟨rfl, ha⟩

theorem openPlayer (ha : h.Alike n h') (id : PlayerId) (config : PlayerConfig) :
    (h'.openPlayer id config).1 = (h.openPlayer id config).1 ∧
      (h'.openPlayer id config).2.1 = (h.openPlayer id config).2.1 ∧
      (h.openPlayer id config).2.2.Alike n (h'.openPlayer id config).2.2 := by
  rw [Hub.openPlayer, Hub.openPlayer, ha.player?, ha.players.size_eq]
  split
  · exact ⟨rfl, rfl, ha⟩
  · refine ⟨rfl, rfl, ?_, ?_, ?_⟩
    · conv_lhs => rw [ha.same]
      rfl
    · exact ha.players.push ⟨rfl, rfl, .refl (heard_refl n _) _⟩
    · exact ha.outboxes.push (.refl (told_refl n _) _)

private theorem offer {boxes boxes' : Outboxes}
    (hb : Entrywise (fun j => Mailbox.Alike (Told n j)) boxes boxes') (i : Nat)
    {message message' : Envelope} (hm : Told n i message message') :
    (boxes'.offer i message').1 = (boxes.offer i message).1 ∧
      Entrywise (fun j => Mailbox.Alike (Told n j)) (boxes.offer i message).2
        (boxes'.offer i message').2 := by
  rw [Outboxes.offer, Outboxes.offer]
  rcases hb.cases i with ⟨hp, hp'⟩ | ⟨box, box', hp, hp', hbox⟩
  · rw [hp, hp']
    exact ⟨rfl, hb⟩
  · obtain ⟨hresult, hboxes⟩ := hbox.offer hm
    rw [hp, hp']
    exact ⟨hresult, hb.set hboxes⟩

theorem post (ha : h.Alike n h') (i : Nat) {message message' : Envelope}
    (hm : Told n i message message') : (h'.post i message').1 = (h.post i message).1 ∧
      (h.post i message).2.Alike n (h'.post i message').2 := by
  obtain ⟨result, boxes, boxes', hoffer, hoffer', hboxes⟩ := exists_pair (offer ha.outboxes i hm)
  rw [Hub.post, Hub.post, hoffer, hoffer']
  have hnext : ({ h with outboxes := boxes } : Hub).Alike n { h' with outboxes := boxes' } := by
    refine ⟨?_, ha.players, hboxes⟩
    conv_lhs => rw [ha.same]
    rfl
  cases result with
  | error => exact ⟨rfl, hnext⟩
  | ok => exact ⟨rfl, hnext.signal _⟩

theorem apply (ha : h.Alike n h') (effect : Effect Ticket) :
    (h.apply effect).Alike n (h'.apply effect) := by
  cases effect with
  | answer t outcome =>
    exact ha.map (f := (·.settleReply t (.answered outcome))) fun _ _ _ => populate_settleReply _ _
  | post i message => exact (ha.post i (told_refl n i message)).2

private theorem foldl {α : Type} {f : Hub → α → Hub}
    (hf : ∀ {h h' : Hub}, h.Alike n h' → ∀ x, (f h x).Alike n (f h' x)) (l : List α)
    (ha : h.Alike n h') : (l.foldl f h).Alike n (l.foldl f h') := by
  induction l generalizing h h' with
  | nil => exact ha
  | cons x rest ih => exact ih (hf ha x)

theorem setRoom (ha : h.Alike n h') (r : Nat) (cell : RoomCell) :
    (h.setRoom r cell).Alike n (h'.setRoom r cell) :=
  ha.map (f := (·.setRoom r cell)) fun _ _ _ => rfl

theorem discardEvent (ha : h.Alike n h') (e : Event Ticket) :
    (h.discardEvent e).Alike n (h'.discardEvent e) :=
  ha.map (f := (·.discardEvent e)) fun _ _ _ => populate_discardEvent e

theorem stopRoom (ha : h.Alike n h') (r : Nat) : (h.stopRoom r).Alike n (h'.stopRoom r) := by
  rw [Hub.stopRoom, Hub.stopRoom, ha.rooms]
  split
  · refine foldl discardEvent _ (foldl ?_ _ (ha.setRoom r _))
    exact fun ha w => ha.signal _
  · exact ha

theorem handleEvent (ha : h.Alike n h') (listener : Ticket → Listener) (r : Nat)
    (e : Event Ticket) : (h.handleEvent listener r e).Alike n (h'.handleEvent listener r e) := by
  rw [Hub.handleEvent, Hub.handleEvent, ha.rooms,
    show h'.reactions = h.reactions from ha.read fun _ _ _ => rfl,
    show h'.player? = h.player? from funext ha.player?]
  split
  · split
    · exact (foldl apply _ (ha.setRoom r _)).discardEvent e
    · exact (ha.discardEvent e).stopRoom r
  · exact ha

private theorem handleNext (ha : h.Alike n h') (r : Nat) (e : Event Ticket) :
    (h.handleEvent h.listener r e).Alike n (h'.handleEvent h'.listener r e) := by
  rw [show h'.listener = h.listener from ha.read fun _ _ _ => rfl]
  exact ha.handleEvent _ r e

theorem stepRoom (ha : h.Alike n h') (r : Nat) :
    (h.stepRoom r).2.Alike n (h'.stepRoom r).2 := by
  rw [Hub.stepRoom, Hub.stepRoom, ha.rooms]
  split
  · rename_i cell _
    split
    · exact ha
    split
    · exact ha.stopRoom r
    split
    · rename_i e next events _
      have hset := ha.setRoom r { cell with events }
      cases next with
      | none => exact hset.handleNext r e
      | some t => exact (hset.signal _).handleNext r e
    · exact ha
    · exact ha.stopRoom r
  · exact ha

theorem takeEvent? (ha : h.Alike n h') (r : Nat) :
    Option.Rel (fun x x' => x'.1 = x.1 ∧ x.2.Alike n x'.2) (h.takeEvent? r) (h'.takeEvent? r) := by
  rw [Hub.takeEvent?, Hub.takeEvent?, Hub.drawEvent?, Hub.drawEvent?, ha.rooms]
  split
  · rename_i cell _
    split
    · exact .none
    split
    · rename_i e next events _
      have hset := ha.setRoom r { cell with events }
      cases next with
      | none => exact .some ⟨rfl, hset⟩
      | some t => exact .some ⟨rfl, hset.signal _⟩
    · exact .none
  · exact .none

private theorem pair {α : Type} (ha : h.Alike n h') {f : Hub → α × Hub}
    (hf : ∀ (h : Hub) (players : Array PlayerCell) (outboxes : Outboxes),
      f (h.populate players outboxes) = ((f h).1, (f h).2.populate players outboxes)) :
    (f h').1 = (f h).1 ∧ (f h).2.Alike n (f h').2 :=
  ⟨ha.read (f := fun h => (f h).1) fun _ _ _ => by rw [hf],
    ha.map (f := fun h => (f h).2) fun _ _ _ => by rw [hf]⟩

theorem expire (ha : h.Alike n h') (w : Wait) :
    (h'.expire w).1 = (h.expire w).1 ∧ (h.expire w).2.Alike n (h'.expire w).2 :=
  ha.pair (f := (·.expire w)) fun _ _ _ => populate_expire w

theorem resume (ha : h.Alike n h') (w : Wait) (now : Nat) :
    (h'.resume w now).1 = (h.resume w now).1 ∧ (h.resume w now).2.Alike n (h'.resume w now).2 :=
  ha.pair (f := (·.resume w now)) fun _ _ _ => populate_resume w now

theorem request (ha : h.Alike n h') (owner : Task) (r timeout now : Nat)
    (event : Ticket → Event Ticket) :
    (h'.request owner r timeout now event).1 = (h.request owner r timeout now event).1 ∧
      (h.request owner r timeout now event).2.Alike n
        (h'.request owner r timeout now event).2 :=
  ha.pair (f := (·.request owner r timeout now event)) fun _ _ _ =>
    populate_request owner r timeout now event

/-- Visitors cannot tell the hubs apart. -/
theorem call (ha : h.Alike n h') (c : Call) : (h.call c).Alike n (h'.call c) := by
  cases c with
  | openRoom id name =>
    exact ha.map (f := fun h => (h.openRoom id name).2.2) fun _ _ _ =>
      congrArg (·.2.2) (populate_openRoom id name)
  | createRoom name =>
    exact (ha.pair (f := (·.createRoom name)) fun _ _ _ => populate_createRoom name).2
  | removeRoom id =>
    exact (ha.pair (f := (·.removeRoom id)) fun _ _ _ => populate_removeRoom id).2
  | cancelRoom r => exact ha.map (f := (·.cancelRoom r)) fun _ _ _ => populate_cancelRoom r
  | removePlayer id => exact (ha.removePlayer id).2
  | cancelPlayer j => exact ha.cancelPlayer j
  | offer r e =>
    exact (ha.pair (f := (·.offerEvent r e)) fun _ _ _ => populate_offerEvent r e).2
  | request r timeout now event => exact (ha.request _ r timeout now event).2
  | resume w now => exact (ha.resume w now).2
  | expire w => exact (ha.expire w).2

end Alike

end Hub

end Lobby
