import Lobby.Proofs.RoomHandling

/-! Whom a room tells of what happens in it, and what comes into the outboxes. -/
namespace Lobby

def RoomSnapshot.notice (s : RoomSnapshot) : Envelope :=
  { clientId := "", serial := -1, kind := .roomStateNotification,
    data := Wire.encode ({ room := s } : RoomStateNotification) }

variable {ρ : Type}

def Effect.post? : Effect ρ → Option (Nat × Envelope)
  | .answer .. => none
  | .post i message => some (i, message)

def Occasion.alters (room : Room) (o : Occasion ρ) : Bool :=
  match o.event.body with
  | .join _ reply => (room.admission? o.listener o.lookup o.event.player reply).isSome
  | .leave _ | .move _ => room.hasMember o.event.player
  | .chat _ => false

/-- A directory gives out nothing but the players' own outboxes. -/
def Occasion.OwnedBy (owner : Nat → PlayerId) (o : Occasion ρ) : Prop :=
  ∀ q i, o.lookup q = some i → owner i = q

namespace Mailbox
variable {τ α : Type}

def taken (m : Mailbox τ α) : List α → List α
  | [] => []
  | x :: rest => if m.closed || m.isFull then taken (m.offer x).2 rest
    else x :: taken (m.offer x).2 rest

def offerEach (m : Mailbox τ α) (messages : List α) : Mailbox τ α :=
  messages.foldl (fun m x => (m.offer x).2) m

theorem queue_offerEach (m : Mailbox τ α) (messages : List α) :
    (m.offerEach messages).queue = m.queue ++ m.taken messages := by
  induction messages generalizing m with
  | nil => simp [offerEach, taken]
  | cons x rest ih =>
    have hrest := ih (m.offer x).2
    rw [offerEach] at hrest ⊢
    rw [List.foldl_cons, hrest, taken, offer]
    cases m.closed <;> cases m.isFull <;> simp

theorem taken_sublist (m : Mailbox τ α) (messages : List α) :
    (m.taken messages).Sublist messages := by
  induction messages generalizing m with
  | nil => exact .slnil
  | cons x rest ih =>
    rw [taken]
    split
    · exact (ih _).cons x
    · exact (ih _).cons_cons x

theorem taken_of_le_one (m : Mailbox τ α) {messages : List α} (h : messages.length ≤ 1) :
    m.taken messages = if m.closed || m.isFull then [] else messages := by
  match messages with
  | [] => simp [taken]
  | [x] => rfl
  | _ :: _ :: _ => simp at h

end Mailbox

theorem Outboxes.getElem?_offer (boxes : Outboxes) (i j : Nat) (message : Envelope) :
    (boxes.offer i message).2[j]? =
      if i = j then boxes[j]?.map fun box => (box.offer message).2 else boxes[j]? := by
  rw [offer.eq_def]
  cases hb : boxes[i]? with
  | none =>
    by_cases h : i = j
    · rw [if_pos h, ← h]
      simp [hb]
    · rw [if_neg h]
  | some box =>
    have hi := (Array.getElem?_eq_some_iff.mp hb).1
    by_cases h : i = j
    · rw [if_pos h, ← h, hb]
      simp [hi]
    · rw [if_neg h]
      exact Array.getElem?_setIfInBounds_ne h

def Effect.offersTo (effects : List (Effect ρ)) (i : Nat) : List Envelope :=
  ((effects.filterMap Effect.post?).filter (·.1 = i)).map (·.2)

theorem Effect.getElem?_deliverAll (boxes : Outboxes) (effects : List (Effect ρ)) (i : Nat) :
    (Effect.deliverAll boxes effects)[i]? =
      boxes[i]?.map fun box => box.offerEach (Effect.offersTo effects i) := by
  rw [deliverAll]
  induction effects generalizing boxes with
  | nil => simp [offersTo, Mailbox.offerEach]
  | cons effect rest ih =>
    rw [List.foldl_cons, ih]
    cases effect with
    | answer => rfl
    | post j message =>
      rw [deliver, Outboxes.getElem?_offer]
      by_cases hj : j = i
      · rw [if_pos hj, Option.map_map]
        simp [offersTo, post?, hj, Mailbox.offerEach, Function.comp_def]
      · simp [offersTo, post?, hj]

/-- An event as a room meets it, and the outboxes of all players as the room finds them. Between
two events others may have done anything to these. -/
structure Scene (ρ : Type) where
  occasion : Occasion ρ
  boxes : Outboxes

/-- What comes of an event: the room before and after it, and what the room does to others. -/
structure Episode (ρ : Type) extends Scene ρ where
  before : Room
  after : Room
  effects : List (Effect ρ)

inductive Room.Plays : Room → List (Episode ρ) → Room → Prop where
  | nil (room : Room) : room.Plays [] room
  | cons {episode : Episode ρ} {rest : List (Episode ρ)} {last : Room}
      (handled : episode.before.handle .standard episode.occasion.listener episode.occasion.lookup
        episode.occasion.event = some (episode.after, episode.effects))
      (plays : episode.after.Plays rest last) : episode.before.Plays (episode :: rest) last

namespace Episode

def player (s : Episode ρ) : PlayerId := s.occasion.event.player

def offers (s : Episode ρ) : List (Nat × Envelope) := s.effects.filterMap Effect.post?

def left (s : Episode ρ) : Outboxes := Effect.deliverAll s.boxes s.effects

def alters (s : Episode ρ) : Bool := s.occasion.alters s.before

def accepted (s : Episode ρ) (i : Nat) : List Envelope :=
  s.boxes[i]?.elim [] fun box => box.taken (Effect.offersTo s.effects i)

/-- The notice of an event that is due to a player, and the outbox that the room knows the player
by: the event changes the room, is somebody else's, and finds the player a member. -/
def due (s : Episode ρ) (p : PlayerId) : Option (Nat × Envelope) :=
  if s.alters && s.player ≠ p then
    (s.before.member? p).map fun m => (m.outbox, s.after.snapshot.notice)
  else none

theorem getElem?_left (e : Episode ρ) (i : Nat) :
    e.left[i]? = e.boxes[i]?.map fun box => box.offerEach (Effect.offersTo e.effects i) :=
  Effect.getElem?_deliverAll e.boxes e.effects i

theorem due_eq_some {e : Episode ρ} {p : PlayerId} {offer : Nat × Envelope}
    (h : e.due p = some offer) : e.alters = true ∧ offer.2 = e.after.snapshot.notice := by
  rw [due] at h
  split at h
  · rename_i ha
    obtain ⟨m, -, rfl⟩ := Option.map_eq_some_iff.mp h
    exact ⟨(Bool.and_eq_true_iff.mp ha).1, rfl⟩
  · contradiction

end Episode

namespace Room

def episode (room : Room) (scene : Scene ρ) : Episode ρ :=
  { scene with
    before := room
    after := room.meet scene.occasion
    effects := room.effects scene.occasion }

def play (room : Room) : List (Scene ρ) → List (Episode ρ)
  | [] => []
  | scene :: rest => room.episode scene :: (room.meet scene.occasion).play rest

/-- No event kills a room that reacts as is usual. -/
theorem plays_play (room : Room) (scenes : List (Scene ρ)) :
    room.Plays (room.play scenes) (scenes.foldl (fun room s => room.meet s.occasion) room) := by
  induction scenes generalizing room with
  | nil => exact .nil room
  | cons scene rest ih =>
    have hrest := ih (room.meet scene.occasion)
    exact @Plays.cons ρ (room.episode scene) _ _ (handle_standard room _ _ _) hrest

theorem map_play (room : Room) (scenes : List (Scene ρ)) :
    (room.play scenes).map Episode.toScene = scenes := by
  induction scenes generalizing room with
  | nil => rfl
  | cons scene rest ih => exact congrArg (scene :: ·) (ih (room.meet scene.occasion))

theorem Plays.cases {room last : Room} {episode : Episode ρ} {rest : List (Episode ρ)}
    (h : room.Plays (episode :: rest) last) :
    episode = room.episode episode.toScene ∧ (room.meet episode.occasion).Plays rest last := by
  cases h with
  | cons handled plays =>
    rw [handle_standard, Option.some.injEq] at handled
    obtain ⟨scene, before, after, effects⟩ := episode
    have hafter : before.meet scene.occasion = after := congrArg Prod.fst handled
    have heffects : before.effects scene.occasion = effects := congrArg Prod.snd handled
    subst hafter heffects
    exact ⟨rfl, plays⟩

/-- What events preserve holds of the room at each of them, and after the last. -/
theorem Plays.each {P : Room → Prop} {Q : Occasion ρ → Prop}
    (keeps : ∀ room o, P room → Q o → P (room.meet o)) {room last : Room}
    {episodes : List (Episode ρ)} (h : room.Plays episodes last)
    (hq : ∀ e ∈ episodes, Q e.occasion) (hp : P room) :
    P last ∧ ∀ e ∈ episodes, P e.before ∧ e = e.before.episode e.toScene := by
  induction episodes generalizing room with
  | nil =>
    cases h
    exact ⟨hp, by simp⟩
  | cons e rest ih =>
    obtain ⟨he, hrest⟩ := h.cases
    have hbefore : e.before = room := congrArg Episode.before he
    subst hbefore
    obtain ⟨hlast, heach⟩ := ih hrest (fun e' he' => hq e' (List.mem_cons_of_mem _ he'))
      (keeps _ _ hp (hq e List.mem_cons_self))
    refine ⟨hlast, ?_⟩
    intro e' he'
    rcases List.mem_cons.mp he' with rfl | he'
    · exact ⟨hp, he⟩
    · exact heach e' he'

variable (room : Room) (o : Occasion ρ)

theorem recipients_eq (exclude : PlayerId) :
    room.recipients exclude = (room.erase exclude).members.map (·.2.outbox) := rfl

/-- To everybody but the player of an event, the room keeps the members it had. -/
theorem erase_meet : (room.meet o).erase o.event.player = room.erase o.event.player := by
  rcases meet_cases room o with h | ⟨m, h⟩ | h
  · rw [h]
  · rw [h, erase_insert]
  · rw [h, erase_erase]

theorem recipients_meet :
    (room.meet o).recipients o.event.player = room.recipients o.event.player := by
  rw [recipients_eq, recipients_eq, erase_meet]

/-- An event that does not change a room leaves it as it was. -/
theorem meet_of_not_alters (h : o.alters room = false) : room.meet o = room := by
  obtain ⟨⟨player, body⟩, listener, lookup⟩ := o
  cases body with
  | join profile reply =>
    have ha : room.admission? listener lookup player reply = none := by
      simpa [Occasion.alters] using h
    rw [meet_join, ha]
  | leave reply =>
    rw [meet_leave]
    exact erase_of_not_member h
  | chat => rfl
  | move profile =>
    have hm : room.member? player = none := by simpa [Occasion.alters, hasMember] using h
    rw [meet_move, hm]

/-- A member's outbox is the one that the directory gave when the player was let in. -/
theorem outbox_meet {q : PlayerId} {m : Member} (h : (room.meet o).member? q = some m) :
    (∃ m', room.member? q = some m' ∧ m'.outbox = m.outbox) ∨ o.lookup q = some m.outbox := by
  obtain ⟨⟨player, body⟩, listener, lookup⟩ := o
  cases body with
  | join profile reply =>
    rw [meet_join] at h
    cases ha : room.admission? listener lookup player reply with
    | none =>
      rw [ha] at h
      exact .inl ⟨m, h, rfl⟩
    | some outbox =>
      rw [ha] at h
      simp only [member?_insert] at h
      split at h
      · rename_i hq
        subst hq
        cases h
        exact .inr (lookup_of_admission ha)
      · exact .inl ⟨m, h, rfl⟩
  | leave reply =>
    rw [meet_leave, member?_erase] at h
    split at h
    · contradiction
    · exact .inl ⟨m, h, rfl⟩
  | chat => exact .inl ⟨m, h, rfl⟩
  | move profile =>
    rw [meet_move] at h
    cases hm : room.member? player with
    | none =>
      rw [hm] at h
      exact .inl ⟨m, h, rfl⟩
    | some m' =>
      rw [hm] at h
      simp only [member?_insert] at h
      split at h
      · rename_i hq
        subst hq
        cases h
        exact .inl ⟨m', hm, rfl⟩
      · exact .inl ⟨m, h, rfl⟩

private theorem posts_answer (listener : ρ → Listener) (reply : Option ρ) (ret : ResultCode) :
    (room.answer listener reply ret).filterMap Effect.post? = [] := by
  rw [answer.eq_def]
  split
  · split <;> rfl
  · rfl

private theorem posts_notify (exclude : PlayerId) :
    (room.notify (ρ := ρ) exclude).filterMap Effect.post? =
      (room.recipients exclude).map fun i => (i, room.snapshot.notice) := by
  rw [notify, List.filterMap_map, ← List.filterMap_eq_map]
  rfl

/-- An event that changes a room is told to everybody but its player, as the room looks then. No
other event is told to anybody. -/
theorem posts_effects : (room.effects o).filterMap Effect.post? =
    if o.alters room then
      (room.recipients o.event.player).map fun i => (i, (room.meet o).snapshot.notice)
    else [] := by
  rw [← recipients_meet]
  obtain ⟨⟨player, body⟩, listener, lookup⟩ := o
  cases body with
  | chat => rfl
  | move profile =>
    simp only [effects, meet, react, Event.kind, move, Occasion.alters, hasMember]
    split
    · rename_i m hm
      simp [hm, posts_notify]
    · rename_i hm
      simp [hm]
  | leave reply =>
    simp only [effects, meet, react, Event.kind, leave, Occasion.alters]
    cases room.hasMember player with
    | true => simp [posts_notify, posts_answer]
    | false => simp [posts_answer]
  | join profile reply =>
    simp only [effects, meet, react, Event.kind, Occasion.alters]
    rcases room.join_cases listener lookup player profile reply with
      ⟨outbox, ha, hj⟩ | ⟨ha, answers, hj, hs⟩
    · simp [ha, hj, posts_answer, posts_notify]
    · rcases hs with rfl | ⟨heard, ret, -, rfl⟩ <;> simp [ha, hj, posts_answer]

def OwnedBy (owner : Nat → PlayerId) (room : Room) : Prop :=
  ∀ q m, room.member? q = some m → owner m.outbox = q

variable {room o} {owner : Nat → PlayerId}

theorem OwnedBy.meet (h : room.OwnedBy owner) (ho : o.OwnedBy owner) :
    (room.meet o).OwnedBy owner := by
  intro q m hm
  rcases room.outbox_meet o hm with ⟨m', hm', he⟩ | hl
  · rw [← he]
    exact h q m' hm'
  · exact ho q m.outbox hl

/-- Of the outboxes of one player, at most the one that the room knows it by gets a notice. -/
theorem offers_owned (hord : room.Ordered) (how : room.OwnedBy owner) (scene : Scene ρ)
    (p : PlayerId) :
    ((room.episode scene).offers.filter fun offer => owner offer.1 = p) =
      ((room.episode scene).due p).toList := by
  have hposts := room.posts_effects scene.occasion
  by_cases ha : scene.occasion.alters room = false
  · simp [Episode.offers, Episode.due, Episode.alters, episode, hposts, ha]
  · rw [Bool.not_eq_false] at ha
    -- in an ordered room the owner of a member's outbox is the member
    have howner : ∀ e ∈ room.members, decide (owner e.2.outbox = p) = decide (e.1 = p) := by
      intro e he
      rw [how e.1 e.2 ((hord.mem_iff e.1 e.2).mp he)]
    have hmine : (room.recipients scene.occasion.event.player).filter (owner · = p) =
        ((room.members.filter (·.1 = p)).filter
          (·.1 ≠ scene.occasion.event.player)).map (·.2.outbox) := by
      rw [recipients, List.filter_map, List.filter_filter, List.filter_filter]
      congr 1
      apply List.filter_congr
      intro e he
      simp only [Function.comp_apply, howner e he, Bool.and_comm]
    rw [hord.filter_eq] at hmine
    simp only [Episode.offers, Episode.due, Episode.alters, Episode.player, episode, hposts, ha,
      if_true, Bool.true_and, List.filter_map, Function.comp_def, hmine]
    cases room.member? p with
    | none => simp
    | some m =>
      by_cases hp : p = scene.occasion.event.player
      · simp [hp]
      · simp [hp, Ne.symm hp]

/-- Each outbox is offered nothing, or the notice that is due to its owner. -/
theorem offersTo_cases (hord : room.Ordered) (how : room.OwnedBy owner) (scene : Scene ρ)
    (i : Nat) :
    Effect.offersTo (room.episode scene).effects i = [] ∨
      (room.episode scene).due (owner i) = some (i, (room.episode scene).after.snapshot.notice) ∧
        Effect.offersTo (room.episode scene).effects i =
          [(room.episode scene).after.snapshot.notice] := by
  have howned := offers_owned hord how scene (owner i)
  have hsub : (room.episode scene).offers.filter (·.1 = i) =
      ((room.episode scene).due (owner i)).toList.filter (·.1 = i) := by
    rw [← howned, List.filter_filter]
    apply List.filter_congr
    intro offer _
    by_cases h : offer.1 = i <;> simp [h]
  have hto : Effect.offersTo (room.episode scene).effects i =
      (((room.episode scene).due (owner i)).toList.filter (·.1 = i)).map (·.2) :=
    congrArg (List.map Prod.snd) hsub
  rw [hto]
  cases hd : (room.episode scene).due (owner i) with
  | none => exact .inl rfl
  | some offer =>
    have hnotice := (Episode.due_eq_some hd).2
    by_cases hi : offer.1 = i
    · exact .inr ⟨by rw [← hi, ← hnotice], by simp [hi, hnotice]⟩
    · exact .inl (by simp [hi])

/-- What one outbox takes in a run comes in the order of the changes. -/
theorem accepted_sublist {episodes : List (Episode ρ)} {i : Nat}
    (h : ∀ e ∈ episodes, Effect.offersTo e.effects i = [] ∨
      e.alters = true ∧ Effect.offersTo e.effects i = [e.after.snapshot.notice]) :
    (episodes.flatMap (Episode.accepted · i)).Sublist
      ((episodes.filter Episode.alters).map fun e => e.after.snapshot.notice) := by
  induction episodes with
  | nil => exact .slnil
  | cons e rest ih =>
    have hrest := ih fun e' he' => h e' (List.mem_cons_of_mem _ he')
    have htaken : (e.accepted i).Sublist (Effect.offersTo e.effects i) := by
      rw [Episode.accepted]
      cases e.boxes[i]? with
      | none => exact List.nil_sublist _
      | some box => exact box.taken_sublist _
    rw [List.flatMap_cons, List.filter_cons]
    rcases h e List.mem_cons_self with ho | ⟨ha, ho⟩
    · rw [ho] at htaken
      rw [List.sublist_nil.mp htaken]
      split
      · exact hrest.cons _
      · exact hrest
    · rw [ho] at htaken
      rw [if_pos ha]
      exact htaken.append hrest

/-- The members of a room are told of every change that is not their own, once each, in the order
of the changes, and of nothing else: each notice shows the room right after its change, and goes
to the outbox under which the room knows the member. What comes into an outbox is what was offered
to it, but for the notices that found it full or closed. -/
theorem members_told_in_order (id : RoomId) (name : String) (owner : Nat → PlayerId)
    (scenes : List (Scene ρ)) (h : ∀ s ∈ scenes, s.occasion.OwnedBy owner) :
    ∃ episodes last, (fresh id name).Plays episodes last ∧
      episodes.map Episode.toScene = scenes ∧
      (∀ p, (episodes.flatMap fun e => e.offers.filter fun offer => owner offer.1 = p) =
        episodes.filterMap (Episode.due · p)) ∧
      (∀ e ∈ episodes, ∀ i box, e.boxes[i]? = some box → ∃ box', e.left[i]? = some box' ∧
        box'.queue = box.queue ++
          if box.closed || box.isFull then [] else Effect.offersTo e.effects i) ∧
      (∀ e ∈ episodes, e.alters = false → e.left = e.boxes) ∧
      (∀ e ∈ episodes, ∀ i, e.before.hasMember (owner i) = false ∨ owner i = e.player →
        e.left[i]? = e.boxes[i]?) ∧
      ∀ i, (episodes.flatMap (Episode.accepted · i)).Sublist
        ((episodes.filter Episode.alters).map fun e => e.after.snapshot.notice) := by
  have hplays := (fresh id name).plays_play scenes
  have hscenes := (fresh id name).map_play scenes
  generalize (fresh id name).play scenes = episodes at hplays hscenes
  have howns : ∀ e ∈ episodes, e.occasion.OwnedBy owner := by
    intro e he
    exact h e.toScene (hscenes ▸ List.mem_map_of_mem he)
  have hstart : (fresh id name).Ordered ∧ (fresh id name).OwnedBy owner :=
    ⟨List.Pairwise.nil, by simp [OwnedBy, fresh, member?]⟩
  obtain ⟨-, heach⟩ := hplays.each (P := fun room => room.Ordered ∧ room.OwnedBy owner)
    (fun room o hr ho => ⟨(meet_keeps room o).2.2 hr.1, hr.2.meet ho⟩) howns hstart
  have hoffer : ∀ e ∈ episodes, ∀ i, Effect.offersTo e.effects i = [] ∨
      e.due (owner i) = some (i, e.after.snapshot.notice) ∧
        Effect.offersTo e.effects i = [e.after.snapshot.notice] := by
    intro e he i
    obtain ⟨⟨hord, how⟩, heq⟩ := heach e he
    rw [heq]
    exact offersTo_cases hord how e.toScene i
  have hquiet : ∀ e ∈ episodes, ∀ i, e.due (owner i) = none → e.left[i]? = e.boxes[i]? := by
    intro e he i hd
    rcases hoffer e he i with ho | ⟨hd', -⟩
    · rw [Episode.getElem?_left, ho]
      exact Option.map_id'
    · rw [hd] at hd'
      contradiction
  refine ⟨episodes, _, hplays, hscenes, ?_, ?_, ?_, ?_, ?_⟩
  · intro p
    rw [List.filterMap_eq_flatMap_toList]
    apply List.flatMap_congr
    intro e he
    obtain ⟨⟨hord, how⟩, heq⟩ := heach e he
    rw [heq]
    exact offers_owned hord how e.toScene p
  · intro e he i box hb
    rw [Episode.getElem?_left, hb]
    refine ⟨_, rfl, ?_⟩
    rw [Mailbox.queue_offerEach, Mailbox.taken_of_le_one]
    rcases hoffer e he i with ho | ⟨-, ho⟩ <;> simp [ho]
  · intro e he ha
    apply Array.ext_getElem?
    intro i
    exact hquiet e he i (by simp [Episode.due, ha])
  · rintro e he i (hm | hp)
    · have hnone : e.before.member? (owner i) = none := by simpa [hasMember] using hm
      exact hquiet e he i (by simp [Episode.due, hnone])
    · exact hquiet e he i (by simp [Episode.due, hp])
  · intro i
    exact accepted_sublist fun e he =>
      (hoffer e he i).imp_right fun hd => ⟨(Episode.due_eq_some hd.1).1, hd.2⟩

def visitOwner (i : Nat) : PlayerId := if i = 0 then ⟨"a"⟩ else ⟨"b"⟩

def visitLookup (q : PlayerId) : Option Nat :=
  if q = ⟨"a"⟩ then some 0 else if q = ⟨"b"⟩ then some 1 else none

/-- Two players come in, the second moves, a third is not let in, and the first leaves. -/
def visit : List (Scene Unit) :=
  let boxes : Outboxes := #[.ofCapacity "a" 1, .ofCapacity "b" 1]
  let events : List (Event Unit) :=
    [⟨⟨"a"⟩, .join {} (some ())⟩, ⟨⟨"b"⟩, .join {} none⟩, ⟨⟨"b"⟩, .move { name := "B" }⟩,
      ⟨⟨"c"⟩, .join {} (some ())⟩, ⟨⟨"a"⟩, .leave none⟩]
  events.map fun e => ⟨⟨e, fun _ => .waiting, visitLookup⟩, boxes⟩

theorem visitors_told_in_order : (∀ s ∈ visit, s.occasion.OwnedBy visitOwner) ∧
    ∃ episodes last, (fresh ⟨1⟩ "hall").Plays episodes last ∧
      episodes.map Episode.toScene = visit ∧
      (episodes.flatMap fun e => e.offers.filter fun offer => visitOwner offer.1 = ⟨"a"⟩) =
        episodes.filterMap (Episode.due · ⟨"a"⟩) := by
  have howned : ∀ s ∈ visit, s.occasion.OwnedBy visitOwner := by
    intro s hs q i hq
    obtain ⟨e, -, rfl⟩ := List.mem_map.mp hs
    simp only [visitLookup] at hq
    split at hq
    · cases hq
      rename_i h
      exact h.symm
    · split at hq
      · cases hq
        rename_i h
        exact h.symm
      · contradiction
  obtain ⟨episodes, last, hplays, hscenes, hstream, -⟩ :=
    members_told_in_order ⟨1⟩ "hall" visitOwner visit howned
  exact ⟨howned, episodes, last, hplays, hscenes, hstream ⟨"a"⟩⟩

end Room

end Lobby
