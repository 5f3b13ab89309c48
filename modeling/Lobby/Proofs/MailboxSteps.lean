import Lobby.Mailbox

/-! What each operation does to a mailbox: to its queue, and to the deliveries under way. -/
namespace Lobby.Mailbox
variable {τ α : Type}

def underWay (m : Mailbox τ α) : List (τ × α) := m.granted ++ m.waiting

theorem offer_cases {m : Mailbox τ α} (h : m.closed = false) (message : α) :
    m.offer message = (.ok (), { m with queue := m.queue ++ [message] }) ∨
      ∃ fault, m.offer message = (.error fault, { m with dropped := m.dropped + 1 }) := by
  simp only [offer, h, Bool.false_eq_true, if_false]
  split
  · exact .inr ⟨_, rfl⟩
  · exact .inl rfl

theorem send_cases {m : Mailbox τ α} (h : m.closed = false) (name : τ) (message : α) :
    m.send name message = (.accepted, { m with queue := m.queue ++ [message] }) ∨
      m.send name message = (.pending, { m with waiting := m.waiting ++ [(name, message)] }) := by
  simp only [send, h, Bool.false_eq_true, if_false]
  split
  · exact .inr rfl
  · exact .inl rfl

/-- The mailbox once whoever has waited longest has been handed a slot. -/
def advance (m : Mailbox τ α) : Mailbox τ α :=
  { m with granted := m.granted ++ m.waiting.take 1, waiting := m.waiting.drop 1 }

theorem release_eq (m : Mailbox τ α) : m.release = (m.waiting.head?.map (·.1), m.advance) := by
  rw [release]
  cases hw : m.waiting with
  | nil =>
    have hsame : m.advance = m := by
      rw [advance, hw, List.take_nil, List.drop_nil, List.append_nil, ← hw]
    rw [hsame]
    rfl
  | cons w rest => simp [advance, hw]

theorem underWay_advance (m : Mailbox τ α) : m.advance.underWay = m.underWay := by
  rw [underWay, advance, List.append_assoc, List.take_append_drop, underWay]

/-- A freed slot changes who has one, and not who is under way. -/
theorem exists_release (m : Mailbox τ α) : ∃ next granted waiting,
    m.release = (next, { m with granted, waiting }) ∧ granted ++ waiting = m.underWay :=
  ⟨_, _, _, m.release_eq, m.underWay_advance⟩

theorem receive_cons {m : Mailbox τ α} {message : α} {rest : List α}
    (h : m.queue = message :: rest) :
    m.receive = (.message message, ({ m with queue := rest } : Mailbox τ α).release) := by
  rw [receive, h]

theorem receive_nil {m : Mailbox τ α} (h : m.queue = []) :
    m.receive = (.empty, none, m) ∨ m.receive = (.disconnected, none, m) := by
  rw [receive, h]
  simp only
  split
  · exact .inr rfl
  · exact .inl rfl

/-- While somebody can still send, an empty mailbox is waited for. -/
theorem receive_nil_of_open {m : Mailbox τ α} (h : m.queue = []) (hc : m.closed = false)
    (hs : m.senders ≠ 0) : m.receive = (.empty, none, m) := by
  simp [receive, h, hc, hs]

theorem length_granted_release (m : Mailbox τ α) :
    m.release.2.granted.length ≤ m.granted.length + 1 := by
  rw [release]
  split <;> simp

theorem underWay_offer (m : Mailbox τ α) (message : α) :
    (m.offer message).2.underWay = m.underWay := by
  rw [offer]
  split
  · rfl
  · split <;> rfl

theorem mem_underWay_send {m : Mailbox τ α} {name : τ} {message : α} {x : τ × α}
    (hx : x ∈ (m.send name message).2.underWay) : x ∈ m.underWay ∨ x = (name, message) := by
  rw [send] at hx
  split at hx
  · exact .inl hx
  · split at hx
    · simpa [underWay, or_assoc] using hx
    · exact .inl hx

section
variable (m : Mailbox τ α)

theorem closed_offer (x : α) : (m.offer x).2.closed = m.closed := by
  rw [offer]
  split
  · rfl
  · split <;> rfl

theorem closed_send (name : τ) (x : α) : (m.send name x).2.closed = m.closed := by
  rw [send]
  split
  · rfl
  · split <;> rfl

theorem closed_release : m.release.2.closed = m.closed := by
  rw [release]
  split <;> rfl

theorem closed_receive : m.receive.2.2.closed = m.closed := by
  rw [receive]
  split
  · exact closed_release _
  · rfl

theorem closed_settle [DecidableEq τ] (name : τ) : (m.settle name).2.closed = m.closed := by
  rw [settle]
  split
  · rfl
  · split <;> rfl

theorem closed_withdraw [DecidableEq τ] (name : τ) : (m.withdraw name).2.closed = m.closed := by
  rw [withdraw]
  split
  · exact closed_release _
  · rfl

end

variable [DecidableEq τ]

theorem mem_of_lookup {name : τ} {message : α} {l : List (τ × α)}
    (h : l.lookup name = some message) : (name, message) ∈ l := by
  obtain ⟨before, after, rfl, -⟩ := List.lookup_eq_some_iff.mp h
  simp

theorem settle_cases {m : Mailbox τ α} (h : m.closed = false) (name : τ) :
    (∃ message, (name, message) ∈ m.granted ∧ m.settle name =
        (.accepted,
          { m with
            granted := m.granted.filter (·.1 ≠ name)
            queue := m.queue ++ [message] })) ∨
      m.settle name = (.waiting, m) := by
  simp only [settle, h, Bool.false_eq_true, if_false]
  cases hl : m.granted.lookup name with
  | some message => exact .inl ⟨message, mem_of_lookup hl, rfl⟩
  | none => exact .inr rfl

/-- A delivery that is given up is no longer under way, and the others are. -/
theorem exists_withdraw (m : Mailbox τ α) (name : τ) : ∃ next granted waiting,
    m.withdraw name = (next, { m with granted, waiting }) ∧
      (granted ++ waiting = m.granted.filter (·.1 ≠ name) ++ m.waiting ∧
          (∃ message, (name, message) ∈ m.granted) ∨
        granted ++ waiting = m.granted ++ m.waiting.filter (·.1 ≠ name) ∧
          ∀ message, (name, message) ∉ m.granted) := by
  rw [withdraw]
  cases hl : m.granted.lookup name with
  | some message =>
    obtain ⟨next, granted, waiting, hr, hu⟩ :=
      exists_release { m with granted := m.granted.filter (·.1 ≠ name) }
    exact ⟨next, granted, waiting, hr, .inl ⟨hu, message, mem_of_lookup hl⟩⟩
  | none =>
    refine ⟨none, _, _, rfl, .inr ⟨rfl, ?_⟩⟩
    intro message hm
    simpa using List.lookup_eq_none_iff.mp hl _ hm

theorem mem_underWay_settle {m : Mailbox τ α} {name : τ} {x : τ × α}
    (hx : x ∈ (m.settle name).2.underWay) : x ∈ m.underWay := by
  rw [settle] at hx
  split at hx
  · rw [underWay, ← List.filter_append] at hx
    exact (List.mem_filter.mp hx).1
  · split at hx
    · rcases List.mem_append.mp hx with h | h
      · exact List.mem_append_left _ (List.mem_filter.mp h).1
      · exact List.mem_append_right _ h
    · exact hx

theorem mem_underWay_withdraw {m : Mailbox τ α} {name : τ} {x : τ × α}
    (hx : x ∈ (m.withdraw name).2.underWay) : x ∈ m.underWay := by
  obtain ⟨next, granted, waiting, hw, hu⟩ := m.exists_withdraw name
  rw [hw, underWay] at hx
  rcases hu with ⟨hu, -⟩ | ⟨hu, -⟩ <;> simp only [hu] at hx
  · rcases List.mem_append.mp hx with h | h
    · exact List.mem_append_left _ (List.mem_filter.mp h).1
    · exact List.mem_append_right _ h
  · rcases List.mem_append.mp hx with h | h
    · exact List.mem_append_left _ h
    · exact List.mem_append_right _ (List.mem_filter.mp h).1

omit [DecidableEq τ] in
theorem unsettled_eq (m : Mailbox τ α) : m.unsettled = m.underWay.map (·.1) := rfl

omit [DecidableEq τ] in
theorem occupied_of_granted {m : Mailbox τ α} {w : τ × α} {granted : List (τ × α)}
    (h : (w :: granted).Perm m.granted) :
    ({ m with granted } : Mailbox τ α).occupied + 1 = m.occupied := by
  have hlength := h.length_eq
  simp only [occupied, List.length_cons] at hlength ⊢
  omega

omit [DecidableEq τ] in
theorem perm_unsettled_of_granted {m : Mailbox τ α} {w : τ × α} {granted : List (τ × α)}
    (h : (w :: granted).Perm m.granted) :
    (w.1 :: (granted ++ m.waiting).map (·.1)).Perm m.unsettled := by
  have hline := (h.append_right m.waiting).map (·.1)
  exact hline

omit [DecidableEq τ] in
theorem perm_unsettled_of_waiting {m : Mailbox τ α} {w : τ × α} {waiting : List (τ × α)}
    (h : (w :: waiting).Perm m.waiting) :
    (w.1 :: (m.granted ++ waiting).map (·.1)).Perm m.unsettled := by
  have hline := (h.append_left m.granted).map (·.1)
  exact .trans (.map _ List.perm_middle.symm) hline

/-- No more slots are filled or promised than there are, and every delivery under way has a name
of its own. -/
structure Sound (m : Mailbox τ α) : Prop where
  slots : m.occupied ≤ m.capacity
  names : m.unsettled.Nodup

variable {m : Mailbox τ α} {name : τ}

omit [DecidableEq τ] in
theorem Sound.names_granted (hm : m.Sound) : (m.granted.map (·.1)).Nodup :=
  hm.names.sublist ((List.sublist_append_left _ _).map _)

omit [DecidableEq τ] in
theorem Sound.names_waiting (hm : m.Sound) : (m.waiting.map (·.1)).Nodup :=
  hm.names.sublist ((List.sublist_append_right _ _).map _)

omit [DecidableEq τ] in
theorem sound_ofCapacity (label : String) (capacity : Nat) :
    (ofCapacity label capacity : Mailbox τ α).Sound :=
  ⟨Nat.zero_le _, List.nodup_nil⟩

omit [DecidableEq τ] in
theorem Sound.push (hm : m.Sound) (hfull : m.isFull = false) (message : α) :
    ({ m with queue := m.queue ++ [message] } : Mailbox τ α).Sound := by
  refine ⟨?_, hm.names⟩
  rw [isFull, decide_eq_false_iff_not, occupied] at hfull
  simp only [occupied, List.length_append, List.length_singleton]
  omega

omit [DecidableEq τ] in
theorem Sound.lineUp (hm : m.Sound) (hname : name ∉ m.unsettled) (message : α) :
    ({ m with waiting := m.waiting ++ [(name, message)] } : Mailbox τ α).Sound := by
  refine ⟨hm.slots, ?_⟩
  have hnew : ({ m with waiting := m.waiting ++ [(name, message)] } : Mailbox τ α).unsettled =
      m.unsettled ++ [name] := by
    simp [unsettled]
  rw [hnew, List.nodup_append]
  refine ⟨hm.names, by simp, ?_⟩
  rintro a ha b hb rfl
  rw [List.mem_singleton] at hb
  exact hname (hb ▸ ha)

omit [DecidableEq τ] in
/-- A message that is offered gets in, is dropped, or comes too late. -/
theorem Sound.offer (hm : m.Sound) (message : α) :
    m.closed = false ∧ m.offer message = (.ok (), { m with queue := m.queue ++ [message] }) ∧
        ({ m with queue := m.queue ++ [message] } : Mailbox τ α).Sound ∨
      m.closed = false ∧
        m.offer message = (.error (.full m.label), { m with dropped := m.dropped + 1 }) ∧
        ({ m with dropped := m.dropped + 1 } : Mailbox τ α).Sound ∨
      m.closed = true ∧ m.offer message = (.error (.closed m.label), m) := by
  rw [Mailbox.offer]
  split
  · rename_i hclosed
    exact .inr (.inr ⟨hclosed, rfl⟩)
  · rename_i hclosed
    rw [Bool.not_eq_true] at hclosed
    split
    · exact .inr (.inl ⟨hclosed, rfl, hm.slots, hm.names⟩)
    · rename_i hfull
      exact .inl ⟨hclosed, rfl, hm.push (by simpa using hfull) message⟩

omit [DecidableEq τ] in
/-- A new delivery gets in, begins to wait, or comes too late. -/
theorem Sound.send (hm : m.Sound) (hname : name ∉ m.unsettled) (message : α) :
    m.closed = false ∧
        m.send name message = (.accepted, { m with queue := m.queue ++ [message] }) ∧
        ({ m with queue := m.queue ++ [message] } : Mailbox τ α).Sound ∨
      m.closed = false ∧
        m.send name message = (.pending, { m with waiting := m.waiting ++ [(name, message)] }) ∧
        ({ m with waiting := m.waiting ++ [(name, message)] } : Mailbox τ α).Sound ∨
      m.closed = true ∧ m.send name message = (.refused, m) := by
  rw [Mailbox.send]
  split
  · rename_i hclosed
    exact .inr (.inr ⟨hclosed, rfl⟩)
  · rename_i hclosed
    rw [Bool.not_eq_true] at hclosed
    split
    · exact .inr (.inl ⟨hclosed, rfl, hm.lineUp hname message⟩)
    · rename_i hfull
      exact .inl ⟨hclosed, rfl, hm.push (by simpa using hfull) message⟩

omit [DecidableEq τ] in
/-- A slot that is free can be handed on. -/
theorem sound_release (hslots : m.occupied < m.capacity) (hnames : m.unsettled.Nodup) :
    m.release.2.Sound := by
  have hlength := m.length_granted_release
  obtain ⟨next, granted, waiting, hr, hu⟩ := m.exists_release
  rw [hr] at hlength ⊢
  constructor
  · simp only [occupied] at hslots hlength ⊢
    omega
  · rwa [unsettled_eq, underWay, hu]

omit [DecidableEq τ] in
/-- What is received leaves its slot to the next. -/
theorem Sound.receive (hm : m.Sound) {message : α} {rest : List α}
    (hq : m.queue = message :: rest) :
    ∃ next granted waiting, m.receive = (.message message, next,
        { m with queue := rest, granted, waiting }) ∧
      granted ++ waiting = m.underWay ∧
      ({ m with queue := rest, granted, waiting } : Mailbox τ α).Sound := by
  have hslots := hm.slots
  simp only [occupied, hq, List.length_cons] at hslots
  have hs : ({ m with queue := rest } : Mailbox τ α).release.2.Sound := by
    apply sound_release
    · simp only [occupied]
      omega
    · exact hm.names
  obtain ⟨next, granted, waiting, hr, hu⟩ := exists_release { m with queue := rest }
  rw [hr] at hs
  exact ⟨next, granted, waiting, (receive_cons hq).trans (by rw [hr]), hu, hs⟩

/-- Whatever has a name of its own is taken out by its name. -/
theorem perm_filter_names {l : List (τ × α)} (hl : (l.map (·.1)).Nodup) {w : τ × α} (hw : w ∈ l) :
    (w :: l.filter (·.1 ≠ w.1)).Perm l := by
  induction l with
  | nil => exact absurd hw List.not_mem_nil
  | cons v rest ih =>
    rw [List.map_cons, List.nodup_cons] at hl
    rcases List.mem_cons.mp hw with rfl | hw
    · rw [List.filter_cons_of_neg (by simp), List.filter_eq_self.mpr]
      intro u hu
      simp only [ne_eq, decide_eq_true_eq]
      exact fun hname => hl.1 (hname ▸ List.mem_map_of_mem hu)
    · have hname : v.1 ≠ w.1 := fun hname => hl.1 (hname ▸ List.mem_map_of_mem hw)
      rw [List.filter_cons_of_pos (by simpa using hname)]
      exact .trans (.swap v w _) (.cons v (ih hl.2 hw))

private theorem length_filter_lt {l : List (τ × α)} {message : α}
    (h : l.lookup name = some message) : (l.filter (·.1 ≠ name)).length < l.length := by
  apply List.length_filter_lt_length_iff_exists.mpr
  exact ⟨_, mem_of_lookup h, by simp⟩

private theorem filter_names_of_not_mem {l : List (τ × α)} (h : name ∉ l.map (·.1)) :
    l.filter (·.1 ≠ name) = l := by
  rw [List.filter_eq_self]
  rintro x hx
  simp only [ne_eq, decide_eq_true_eq]
  rintro rfl
  exact h (List.mem_map_of_mem hx)

private theorem nodup_filter_names (name : τ) {l : List (τ × α)} (h : (l.map (·.1)).Nodup) :
    ((l.filter (·.1 ≠ name)).map (·.1)).Nodup :=
  h.sublist (List.filter_sublist.map _)

/-- The name of a delivery with a slot is not among those without. -/
private theorem Sound.not_waiting (hm : m.Sound) {message : α}
    (h : m.granted.lookup name = some message) : name ∉ m.waiting.map (·.1) := by
  have hnames := hm.names
  rw [unsettled, List.map_append, List.nodup_append] at hnames
  intro hw
  exact hnames.2.2 name (List.mem_map_of_mem (mem_of_lookup h)) name hw rfl

/-- A delivery that goes on gets in, is refused, or has no slot yet. -/
theorem Sound.settle (hm : m.Sound) (name : τ) :
    (∃ message granted, m.closed = false ∧ (name, message) ∈ m.granted ∧
        m.settle name = (.accepted, { m with granted, queue := m.queue ++ [message] }) ∧
        granted ++ m.waiting = m.underWay.filter (·.1 ≠ name) ∧
        ({ m with granted, queue := m.queue ++ [message] } : Mailbox τ α).Sound) ∨
      (∃ granted waiting, m.closed = true ∧
        m.settle name = (.refused, { m with granted, waiting }) ∧
        granted ++ waiting = m.underWay.filter (·.1 ≠ name) ∧
        ({ m with granted, waiting } : Mailbox τ α).Sound) ∨
      m.closed = false ∧ m.settle name = (.waiting, m) := by
  have hfilter := nodup_filter_names name hm.names
  have hslots := hm.slots
  rw [occupied] at hslots
  rw [Mailbox.settle]
  cases hc : m.closed with
  | true =>
    refine .inr (.inl ⟨_, _, rfl, rfl, (List.filter_append ..).symm, ?_, ?_⟩)
    · have := List.length_filter_le (fun x : τ × α => decide (x.1 ≠ name)) m.granted
      simp only [occupied]
      omega
    · rwa [unsettled, ← List.filter_append]
  | false =>
    simp only [Bool.false_eq_true, if_false]
    cases hl : m.granted.lookup name with
    | none => exact .inr (.inr ⟨trivial, rfl⟩)
    | some message =>
      have hrest : m.granted.filter (·.1 ≠ name) ++ m.waiting =
          m.underWay.filter (·.1 ≠ name) := by
        rw [underWay, List.filter_append, filter_names_of_not_mem (hm.not_waiting hl)]
      refine .inl ⟨message, _, trivial, mem_of_lookup hl, rfl, hrest, ?_, ?_⟩
      · have := length_filter_lt hl
        simp only [occupied, List.length_append, List.length_singleton]
        omega
      · rwa [unsettled, hrest]

/-- A delivery that is given up is over, and its slot goes to the next. -/
theorem Sound.withdraw (hm : m.Sound) (name : τ) :
    ∃ next granted waiting, m.withdraw name = (next, { m with granted, waiting }) ∧
      granted ++ waiting = m.underWay.filter (·.1 ≠ name) ∧
      ({ m with granted, waiting } : Mailbox τ α).Sound := by
  have hfilter := nodup_filter_names name hm.names
  have hslots := hm.slots
  rw [occupied] at hslots
  rw [Mailbox.withdraw]
  cases hl : m.granted.lookup name with
  | none =>
    have hrest : m.granted ++ m.waiting.filter (·.1 ≠ name) = m.underWay.filter (·.1 ≠ name) := by
      have hgranted : name ∉ m.granted.map (·.1) := by
        intro hg
        obtain ⟨x, hx, rfl⟩ := List.mem_map.mp hg
        simpa using List.lookup_eq_none_iff.mp hl x hx
      rw [underWay, List.filter_append, filter_names_of_not_mem hgranted]
    exact ⟨none, _, _, rfl, hrest, hslots, by rwa [unsettled, hrest]⟩
  | some message =>
    have hrest : m.granted.filter (·.1 ≠ name) ++ m.waiting =
        m.underWay.filter (·.1 ≠ name) := by
      rw [underWay, List.filter_append, filter_names_of_not_mem (hm.not_waiting hl)]
    have hs :
        ({ m with granted := m.granted.filter (·.1 ≠ name) } : Mailbox τ α).release.2.Sound := by
      apply sound_release
      · have := length_filter_lt hl
        simp only [occupied]
        omega
      · rwa [unsettled, hrest]
    obtain ⟨next, granted, waiting, hr, hu⟩ :=
      exists_release { m with granted := m.granted.filter (·.1 ≠ name) }
    rw [hr] at hs
    exact ⟨next, granted, waiting, hr, hu.trans hrest, hs⟩

end Lobby.Mailbox
