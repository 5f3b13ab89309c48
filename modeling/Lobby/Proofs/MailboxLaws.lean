import Lobby.Proofs.MailboxSoundness

/-! How a mailbox behaves: it is bounded, it loses nothing and brings nothing twice, nobody jumps
the queue, and closing it refuses whoever comes or waits. -/
namespace Lobby.Traffic
variable {α : Type} {label : String} {capacity : Nat} {s t u : Traffic α} {act : Act α}

structure Shut (s t : Traffic α) : Prop where
  closed : t.mailbox.closed = true
  label : t.mailbox.label = s.mailbox.label
  returned : ∃ late, t.returned = s.returned ++ late ∧
    ∀ r ∈ late, r.2 = .error (.closed s.mailbox.label)

namespace Shut

theorem refl (hc : s.mailbox.closed = true) : s.Shut s :=
  ⟨hc, rfl, [], (List.append_nil _).symm, fun _ h => absurd h List.not_mem_nil⟩

theorem trans (hst : s.Shut t) (htu : t.Shut u) : s.Shut u := by
  obtain ⟨late, ht, hlate⟩ := hst.returned
  obtain ⟨later, hu, hlater⟩ := htu.returned
  refine ⟨htu.closed, htu.label.trans hst.label, late ++ later, ?_, ?_⟩
  · rw [hu, ht, List.append_assoc]
  · intro r hr
    rcases List.mem_append.mp hr with hr | hr
    · exact hlate r hr
    · rw [hlater r hr, hst.label]

private theorem conclude (h : s.Shut t) (call : Nat) :
    s.Shut (t.conclude call (.error (.closed s.mailbox.label))) := by
  have hcall : t.Shut (t.conclude call (.error (.closed s.mailbox.label))) := by
    refine ⟨h.closed, rfl, _, rfl, ?_⟩
    intro r hr
    rw [List.mem_singleton.mp hr, h.label]
  exact h.trans hcall

private theorem step (hc : s.mailbox.closed = true) (hs : s.Step act t) : s.Shut t := by
  have hopen : s.mailbox.closed ≠ false := by simp [hc]
  cases hs with
  | rests => exact refl hc
  | accepts _ ho | drops _ ho | waits _ ho | fills ho => exact absurd ho hopen
  | refuses | fails =>
    apply conclude
    exact { refl hc with }
  | takes | yields | retires | shares => exact { refl hc with }

theorem perform (h : s.Sound label capacity) (hc : s.mailbox.closed = true) (act : Act α) :
    s.Shut (s.perform act) := by
  cases hact : act.ends with
  | false => exact step hc (step_perform h.fits.mailbox hact)
  | true =>
    cases act with
    | close | leave => exact { refl hc with closed := rfl }
    | _ => contradiction

theorem performAll (h : s.Sound label capacity) (hc : s.mailbox.closed = true)
    (acts : List (Act α)) : s.Shut (s.performAll acts) := by
  induction acts generalizing s with
  | nil => exact refl hc
  | cons act acts ih =>
    have hact := perform h hc act
    exact hact.trans (ih (h.perform act) hact.closed)

end Shut

/-- Whenever a call has been handed a slot, it puts its message there before anything else
happens. -/
def Prompt : Traffic α → List (Act α) → Prop
  | _, [] => True
  | s, act :: acts => (∀ w ∈ s.mailbox.granted, act = .look w.1) ∧ Prompt (s.perform act) acts

/-- The calls have been accepted in the order of their admission, and all but the last have. -/
structure InTurn (s : Traffic α) : Prop where
  admitted : s.admitted = s.accepted ++ s.held
  single : s.held.length ≤ 1

namespace InTurn

/-- Nobody holds a slot, and whoever was admitted has been accepted. -/
private theorem of_idle (h : s.admitted = s.accepted) (hg : s.mailbox.granted = []) :
    s.InTurn := by
  have hheld : s.held = [] := by simp [held, hg]
  constructor
  · rw [hheld, List.append_nil, h]
  · rw [hheld]
    exact Nat.zero_le 1

private theorem admitted_of_idle (h : s.InTurn) (hg : s.mailbox.granted = []) :
    s.admitted = s.accepted := by
  have hheld : s.held = [] := by simp [held, hg]
  rw [h.admitted, hheld, List.append_nil]

/-- A slot that becomes free while nobody holds one is the only one that is held. -/
private theorem handOn (h : s.admitted = s.accepted) (hg : s.mailbox.granted = []) :
    s.handOn.InTurn := by
  have hgranted : s.handOn.mailbox.granted = s.mailbox.waiting.take 1 := by
    simp [Traffic.handOn, letIn, Mailbox.advance, hg]
  have hone : (s.mailbox.waiting.take 1).length ≤ 1 := List.length_take_le 1 _
  cases hc : s.mailbox.closed with
  | true =>
    have hclosed : s.handOn.mailbox.closed = true := hc
    constructor
    · rw [held_of_closed hclosed, List.append_nil, accepted_handOn]
      simp [Traffic.handOn, letIn, hc, h]
    · rw [held_of_closed hclosed]
      exact Nat.zero_le 1
  | false =>
    have hopen : s.handOn.mailbox.closed = false := hc
    constructor
    · rw [held_of_open hopen, hgranted, accepted_handOn, ← h]
      cases hw : s.mailbox.waiting <;> simp [Traffic.handOn, letIn, hc, hw]
    · rwa [held_of_open hopen, hgranted, List.length_map]

/-- A call that has the only slot takes its turn. -/
private theorem fill (h : s.InTurn) (ho : s.mailbox.closed = false) {call : Nat} {message : α}
    {granted : List (Nat × α)} (hslot : ((call, message) :: granted).Perm s.mailbox.granted) :
    (({ s with mailbox := { s.mailbox with granted, queue := s.mailbox.queue ++ [message] } } :
      Traffic α).conclude call (.ok ())).InTurn := by
  have hadmitted := h.admitted
  have hsingle := h.single
  rw [held_of_open ho] at hadmitted hsingle
  have hlength := hslot.length_eq
  rw [List.length_map] at hsingle
  rw [List.length_cons] at hlength
  have hnil : granted = [] := List.length_eq_zero_iff.mp (by omega)
  rw [hnil] at hslot
  rw [← List.singleton_perm.mp hslot] at hadmitted
  refine of_idle ?_ hnil
  rw [accepted_conclude_ok]
  exact hadmitted

private theorem step (h : s.InTurn) (hs : s.Step act t)
    (hprompt : ∀ w ∈ s.mailbox.granted, act = .look w.1) : t.InTurn := by
  -- whoever holds a slot looks, so that nobody does at any other act
  have idle (hact : ∀ call, act ≠ .look call) : s.mailbox.granted = [] :=
    List.eq_nil_iff_forall_not_mem.mpr fun w hw => hact w.1 (hprompt w hw)
  cases hs with
  | rests => exact h
  | accepts hact =>
    have hg := idle fun call hlook => by simp [hlook, Act.brings?] at hact
    refine of_idle ?_ hg
    rw [accepted_accept, ← h.admitted_of_idle hg]
    rfl
  | drops hact =>
    have hg := idle fun call hlook => by simp [hlook] at hact
    refine of_idle ?_ hg
    rw [accepted_conclude_error]
    exact h.admitted_of_idle hg
  | waits hact =>
    have hg := idle fun call hlook => by simp [hlook, Act.brings?] at hact
    exact of_idle (h.admitted_of_idle hg) hg
  | refuses hact =>
    have hg := idle fun call hlook => by simp [hlook, Act.brings?] at hact
    refine of_idle ?_ hg
    rw [accepted_conclude_error]
    exact h.admitted_of_idle hg
  | fills ho hslot => exact h.fill ho hslot
  | fails hc =>
    have hadmitted := h.admitted
    rw [held_of_closed hc, List.append_nil] at hadmitted
    constructor
    · rw [accepted_conclude_error, held_of_closed (by exact hc), List.append_nil]
      exact hadmitted
    · rw [held_of_closed (by exact hc)]
      exact Nat.zero_le 1
  | takes =>
    have hg := idle fun call hlook => by cases hlook
    exact handOn (h.admitted_of_idle hg) hg
  | yields hslot =>
    have hg := idle fun call hlook => by cases hlook
    rw [hg] at hslot
    exact absurd hslot.length_eq (by simp)
  | retires =>
    have hg := idle fun call hlook => by cases hlook
    exact of_idle (h.admitted_of_idle hg) hg
  | shares => exact ⟨h.admitted, h.single⟩

theorem perform (h : s.InTurn) (hm : s.mailbox.Sound)
    (hprompt : ∀ w ∈ s.mailbox.granted, act = .look w.1) : (s.perform act).InTurn := by
  cases hact : act.ends with
  | false => exact h.step (step_perform hm hact) hprompt
  | true =>
    have hg : s.mailbox.granted = [] := by
      rw [List.eq_nil_iff_forall_not_mem]
      intro w hw
      rw [hprompt w hw] at hact
      contradiction
    cases act with
    | close | leave => exact of_idle (h.admitted_of_idle hg) hg
    | _ => contradiction

theorem performAll (h : s.InTurn) (hs : s.Sound label capacity) {acts : List (Act α)}
    (hprompt : s.Prompt acts) : (s.performAll acts).InTurn := by
  induction acts generalizing s with
  | nil => exact h
  | cons act acts ih =>
    obtain ⟨hact, hacts⟩ := hprompt
    exact ih (h.perform hs.fits.mailbox hact) (hs.perform act) hacts

end InTurn

/-- How a mailbox of a given capacity is to behave after some acts. -/
structure Lawful (capacity : Nat) (acts : List (Act α)) (s : Traffic α) : Prop where
  /-- What has been received and then what is queued is what the accepted calls have brought, in
  the order in which they returned. Only what is queued when the receiver goes away is lost. -/
  conserved : (s.received ++ s.mailbox.queue ++ s.lost).map some = s.accepted.map (s.brought[·]?)
  lost : .leave ∉ acts → s.lost = []
  /-- Every call has returned once, is under way, or was given up. -/
  calls : (s.returned.map (·.1) ++ s.mailbox.unsettled ++ s.abandoned).Perm
    (List.range s.brought.length)
  abandoned : ∀ call ∈ s.abandoned, .giveUp call ∈ acts
  bounded : s.mailbox.occupied ≤ max capacity 1
  /-- A call waits on only while the mailbox is open and full. -/
  pending : ∀ call ∈ s.mailbox.unsettled, (s.mailbox.settle call).1 = .waiting →
    s.mailbox.closed = false ∧ s.mailbox.occupied = max capacity 1
  /-- Calls are admitted in the order in which they were made, so that those that wait come before
  all later ones. -/
  ordered : (s.admitted ++ s.mailbox.waiting.map (·.1)).Pairwise (· < ·)
  admitted : s.accepted ++ s.held ⊆ s.admitted
  outcome : s.mailbox.closed = false → s.admitted ⊆ s.accepted ++ s.held ++ s.abandoned
  /-- The mailbox is closed once its receiver has closed it or gone away, and not before. -/
  closed : s.mailbox.closed = acts.any Act.ends
  /-- Once the mailbox is closed, whatever is done to it, every call that returns fails, … -/
  shut : s.mailbox.closed = true → ∀ more, s.Shut (s.performAll more)
  /-- … and so does every call under way when it looks. -/
  refused : s.mailbox.closed = true → ∀ call ∈ s.mailbox.unsettled,
    (s.perform (.look call)).returned = s.returned ++ [(call, .error (.closed s.mailbox.label))] ∧
      call ∉ (s.perform (.look call)).mailbox.unsettled
  /-- What is queued can be received, whether or not the mailbox is closed. -/
  receivable : ∀ message rest, s.mailbox.queue = message :: rest →
    s.mailbox.receive.1 = .message message ∧
      (s.perform .receive).received = s.received ++ [message]
  disconnects : s.mailbox.receive.1 = .disconnected ↔ s.mailbox.queue = [] ∧
    (s.mailbox.closed = true ∨ s.clones = [] ∧ s.mailbox.unsettled = [])

theorem Step.mem_abandoned (hs : s.Step act t) {call : Nat} (hcall : call ∈ t.abandoned) :
    call ∈ s.abandoned ∨ act = .giveUp call := by
  cases hs with
  | yields | retires =>
    rcases List.mem_append.mp hcall with hcall | hcall
    · exact .inl hcall
    · rw [List.mem_singleton.mp hcall]
      exact .inr rfl
  | _ => exact .inl hcall

namespace Sound

theorem mem_abandoned (h : s.Sound label capacity) {acts : List (Act α)} {call : Nat}
    (hcall : call ∈ (s.performAll acts).abandoned) : call ∈ s.abandoned ∨ .giveUp call ∈ acts := by
  induction acts generalizing s with
  | nil => exact .inl hcall
  | cons act acts ih =>
    rcases ih (h.perform act) hcall with hcall | hlater
    · cases hact : act.ends with
      | false =>
        have hstep := step_perform h.fits.mailbox hact
        refine (hstep.mem_abandoned hcall).imp_right ?_
        rintro rfl
        exact List.mem_cons_self
      | true =>
        cases act with
        | close | leave => exact .inl hcall
        | _ => contradiction
    · exact .inr (List.mem_cons_of_mem _ hlater)

theorem lost_performAll (h : s.Sound label capacity) {acts : List (Act α)}
    (hleave : .leave ∉ acts) : (s.performAll acts).lost = s.lost := by
  induction acts generalizing s with
  | nil => rfl
  | cons act acts ih =>
    rw [List.mem_cons, not_or] at hleave
    refine (ih (h.perform act) hleave.2).trans ?_
    cases hact : act.ends with
    | false => exact (step_perform h.fits.mailbox hact).lost_eq
    | true =>
      cases act with
      | close => rfl
      | leave => exact absurd rfl hleave.1
      | _ => contradiction

private theorem pending (h : s.Sound label capacity) {call : Nat}
    (hcall : call ∈ s.mailbox.unsettled) (hw : (s.mailbox.settle call).1 = .waiting) :
    s.mailbox.closed = false ∧ s.mailbox.occupied = max capacity 1 := by
  rw [Mailbox.settle] at hw
  split at hw
  · contradiction
  · rename_i ho
    rw [Bool.not_eq_true] at ho
    refine ⟨ho, h.fits.full ho ?_⟩
    intro hnil
    -- nobody waits, so that the call has a slot
    rw [Mailbox.unsettled, hnil, List.append_nil] at hcall
    obtain ⟨w, hmem, rfl⟩ := List.mem_map.mp hcall
    cases hl : s.mailbox.granted.lookup w.1 with
    | some message => simp [hl] at hw
    | none => simpa using List.lookup_eq_none_iff.mp hl w hmem

private theorem refused (hc : s.mailbox.closed = true) {call : Nat}
    (hcall : call ∈ s.mailbox.unsettled) :
    (s.perform (.look call)).returned = s.returned ++ [(call, .error (.closed s.mailbox.label))] ∧
      call ∉ (s.perform (.look call)).mailbox.unsettled := by
  rw [Traffic.perform, if_pos hcall, look_of_closed hc]
  refine ⟨rfl, ?_⟩
  rw [conclude, Mailbox.unsettled, ← List.filter_append]
  simp

private theorem disconnects (h : s.Sound label capacity) :
    s.mailbox.receive.1 = .disconnected ↔ s.mailbox.queue = [] ∧
      (s.mailbox.closed = true ∨ s.clones = [] ∧ s.mailbox.unsettled = []) := by
  rw [← List.length_eq_zero_iff (l := s.clones), ← h.fits.senders]
  cases hq : s.mailbox.queue with
  | nil =>
    cases hc : s.mailbox.closed <;> simp [Mailbox.receive, hq, hc, Mailbox.unsettled, and_assoc]
  | cons message rest => simp [Mailbox.receive_cons hq]

end Sound

/-- A mailbox loses nothing, brings nothing twice, and keeps the order. However many clones of its
sender there are, and whatever they and the receiver do in whatever order, the mailbox behaves as it
is to behave; and if calls use their slots as soon as they are handed them, then they are accepted
in the order in which they are admitted. -/
theorem behaves_lawfully (label : String) (capacity : Nat) (acts : List (Act α)) :
    ((ofCapacity label capacity).performAll acts).Lawful capacity acts ∧
      ((ofCapacity label capacity).Prompt acts →
        ((ofCapacity label capacity).performAll acts).InTurn) := by
  have hstart := sound_ofCapacity (α := α) label capacity
  have hsound := hstart.performAll acts
  refine ⟨?_, fun hprompt => ?_⟩
  · exact
      { conserved := hsound.accounted.conserved
        lost := hstart.lost_performAll
        calls := hsound.accounted.calls
        abandoned := fun call hcall =>
          (hstart.mem_abandoned hcall).resolve_left List.not_mem_nil
        bounded := hsound.fits.slots ▸ hsound.fits.mailbox.slots
        pending := fun _ hcall hw => hsound.pending hcall hw
        ordered := hsound.orderly.ordered
        admitted := hsound.orderly.admitted
        outcome := hsound.orderly.outcome
        closed := hstart.closed_performAll acts
        shut := fun hc more => .performAll hsound hc more
        refused := fun hc _ hcall => Sound.refused hc hcall
        receivable := by
          intro message rest hq
          rw [perform, receive, Mailbox.receive_cons hq]
          exact ⟨rfl, rfl⟩
        disconnects := hsound.disconnects }
  · have hidle : (ofCapacity label capacity : Traffic α).InTurn := .of_idle rfl rfl
    exact hidle.performAll hstart hprompt

/-- One slot, two calls that wait for it, and one that does not and is dropped. The mailbox is
closed while a call still waits, and a message is still queued. -/
def squeeze : List (Act Nat) :=
  [.offer 0 10, .deliver 0 .wait 11, .clone 0, .deliver 1 .wait 12, .drop 1, .offer 0 13, .receive,
    .look 1, .close, .look 2, .offer 0 14, .receive]

theorem behaves_lawfully_squeeze :
    let s := (ofCapacity "m" 0 : Traffic Nat).performAll squeeze
    s.Lawful 0 squeeze ∧ s.InTurn ∧ s.mailbox.closed = true ∧ s.admitted = [0, 1] ∧
      s.returned.map (·.1) = [0, 3, 1, 2, 4] ∧ s.accepted = [0, 1] ∧ s.received = [10, 11] ∧
      s.mailbox.receive.1 = .disconnected := by
  have hprompt : (ofCapacity "m" 0 : Traffic Nat).Prompt squeeze := by
    simp only [squeeze, Prompt]
    decide +kernel
  have hlawful := behaves_lawfully "m" 0 squeeze
  exact ⟨hlawful.1, hlawful.2 hprompt, by decide +kernel⟩

end Lobby.Traffic
