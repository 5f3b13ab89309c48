import Lobby.Proofs.MailboxAccounts

/-! What holds of a mailbox and of its book whatever is done, in particular that calls are admitted
in the order in which they were made. -/
namespace Lobby.Traffic
variable {α : Type} {label : String} {capacity : Nat} {s t : Traffic α} {act : Act α}

structure Fits (label : String) (capacity : Nat) (s : Traffic α) : Prop where
  mailbox : s.mailbox.Sound
  label : s.mailbox.label = label
  slots : s.mailbox.capacity = max capacity 1
  senders : s.mailbox.senders = s.clones.length
  full : s.mailbox.closed = false → s.mailbox.waiting ≠ [] → s.mailbox.occupied = max capacity 1

/-- Calls are admitted in the order in which they were made, so that those that wait are before all
later ones. -/
structure Orderly (s : Traffic α) : Prop where
  ordered : (s.admitted ++ s.mailbox.waiting.map (·.1)).Pairwise (· < ·)
  admitted : s.accepted ++ s.held ⊆ s.admitted
  outcome : s.mailbox.closed = false → s.admitted ⊆ s.accepted ++ s.held ++ s.abandoned

structure Sound (label : String) (capacity : Nat) (s : Traffic α) : Prop where
  fits : s.Fits label capacity
  accounted : s.Accounted
  orderly : s.Orderly

theorem sound_ofCapacity (label : String) (capacity : Nat) :
    (ofCapacity label capacity : Traffic α).Sound label capacity where
  fits := ⟨Mailbox.sound_ofCapacity label capacity, rfl, rfl, rfl, fun _ h => absurd rfl h⟩
  accounted := ⟨.refl _, fun _ h => absurd h List.not_mem_nil, rfl, fun _ => rfl, rfl⟩
  orderly := ⟨.nil, List.Subset.refl _, fun _ => List.Subset.refl _⟩

namespace Fits

/-- While there is room, nobody waits. -/
theorem waiting_nil (h : s.Fits label capacity) (ho : s.mailbox.closed = false)
    (hroom : s.mailbox.isFull = false) : s.mailbox.waiting = [] := by
  by_contra hw
  have hfull := h.full ho hw
  rw [Mailbox.isFull, decide_eq_false_iff_not, h.slots] at hroom
  omega

theorem occupied_of_full (h : s.Fits label capacity) (hfull : s.mailbox.isFull = true) :
    s.mailbox.occupied = max capacity 1 := by
  have hslots := h.mailbox.slots
  rw [Mailbox.isFull, decide_eq_true_iff] at hfull
  rw [h.slots] at hslots hfull
  omega

/-- A slot that has become free is filled again. -/
private theorem handOn (hs : s.mailbox.occupied < max capacity 1)
    (hnames : s.mailbox.unsettled.Nodup) (hlabel : s.mailbox.label = label)
    (hslots : s.mailbox.capacity = max capacity 1)
    (hsenders : s.mailbox.senders = s.clones.length)
    (hfull : s.mailbox.closed = false → s.mailbox.waiting ≠ [] →
      s.mailbox.occupied + 1 = max capacity 1) : s.handOn.Fits label capacity where
  mailbox := by
    have hm := Mailbox.sound_release (hslots ▸ hs) hnames
    rwa [Mailbox.release_eq] at hm
  label := hlabel
  slots := hslots
  senders := hsenders
  full := by
    intro ho hw
    have hwas : s.mailbox.waiting ≠ [] := fun hnil => hw (by simp [Traffic.handOn, letIn,
      Mailbox.advance, hnil])
    have hlength : (s.mailbox.waiting.take 1).length = 1 := by
      rw [List.length_take, Nat.min_eq_left (List.length_pos_iff.mpr hwas)]
    have hbefore := hfull ho hwas
    simp only [Traffic.handOn, letIn, Mailbox.advance, Mailbox.occupied, List.length_append,
      hlength] at hbefore ⊢
    omega

end Fits

theorem Sound.fits_step (h : s.Sound label capacity) (hs : s.Step act t) :
    t.Fits label capacity := by
  obtain ⟨hfits, haccounted, -⟩ := h
  have hslots := hfits.mailbox.slots
  rw [hfits.slots] at hslots
  have hnames := hfits.mailbox.names
  cases hs with
  | rests => exact hfits
  | accepts _ ho hroom =>
    have hwaiting := hfits.waiting_nil ho hroom
    exact { hfits with
      mailbox := hfits.mailbox.push hroom _
      full := fun _ hw => absurd hwaiting hw }
  | drops | refuses => exact { hfits with mailbox := ⟨hfits.mailbox.slots, hnames⟩ }
  | waits _ _ hfull =>
    exact { hfits with
      mailbox := hfits.mailbox.lineUp haccounted.not_mem_unsettled _
      full := fun _ _ => hfits.occupied_of_full hfull }
  | @fills call message granted ho hslot =>
    have hoccupied : ({ s.mailbox with granted, queue := s.mailbox.queue ++ [message] } :
        Mailbox Nat α).occupied = s.mailbox.occupied := by
      rw [← Mailbox.occupied_of_granted hslot]
      simp only [Mailbox.occupied, List.length_append, List.length_singleton]
      omega
    have hgone := Mailbox.perm_unsettled_of_granted hslot
    exact { hfits with
      mailbox := ⟨hoccupied.symm ▸ hfits.mailbox.slots, (hgone.nodup_iff.mpr hnames).of_cons⟩
      full := fun ho hw => hoccupied.trans (hfits.full ho hw) }
  | fails hc hgone hgranted =>
    have hlength := hgranted.length_le
    have hbefore := hfits.mailbox.slots
    exact { hfits with
      mailbox := by
        refine ⟨?_, (hgone.nodup_iff.mpr hnames).of_cons⟩
        simp only [conclude, Mailbox.occupied] at hbefore ⊢
        omega
      full := fun ho => absurd (hc.symm.trans ho) (by simp) }
  | @takes message rest hq =>
    have hoccupied : ({ s.mailbox with queue := rest } : Mailbox Nat α).occupied + 1 =
        s.mailbox.occupied := by
      simp only [Mailbox.occupied, hq, List.length_cons]
      omega
    have hroom : ({ s.mailbox with queue := rest } : Mailbox Nat α).occupied < max capacity 1 := by
      omega
    exact Fits.handOn hroom hnames hfits.label hfits.slots hfits.senders
      fun ho hw => hoccupied.trans (hfits.full ho hw)
  | @yields call message granted hslot =>
    have hoccupied : ({ s.mailbox with granted } : Mailbox Nat α).occupied + 1 =
        s.mailbox.occupied := Mailbox.occupied_of_granted hslot
    have hroom : ({ s.mailbox with granted } : Mailbox Nat α).occupied < max capacity 1 := by
      omega
    have hgone := Mailbox.perm_unsettled_of_granted hslot
    exact Fits.handOn hroom (hgone.nodup_iff.mpr hnames).of_cons hfits.label hfits.slots
      hfits.senders fun ho hw => hoccupied.trans (hfits.full ho hw)
  | @retires call message waiting hplace hwaiting =>
    have hsub : (s.mailbox.granted ++ waiting).Sublist s.mailbox.underWay :=
      hwaiting.append_left _
    exact { hfits with
      mailbox := ⟨hfits.mailbox.slots, hnames.sublist (hsub.map _)⟩
      full := fun ho hw => hfits.full ho fun hnil => hw (List.sublist_nil.mp (hnil ▸ hwaiting)) }
  | shares hsenders =>
    exact { hfits with
      mailbox := ⟨hfits.mailbox.slots, hnames⟩
      senders := hsenders hfits.senders }

theorem accepted_handOn (s : Traffic α) : s.handOn.accepted = s.accepted := rfl

theorem abandoned_handOn (s : Traffic α) : s.handOn.abandoned = s.abandoned := rfl

namespace Orderly

/-- Once the mailbox is closed, nobody holds a slot. -/
private theorem shut (h : s.Orderly) (hc : t.mailbox.closed = true)
    (haccepted : t.accepted = s.accepted) (hadmitted : t.admitted = s.admitted)
    (hwaiting : t.mailbox.waiting.Sublist s.mailbox.waiting) : t.Orderly where
  ordered := by
    rw [hadmitted]
    exact h.ordered.sublist (.append_left (hwaiting.map _) _)
  admitted := by
    rw [held_of_closed hc, List.append_nil, haccepted, hadmitted]
    exact fun n hn => h.admitted (List.mem_append_left _ hn)
  outcome := fun ho => absurd (hc.symm.trans ho) (by simp)

/-- A call that gives up its slot was admitted for nothing. -/
private theorem abandon (h : s.Orderly) {call : Nat} {message : α} {granted : List (Nat × α)}
    (hslot : ((call, message) :: granted).Perm s.mailbox.granted) :
    ({ s with
      mailbox := { s.mailbox with granted }
      abandoned := s.abandoned ++ [call] } : Traffic α).Orderly where
  ordered := h.ordered
  admitted := by
    intro n hn
    apply h.admitted
    rcases List.mem_append.mp hn with hn | hn
    · exact List.mem_append_left _ hn
    · refine List.mem_append_right _ ?_
      rw [held] at hn ⊢
      split at hn
      · exact absurd hn List.not_mem_nil
      · rw [if_neg ‹_›]
        exact (hslot.map (·.1)).subset (List.mem_cons_of_mem _ hn)
  outcome := by
    intro ho n hn
    replace ho : s.mailbox.closed = false := ho
    have hsame : n ∈ s.mailbox.granted.map (·.1) ↔ n = call ∨ n ∈ granted.map (·.1) := by
      rw [← (hslot.map (·.1)).mem_iff, List.map_cons, List.mem_cons]
    have hwas := h.outcome ho hn
    simp only [held, accepted, ho, Bool.false_eq_true, if_false, List.mem_append, hsame,
      List.mem_singleton] at hwas ⊢
    tauto

private theorem handOn (h : s.Orderly) : s.handOn.Orderly := by
  have hnext : (s.mailbox.waiting.head?.map (·.1)).toList =
      (s.mailbox.waiting.take 1).map (·.1) := by
    cases s.mailbox.waiting <;> rfl
  have hline : (s.mailbox.waiting.take 1).map (·.1) ++ (s.mailbox.waiting.drop 1).map (·.1) =
      s.mailbox.waiting.map (·.1) := by
    rw [← List.map_append, List.take_append_drop]
  have hordered := h.ordered
  have hadmitted := h.admitted
  rw [← hline] at hordered
  cases hc : s.mailbox.closed with
  | true =>
    have hclosed : s.handOn.mailbox.closed = true := hc
    have hsame : s.handOn.admitted = s.admitted := by simp [Traffic.handOn, letIn, hc]
    rw [held_of_closed hc] at hadmitted
    constructor
    · rw [hsame]
      exact hordered.sublist (.append_left (List.sublist_append_right _ _) _)
    · rw [hsame, held_of_closed hclosed]
      exact hadmitted
    · exact fun ho => absurd (hclosed.symm.trans ho) (by simp)
  | false =>
    have hopen : s.handOn.mailbox.closed = false := hc
    have houtcome := h.outcome hc
    have hmore : s.handOn.admitted = s.admitted ++ (s.mailbox.waiting.take 1).map (·.1) := by
      simp [Traffic.handOn, letIn, hc, ← hnext]
    have hheld : s.handOn.held = s.held ++ (s.mailbox.waiting.take 1).map (·.1) := by
      rw [held_of_open hopen, held_of_open hc, ← List.map_append]
      rfl
    rw [← List.append_assoc] at hordered
    constructor
    · rw [hmore]
      exact hordered
    · intro n hn
      rw [hheld] at hn
      rw [hmore]
      have hwas := @hadmitted n
      simp only [accepted_handOn, List.mem_append] at hn hwas ⊢
      tauto
    · intro _ n hn
      rw [hmore] at hn
      rw [hheld]
      have hwas := @houtcome n
      simp only [accepted_handOn, abandoned_handOn, List.mem_append] at hn hwas ⊢
      tauto

private theorem accept (h : s.Orderly) (hwaiting : s.mailbox.waiting = [])
    (hlast : ∀ n ∈ s.admitted, n < s.brought.length) (message : α) :
    (s.accept message
      { s.mailbox with queue := s.mailbox.queue ++ [message] }).Orderly where
  ordered := by
    have hordered := h.ordered
    simp only [Traffic.accept, conclude, bring, hwaiting, List.map_nil, List.append_nil]
      at hordered ⊢
    rw [List.pairwise_append]
    refine ⟨hordered, List.pairwise_singleton _ _, ?_⟩
    intro n hn k hk
    rw [List.mem_singleton.mp hk]
    exact hlast n hn
  admitted := by
    rw [accepted_accept]
    intro n hn
    have hwas := @h.admitted n
    simp only [Traffic.accept, conclude, bring, held, List.mem_append] at hn hwas ⊢
    tauto
  outcome := by
    rw [accepted_accept]
    intro ho n hn
    have hwas : n ∈ s.admitted → n ∈ s.accepted ++ s.held ++ s.abandoned :=
      fun hn => h.outcome ho hn
    simp only [Traffic.accept, conclude, bring, held, List.mem_append] at hn hwas ⊢
    tauto

/-- A new call that has to wait comes after all that were admitted or wait already. -/
private theorem wait (h : s.Orderly) (hlast : ∀ n ∈ s.admitted, n < s.brought.length)
    (haccounted : s.Accounted) (message : α) :
    (s.bring message { s.mailbox with
      waiting := s.mailbox.waiting ++ [(s.brought.length, message)] }).Orderly where
  ordered := by
    simp only [bring, List.map_append, ← List.append_assoc]
    rw [List.pairwise_append]
    refine ⟨h.ordered, List.pairwise_singleton _ _, ?_⟩
    intro n hn k hk
    rw [List.mem_singleton.mp hk]
    rcases List.mem_append.mp hn with hn | hn
    · exact hlast n hn
    · apply haccounted.lt_of_unsettled
      rw [Mailbox.unsettled, List.map_append]
      exact List.mem_append_right _ hn
  admitted := h.admitted
  outcome := h.outcome

/-- A call that uses its slot is accepted as it was admitted. -/
private theorem fill (h : s.Orderly) (ho : s.mailbox.closed = false) {call : Nat} {message : α}
    {granted : List (Nat × α)} (hslot : ((call, message) :: granted).Perm s.mailbox.granted) :
    (({ s with mailbox := { s.mailbox with granted, queue := s.mailbox.queue ++ [message] } } :
      Traffic α).conclude call (.ok ())).Orderly := by
  have hsame : (s.accepted ++ [call] ++ granted.map (·.1)).Perm (s.accepted ++ s.held) := by
    have hnames := hslot.map (·.1)
    rw [held_of_open ho, List.append_assoc]
    exact .append_left _ hnames
  constructor
  case ordered => exact h.ordered
  case admitted =>
    rw [accepted_conclude_ok, held]
    simp only [conclude, ho, Bool.false_eq_true, if_false]
    exact fun n hn => h.admitted (hsame.subset hn)
  case outcome =>
    rw [accepted_conclude_ok, held]
    simp only [conclude, ho, Bool.false_eq_true, if_false]
    exact fun _ n hn => (hsame.symm.append_right _).subset (h.outcome ho hn)

theorem step (h : s.Sound label capacity) (hs : s.Step act t) : t.Orderly := by
  obtain ⟨hfits, haccounted, horderly⟩ := h
  have hlast (ho : s.mailbox.closed = false) : ∀ n ∈ s.admitted, n < s.brought.length := by
    intro n hn
    rcases List.mem_append.mp (horderly.outcome ho hn) with hn | hn
    · exact (List.mem_append.mp hn).elim haccounted.lt_of_accepted haccounted.lt_of_held
    · exact haccounted.lt_of_abandoned hn
  cases hs with
  | rests => exact horderly
  | accepts _ ho hroom => exact horderly.accept (hfits.waiting_nil ho hroom) (hlast ho) _
  | drops | refuses =>
    exact
      { ordered := horderly.ordered
        admitted := by
          rw [accepted_conclude_error]
          exact horderly.admitted
        outcome := by
          rw [accepted_conclude_error]
          exact horderly.outcome }
  | waits _ ho => exact horderly.wait (hlast ho) haccounted _
  | fills ho hslot => exact horderly.fill ho hslot
  | fails hc _ _ hwaiting =>
    exact horderly.shut hc (accepted_conclude_error ..) rfl hwaiting
  | takes hq =>
    apply handOn
    exact ⟨horderly.ordered, horderly.admitted, horderly.outcome⟩
  | yields hslot => exact handOn (horderly.abandon hslot)
  | retires hplace hwaiting =>
    exact
      { ordered := horderly.ordered.sublist (.append_left (hwaiting.map _) _)
        admitted := horderly.admitted
        outcome := by
          intro ho n hn
          rw [← List.append_assoc]
          exact List.mem_append_left _ (horderly.outcome ho hn) }
  | shares => exact { horderly with }

end Orderly

namespace Sound

theorem step (h : s.Sound label capacity) (hs : s.Step act t) : t.Sound label capacity :=
  ⟨h.fits_step hs, h.accounted.step hs, .step h hs⟩

private theorem close (h : s.Sound label capacity) :
    (s.perform .close).Sound label capacity where
  fits := { h.fits with
    mailbox := ⟨h.fits.mailbox.slots, h.fits.mailbox.names⟩
    full := fun ho => absurd ho (by simp [Traffic.perform, Mailbox.close]) }
  accounted := { h.accounted with
    lost := fun ho => absurd ho (by simp [Traffic.perform, Mailbox.close]) }
  orderly := h.orderly.shut rfl rfl rfl (.refl _)

private theorem leave (h : s.Sound label capacity) :
    (s.perform .leave).Sound label capacity where
  fits := { h.fits with
    mailbox := by
      have hslots := h.fits.mailbox.slots
      refine ⟨?_, h.fits.mailbox.names⟩
      simp only [Traffic.perform, Mailbox.discard, Mailbox.occupied, List.length_nil] at hslots ⊢
      omega
    full := fun ho => absurd ho (by simp [Traffic.perform, Mailbox.discard]) }
  accounted := { h.accounted with
    conserved := by
      have hconserved := h.accounted.conserved
      rw [List.append_assoc] at hconserved
      simp only [Traffic.perform, Mailbox.discard, List.append_nil]
      exact hconserved
    lost := fun ho => absurd ho (by simp [Traffic.perform, Mailbox.discard]) }
  orderly := h.orderly.shut rfl rfl rfl (.refl _)

theorem perform (h : s.Sound label capacity) (act : Act α) :
    (s.perform act).Sound label capacity := by
  cases hact : act.ends with
  | false => exact h.step (step_perform h.fits.mailbox hact)
  | true =>
    cases act with
    | close => exact h.close
    | leave => exact h.leave
    | _ => contradiction

theorem performAll (h : s.Sound label capacity) (acts : List (Act α)) :
    (s.performAll acts).Sound label capacity := by
  induction acts generalizing s with
  | nil => exact h
  | cons act acts ih => exact ih (h.perform act)

theorem closed_perform (h : s.Sound label capacity) (act : Act α) :
    (s.perform act).mailbox.closed = (s.mailbox.closed || act.ends) := by
  cases hact : act.ends with
  | false => rw [(step_perform h.fits.mailbox hact).closed_eq, Bool.or_false]
  | true =>
    rw [Bool.or_true]
    cases act with
    | close | leave => rfl
    | _ => contradiction

/-- A mailbox is closed once its receiver has closed it or gone away, and not before. -/
theorem closed_performAll (h : s.Sound label capacity) (acts : List (Act α)) :
    (s.performAll acts).mailbox.closed = (s.mailbox.closed || acts.any Act.ends) := by
  induction acts generalizing s with
  | nil => exact (Bool.or_false _).symm
  | cons act acts ih =>
    rw [List.any_cons, ← Bool.or_assoc, ← h.closed_perform act]
    exact ih (h.perform act)

end Sound

end Lobby.Traffic
