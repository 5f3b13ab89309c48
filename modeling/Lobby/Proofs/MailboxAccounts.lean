import Lobby.Proofs.MailboxTraffic

/-! The book of a mailbox balances: every call is answered for, no message is lost or comes twice,
and refusals are counted. -/
namespace Lobby.Traffic
variable {α : Type} {s t : Traffic α} {act : Act α}

theorem accepted_conclude_ok (s : Traffic α) (call : Nat) :
    (s.conclude call (.ok ())).accepted = s.accepted ++ [call] := by
  simp [conclude, accepted, Except.isOk, Except.toBool]

theorem accepted_conclude_error (s : Traffic α) (call : Nat) (fault : MailboxFault) :
    (s.conclude call (.error fault)).accepted = s.accepted := by
  simp [conclude, accepted, Except.isOk, Except.toBool]

theorem accepted_accept (s : Traffic α) (message : α) (mailbox : Mailbox Nat α) :
    (s.accept message mailbox).accepted = s.accepted ++ [s.brought.length] :=
  accepted_conclude_ok (s.bring message mailbox) s.brought.length

theorem refusals_conclude (s : Traffic α) (call : Nat) (result : Except MailboxFault Unit) :
    (s.conclude call result).refusals = s.refusals + (isDropped result).toNat := by
  rw [conclude, refusals, List.countP_append, List.countP_singleton, refusals]
  cases isDropped result <;> rfl

theorem held_of_open (ho : s.mailbox.closed = false) : s.held = s.mailbox.granted.map (·.1) := by
  simp [held, ho]

theorem held_of_closed (hc : s.mailbox.closed = true) : s.held = [] := by
  simp [held, hc]

/-- Every call has returned once, is under way, or was given up. What has been received, is queued,
or went with the receiver is what the calls that returned without a fault have brought. -/
structure Accounted (s : Traffic α) : Prop where
  calls : (s.returned.map (·.1) ++ s.mailbox.unsettled ++ s.abandoned).Perm
    (List.range s.brought.length)
  carried : ∀ w ∈ s.mailbox.underWay, s.brought[w.1]? = some w.2
  conserved : (s.received ++ s.mailbox.queue ++ s.lost).map some = s.accepted.map (s.brought[·]?)
  lost : s.mailbox.closed = false → s.lost = []
  counted : s.mailbox.dropped = UInt64.ofNat s.refusals

namespace Accounted

theorem lt_of_returned (h : s.Accounted) {n : Nat} (hn : n ∈ s.returned.map (·.1)) :
    n < s.brought.length :=
  List.mem_range.mp (h.calls.subset (List.mem_append_left _ (List.mem_append_left _ hn)))

theorem lt_of_accepted (h : s.Accounted) {n : Nat} (hn : n ∈ s.accepted) : n < s.brought.length :=
  h.lt_of_returned ((List.filter_sublist.map _).subset hn)

theorem lt_of_unsettled (h : s.Accounted) {n : Nat} (hn : n ∈ s.mailbox.unsettled) :
    n < s.brought.length :=
  List.mem_range.mp (h.calls.subset (List.mem_append_left _ (List.mem_append_right _ hn)))

theorem lt_of_held (h : s.Accounted) {n : Nat} (hn : n ∈ s.held) : n < s.brought.length := by
  apply h.lt_of_unsettled
  rw [held] at hn
  split at hn
  · exact absurd hn List.not_mem_nil
  · rw [Mailbox.unsettled, List.map_append]
    exact List.mem_append_left _ hn

theorem lt_of_abandoned (h : s.Accounted) {n : Nat} (hn : n ∈ s.abandoned) :
    n < s.brought.length :=
  List.mem_range.mp (h.calls.subset (List.mem_append_right _ hn))

theorem not_mem_unsettled (h : s.Accounted) : s.brought.length ∉ s.mailbox.unsettled :=
  fun hn => absurd (h.lt_of_unsettled hn) (Nat.lt_irrefl _)

theorem nodup_returned (h : s.Accounted) : (s.returned.map (·.1)).Nodup :=
  (h.calls.nodup_iff.mpr List.nodup_range).of_append_left.of_append_left

/-- A new call has a number of its own, whether it returns or is under way. -/
private theorem calls_bring (h : s.Accounted) (message : α) {calls : List Nat}
    (hcalls : calls.Perm
      (s.brought.length :: (s.returned.map (·.1) ++ s.mailbox.unsettled ++ s.abandoned))) :
    calls.Perm (List.range (s.brought ++ [message]).length) := by
  rw [List.length_append, List.length_singleton, List.range_succ]
  exact hcalls.trans ((h.calls.cons _).trans (List.perm_append_singleton _ _).symm)

private theorem calls_conclude (h : s.Accounted) (message : α)
    (result : Except MailboxFault Unit) :
    ((s.returned ++ [(s.brought.length, result)]).map (·.1) ++ s.mailbox.unsettled ++
      s.abandoned).Perm (List.range (s.brought ++ [message]).length) := by
  apply h.calls_bring
  rw [List.map_append, List.append_assoc, List.append_assoc, List.append_assoc]
  exact List.perm_middle

/-- A call that is under way no more has returned. -/
private theorem calls_over (h : s.Accounted) {call : Nat} {rest : List Nat}
    (hgone : (call :: rest).Perm s.mailbox.unsettled) (result : Except MailboxFault Unit) :
    ((s.returned ++ [(call, result)]).map (·.1) ++ rest ++ s.abandoned).Perm
      (List.range s.brought.length) := by
  refine .trans ?_ h.calls
  rw [List.map_append, List.append_assoc (s.returned.map (·.1))]
  exact (hgone.append_left _).append_right _

private theorem calls_abandoned (h : s.Accounted) {call : Nat} {rest : List Nat}
    (hgone : (call :: rest).Perm s.mailbox.unsettled) :
    (s.returned.map (·.1) ++ rest ++ (s.abandoned ++ [call])).Perm
      (List.range s.brought.length) := by
  refine .trans ?_ h.calls
  rw [List.append_assoc, List.append_assoc]
  refine .append_left _ (.trans ?_ (hgone.append_right _))
  rw [← List.append_assoc]
  exact List.perm_append_singleton _ _

/-- A further message does not change what the calls so far have brought. -/
private theorem carried_bring (h : s.Accounted) (message : α) :
    ∀ w ∈ s.mailbox.underWay, (s.brought ++ [message])[w.1]? = some w.2 := by
  intro w hw
  rw [List.getElem?_append_left (h.lt_of_unsettled (List.mem_map_of_mem hw))]
  exact h.carried w hw

private theorem accepted_bring (h : s.Accounted) (message : α) :
    s.accepted.map ((s.brought ++ [message])[·]?) = s.accepted.map (s.brought[·]?) := by
  apply List.map_congr_left
  intro n hn
  exact List.getElem?_append_left (h.lt_of_accepted hn)

/-- While the mailbox is open, a further accepted message is the last that there is. -/
private theorem conserved_push (h : s.Accounted) (ho : s.mailbox.closed = false) (message : α) :
    (s.received ++ (s.mailbox.queue ++ [message]) ++ s.lost).map some =
      s.accepted.map (s.brought[·]?) ++ [some message] := by
  have hconserved := h.conserved
  rw [h.lost ho, List.append_nil] at hconserved ⊢
  rw [← List.append_assoc, List.map_append, hconserved]
  rfl

private theorem handOn (h : s.Accounted) : s.handOn.Accounted where
  calls := by
    have hcalls := h.calls
    rwa [Mailbox.unsettled_eq, ← s.mailbox.underWay_advance] at hcalls
  carried := by
    have hcarried := h.carried
    rwa [← s.mailbox.underWay_advance] at hcarried
  conserved := h.conserved
  lost := h.lost
  counted := h.counted

private theorem accept (h : s.Accounted) (ho : s.mailbox.closed = false) (message : α) :
    (s.accept message
      { s.mailbox with queue := s.mailbox.queue ++ [message] }).Accounted where
  calls := h.calls_conclude message _
  carried := h.carried_bring message
  conserved := by
    refine (h.conserved_push ho message).trans ?_
    rw [accepted_accept, ← h.accepted_bring message]
    simp [Traffic.accept, conclude, bring]
  lost := fun _ => h.lost ho
  counted := h.counted.trans
    (congrArg UInt64.ofNat (refusals_conclude (s.bring message _) _ (.ok ())).symm)

/-- A new call that fails at once. It is counted if the mailbox is full. -/
private theorem reject (h : s.Accounted) (message : α) {dropped : UInt64} {fault : MailboxFault}
    (hdropped : dropped = s.mailbox.dropped + UInt64.ofNat (isDropped (.error fault)).toNat) :
    ((s.bring message { s.mailbox with dropped }).conclude s.brought.length
      (.error fault)).Accounted where
  calls := h.calls_conclude message _
  carried := h.carried_bring message
  conserved := by
    rw [accepted_conclude_error]
    exact h.conserved.trans (h.accepted_bring message).symm
  lost := h.lost
  counted := by
    rw [refusals_conclude, UInt64.ofNat_add]
    refine hdropped.trans ?_
    rw [h.counted]
    rfl

private theorem wait (h : s.Accounted) (message : α) :
    (s.bring message { s.mailbox with
      waiting := s.mailbox.waiting ++ [(s.brought.length, message)] }).Accounted where
  calls := by
    apply h.calls_bring
    simp only [bring, Mailbox.unsettled, List.map_append, ← List.append_assoc]
    rw [List.append_assoc _ _ s.abandoned]
    exact List.perm_middle
  carried := by
    intro w hw
    simp only [bring, Mailbox.underWay, ← List.append_assoc] at hw ⊢
    rcases List.mem_append.mp hw with hw | hw
    · exact h.carried_bring message w hw
    · rw [List.mem_singleton.mp hw]
      simp
  conserved := h.conserved.trans (h.accepted_bring message).symm
  lost := h.lost
  counted := h.counted

private theorem fill (h : s.Accounted) (ho : s.mailbox.closed = false) {call : Nat} {message : α}
    {granted : List (Nat × α)} (hslot : ((call, message) :: granted).Perm s.mailbox.granted) :
    (({ s with mailbox := { s.mailbox with granted, queue := s.mailbox.queue ++ [message] } } :
      Traffic α).conclude call (.ok ())).Accounted where
  calls := h.calls_over (Mailbox.perm_unsettled_of_granted hslot) _
  carried := by
    intro w hw
    apply h.carried
    rcases List.mem_append.mp hw with hw | hw
    · exact List.mem_append_left _ (hslot.subset (List.mem_cons_of_mem _ hw))
    · exact List.mem_append_right _ hw
  conserved := by
    have hbrought := h.carried _ (List.mem_append_left _ (hslot.subset List.mem_cons_self))
    refine (h.conserved_push ho message).trans ?_
    rw [accepted_conclude_ok]
    simp [conclude, accepted, hbrought]
  lost := fun _ => h.lost ho
  counted := h.counted.trans (congrArg UInt64.ofNat (refusals_conclude { s with
    mailbox := { s.mailbox with granted, queue := s.mailbox.queue ++ [message] } } _ (.ok ())).symm)

/-- Whether a call fails or is given up, the others are under way as before. -/
private theorem carried_of_subset (h : s.Accounted) {granted waiting : List (Nat × α)}
    (hgranted : granted ⊆ s.mailbox.granted) (hwaiting : waiting ⊆ s.mailbox.waiting) :
    ∀ w ∈ granted ++ waiting, s.brought[w.1]? = some w.2 := by
  intro w hw
  apply h.carried
  rcases List.mem_append.mp hw with hw | hw
  · exact List.mem_append_left _ (hgranted hw)
  · exact List.mem_append_right _ (hwaiting hw)

theorem step (h : s.Accounted) (hs : s.Step act t) : t.Accounted := by
  cases hs with
  | rests => exact h
  | accepts _ ho => exact h.accept ho _
  | drops => exact h.reject _ rfl
  | waits => exact h.wait _
  | refuses => exact h.reject _ (UInt64.add_zero _).symm
  | fills ho hslot => exact h.fill ho hslot
  | fails _ hgone hgranted hwaiting =>
    exact
      { calls := h.calls_over hgone _
        carried := h.carried_of_subset hgranted.subset hwaiting.subset
        conserved := by
          rw [accepted_conclude_error]
          exact h.conserved
        lost := h.lost
        counted := by
          rw [refusals_conclude]
          exact h.counted }
  | takes hq =>
    apply handOn
    exact
      { h with
        conserved := by
          have hconserved := h.conserved
          rwa [hq, List.append_cons] at hconserved }
  | yields hslot =>
    apply handOn
    exact
      { h with
        calls := h.calls_abandoned (Mailbox.perm_unsettled_of_granted hslot)
        carried := h.carried_of_subset
          (fun _ hw => hslot.subset (List.mem_cons_of_mem _ hw)) (List.Subset.refl _) }
  | retires hplace hwaiting =>
    exact
      { h with
        calls := h.calls_abandoned (Mailbox.perm_unsettled_of_waiting hplace)
        carried := h.carried_of_subset (List.Subset.refl _) hwaiting.subset }
  | shares => exact { h with }

end Accounted

end Lobby.Traffic
