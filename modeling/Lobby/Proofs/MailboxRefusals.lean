import Lobby.Proofs.MailboxSoundness

/-! What a mailbox tells those who put messages in, through any number of clones of its sender: who
is refused and why, and how many have been refused because it was full. -/
namespace Lobby.Traffic
variable {α : Type} {label : String} {capacity : Nat} {s t : Traffic α} {act : Act α}

def dropped? (s : Traffic α) (via : Nat) : Option UInt64 :=
  if via ∈ s.clones then some s.mailbox.dropped else none

/-- What callers and the owner of a mailbox may rely on after some acts. -/
structure Accounts (label : String) (capacity : Nat) (acts : List (Act α)) (s : Traffic α) :
    Prop where
  /-- A call that does not wait, through whatever clone, is told that the mailbox is closed if its
  receiver has closed it or gone away; that it is full if it is not closed and every slot is filled
  or has been handed to a call that waits; and otherwise it is accepted. -/
  told : ∀ via ∈ s.clones, ∀ message,
    ∀ act ∈ [.offer via message, .deliver via .dropNewest message], ∃ result,
      (s.perform act).returned = s.returned ++ [(s.brought.length, result)] ∧
      (result = .error (.closed label) ↔ acts.any Act.ends) ∧
      (result = .error (.full label) ↔
        ¬ acts.any Act.ends ∧ s.mailbox.queue.length + s.mailbox.granted.length = max capacity 1) ∧
      (result = .ok () ↔
        ¬ acts.any Act.ends ∧ s.mailbox.queue.length + s.mailbox.granted.length < max capacity 1)
  /-- Every clone shows how many calls have failed so far because the mailbox was full, whatever
  clones they were made through; the counter starts again when it has counted as far as it can. -/
  counted : ∀ via ∈ s.clones, s.dropped? via = some (UInt64.ofNat s.refusals)
  exact : s.refusals < UInt64.size →
    ∀ via ∈ s.clones, (s.dropped? via).map (·.toNat) = some s.refusals
  /-- The counter moves only at a call that does not wait and is told that the mailbox is full. -/
  steady : ∀ act, (s.perform act).mailbox.dropped = s.mailbox.dropped ∨
    ∃ via message, (act = .offer via message ∨ act = .deliver via .dropNewest message) ∧
      (s.perform act).returned = s.returned ++ [(s.brought.length, .error (.full label))] ∧
      (s.perform act).mailbox.dropped = s.mailbox.dropped + 1
  /-- What has been received is what the first of the accepted calls have brought, and a call that
  was refused is none of these. -/
  received : ∃ calls, calls <+: s.accepted ∧ s.received.map some = calls.map (s.brought[·]?) ∧
    ∀ call fault, (call, .error fault) ∈ s.returned → call ∉ calls

theorem returned_offer (s : Traffic α) (message : α) : (s.offer message).returned =
    s.returned ++ [(s.brought.length, (s.mailbox.offer message).1)] := by
  rw [offer]
  split <;> rename_i hr <;> rw [hr] <;> rfl

/-- What an offer comes to. -/
private theorem Fits.offered (h : s.Fits label capacity) (message : α) :
    ((s.mailbox.offer message).1 = .error (.closed label) ↔ s.mailbox.closed = true) ∧
      ((s.mailbox.offer message).1 = .error (.full label) ↔
        s.mailbox.closed = false ∧ s.mailbox.occupied = max capacity 1) ∧
      ((s.mailbox.offer message).1 = .ok () ↔
        s.mailbox.closed = false ∧ s.mailbox.occupied < max capacity 1) := by
  rw [Mailbox.offer, ← h.label]
  cases hc : s.mailbox.closed with
  | true => simp
  | false =>
    by_cases hfull : s.mailbox.isFull
    · simp [hfull, h.occupied_of_full hfull]
    · have hroom : s.mailbox.occupied < max capacity 1 := by
        rw [Mailbox.isFull, decide_eq_true_iff, h.slots] at hfull
        omega
      simp [hfull, hroom, Nat.ne_of_lt hroom]

/-- The counter moves only where a call that does not wait finds the mailbox full. -/
private theorem Step.dropped_cases (hs : s.Step act t) : t.mailbox.dropped = s.mailbox.dropped ∨
    ∃ via message, (act = .offer via message ∨ act = .deliver via .dropNewest message) ∧
      t.returned = s.returned ++ [(s.brought.length, .error (.full s.mailbox.label))] ∧
      t.mailbox.dropped = s.mailbox.dropped + 1 := by
  cases hs with
  | drops hact => exact .inr ⟨_, _, hact, rfl, rfl⟩
  | _ => exact .inl rfl

private theorem Sound.steady (h : s.Sound label capacity) (act : Act α) :
    (s.perform act).mailbox.dropped = s.mailbox.dropped ∨
      ∃ via message, (act = .offer via message ∨ act = .deliver via .dropNewest message) ∧
        (s.perform act).returned = s.returned ++ [(s.brought.length, .error (.full label))] ∧
        (s.perform act).mailbox.dropped = s.mailbox.dropped + 1 := by
  cases hact : act.ends with
  | false =>
    have hsteady := (step_perform h.fits.mailbox hact).dropped_cases
    rwa [h.fits.label] at hsteady
  | true =>
    cases act with
    | close | leave => exact .inl rfl
    | _ => contradiction

/-- What the receiver gets comes from accepted calls. -/
private theorem Accounted.received (h : s.Accounted) :
    ∃ calls, calls <+: s.accepted ∧ s.received.map some = calls.map (s.brought[·]?) ∧
      ∀ call fault, (call, .error fault) ∈ s.returned → call ∉ calls := by
  have hconserved := congrArg (List.take s.received.length) h.conserved
  rw [← List.map_take, ← List.map_take, List.append_assoc, List.take_left] at hconserved
  refine ⟨_, List.take_prefix _ _, hconserved, ?_⟩
  intro call fault hfault hcall
  obtain ⟨⟨call', result⟩, hok, rfl⟩ := List.mem_map.mp ((List.take_prefix _ _).subset hcall)
  obtain ⟨hreturned, hok⟩ := List.mem_filter.mp hok
  -- a call returns once
  have hsame := List.inj_on_of_nodup_map h.nodup_returned hreturned hfault rfl
  rw [hsame] at hok
  contradiction

/-- Refusals are reported and counted. Whatever is done to a mailbox in whatever order, through any
number of clones of its sender, the calls that do not wait are told how the mailbox stands, and the
drop counter, read through any clone, is the number of those that have found it full. -/
theorem refusals_counted (label : String) (capacity : Nat) (acts : List (Act α)) :
    ((ofCapacity label capacity).performAll acts).Accounts label capacity acts := by
  have hstart := sound_ofCapacity (α := α) label capacity
  have hsound := hstart.performAll acts
  have hclosed : ((ofCapacity label capacity).performAll acts).mailbox.closed =
      acts.any Act.ends := hstart.closed_performAll acts
  generalize (ofCapacity label capacity).performAll acts = s at hsound hclosed
  have hcounted : ∀ via ∈ s.clones, s.dropped? via = some (UInt64.ofNat s.refusals) := by
    intro via hvia
    rw [dropped?, if_pos hvia, hsound.accounted.counted]
  refine ⟨?_, hcounted, ?_, hsound.steady, hsound.accounted.received⟩
  · intro via hvia message act hact
    have hperform : s.perform act = s.offer message := by
      rw [List.mem_pair] at hact
      rcases hact with rfl | rfl <;> rw [perform, if_pos hvia]
    have hoffered := hsound.fits.offered message
    rw [hclosed, ← Bool.not_eq_true] at hoffered
    rw [hperform]
    exact ⟨_, s.returned_offer message, hoffered⟩
  · intro hlt via hvia
    rw [hcounted via hvia, Option.map_some, UInt64.toNat_ofNat_of_lt' hlt]

/-- Two senders find a mailbox of one slot full, one of them while the slot has been handed on. -/
example : ((ofCapacity "m" 0 : Traffic Nat).performAll
    [.clone 0, .offer 0 10, .offer 1 11, .deliver 0 .wait 12, .drop 0, .receive,
      .deliver 1 .dropNewest 13]).dropped? 1 = some 2 := by
  decide

end Lobby.Traffic
