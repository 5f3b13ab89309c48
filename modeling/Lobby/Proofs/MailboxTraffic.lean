import Mathlib.Data.List.Nodup
import Lobby.Proofs.MailboxSteps

/-! The book that is kept on a mailbox while clones of its sender and its receiver use it, in
whatever order: which calls there were, how each of them ended, and what became of its message. -/
namespace Lobby

/-- A mailbox in use. Calls are numbered as they are made; the call of number `n` brings the message
`brought[n]`, and is admitted when it gets a slot. -/
structure Traffic (α : Type) where
  mailbox : Mailbox Nat α
  clones : List Nat := [0]
  made : Nat := 1
  brought : List α := []
  returned : List (Nat × Except MailboxFault Unit) := []
  admitted : List Nat := []
  /-- The calls that were given up while they waited. -/
  abandoned : List Nat := []
  received : List α := []
  /-- What was queued when the receiver went away. -/
  lost : List α := []

namespace Traffic
variable {α : Type}

/-- What is done to a mailbox. A call is made through one of the clones of the sender; a call that
waits looks how it stands, or is given up. -/
inductive Act (α : Type) where
  | offer (via : Nat) (message : α)
  | deliver (via : Nat) (policy : OverflowPolicy) (message : α)
  | look (call : Nat)
  | giveUp (call : Nat)
  | receive
  | close
  | leave
  | clone (via : Nat)
  | drop (via : Nat)
  deriving DecidableEq

def ofCapacity (label : String) (capacity : Nat) : Traffic α :=
  { mailbox := .ofCapacity label capacity }

def bring (s : Traffic α) (message : α) (mailbox : Mailbox Nat α) : Traffic α :=
  { s with mailbox, brought := s.brought ++ [message] }

def conclude (s : Traffic α) (call : Nat) (result : Except MailboxFault Unit) : Traffic α :=
  { s with returned := s.returned ++ [(call, result)] }

/-- Writes down a new call that is admitted at once. -/
def accept (s : Traffic α) (message : α) (mailbox : Mailbox Nat α) : Traffic α :=
  let call := s.brought.length
  { (s.bring message mailbox).conclude call (.ok ()) with admitted := s.admitted ++ [call] }

/-- Writes down who gets a slot that has become free. In a closed mailbox it admits nobody. -/
def letIn (s : Traffic α) (next : Option Nat) (mailbox : Mailbox Nat α) : Traffic α :=
  { s with
    mailbox
    admitted := if s.mailbox.closed then s.admitted else s.admitted ++ next.toList }

def offer (s : Traffic α) (message : α) : Traffic α :=
  match s.mailbox.offer message with
  | (.ok _, mailbox) => s.accept message mailbox
  | (.error fault, mailbox) => (s.bring message mailbox).conclude s.brought.length (.error fault)

def deliver (s : Traffic α) (message : α) : Traffic α :=
  let call := s.brought.length
  match s.mailbox.send call message with
  | (.accepted, mailbox) => s.accept message mailbox
  | (.pending, mailbox) => s.bring message mailbox
  | (.refused, mailbox) =>
    (s.bring message mailbox).conclude call (.error (.closed s.mailbox.label))

def look (s : Traffic α) (call : Nat) : Traffic α :=
  match s.mailbox.settle call with
  | (.accepted, mailbox) => { s with mailbox }.conclude call (.ok ())
  | (.waiting, mailbox) => { s with mailbox }
  | (.refused, mailbox) => { s with mailbox }.conclude call (.error (.closed s.mailbox.label))

def giveUp (s : Traffic α) (call : Nat) : Traffic α :=
  let (next, mailbox) := s.mailbox.withdraw call
  { s with abandoned := s.abandoned ++ [call] }.letIn next mailbox

def receive (s : Traffic α) : Traffic α :=
  match s.mailbox.receive with
  | (.message message, next, mailbox) =>
    { s with received := s.received ++ [message] }.letIn next mailbox
  | (_, _, mailbox) => { s with mailbox }

def perform (s : Traffic α) : Act α → Traffic α
  | .offer via message | .deliver via .dropNewest message =>
    if via ∈ s.clones then s.offer message else s
  | .deliver via .wait message => if via ∈ s.clones then s.deliver message else s
  | .look call => if call ∈ s.mailbox.unsettled then s.look call else s
  | .giveUp call => if call ∈ s.mailbox.unsettled then s.giveUp call else s
  | .receive => s.receive
  | .close => { s with mailbox := s.mailbox.close }
  | .leave => { s with mailbox := s.mailbox.discard, lost := s.mailbox.queue ++ s.lost }
  | .clone via =>
    if via ∈ s.clones then
      { s with mailbox := s.mailbox.addSender, clones := s.clones ++ [s.made], made := s.made + 1 }
    else s
  | .drop via =>
    if via ∈ s.clones then
      { s with mailbox := s.mailbox.dropSender, clones := s.clones.erase via }
    else s

def performAll (s : Traffic α) (acts : List (Act α)) : Traffic α := acts.foldl perform s

def accepted (s : Traffic α) : List Nat := (s.returned.filter (·.2.isOk)).map (·.1)

def held (s : Traffic α) : List Nat :=
  if s.mailbox.closed then [] else s.mailbox.granted.map (·.1)

def isDropped : Except MailboxFault Unit → Bool
  | .error (.full _) => true
  | _ => false

def refusals (s : Traffic α) : Nat := s.returned.countP (isDropped ·.2)

def handOn (s : Traffic α) : Traffic α :=
  s.letIn (s.mailbox.waiting.head?.map (·.1)) s.mailbox.advance

def Act.brings? : Act α → Option α
  | .offer _ message | .deliver _ _ message => some message
  | _ => none

def Act.ends : Act α → Bool
  | .close | .leave => true
  | _ => false

inductive Step (s : Traffic α) : Act α → Traffic α → Prop where
  | rests {act : Act α} : Step s act s
  | accepts {act : Act α} {message : α} (hact : act.brings? = some message)
      (ho : s.mailbox.closed = false) (hroom : s.mailbox.isFull = false) :
    Step s act (s.accept message { s.mailbox with queue := s.mailbox.queue ++ [message] })
  | drops {act : Act α} {via : Nat} {message : α}
      (hact : act = .offer via message ∨ act = .deliver via .dropNewest message)
      (ho : s.mailbox.closed = false) (hfull : s.mailbox.isFull = true) :
    Step s act ((s.bring message { s.mailbox with dropped := s.mailbox.dropped + 1 }).conclude
      s.brought.length (.error (.full s.mailbox.label)))
  | waits {act : Act α} {message : α} (hact : act.brings? = some message)
      (ho : s.mailbox.closed = false) (hfull : s.mailbox.isFull = true) :
    Step s act (s.bring message { s.mailbox with
      waiting := s.mailbox.waiting ++ [(s.brought.length, message)] })
  | refuses {act : Act α} {message : α} (hact : act.brings? = some message)
      (hc : s.mailbox.closed = true) :
    Step s act ((s.bring message s.mailbox).conclude s.brought.length
      (.error (.closed s.mailbox.label)))
  | fills {call : Nat} {message : α} {granted : List (Nat × α)} (ho : s.mailbox.closed = false)
      (hslot : ((call, message) :: granted).Perm s.mailbox.granted) :
    Step s (.look call) (({ s with
      mailbox := { s.mailbox with granted, queue := s.mailbox.queue ++ [message] } } :
        Traffic α).conclude call (.ok ()))
  | fails {call : Nat} {granted waiting : List (Nat × α)} (hc : s.mailbox.closed = true)
      (hgone : (call :: (granted ++ waiting).map (·.1)).Perm s.mailbox.unsettled)
      (hgranted : granted.Sublist s.mailbox.granted)
      (hwaiting : waiting.Sublist s.mailbox.waiting) :
    Step s (.look call) (({ s with mailbox := { s.mailbox with granted, waiting } } :
      Traffic α).conclude call (.error (.closed s.mailbox.label)))
  | takes {message : α} {rest : List α} (hq : s.mailbox.queue = message :: rest) :
    Step s .receive ({ s with
      mailbox := { s.mailbox with queue := rest }
      received := s.received ++ [message] } : Traffic α).handOn
  | yields {call : Nat} {message : α} {granted : List (Nat × α)}
      (hslot : ((call, message) :: granted).Perm s.mailbox.granted) :
    Step s (.giveUp call) ({ s with
      mailbox := { s.mailbox with granted }
      abandoned := s.abandoned ++ [call] } : Traffic α).handOn
  | retires {call : Nat} {message : α} {waiting : List (Nat × α)}
      (hplace : ((call, message) :: waiting).Perm s.mailbox.waiting)
      (hwaiting : waiting.Sublist s.mailbox.waiting) :
    Step s (.giveUp call)
      { s with mailbox := { s.mailbox with waiting }, abandoned := s.abandoned ++ [call] }
  | shares {act : Act α} {senders made : Nat} {clones : List Nat}
      (hsenders : s.mailbox.senders = s.clones.length → senders = clones.length) :
    Step s act { s with mailbox := { s.mailbox with senders }, clones, made }

variable {label : String} {capacity : Nat} {s t : Traffic α} {act : Act α}

private theorem step_offer {via : Nat} {message : α}
    (hact : act = .offer via message ∨ act = .deliver via .dropNewest message) :
    s.Step act (s.offer message) := by
  have hbrings : act.brings? = some message := by rcases hact with rfl | rfl <;> rfl
  rw [offer, Mailbox.offer]
  by_cases hc : s.mailbox.closed
  · rw [if_pos hc]
    exact .refuses hbrings hc
  have ho := eq_false_of_ne_true hc
  rw [if_neg hc]
  by_cases hfull : s.mailbox.isFull
  · rw [if_pos hfull]
    exact .drops hact ho hfull
  · rw [if_neg hfull]
    exact .accepts hbrings ho (eq_false_of_ne_true hfull)

private theorem step_deliver {via : Nat} {message : α} :
    s.Step (.deliver via .wait message) (s.deliver message) := by
  rw [deliver, Mailbox.send]
  by_cases hc : s.mailbox.closed
  · rw [if_pos hc]
    exact .refuses rfl hc
  have ho := eq_false_of_ne_true hc
  rw [if_neg hc]
  by_cases hfull : s.mailbox.isFull
  · rw [if_pos hfull]
    exact .waits rfl ho hfull
  · rw [if_neg hfull]
    exact .accepts rfl ho (eq_false_of_ne_true hfull)

theorem look_of_closed (hc : s.mailbox.closed = true) (call : Nat) : s.look call =
    ({ s with mailbox := { s.mailbox with
      granted := s.mailbox.granted.filter (·.1 ≠ call)
      waiting := s.mailbox.waiting.filter (·.1 ≠ call) } } : Traffic α).conclude call
        (.error (.closed s.mailbox.label)) := by
  rw [look, Mailbox.settle, if_pos hc]

private theorem step_look (hm : s.mailbox.Sound) {call : Nat}
    (hcall : call ∈ s.mailbox.unsettled) : s.Step (.look call) (s.look call) := by
  cases hc : s.mailbox.closed with
  | true =>
    obtain ⟨w, hw, rfl⟩ := List.mem_map.mp hcall
    have hgone := (Mailbox.perm_filter_names hm.names hw).map (·.1)
    rw [List.map_cons, List.filter_append] at hgone
    rw [look_of_closed hc]
    exact .fails hc hgone List.filter_sublist List.filter_sublist
  | false =>
    rw [look]
    obtain ⟨message, hslot, hr⟩ | hr := Mailbox.settle_cases hc call
    · rw [hr]
      exact .fills hc (Mailbox.perm_filter_names hm.names_granted hslot)
    · rw [hr]
      exact .rests

private theorem step_giveUp (hm : s.mailbox.Sound) {call : Nat}
    (hcall : call ∈ s.mailbox.unsettled) : s.Step (.giveUp call) (s.giveUp call) := by
  rw [giveUp, Mailbox.withdraw]
  cases hl : s.mailbox.granted.lookup call with
  | some message =>
    rw [if_pos Option.isSome_some, Mailbox.release_eq]
    exact .yields (Mailbox.perm_filter_names hm.names_granted (Mailbox.mem_of_lookup hl))
  | none =>
    have hnone : call ∉ s.mailbox.granted.map (·.1) := by
      intro hgranted
      obtain ⟨w, hw, rfl⟩ := List.mem_map.mp hgranted
      simpa using List.lookup_eq_none_iff.mp hl w hw
    rw [Mailbox.unsettled, List.map_append] at hcall
    obtain ⟨w, hw, rfl⟩ := List.mem_map.mp ((List.mem_append.mp hcall).resolve_left hnone)
    have hsame : (if s.mailbox.closed then s.admitted else s.admitted ++ []) = s.admitted := by
      rw [List.append_nil, ite_self]
    rw [if_neg (by simp)]
    simp only [letIn, Option.toList_none, hsame]
    exact .retires (Mailbox.perm_filter_names hm.names_waiting hw) List.filter_sublist

private theorem step_receive : s.Step .receive s.receive := by
  rw [receive]
  cases hq : s.mailbox.queue with
  | nil => rcases Mailbox.receive_nil hq with hr | hr <;> rw [hr] <;> exact .rests
  | cons message rest =>
    rw [Mailbox.receive_cons hq, Mailbox.release_eq]
    exact .takes hq

theorem step_perform (hm : s.mailbox.Sound) (hact : act.ends = false) :
    s.Step act (s.perform act) := by
  cases act with
  | offer via message =>
    rw [perform]
    split
    · exact step_offer (.inl rfl)
    · exact .rests
  | deliver via policy message =>
    cases policy <;> rw [perform] <;> split
    · exact step_offer (.inr rfl)
    · exact .rests
    · exact step_deliver
    · exact .rests
  | look call =>
    rw [perform]
    split
    · exact step_look hm ‹_›
    · exact .rests
  | giveUp call =>
    rw [perform]
    split
    · exact step_giveUp hm ‹_›
    · exact .rests
  | receive => exact step_receive
  | close | leave => contradiction
  | clone via =>
    rw [perform]
    split
    · exact .shares fun hsenders => by rw [hsenders, List.length_append, List.length_singleton]
    · exact .rests
  | drop via =>
    rw [perform]
    split
    · exact .shares fun hsenders => by rw [hsenders, List.length_erase_of_mem ‹_›]
    · exact .rests

theorem Step.closed_eq (hs : s.Step act t) : t.mailbox.closed = s.mailbox.closed := by
  cases hs <;> rfl

theorem Step.lost_eq (hs : s.Step act t) : t.lost = s.lost := by
  cases hs <;> rfl

end Traffic

end Lobby
