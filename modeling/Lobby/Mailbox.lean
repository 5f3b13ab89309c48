import Lobby.Fault
import Lobby.Text.Shown

/-! Bounded mailboxes: messages are taken in the order of their acceptance, offers to a full one
are dropped and counted, and deliveries that wait get freed slots in the order they came. -/
namespace Lobby

inductive OverflowPolicy where
  | dropNewest
  | wait
  deriving DecidableEq, Repr

instance : Inhabited OverflowPolicy := ⟨.dropNewest⟩

/-- A mailbox of `α`, whose waiting deliveries are named by `τ`. A delivery in `granted` has been
handed a slot and has yet to put its message there; one in `waiting` has none. -/
structure Mailbox (τ α : Type) where
  label : String
  capacity : Nat
  queue : List α := []
  granted : List (τ × α) := []
  waiting : List (τ × α) := []
  dropped : UInt64 := 0
  senders : Nat := 1
  closed : Bool := false
  deriving Repr

namespace Mailbox

variable {τ α : Type}

/-- An empty mailbox. It holds at least one message, whatever the capacity asked for. -/
def ofCapacity (label : String) (capacity : Nat) : Mailbox τ α :=
  { label, capacity := max capacity 1 }

def occupied (m : Mailbox τ α) : Nat := m.queue.length + m.granted.length

def isFull (m : Mailbox τ α) : Bool := m.capacity ≤ m.occupied

def offer (m : Mailbox τ α) (message : α) : Except MailboxFault Unit × Mailbox τ α :=
  if m.closed then (.error (.closed m.label), m)
  else if m.isFull then (.error (.full m.label), { m with dropped := m.dropped + 1 })
  else (.ok (), { m with queue := m.queue ++ [message] })

inductive Delivery where
  | accepted
  | pending
  | refused
  deriving DecidableEq, Repr

/-- Puts a message in, or begins to wait for a slot under a name. -/
def send (m : Mailbox τ α) (name : τ) (message : α) : Delivery × Mailbox τ α :=
  if m.closed then (.refused, m)
  else if m.isFull then (.pending, { m with waiting := m.waiting ++ [(name, message)] })
  else (.accepted, { m with queue := m.queue ++ [message] })

def release (m : Mailbox τ α) : Option τ × Mailbox τ α :=
  match m.waiting with
  | [] => (none, m)
  | w :: rest => (some w.1, { m with granted := m.granted ++ [w], waiting := rest })

inductive Received (α : Type) where
  | message (content : α)
  | empty
  | disconnected
  deriving DecidableEq, Repr

def receive (m : Mailbox τ α) : Received α × Option τ × Mailbox τ α :=
  match m.queue with
  | message :: rest =>
    let (next, m) := { m with queue := rest }.release
    (.message message, next, m)
  | [] =>
    let nothingFollows := m.closed || (m.senders = 0 && m.granted.isEmpty && m.waiting.isEmpty)
    (if nothingFollows then .disconnected else .empty, none, m)

def takeAll (m : Mailbox τ α) : List α × Mailbox τ α :=
  (m.queue, { m with queue := [] })

inductive Standing where
  | accepted
  | waiting
  | refused
  deriving DecidableEq, Repr

variable [DecidableEq τ]

/-- Lets a waiting delivery go on: it puts its message into the slot it was handed, waits on, or
learns that the mailbox has closed. -/
def settle (m : Mailbox τ α) (name : τ) : Standing × Mailbox τ α :=
  if m.closed then
    (.refused,
      { m with
        granted := m.granted.filter (·.1 ≠ name)
        waiting := m.waiting.filter (·.1 ≠ name) })
  else
    match m.granted.lookup name with
    | some message =>
      (.accepted,
        { m with
          granted := m.granted.filter (·.1 ≠ name)
          queue := m.queue ++ [message] })
    | none => (.waiting, m)

/-- Gives up a waiting delivery; a slot it was handed goes to the next, which is named. -/
def withdraw (m : Mailbox τ α) (name : τ) : Option τ × Mailbox τ α :=
  if (m.granted.lookup name).isSome then
    { m with granted := m.granted.filter (·.1 ≠ name) }.release
  else (none, { m with waiting := m.waiting.filter (·.1 ≠ name) })

omit [DecidableEq τ] in
/-- Stops accepting. What is queued can still be received; nothing that waits gets in. -/
def close (m : Mailbox τ α) : Mailbox τ α :=
  { m with closed := true }

omit [DecidableEq τ] in
def discard (m : Mailbox τ α) : Mailbox τ α :=
  { m with closed := true, queue := [] }

omit [DecidableEq τ] in
def addSender (m : Mailbox τ α) : Mailbox τ α :=
  { m with senders := m.senders + 1 }

omit [DecidableEq τ] in
def dropSender (m : Mailbox τ α) : Mailbox τ α :=
  { m with senders := m.senders - 1 }

omit [DecidableEq τ] in
/-- The names of all deliveries that have begun to wait and are not over, oldest first. -/
def unsettled (m : Mailbox τ α) : List τ :=
  (m.granted ++ m.waiting).map (·.1)

omit [DecidableEq τ] in
def display (m : Mailbox τ α) : String :=
  String.join
    ["Mailbox \x7b label: ", Text.quoted m.label, ", dropped: ",
      String.ofList (Nat.toDigits 10 m.dropped.toNat), " \x7d"]

end Mailbox

end Lobby
