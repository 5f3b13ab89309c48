import Lobby.Fault

/-! Socket addresses: how they are read and shown, and where a server listens. -/
namespace Lobby

/-- An address of version four or six, the latter as eight groups with the number of the network
that they are meant for, or zero. -/
inductive Host where
  | v4 (a b c d : UInt8)
  | v6 (groups : Vector UInt16 8) (scope : UInt32)
  deriving DecidableEq, Repr

structure SocketAddress where
  host : Host
  port : UInt16
  deriving DecidableEq, Repr

namespace SocketAddress

private def decimal (n : Nat) : String := String.ofList (Nat.toDigits 10 n)

private def groupText (g : UInt16) : String := String.ofList (Nat.toDigits 16 g.toNat)

private def dotted (octets : List Nat) : String :=
  ".".intercalate (octets.map decimal)

def zeroRun (groups : List UInt16) : Nat := (groups.takeWhile (· = 0)).length

def longestZeroRun (groups : List UInt16) : Nat × Nat :=
  (List.range groups.length).foldl
    (fun best i =>
      let n := zeroRun (groups.drop i)
      if best.2 < n then (i, n) else best)
    (0, 0)

/-- Lower-case groups between colons. The longest run of at least two zero groups is written as
two colons, and an address that holds one of version four ends in its dotted form. -/
def showGroups (groups : List UInt16) : String :=
  match groups with
  | [0, 0, 0, 0, 0, 0xffff, x, y] =>
    "::ffff:" ++ dotted [x.toNat / 256, x.toNat % 256, y.toNat / 256, y.toNat % 256]
  | _ =>
    let (start, length) := longestZeroRun groups
    let join (gs : List UInt16) := ":".intercalate (gs.map groupText)
    if 1 < length then
      join (groups.take start) ++ "::" ++ join (groups.drop (start + length))
    else join groups

def showScope (scope : UInt32) : String :=
  if scope = 0 then "" else "%" ++ decimal scope.toNat

def display (address : SocketAddress) : String :=
  match address.host with
  | .v4 a b c d => dotted [a.toNat, b.toNat, c.toNat, d.toNat] ++ ":" ++ decimal address.port.toNat
  | .v6 groups scope =>
    "[" ++ showGroups groups.toList ++ showScope scope ++ "]:" ++ decimal address.port.toNat

def alphabet : List Char :=
  ['0', '1', '2', '3', '4', '5', '6', '7', '8', '9', 'a', 'b', 'c', 'd', 'e', 'f', '.', ':', '%',
    '[', ']']

private def Plain (text : String) : Prop := ∀ c ∈ text.toList, c ∈ alphabet

private instance (text : String) : Decidable (Plain text) :=
  List.decidableBAll (· ∈ alphabet) text.toList

private theorem Plain.append {front back : String} (hf : Plain front) (hb : Plain back) :
    Plain (front ++ back) := by
  intro c hc
  rw [String.toList_append] at hc
  rcases List.mem_append.mp hc with hc | hc
  · exact hf c hc
  · exact hb c hc

private theorem plain_intercalate {separator : String} (hs : Plain separator)
    {texts : List String} (ht : ∀ text ∈ texts, Plain text) :
    Plain (separator.intercalate texts) := by
  induction texts with
  | nil => simp [Plain]
  | cons text rest ih =>
    have htext := ht text List.mem_cons_self
    have hrest := ih fun t hmem => ht t (List.mem_cons_of_mem _ hmem)
    cases rest with
    | nil => rwa [String.intercalate_singleton]
    | cons next rest =>
      rw [String.intercalate_cons_cons]
      exact (htext.append hs).append hrest

private theorem plain_digits {base : Nat} (hone : 1 < base) (hsixteen : base ≤ 16) (n : Nat) :
    Plain (String.ofList (Nat.toDigits base n)) := by
  have hdigit : ∀ d : Fin 16, d.val.digitChar ∈ alphabet := by decide
  induction n using Nat.strongRecOn with
  | ind n ih =>
    intro c hc
    rw [String.toList_ofList] at hc
    by_cases hn : n < base
    · rw [Nat.toDigits_of_lt_base hn] at hc
      obtain rfl := List.mem_singleton.mp hc
      exact hdigit ⟨n, by omega⟩
    · rw [Nat.toDigits_of_base_le hone (by omega)] at hc
      rcases List.mem_append.mp hc with hc | hc
      · exact ih (n / base) (Nat.div_lt_self (by omega) hone) c (by rwa [String.toList_ofList])
      · obtain rfl := List.mem_singleton.mp hc
        have hlast : n % base < base := Nat.mod_lt n (by omega)
        exact hdigit ⟨n % base, by omega⟩

private theorem plain_decimal (n : Nat) : Plain (decimal n) :=
  plain_digits (by decide) (by decide) n

private theorem plain_dotted (octets : List Nat) : Plain (dotted octets) := by
  refine plain_intercalate (by decide) fun text ht => ?_
  obtain ⟨n, -, rfl⟩ := List.mem_map.mp ht
  exact plain_decimal n

private theorem plain_join (groups : List UInt16) :
    Plain (":".intercalate (groups.map groupText)) := by
  refine plain_intercalate (by decide) fun text ht => ?_
  obtain ⟨g, -, rfl⟩ := List.mem_map.mp ht
  exact plain_digits (by decide) (by decide) g.toNat

private theorem plain_showGroups (groups : List UInt16) : Plain (showGroups groups) := by
  rw [showGroups.eq_def]
  split
  · exact Plain.append (by decide) (plain_dotted _)
  · dsimp only
    split
    · exact ((plain_join _).append (by decide)).append (plain_join _)
    · exact plain_join _

private theorem plain_showScope (scope : UInt32) : Plain (showScope scope) := by
  rw [showScope]
  split
  · decide
  · exact Plain.append (by decide) (plain_decimal _)

/-- An address shows nothing but characters of the alphabet. -/
theorem mem_alphabet_of_mem_display (address : SocketAddress) {c : Char}
    (hc : c ∈ address.display.toList) : c ∈ alphabet := by
  revert c
  change Plain address.display
  rw [display]
  cases address.host with
  | v4 a b c d => exact ((plain_dotted _).append (by decide)).append (plain_decimal _)
  | v6 groups scope =>
    have hopen : Plain "[" := by decide
    exact (((hopen.append (plain_showGroups _)).append (plain_showScope _)).append
      (by decide)).append (plain_decimal _)

def padded? (bound : Nat) (digits : List Char) : Option Nat :=
  if digits ≠ [] ∧ digits.all Char.isDigit then
    let n := Nat.ofDigitChars 10 digits 0
    if n < bound then some n else none
  else none

def number? (bound : Nat) (digits : List Char) : Option Nat :=
  if digits.head? = some '0' → digits.length = 1 then padded? bound digits else none

private def splitAt (separator : Char) (text : List Char) : List (List Char) :=
  text.splitOn separator

def octets? (text : List Char) : Option (UInt8 × UInt8 × UInt8 × UInt8) :=
  match splitAt '.' text with
  | [a, b, c, d] => do
    return (UInt8.ofNat (← number? 256 a), UInt8.ofNat (← number? 256 b),
      UInt8.ofNat (← number? 256 c), UInt8.ofNat (← number? 256 d))
  | _ => none

private def hexValue? (c : Char) : Option Nat :=
  if c.isDigit then some (c.toNat - 48)
  else if 'a' ≤ c ∧ c ≤ 'f' then some (c.toNat - 87)
  else if 'A' ≤ c ∧ c ≤ 'F' then some (c.toNat - 55)
  else none

def group? (text : List Char) : Option UInt16 := do
  let digits ← text.mapM hexValue?
  if 1 ≤ digits.length ∧ digits.length ≤ 4 then
    some (UInt16.ofNat (digits.foldl (fun n d => 16 * n + d) 0))
  else none

def groups? (text : List Char) : Option (List UInt16) :=
  if text = [] then some [] else (splitAt ':' text).mapM group?

/-- Groups between single colons; the last two may be written as four dotted numbers. -/
def lastGroups? (text : List Char) : Option (List UInt16) :=
  if text = [] then some []
  else
    let parts := splitAt ':' text
    match octets? (parts.getLast?.getD []) with
    | some (a, b, c, d) => do
      let front ← parts.dropLast.mapM group?
      return front ++ [a.toUInt16 * 256 + b.toUInt16, c.toUInt16 * 256 + d.toUInt16]
    | none => parts.mapM group?

def splitDoubleColon? : List Char → Option (List Char × List Char)
  | ':' :: ':' :: rest => some ([], rest)
  | c :: rest => (splitDoubleColon? rest).map fun (front, back) => (c :: front, back)
  | [] => none

def eight? (groups : List UInt16) : Option (Vector UInt16 8) :=
  if h : groups.toArray.size = 8 then some ⟨groups.toArray, h⟩ else none

/-- The groups of an address of version six. Two colons stand for at least one zero group. -/
def version6? (text : List Char) : Option (Vector UInt16 8) :=
  match splitDoubleColon? text with
  | some (front, back) => do
    let front ← groups? front
    let back ← lastGroups? back
    let missing := 8 - (front.length + back.length)
    if missing = 0 then none
    else eight? (front ++ List.replicate missing 0 ++ back)
  | none => do eight? (← lastGroups? text)

def scoped? (text : List Char) : Option Host := do
  match splitAt '%' text with
  | [groups] => return .v6 (← version6? groups) 0
  | [groups, scope] =>
    return .v6 (← version6? groups) (UInt32.ofNat (← padded? 4294967296 scope))
  | _ => none

def splitPort? (text : List Char) : Option (List Char × List Char) :=
  let back := text.reverse.takeWhile (· ≠ ':')
  if back.length < text.length then
    some (text.take (text.length - back.length - 1), back.reverse)
  else none

def parse? (text : String) : Option SocketAddress := do
  let (host, port) ← splitPort? text.toList
  let port := UInt16.ofNat (← padded? 65536 port)
  match host with
  | '[' :: inner =>
    if inner.getLast? = some ']' then return ⟨← scoped? inner.dropLast, port⟩ else none
  | _ =>
    let (a, b, c, d) ← octets? host
    return ⟨.v4 a b c d, port⟩

end SocketAddress

namespace Address

def isWhiteSpace (c : Char) : Bool :=
  let n := c.toNat
  (9 ≤ n && n ≤ 13) || n = 0x20 || n = 0x85 || n = 0xA0 || n = 0x1680 ||
    (0x2000 ≤ n && n ≤ 0x200A) || n = 0x2028 || n = 0x2029 || n = 0x202F || n = 0x205F || n = 0x3000

def default : String := "0.0.0.0:12345"

/-- Where a server listens, given a setting: blank counts as unset, anything else stands as it
is. -/
def listening (setting : Option String) : String :=
  match setting with
  | some s => if s.toList.all isWhiteSpace then default else s
  | none => default

def isPort (text : List Char) : Bool :=
  let digits := match text with
    | '+' :: rest => rest
    | _ => text
  digits ≠ [] && digits.all Char.isDigit && Nat.ofDigitChars 10 digits 0 < 65536

def bindFault? (address : String) : Option TransportFault :=
  match SocketAddress.splitPort? address.toList with
  | none => some (.bind address "invalid socket address")
  | some (_, port) => if isPort port then none else some (.bind address "invalid port value")

end Address

end Lobby
