import Lobby.Json.Lemmas
import Lobby.Json.Quoted.Lemmas
import Lobby.Json.Record

/-! Typed values survive being written: integers, strings, lists, and records whose fields are all
present. -/
namespace Lobby.Json

open Number

theorem toInt?_ofInt (i : Int) : (Literal.ofInt i).toInt? = some i := by
  simp only [Literal.toInt?, Literal.ofInt, Nat.ofDigitChars_ten_toDigits]
  by_cases h : i < 0
  · have hn : i.natAbs ≠ 0 := by omega
    have hi : -(i.natAbs : Int) = i := by omega
    simp only [h, decide_true, ↓reduceIte, hn, hi]
  · have hi : (i.natAbs : Int) = i := by omega
    simp only [h, decide_false, Bool.false_eq_true, ↓reduceIte, hi]

theorem intIn?_ofInt {least greatest i : Int} (h : least ≤ i) (h' : i ≤ greatest) :
    intIn? least greatest (ofInt i) = some i := by
  simp [intIn?, ofInt, toInt?_ofInt, h, h']

theorem ofNat_eq (n : Nat) : ofNat n = ofInt n := by
  simp [ofNat, ofInt, Literal.ofNat, Literal.ofInt]

theorem octet?_ofNat (b : UInt8) : octet? (ofNat b.toNat) = some b := by
  have hb := b.toNat_lt
  rw [octet?, ofNat_eq, intIn?_ofInt (by omega) (by omega)]
  simp

theorem int32?_ofInt (i : Int32) : int32? (ofInt i.toInt) = some i.toInt :=
  intIn?_ofInt i.le_toInt (by have := i.toInt_lt; omega)

theorem text?_ofText (s : String) : text? (ofText s) = some s := Quoted.decode?_encode s

theorem list?_ofList {α : Type} {read : Json → Option α} {write : α → Json} {vs : List α}
    (h : ∀ v ∈ vs, read (write v) = some v) : list? read (ofList write vs) = some vs := by
  simp only [list?, ofList]
  induction vs with
  | nil => rfl
  | cons v vs ih =>
    rw [List.map_cons, List.mapM_cons, h v List.mem_cons_self,
      ih fun w hw => h w (List.mem_cons_of_mem _ hw)]
    rfl

/-- A record written with all its fields is read as those fields. -/
theorem record?_ofMembers {names : List String} {members : List (String × Json)}
    (h : members.map (·.1) = names) (hn : names.Nodup) :
    record? names (ofMembers members) = some fun name => members.lookup name := by
  have read : (members.map fun m => (Quoted.encode m.1, m.2)).mapM named? = some members := by
    clear h hn
    induction members with
    | nil => rfl
    | cons m ms ih =>
      rw [List.map_cons, List.mapM_cons, ih]
      simp [named?, Quoted.decode?_encode]
  have known : members.filter (fun m => names.contains m.1) = members := by
    rw [List.filter_eq_self]
    intro m hm
    rw [List.contains_iff_mem, ← h]
    exact List.mem_map_of_mem hm
  simp only [record?, ofMembers]
  rw [read]
  simp only [Option.bind_eq_bind, Option.bind_some, known, h, hn, if_true]

/-- Only zero is written with a zero ahead. -/
theorem head?_toDigits (n : Nat) (h : (Nat.toDigits 10 n).head? = some '0') :
    (Nat.toDigits 10 n).length = 1 := by
  induction n using Nat.strongRecOn with
  | ind n ih =>
    by_cases hn : n < 10
    · rw [Nat.toDigits_of_lt_base hn]
      rfl
    · -- the leading digit is that of the tenth part, which is not zero
      obtain ⟨c, cs, hc⟩ := List.exists_cons_of_ne_nil (Nat.toDigits_ne_nil (n := n / 10) (b := 10))
      rw [Nat.toDigits_of_base_le (by omega) (by omega), hc] at h
      have hone := ih (n / 10) (by omega) (by rw [hc]; exact h)
      by_cases hs : n / 10 < 10
      · have hdigit : ∀ d : Fin 10, d.val ≠ 0 → [Nat.digitChar d].head? ≠ some '0' := by decide
        rw [Nat.toDigits_of_lt_base hs] at hc
        rw [List.cons_append, List.head?_cons, ← List.head?_cons (l := cs), ← hc] at h
        exact absurd h (hdigit ⟨n / 10, hs⟩ (by simp only; omega))
      · have hpos := Nat.length_toDigits_pos (b := 10) (n := n / 10 / 10)
        rw [Nat.toDigits_of_base_le (by omega) (by omega), List.length_append] at hone
        simp at hone

theorem isWritten_ofInt (i : Int) : (ofInt i).IsWritten := by
  intro t ht
  rw [List.mem_singleton.mp (show t ∈ [Token.number (.ofInt i)] from ht)]
  constructor
  · exact ⟨Nat.toDigits_ne_nil, fun c hc => Nat.isDigit_of_mem_toDigits (by decide) (by decide) hc⟩
  · exact head?_toDigits i.natAbs
  · simp [Literal.ofInt]
  · simp [Literal.ofInt]

theorem isWritten_ofNat (n : Nat) : (ofNat n).IsWritten := by
  rw [ofNat_eq]
  exact isWritten_ofInt n

theorem isWritten_ofText (s : String) : (ofText s).IsWritten := by
  intro t ht
  rw [List.mem_singleton.mp (show t ∈ [Token.string (Quoted.encode s)] from ht)]
  exact Quoted.splitBody?_encode s

theorem isWritten_ofList {α : Type} {write : α → Json} {vs : List α}
    (h : ∀ v ∈ vs, (write v).IsWritten) : (ofList write vs).IsWritten := by
  have helements : ∀ t ∈ elementTokens (vs.map write), t.IsSpelled := by
    induction vs with
    | nil => simp [elementTokens, elementsAfter]
    | cons v vs ih =>
      have hv := h v List.mem_cons_self
      cases vs with
      | nil =>
        rw [List.map_singleton, elementTokens_single]
        exact hv
      | cons w vs =>
        have hrest := ih fun u hu => h u (List.mem_cons_of_mem _ hu)
        rw [List.map_cons, List.map_cons, elementTokens_cons]
        simpa [or_imp, forall_and, Token.IsSpelled] using ⟨hv, hrest⟩
  intro t ht
  rw [ofList, toTokens_array] at ht
  simp only [List.mem_cons, List.mem_append, List.not_mem_nil, or_false] at ht
  rcases ht with rfl | ht | rfl
  · trivial
  · exact helements t ht
  · trivial

theorem isWritten_ofMembers {members : List (String × Json)}
    (h : ∀ m ∈ members, m.2.IsWritten) : (ofMembers members).IsWritten := by
  have hmembers : ∀ t ∈ memberTokens (members.map fun m => (Quoted.encode m.1, m.2)),
      t.IsSpelled := by
    induction members with
    | nil => simp [memberTokens, membersAfter]
    | cons m ms ih =>
      have hm := h m List.mem_cons_self
      have hname : (Token.string (Quoted.encode m.1)).IsSpelled := Quoted.splitBody?_encode m.1
      cases ms with
      | nil =>
        rw [List.map_singleton, memberTokens_single]
        simpa [or_imp, forall_and, Token.IsSpelled] using ⟨hname, hm⟩
      | cons n ns =>
        have hrest := ih fun u hu => h u (List.mem_cons_of_mem _ hu)
        rw [List.map_cons, List.map_cons, memberTokens_cons]
        simpa [or_imp, forall_and, Token.IsSpelled] using ⟨hname, hm, hrest⟩
  intro t ht
  rw [ofMembers, toTokens_object] at ht
  simp only [List.mem_cons, List.mem_append, List.not_mem_nil, or_false] at ht
  rcases ht with rfl | ht | rfl
  · trivial
  · exact hmembers t ht
  · trivial

end Lobby.Json
