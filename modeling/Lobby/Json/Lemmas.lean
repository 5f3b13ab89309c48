import Lobby.Json.Quoted.Lemmas
import Lobby.Json.Token.Lemmas

/-! Written values are read back: the tokens of a value build it again, and its text is read as
those tokens when numbers and strings in it are spelled the way they are read. -/
namespace Lobby.Json

def elementTokens (vs : List Json) : List Token := (elementsAfter [] vs).reverse

def memberTokens (ms : List (List UInt8 × Json)) : List Token := (membersAfter [] ms).reverse

mutual

theorem tokensAfter_eq (before : List Token) : (v : Json) →
    tokensAfter before v = tokensAfter [] v ++ before
  | .null | .bool _ | .number _ | .string _ => by simp [tokensAfter]
  | .array vs => by
    rw [tokensAfter, tokensAfter, elementsAfter_eq _ vs, elementsAfter_eq [_] vs]; simp
  | .object ms => by
    rw [tokensAfter, tokensAfter, membersAfter_eq _ ms, membersAfter_eq [_] ms]; simp

theorem elementsAfter_eq (before : List Token) : (vs : List Json) →
    elementsAfter before vs = elementsAfter [] vs ++ before
  | [] => rfl
  | [v] => by rw [elementsAfter, elementsAfter, tokensAfter_eq]
  | v :: w :: rest => by
    rw [elementsAfter, elementsAfter, elementsAfter_eq _ (w :: rest),
      elementsAfter_eq (.comma :: tokensAfter [] v) (w :: rest), tokensAfter_eq before v]
    simp

theorem membersAfter_eq (before : List Token) : (ms : List (List UInt8 × Json)) →
    membersAfter before ms = membersAfter [] ms ++ before
  | [] => rfl
  | [(k, v)] => by
    rw [membersAfter, membersAfter, tokensAfter_eq _ v, tokensAfter_eq [_, _] v]; simp
  | (k, v) :: m :: rest => by
    rw [membersAfter, membersAfter, membersAfter_eq _ (m :: rest),
      membersAfter_eq (.comma :: tokensAfter [_, _] v) (m :: rest), tokensAfter_eq _ v,
      tokensAfter_eq [_, _] v]
    simp

end

theorem toTokens_array (vs : List Json) :
    toTokens (.array vs) = .openArray :: (elementTokens vs ++ [.closeArray]) := by
  rw [toTokens, tokensAfter, elementsAfter_eq]; simp [elementTokens]

theorem toTokens_object (ms : List (List UInt8 × Json)) :
    toTokens (.object ms) = .openObject :: (memberTokens ms ++ [.closeObject]) := by
  rw [toTokens, tokensAfter, membersAfter_eq]; simp [memberTokens]

theorem elementTokens_cons (v w : Json) (rest : List Json) :
    elementTokens (v :: w :: rest) = toTokens v ++ .comma :: elementTokens (w :: rest) := by
  rw [elementTokens, elementsAfter, elementsAfter_eq]; simp [elementTokens, toTokens]

theorem memberTokens_cons (k : List UInt8) (v : Json) (m : List UInt8 × Json)
    (rest : List (List UInt8 × Json)) :
    memberTokens ((k, v) :: m :: rest) =
      .string k :: .colon :: (toTokens v ++ .comma :: memberTokens (m :: rest)) := by
  rw [memberTokens, membersAfter, membersAfter_eq, tokensAfter_eq]; simp [memberTokens, toTokens]

theorem memberTokens_single (k : List UInt8) (v : Json) :
    memberTokens [(k, v)] = .string k :: .colon :: toTokens v := by
  rw [memberTokens, membersAfter, tokensAfter_eq]; simp [toTokens]

theorem elementTokens_single (v : Json) : elementTokens [v] = toTokens v := rfl

/-- No value begins with a closing bracket. -/
theorem toTokens_begins (v : Json) : ∃ t ts, toTokens v = t :: ts ∧ t ≠ .closeArray := by
  cases v with
  | array vs => exact ⟨_, _, toTokens_array vs, by simp⟩
  | object ms => exact ⟨_, _, toTokens_object ms, by simp⟩
  | _ => exact ⟨_, _, rfl, by simp⟩

theorem elementTokens_begins (v : Json) (vs : List Json) :
    ∃ t ts, elementTokens (v :: vs) = t :: ts ∧ t ≠ .closeArray := by
  obtain ⟨t, ts, h, ht⟩ := toTokens_begins v
  cases vs with
  | nil => exact ⟨t, ts, by rw [elementTokens_single, h], ht⟩
  | cons w vs => exact ⟨t, _, by rw [elementTokens_cons, h]; rfl, ht⟩

namespace Parser

theorem feed_first {t : Token} (h : t ≠ .closeArray) (outer : List Opened) :
    feed (.first outer) t = feed (.value (.array [] :: outer)) t := by
  cases t <;> first | rfl | contradiction

mutual

theorem foldlM_toTokens (outer : List Opened) : (v : Json) →
    (toTokens v).foldlM feed (.value outer) = some (.complete v outer)
  | .null | .bool _ | .number _ | .string _ => rfl
  | .array [] => rfl
  | .array (v :: vs) => by
    have h := foldlM_elements outer [] (v :: vs) (by simp)
    obtain ⟨t, ts, hts, ht⟩ := elementTokens_begins v vs
    rw [hts, List.cons_append, List.foldlM_cons, ← feed_first ht] at h
    rw [toTokens_array, List.foldlM_cons, hts]
    exact h
  | .object [] => rfl
  | .object (m :: ms) => by
    rw [toTokens_object, List.foldlM_cons]
    exact foldlM_members outer [] (m :: ms) (by simp)

theorem foldlM_elements (outer : List Opened) (done : List Json) : (vs : List Json) → vs ≠ [] →
    (elementTokens vs ++ [Token.closeArray]).foldlM feed (.value (.array done :: outer)) =
      some (.complete (.array (done.reverse ++ vs)) outer)
  | [], h => absurd rfl h
  | [v], _ => by
    rw [List.foldlM_append, elementTokens_single, foldlM_toTokens _ v]
    simp [feed]
  | v :: w :: vs, _ => by
    rw [elementTokens_cons, List.append_assoc, List.foldlM_append, foldlM_toTokens _ v,
      List.cons_append, Option.bind_eq_bind, Option.bind_some, List.foldlM_cons]
    have h := foldlM_elements outer (v :: done) (w :: vs) (by simp)
    rw [List.reverse_cons, List.append_assoc] at h
    exact h

theorem foldlM_members (outer : List Opened) (done : List (List UInt8 × Json)) :
    (ms : List (List UInt8 × Json)) → ms ≠ [] →
    (memberTokens ms ++ [Token.closeObject]).foldlM feed (.key done outer) =
      some (.complete (.object (done.reverse ++ ms)) outer)
  | [], h => absurd rfl h
  | [(k, v)], _ => by
    rw [memberTokens_single, List.cons_append, List.cons_append, List.foldlM_cons]
    show List.foldlM feed (.value (.object done k :: outer)) _ = _
    rw [List.foldlM_append, foldlM_toTokens _ v]
    simp [feed]
  | (k, v) :: m :: ms, _ => by
    rw [memberTokens_cons, List.cons_append, List.cons_append, List.foldlM_cons]
    show List.foldlM feed (.value (.object done k :: outer)) _ = _
    rw [List.append_assoc, List.foldlM_append, foldlM_toTokens _ v, List.cons_append,
      Option.bind_eq_bind, Option.bind_some, List.foldlM_cons]
    have h := foldlM_members outer ((k, v) :: done) (m :: ms) (by simp)
    rw [List.reverse_cons, List.append_assoc] at h
    exact h

end

end Parser

theorem ofTokens?_toTokens (v : Json) : ofTokens? (toTokens v) = some v := by
  simp [ofTokens?, Parser.foldlM_toTokens, Parser.result?]

def IsWritten (v : Json) : Prop := ∀ t ∈ v.toTokens, t.IsSpelled

theorem parse?_render {v : Json} (h : v.IsWritten) : parse? v.render = some v := by
  simp only [parse?, render, tokens?_flatMap_render _ (Parser.foldlM_toTokens [] v) h,
    Option.bind_eq_bind, Option.bind_some, ofTokens?_toTokens]

end Lobby.Json
