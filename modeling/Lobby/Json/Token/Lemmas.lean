import Lobby.Json.Text

/-! Written tokens are read back: a spelled number ends where nothing can carry it on, and a text
of spelled tokens, no two numbers side by side, scans to those tokens. -/
namespace Lobby.Json

open Number Number.Literal

def IsDigits (cs : List Char) : Prop := cs ≠ [] ∧ ∀ c ∈ cs, c.isDigit

/-- A text that does not begin with an octet of a kind. -/
def BeginsNot (p : UInt8 → Bool) (octets : List UInt8) : Prop :=
  ∀ b, octets.head? = some b → p b = false

/-- A digit's number lies between those of zero and nine. -/
theorem toNat_of_isDigit {c : Char} (h : c.isDigit) : 48 ≤ c.toNat ∧ c.toNat ≤ 57 := by
  simpa [Char.isDigit, UInt32.le_iff_toNat_le] using h

theorem toNat_ofNat_of_isDigit {c : Char} (h : c.isDigit) :
    (UInt8.ofNat c.toNat).toNat = c.toNat := by
  have := toNat_of_isDigit h
  rw [UInt8.toNat_ofNat']; omega

theorem isDigit_ofNat {c : Char} (h : c.isDigit) : isDigit (UInt8.ofNat c.toNat) := by
  simp only [isDigit, Bool.and_eq_true, decide_eq_true_eq, UInt8.le_iff_toNat_le,
    toNat_ofNat_of_isDigit h]
  exact toNat_of_isDigit h

theorem isDigit_of_mem_digitOctets {cs : List Char} (h : ∀ c ∈ cs, c.isDigit) :
    ∀ b ∈ digitOctets cs, isDigit b := by
  simp only [digitOctets, List.mem_map]
  rintro b ⟨c, hc, rfl⟩
  exact isDigit_ofNat (h c hc)

theorem map_digitOctets {cs : List Char} (h : ∀ c ∈ cs, c.isDigit) :
    (digitOctets cs).map (fun b => Char.ofNat b.toNat) = cs := by
  rw [digitOctets, List.map_map]
  conv => rhs; rw [← List.map_id cs]
  refine List.map_congr_left fun c hc => ?_
  simp only [Function.comp, toNat_ofNat_of_isDigit (h c hc), Char.ofNat_toNat, id]

theorem BeginsNot.takeWhile_dropWhile {p : UInt8 → Bool} {octets : List UInt8}
    (h : BeginsNot p octets) : octets.takeWhile p = [] ∧ octets.dropWhile p = octets := by
  cases octets with
  | nil => simp
  | cons b octets => simp [h b rfl]

theorem digits?_digitOctets {cs : List Char} (h : IsDigits cs) {rest : List UInt8}
    (hr : BeginsNot isDigit rest) : digits? (digitOctets cs ++ rest) = some (cs, rest) := by
  have hall := isDigit_of_mem_digitOctets h.2
  have hrest := hr.takeWhile_dropWhile
  rw [digits?, List.takeWhile_append_of_pos hall, List.dropWhile_append_of_pos hall, hrest.1,
    hrest.2, List.append_nil]
  have hm := map_digitOctets h.2
  obtain ⟨c, cs, rfl⟩ := List.exists_cons_of_ne_nil h.1
  simpa only [digitOctets, List.map_cons, Option.some.injEq, Prod.mk.injEq, and_true] using hm

/-- A number in the form that is read: digits where digits belong, and no needless zero ahead. -/
structure IsSpelled (l : Literal) : Prop where
  whole : IsDigits l.whole
  zero : l.whole.head? = some '0' → l.whole.length = 1
  fraction : ∀ digits, l.fraction = some digits → IsDigits digits
  exponent : ∀ sign digits, l.exponent = some (sign, digits) → IsDigits digits

def continues (b : UInt8) : Bool := isDigit b || b = 46 || b = 69 || b = 101

theorem BeginsNot.mono {p q : UInt8 → Bool} {octets : List UInt8} (h : BeginsNot p octets)
    (hpq : ∀ b, q b → p b) : BeginsNot q octets := by
  intro b hb
  have := h b hb
  cases hq : q b
  · rfl
  · rw [hpq b hq] at this; contradiction

theorem BeginsNot.cons {p : UInt8 → Bool} {b : UInt8} (h : p b = false) (rest : List UInt8) :
    BeginsNot p (b :: rest) := by
  rintro _ ⟨⟩; exact h

theorem exponent?_of_beginsNot {octets : List UInt8} (h : BeginsNot continues octets) :
    exponent? octets = some (none, octets) := by
  rw [exponent?.eq_def]
  split
  · have := h _ rfl; simp [continues] at this
  · have := h _ rfl; simp [continues] at this
  · rfl

theorem fraction?_of_beginsNot {octets : List UInt8} (h : BeginsNot (· = 46) octets) :
    fraction? octets = some (none, octets) := by
  rw [fraction?.eq_def]
  split
  · have := h _ rfl; simp at this
  · rfl

theorem exponent?_render (e : Option (Bool × List Char))
    (he : ∀ sign digits, e = some (sign, digits) → IsDigits digits) {rest : List UInt8}
    (hr : BeginsNot continues rest) :
    exponent? (renderExponent e ++ rest) = some (e, rest) := by
  have hd : BeginsNot isDigit rest := hr.mono (by simp +contextual [continues])
  match e with
  | none =>
    rw [renderExponent, List.nil_append]
    exact exponent?_of_beginsNot hr
  | some (sign, digits) =>
    have := digits?_digitOctets (he sign digits rfl) hd
    cases sign <;> simp [renderExponent, exponent?, exponentDigits?, exponentSign, this]

theorem fraction?_render (f : Option (List Char))
    (hf : ∀ digits, f = some digits → IsDigits digits) {rest : List UInt8}
    (hd : BeginsNot isDigit rest) (hp : BeginsNot (· = 46) rest) :
    fraction? (renderFraction f ++ rest) = some (f, rest) := by
  match f with
  | none =>
    rw [renderFraction, List.nil_append]
    exact fraction?_of_beginsNot hp
  | some digits =>
    simp [renderFraction, fraction?, digits?_digitOctets (hf digits rfl) hd]

theorem literal?_render {l : Literal} (h : IsSpelled l) {rest : List UInt8}
    (hr : BeginsNot continues rest) : literal? (l.render ++ rest) = some (l, rest) := by
  obtain ⟨negative, whole, fraction, exponent⟩ := l
  have he := exponent?_render exponent h.exponent hr
  have hx (p : UInt8 → Bool) (h₁ : p 101 = false) (h₂ : ∀ b, p b → continues b) :
      BeginsNot p (renderExponent exponent ++ rest) := by
    match exponent with
    | none => exact hr.mono h₂
    | some (_, _) => exact .cons h₁ _
  have hf : fraction? (renderFraction fraction ++ (renderExponent exponent ++ rest)) = _ :=
    fraction?_render fraction h.fraction
      (hx _ rfl (by simp +contextual [continues])) (hx _ rfl (by simp +contextual [continues]))
  have hfx : BeginsNot isDigit (renderFraction fraction ++ (renderExponent exponent ++ rest)) := by
    match fraction with
    | none => exact hx _ rfl (by simp +contextual [continues])
    | some _ => exact .cons rfl _
  have hw := digits?_digitOctets h.whole hfx
  obtain ⟨c, cs, hc⟩ := List.exists_cons_of_ne_nil h.whole.1
  have hs : sign ((if negative then [45] else []) ++ (digitOctets whole ++
      (renderFraction fraction ++ (renderExponent exponent ++ rest)))) =
      (negative, digitOctets whole ++
        (renderFraction fraction ++ (renderExponent exponent ++ rest))) := by
    cases negative with
    | true => rfl
    | false =>
      simp only at hc
      subst hc
      have := isDigit_ofNat (h.whole.2 c List.mem_cons_self)
      simp only [digitOctets, List.map_cons, List.cons_append, sign]
      split
      · next heq =>
        simp only [Bool.false_eq_true, if_false, List.nil_append, List.cons.injEq] at heq
        rw [heq.1] at this
        contradiction
      · rfl
  have hz : ¬ (whole.head? = some '0' ∧ 1 < whole.length) := by
    rintro ⟨h₁, h₂⟩
    have := h.zero h₁
    simp only at this
    omega
  simp only at hw
  simp only [literal?, Number.Literal.render, List.append_assoc, hs, whole?, hw, hz, hf, he,
    if_false, Option.bind_eq_bind, Option.bind_some, Option.pure_def]

def IsBody (body : List UInt8) : Prop :=
  ∀ rest, Quoted.splitBody? [] (body ++ 34 :: rest) = some (body, rest)

def Token.IsSpelled : Token → Prop
  | .number l => Json.IsSpelled l
  | .string body => IsBody body
  | _ => True

def Token.isNumber : Token → Bool
  | .number _ => true
  | _ => false

theorem scan_of_not_blank {b : UInt8} (h : isBlank b = false) (rest : List UInt8) :
    scan (b :: rest) = scanToken (b :: rest) := by
  rw [scan, List.dropWhile_cons_of_neg (by simp [h])]

def startsNumber (b : UInt8) : Bool := isDigit b || b = 45

theorem isBlank_of_startsNumber {b : UInt8} (h : startsNumber b) : isBlank b = false := by
  simp only [startsNumber, isDigit, Bool.or_eq_true, Bool.and_eq_true, decide_eq_true_eq,
    UInt8.le_iff_toNat_le, ← UInt8.toNat_inj] at h
  simp only [isBlank, Bool.or_eq_false_iff, decide_eq_false_iff_not, ← UInt8.toNat_inj]
  simp only [UInt8.reduceToNat] at *
  omega

theorem render_number {l : Literal} (h : IsSpelled l) :
    ∃ b rest, l.render = b :: rest ∧ startsNumber b := by
  obtain ⟨negative, whole, fraction, exponent⟩ := l
  obtain ⟨c, cs, hc⟩ := List.exists_cons_of_ne_nil h.whole.1
  simp only at hc
  subst hc
  cases negative with
  | true => exact ⟨45, _, rfl, rfl⟩
  | false =>
    refine ⟨UInt8.ofNat c.toNat, _, rfl, ?_⟩
    simp [startsNumber, isDigit_ofNat (h.whole.2 c List.mem_cons_self)]

theorem scanToken_number {b : UInt8} (h : startsNumber b) (rest : List UInt8) :
    scanToken (b :: rest) =
      match literal? (b :: rest) with
      | some (l, rest) => .token (.number l) rest
      | none => .malformed := by
  rw [scanToken.eq_def]
  split
  case h_12 => rfl
  all_goals simp_all [startsNumber, isDigit]

theorem scan_render {t : Token} (h : t.IsSpelled) {rest : List UInt8}
    (hr : t.isNumber → BeginsNot continues rest) : scan (t.render ++ rest) = .token t rest := by
  cases t with
  | number l =>
    obtain ⟨b, more, hb, hd⟩ := render_number h
    have hl := literal?_render h (hr rfl)
    simp only [Token.render] at *
    rw [hb, List.cons_append] at hl ⊢
    rw [scan_of_not_blank (isBlank_of_startsNumber hd), scanToken_number hd, hl]
  | string body =>
    have := h rest
    simp only [Token.render, List.cons_append, List.append_assoc, List.nil_append]
    rw [scan_of_not_blank rfl, scanToken, this]
  | bool b => cases b <;> rfl
  | _ => rfl

theorem digits?_lt {octets rest : List UInt8} {cs : List Char}
    (h : digits? octets = some (cs, rest)) : rest.length < octets.length := by
  rw [digits?] at h
  split at h
  · contradiction
  · next hd =>
    obtain ⟨-, rfl⟩ := Prod.mk.inj (Option.some.inj h)
    have := congrArg List.length (List.takeWhile_append_dropWhile (p := isDigit) (l := octets))
    rw [List.length_append] at this
    have : 0 < (octets.takeWhile isDigit).length := List.length_pos_iff.2 hd
    omega

theorem sign_le (octets : List UInt8) : (sign octets).2.length ≤ octets.length := by
  rw [sign.eq_def]; split <;> simp

theorem exponentSign_le (octets : List UInt8) :
    (exponentSign octets).2.length ≤ octets.length := by
  rw [exponentSign.eq_def]; split <;> simp

theorem whole?_lt {octets rest : List UInt8} {cs : List Char}
    (h : whole? octets = some (cs, rest)) : rest.length < octets.length := by
  simp only [whole?, Option.bind_eq_bind, Option.bind_eq_some_iff] at h
  obtain ⟨⟨ds, r⟩, hd, h⟩ := h
  split at h
  · contradiction
  · obtain ⟨-, rfl⟩ := Prod.mk.inj (Option.some.inj h)
    exact digits?_lt hd

theorem fraction?_le {octets rest : List UInt8} {f : Option (List Char)}
    (h : fraction? octets = some (f, rest)) : rest.length ≤ octets.length := by
  rw [fraction?.eq_def] at h
  split at h
  · simp only [Option.bind_eq_bind, Option.bind_eq_some_iff, Option.pure_def] at h
    obtain ⟨⟨ds, r⟩, hd, h⟩ := h
    obtain ⟨-, rfl⟩ := Prod.mk.inj (Option.some.inj h)
    have := digits?_lt hd
    simp only [List.length_cons]
    omega
  · obtain ⟨-, rfl⟩ := Prod.mk.inj (Option.some.inj h)
    exact Nat.le_refl _

theorem exponentDigits?_lt {octets rest : List UInt8} {e : Bool × List Char}
    (h : exponentDigits? octets = some (e, rest)) : rest.length < octets.length := by
  simp only [exponentDigits?, Option.bind_eq_bind, Option.bind_eq_some_iff, Option.pure_def] at h
  obtain ⟨⟨ds, r⟩, hd, h⟩ := h
  obtain ⟨-, rfl⟩ := Prod.mk.inj (Option.some.inj h)
  exact Nat.lt_of_lt_of_le (digits?_lt hd) (exponentSign_le octets)

theorem exponent?_le {octets rest : List UInt8} {e : Option (Bool × List Char)}
    (h : exponent? octets = some (e, rest)) : rest.length ≤ octets.length := by
  rw [exponent?.eq_def] at h
  split at h
  case h_3 =>
    obtain ⟨-, rfl⟩ := Prod.mk.inj (Option.some.inj h)
    exact Nat.le_refl _
  all_goals
    simp only [Option.bind_eq_bind, Option.bind_eq_some_iff, Option.pure_def] at h
    obtain ⟨⟨x, r⟩, hd, h⟩ := h
    obtain ⟨-, rfl⟩ := Prod.mk.inj (Option.some.inj h)
    exact Nat.le_succ_of_le (Nat.le_of_lt (exponentDigits?_lt hd))

theorem literal?_lt {octets rest : List UInt8} {l : Literal}
    (h : literal? octets = some (l, rest)) : rest.length < octets.length := by
  simp only [literal?, Option.bind_eq_bind, Option.bind_eq_some_iff, Option.pure_def] at h
  obtain ⟨⟨w, r₁⟩, hw, ⟨f, r₂⟩, hf, ⟨e, r₃⟩, he, h⟩ := h
  obtain ⟨-, rfl⟩ := Prod.mk.inj (Option.some.inj h)
  exact Nat.lt_of_le_of_lt (exponent?_le he) <| Nat.lt_of_le_of_lt (fraction?_le hf) <|
    Nat.lt_of_lt_of_le (whole?_lt hw) (sign_le octets)

theorem splitBody?_lt (octets read body rest : List UInt8)
    (h : Quoted.splitBody? read octets = some (body, rest)) : rest.length < octets.length := by
  fun_induction Quoted.splitBody? read octets <;> simp_all <;> omega

theorem scan_lt {octets rest : List UInt8} {t : Token} (h : scan octets = .token t rest) :
    rest.length < octets.length := by
  have hd : (octets.dropWhile isBlank).length ≤ octets.length :=
    (List.dropWhile_sublist isBlank).length_le
  rw [scan] at h
  generalize octets.dropWhile isBlank = o at *
  suffices rest.length < o.length by omega
  rw [scanToken.eq_def] at h
  split at h
  case h_1 => contradiction
  case h_11 =>
    split at h
    · next hs =>
      obtain ⟨-, rfl⟩ := Scan.token.inj h
      exact Nat.lt_succ_of_lt (splitBody?_lt _ _ _ _ hs)
    · contradiction
  case h_12 =>
    split at h
    · next hl =>
      obtain ⟨-, rfl⟩ := Scan.token.inj h
      exact literal?_lt hl
    · contradiction
  all_goals
    obtain ⟨-, rfl⟩ := Scan.token.inj h
    simp only [List.length_cons]; omega

theorem tokensOnto?_eq (fuel : Nat) (read : List Token) (octets : List UInt8)
    (h : octets.length < fuel) :
    tokensOnto? fuel read octets = (tokens? octets).map (read.reverse ++ ·) := by
  induction hn : octets.length using Nat.strongRecOn generalizing fuel read octets with
  | _ n ih =>
    obtain ⟨fuel, rfl⟩ : ∃ k, fuel = k + 1 := ⟨fuel - 1, by omega⟩
    rw [tokens?, tokensOnto?, tokensOnto?]
    cases hs : scan octets with
    | done => simp
    | malformed => simp
    | token t rest =>
      have := scan_lt hs
      simp only
      rw [ih rest.length (by omega) fuel (t :: read) rest (by omega) rfl,
        ih rest.length (by omega) octets.length [t] rest (by omega) rfl]
      cases tokens? rest <;> simp

theorem tokens?_eq (octets : List UInt8) :
    tokens? octets =
      match scan octets with
      | .done => some []
      | .malformed => none
      | .token t rest => (tokens? rest).map (t :: ·) := by
  rw [tokens?, tokensOnto?]
  cases hs : scan octets with
  | done => rfl
  | malformed => rfl
  | token t rest =>
    simp only
    rw [tokensOnto?_eq _ _ _ (scan_lt hs)]
    rfl

/-- No other token carries a number on. -/
theorem beginsNot_render {t : Token} (h : t.isNumber = false) (rest : List UInt8) :
    BeginsNot continues (t.render ++ rest) := by
  cases t with
  | number => contradiction
  | bool b => cases b <;> exact .cons rfl _
  | _ => exact .cons rfl _

/-- After a number no parser takes another. -/
theorem Parser.isNumber_of_feed {p q r : Parser} {t u : Token} (ht : p.feed t = some q)
    (hu : q.feed u = some r) (h : t.isNumber) : u.isNumber = false := by
  cases t <;> simp only [Token.isNumber, Bool.false_eq_true] at h
  have hq : ∃ v outer, q = .complete v outer := by
    cases p with
    | value outer => exact ⟨_, _, (Option.some.inj ht).symm⟩
    | first outer => exact ⟨_, _, (Option.some.inj ht).symm⟩
    | key done outer => cases done <;> contradiction
    | colon => contradiction
    | complete v outer =>
      cases outer with
      | nil => contradiction
      | cons o outer => cases o <;> contradiction
  obtain ⟨v, outer, rfl⟩ := hq
  cases u with
  | number l =>
    cases outer with
    | nil => contradiction
    | cons o outer => cases o <;> contradiction
  | _ => rfl

/-- The text of spelled tokens that a parser takes scans to those tokens. -/
theorem tokens?_flatMap_render (ts : List Token) {p q : Parser}
    (h : ts.foldlM Parser.feed p = some q) (hs : ∀ t ∈ ts, t.IsSpelled) :
    tokens? (ts.flatMap Token.render) = some ts := by
  induction ts generalizing p with
  | nil => rfl
  | cons t ts ih =>
    rw [List.foldlM_cons, Option.bind_eq_bind, Option.bind_eq_some_iff] at h
    obtain ⟨p', ht, h⟩ := h
    have hr : t.isNumber → BeginsNot continues (ts.flatMap Token.render) := by
      intro hn
      cases ts with
      | nil => exact fun b hb => by simp at hb
      | cons u ts =>
        rw [List.foldlM_cons, Option.bind_eq_bind, Option.bind_eq_some_iff] at h
        obtain ⟨_, hu, -⟩ := h
        exact beginsNot_render (Parser.isNumber_of_feed ht hu hn) _
    rw [List.flatMap_cons, tokens?_eq, scan_render (hs t List.mem_cons_self) hr]
    simp only
    rw [ih h (fun u hu => hs u (List.mem_cons_of_mem _ hu))]
    rfl

end Lobby.Json
