import Mathlib.Data.List.TakeWhile
import Lobby.Json.Lemmas

/-! Which texts are read, and as what. A text is read as a value just if it is a layout of the
value's tokens: each spelled in one of the ways that are read, with any blanks before it, and with
any blanks at the end. What a scanner takes off the front it takes off again whatever follows, as
long as that does not carry it on. -/
namespace Lobby.Json

open Number

theorem BeginsNot.nil (p : UInt8 → Bool) : BeginsNot p [] := by
  rintro _ ⟨⟩

theorem BeginsNot.append {p : UInt8 → Bool} {front rest : List UInt8} (hf : BeginsNot p front)
    (hr : BeginsNot p rest) : BeginsNot p (front ++ rest) := by
  cases front with
  | nil => exact hr
  | cons b front => exact .cons (hf b rfl) _

theorem digits?_cut {octets rest : List UInt8} {cs : List Char}
    (h : digits? octets = some (cs, rest)) :
    ∃ front, octets = front ++ rest ∧ (∃ b more, front = b :: more ∧ isDigit b) ∧
      ∀ rest, BeginsNot isDigit rest → digits? (front ++ rest) = some (cs, rest) := by
  rw [digits?] at h
  split at h
  · contradiction
  · next hne =>
    obtain ⟨rfl, rfl⟩ := Prod.mk.inj (Option.some.inj h)
    have hall : ∀ b ∈ octets.takeWhile isDigit, isDigit b := fun b hb => List.mem_takeWhile_imp hb
    obtain ⟨b, more, hb⟩ := List.exists_cons_of_ne_nil hne
    refine ⟨octets.takeWhile isDigit, List.takeWhile_append_dropWhile.symm,
      ⟨b, more, hb, hall b (by rw [hb]; exact List.mem_cons_self)⟩, fun rest hrest => ?_⟩
    have hstop := hrest.takeWhile_dropWhile
    rw [digits?, List.takeWhile_append_of_pos hall, List.dropWhile_append_of_pos hall, hstop.1,
      hstop.2, List.append_nil, hb]

theorem sign_of_beginsNot {octets : List UInt8} (h : BeginsNot (· = 45) octets) :
    sign octets = (false, octets) := by
  rw [sign.eq_def]
  split
  · have := h _ rfl; simp at this
  · rfl

theorem sign_cut (octets : List UInt8) :
    ∃ front, octets = front ++ (sign octets).2 ∧ (front = [] ∨ front = [45]) ∧
      ∀ rest, BeginsNot (· = 45) rest → sign (front ++ rest) = ((sign octets).1, rest) := by
  rw [sign.eq_def]
  split
  · exact ⟨[45], rfl, .inr rfl, fun _ _ => rfl⟩
  · exact ⟨[], rfl, .inl rfl, fun rest hrest => sign_of_beginsNot hrest⟩

theorem whole?_cut {octets rest : List UInt8} {cs : List Char}
    (h : whole? octets = some (cs, rest)) :
    ∃ front, octets = front ++ rest ∧ (∃ b more, front = b :: more ∧ isDigit b) ∧
      ∀ rest, BeginsNot isDigit rest → whole? (front ++ rest) = some (cs, rest) := by
  simp only [whole?, Option.bind_eq_bind, Option.bind_eq_some_iff] at h
  obtain ⟨⟨ds, r⟩, hd, h⟩ := h
  split at h
  · contradiction
  · next hz =>
    obtain ⟨rfl, rfl⟩ := Prod.mk.inj (Option.some.inj h)
    obtain ⟨front, hfront, hshape, hcut⟩ := digits?_cut hd
    refine ⟨front, hfront, hshape, fun rest hrest => ?_⟩
    simp only [whole?, hcut rest hrest, Option.bind_eq_bind, Option.bind_some, hz, if_false]

theorem fraction?_cut {octets rest : List UInt8} {f : Option (List Char)}
    (h : fraction? octets = some (f, rest)) :
    ∃ front, octets = front ++ rest ∧ (front = [] ∨ ∃ more, front = 46 :: more) ∧
      ∀ rest, BeginsNot isDigit rest → BeginsNot (· = 46) rest →
        fraction? (front ++ rest) = some (f, rest) := by
  rw [fraction?.eq_def] at h
  split at h
  · simp only [Option.bind_eq_bind, Option.bind_eq_some_iff, Option.pure_def] at h
    obtain ⟨⟨ds, r⟩, hd, h⟩ := h
    obtain ⟨rfl, rfl⟩ := Prod.mk.inj (Option.some.inj h)
    obtain ⟨front, rfl, -, hcut⟩ := digits?_cut hd
    refine ⟨46 :: front, rfl, .inr ⟨front, rfl⟩, fun rest hrest _ => ?_⟩
    rw [List.cons_append, fraction?, hcut rest hrest]
    rfl
  · obtain ⟨rfl, rfl⟩ := Prod.mk.inj (Option.some.inj h)
    exact ⟨[], rfl, .inl rfl, fun rest _ hrest => fraction?_of_beginsNot hrest⟩

theorem exponentSign_of_beginsNot {octets : List UInt8}
    (h : BeginsNot (fun b => b = 43 || b = 45) octets) :
    exponentSign octets = (false, octets) := by
  rw [exponentSign.eq_def]
  split
  · have := h _ rfl; simp at this
  · have := h _ rfl; simp at this
  · rfl

theorem exponentSign_cut (octets : List UInt8) :
    ∃ front, octets = front ++ (exponentSign octets).2 ∧
      ∀ rest, BeginsNot (fun b => b = 43 || b = 45) rest →
        exponentSign (front ++ rest) = ((exponentSign octets).1, rest) := by
  rw [exponentSign.eq_def]
  split
  · exact ⟨[43], rfl, fun _ _ => rfl⟩
  · exact ⟨[45], rfl, fun _ _ => rfl⟩
  · exact ⟨[], rfl, fun rest hrest => exponentSign_of_beginsNot hrest⟩

/-- A text that begins with a digit begins with nothing else. -/
theorem beginsNot_of_digit {p : UInt8 → Bool} {front : List UInt8}
    (h : ∃ b more, front = b :: more ∧ isDigit b) (hp : ∀ b, p b → isDigit b = false)
    (rest : List UInt8) : BeginsNot p (front ++ rest) := by
  obtain ⟨b, more, rfl, hb⟩ := h
  refine .cons ?_ _
  cases hpb : p b
  · rfl
  · rw [hp b hpb] at hb
    contradiction

theorem exponentDigits?_cut {octets rest : List UInt8} {e : Bool × List Char}
    (h : exponentDigits? octets = some (e, rest)) :
    ∃ front, octets = front ++ rest ∧
      ∀ rest, BeginsNot isDigit rest → exponentDigits? (front ++ rest) = some (e, rest) := by
  simp only [exponentDigits?, Option.bind_eq_bind, Option.bind_eq_some_iff, Option.pure_def] at h
  obtain ⟨⟨ds, r⟩, hd, h⟩ := h
  obtain ⟨rfl, rfl⟩ := Prod.mk.inj (Option.some.inj h)
  obtain ⟨signed, hsigned, hsign⟩ := exponentSign_cut octets
  obtain ⟨front, hfront, hshape, hcut⟩ := digits?_cut hd
  refine ⟨signed ++ front, by rw [List.append_assoc, ← hfront, ← hsigned], fun rest hrest => ?_⟩
  have hs := hsign (front ++ rest)
    (beginsNot_of_digit hshape (by simp +contextual [isDigit, or_imp]) rest)
  simp only [exponentDigits?, List.append_assoc, hs, hcut rest hrest, Option.bind_eq_bind,
    Option.bind_some, Option.pure_def]

theorem exponent?_cut {octets rest : List UInt8} {e : Option (Bool × List Char)}
    (h : exponent? octets = some (e, rest)) :
    ∃ front, octets = front ++ rest ∧
      (front = [] ∨ ∃ b more, front = b :: more ∧ (b = 69 ∨ b = 101)) ∧
      ∀ rest, BeginsNot continues rest → exponent? (front ++ rest) = some (e, rest) := by
  have hmark {mark : UInt8} {more rest : List UInt8} {e : Option (Bool × List Char)}
      (hm : mark = 69 ∨ mark = 101)
      (h : ((exponentDigits? more).bind fun x => some (some x.1, x.2)) = some (e, rest)) :
      ∃ front, mark :: more = front ++ rest ∧
        (front = [] ∨ ∃ b more, front = b :: more ∧ (b = 69 ∨ b = 101)) ∧
        ∀ rest, BeginsNot continues rest → exponent? (front ++ rest) = some (e, rest) := by
    obtain ⟨⟨x, r⟩, hd, h⟩ := Option.bind_eq_some_iff.mp h
    obtain ⟨rfl, rfl⟩ := Prod.mk.inj (Option.some.inj h)
    obtain ⟨front, rfl, hcut⟩ := exponentDigits?_cut hd
    refine ⟨mark :: front, rfl, .inr ⟨mark, front, rfl, hm⟩, fun rest hrest => ?_⟩
    have hdigits := hcut rest (hrest.mono (by simp +contextual [continues]))
    obtain rfl | rfl := hm <;> rw [List.cons_append, exponent?, hdigits] <;> rfl
  rw [exponent?.eq_def] at h
  split at h
  · exact hmark (.inl rfl) h
  · exact hmark (.inr rfl) h
  · obtain ⟨rfl, rfl⟩ := Prod.mk.inj (Option.some.inj h)
    exact ⟨[], rfl, .inl rfl, fun rest hrest => exponent?_of_beginsNot hrest⟩

theorem literal?_cut {octets rest : List UInt8} {l : Literal}
    (h : literal? octets = some (l, rest)) :
    ∃ front, octets = front ++ rest ∧ (∃ b more, front = b :: more ∧ startsNumber b) ∧
      ∀ rest, BeginsNot continues rest → literal? (front ++ rest) = some (l, rest) := by
  simp only [literal?, Option.bind_eq_bind, Option.bind_eq_some_iff, Option.pure_def] at h
  obtain ⟨⟨w, r₁⟩, hw, ⟨f, r₂⟩, hf, ⟨e, r₃⟩, he, h⟩ := h
  obtain ⟨rfl, rfl⟩ := Prod.mk.inj (Option.some.inj h)
  obtain ⟨signed, hsigned, hsign, scut⟩ := sign_cut octets
  obtain ⟨whole, hwhole, hdigit, wcut⟩ := whole?_cut hw
  obtain ⟨fraction, hfraction, hpoint, fcut⟩ := fraction?_cut hf
  obtain ⟨exponent, hexponent, hmark, ecut⟩ := exponent?_cut he
  refine ⟨signed ++ (whole ++ (fraction ++ exponent)), ?_, ?_, fun rest hrest => ?_⟩
  · simp only [List.append_assoc]
    rw [← hexponent, ← hfraction, ← hwhole, ← hsigned]
  · obtain ⟨b, more, rfl, hb⟩ := hdigit
    obtain rfl | rfl := hsign
    · exact ⟨b, _, rfl, by simp [startsNumber, hb]⟩
    · exact ⟨45, _, rfl, rfl⟩
  · have hex {p : UInt8 → Bool} (h₁ : p 69 = false) (h₂ : p 101 = false)
        (hp : ∀ b, p b → continues b) : BeginsNot p (exponent ++ rest) := by
      obtain rfl | ⟨b, more, rfl, rfl | rfl⟩ := hmark
      · exact hrest.mono hp
      · exact .cons h₁ _
      · exact .cons h₂ _
    have hfx : BeginsNot isDigit (fraction ++ (exponent ++ rest)) := by
      obtain rfl | ⟨more, rfl⟩ := hpoint
      · exact hex rfl rfl (by simp +contextual [continues])
      · exact .cons rfl _
    have hs := scut (whole ++ (fraction ++ (exponent ++ rest)))
      (beginsNot_of_digit hdigit (by simp [isDigit]) _)
    have hf' := fcut (exponent ++ rest) (hex rfl rfl (by simp +contextual [continues]))
      (hex rfl rfl (by simp +contextual [continues]))
    simp only [literal?, List.append_assoc, hs, wcut _ hfx, hf', ecut rest hrest,
      Option.bind_eq_bind, Option.bind_some, Option.pure_def]

theorem splitBody?_cut (read octets body rest : List UInt8)
    (h : Quoted.splitBody? read octets = some (body, rest)) :
    ∃ front, octets = front ++ rest ∧
      ∀ rest, Quoted.splitBody? read (front ++ rest) = some (body, rest) := by
  -- one case for each branch; those that refuse the text are closed by `h`
  fun_induction Quoted.splitBody? read octets with
  | case2 read more =>
    obtain ⟨rfl, rfl⟩ := Prod.mk.inj (Option.some.inj h)
    refine ⟨[34], rfl, fun rest => ?_⟩
    rw [List.cons_append, List.nil_append, Quoted.splitBody?.eq_def]
    exact if_pos rfl
  | case4 read h₁ h₂ h₃ h₄ more _ hunit _ _ ih =>
    obtain ⟨front, rfl, hcut⟩ := ih h
    refine ⟨92 :: 117 :: h₁ :: h₂ :: h₃ :: h₄ :: front, rfl, fun rest => ?_⟩
    conv => lhs; simp only [List.cons_append]; unfold Quoted.splitBody?
    simp [hunit, hcut rest]
  | case6 read letter more _ _ hshort _ _ ih =>
    obtain ⟨front, rfl, hcut⟩ := ih h
    -- an escape of one letter is not a numeric one
    have hletter : letter ≠ 117 := by
      rintro rfl
      simp [Quoted.shortEscape?] at hshort
    refine ⟨92 :: letter :: front, rfl, fun rest => ?_⟩
    conv => lhs; simp only [List.cons_append]; unfold Quoted.splitBody?
    simp [hletter, hshort, hcut rest]
  | case9 read b more hquote hcontrol hescape ih =>
    obtain ⟨front, rfl, hcut⟩ := ih h
    refine ⟨b :: front, rfl, fun rest => ?_⟩
    conv => lhs; rw [List.cons_append]; unfold Quoted.splitBody?
    rw [if_neg hquote, if_neg hcontrol, if_neg hescape, hcut rest]
  | _ => contradiction

/-- A token is taken off whatever follows it, but for what carries a number on. -/
theorem scanToken_cut {octets rest : List UInt8} {t : Token}
    (h : scanToken octets = .token t rest) :
    ∃ b more, octets = b :: more ++ rest ∧ isBlank b = false ∧
      (t.isNumber = false → continues b = false) ∧
      ∀ rest, (t.isNumber → BeginsNot continues rest) →
        scanToken (b :: more ++ rest) = .token t rest := by
  rw [scanToken.eq_def] at h
  split at h
  case h_1 => contradiction
  -- `null`, `true` and `false`
  case h_8 =>
    obtain ⟨rfl, rfl⟩ := Scan.token.inj h
    exact ⟨110, [117, 108, 108], rfl, rfl, fun _ => rfl, fun _ _ => rfl⟩
  case h_9 =>
    obtain ⟨rfl, rfl⟩ := Scan.token.inj h
    exact ⟨116, [114, 117, 101], rfl, rfl, fun _ => rfl, fun _ _ => rfl⟩
  case h_10 =>
    obtain ⟨rfl, rfl⟩ := Scan.token.inj h
    exact ⟨102, [97, 108, 115, 101], rfl, rfl, fun _ => rfl, fun _ _ => rfl⟩
  -- a string, then a number
  case h_11 =>
    split at h
    · next hbody =>
      obtain ⟨rfl, rfl⟩ := Scan.token.inj h
      obtain ⟨front, rfl, hcut⟩ := splitBody?_cut _ _ _ _ hbody
      refine ⟨34, front, rfl, rfl, fun _ => rfl, fun rest _ => ?_⟩
      rw [List.cons_append, scanToken, hcut rest]
    · contradiction
  case h_12 =>
    split at h
    · next hl =>
      obtain ⟨rfl, rfl⟩ := Scan.token.inj h
      obtain ⟨_, rfl, ⟨b, more, rfl, hb⟩, hcut⟩ := literal?_cut hl
      refine ⟨b, more, rfl, isBlank_of_startsNumber hb, by simp [Token.isNumber],
        fun rest hrest => ?_⟩
      have hl := hcut rest (hrest rfl)
      rw [List.cons_append] at hl ⊢
      rw [scanToken_number hb, hl]
    · contradiction
  -- the marks of one octet
  all_goals
    obtain ⟨rfl, rfl⟩ := Scan.token.inj h
    exact ⟨_, [], rfl, rfl, fun _ => rfl, fun _ _ => rfl⟩

theorem eq_nil_of_scanToken {octets : List UInt8} (h : scanToken octets = .done) : octets = [] := by
  rw [scanToken.eq_def] at h
  split at h
  case h_1 => rfl
  case h_11 => split at h <;> contradiction
  case h_12 => split at h <;> contradiction
  all_goals contradiction

/-- A text that spells some tokens, each in a way that is read as it, with blanks anywhere between
them. -/
inductive Laid : List Token → List UInt8 → Prop where
  | done {blanks : List UInt8} : (∀ b ∈ blanks, isBlank b) → Laid [] blanks
  | token {blanks lexeme rest : List UInt8} {t : Token} {ts : List Token} :
    (∀ b ∈ blanks, isBlank b) → scanToken lexeme = .token t [] → Laid ts rest →
      Laid (t :: ts) (blanks ++ (lexeme ++ rest))

/-- More blanks ahead make no difference. -/
theorem Laid.blanks {ts : List Token} {text blanks : List UInt8} (h : Laid ts text)
    (hb : ∀ b ∈ blanks, isBlank b) : Laid ts (blanks ++ text) := by
  have hall {more : List UInt8} (hm : ∀ b ∈ more, isBlank b) : ∀ b ∈ blanks ++ more, isBlank b :=
    fun b hmem => (List.mem_append.mp hmem).elim (hb b) (hm b)
  cases h with
  | done hm => exact .done (hall hm)
  | token hm hlexeme hrest =>
    rw [← List.append_assoc]
    exact .token (hall hm) hlexeme hrest

/-- Layouts one behind the other. -/
theorem Laid.append {ts us : List Token} {text more : List UInt8} (h : Laid ts text)
    (hm : Laid us more) : Laid (ts ++ us) (text ++ more) := by
  induction h with
  | done hb => exact hm.blanks hb
  | token hb hlexeme _ ih =>
    rw [List.cons_append, List.append_assoc, List.append_assoc]
    exact .token hb hlexeme ih

/-- Whatever is read as some tokens spells them. -/
theorem laid_of_tokens? {text : List UInt8} {ts : List Token} (h : tokens? text = some ts) :
    Laid ts text := by
  induction hn : text.length using Nat.strongRecOn generalizing text ts with
  | _ n ih =>
    have hblanks : ∀ b ∈ text.takeWhile isBlank, isBlank b := fun b => List.mem_takeWhile_imp
    rw [← List.takeWhile_append_dropWhile (p := isBlank) (l := text)]
    rw [tokens?_eq] at h
    split at h
    · next hscan =>
      obtain rfl := Option.some.inj h
      rw [eq_nil_of_scanToken hscan, List.append_nil]
      exact .done hblanks
    · contradiction
    · next t rest hscan =>
      obtain ⟨us, hus, rfl⟩ := Option.map_eq_some_iff.mp h
      have hrest := ih rest.length (hn ▸ scan_lt hscan) hus rfl
      obtain ⟨b, more, hlexeme, -, -, hcut⟩ := scanToken_cut hscan
      have hown := hcut [] fun _ => .nil _
      rw [List.append_nil] at hown
      rw [hlexeme]
      exact .token hblanks hown hrest

theorem continues_of_isBlank {b : UInt8} (h : isBlank b) : continues b = false := by
  simp only [isBlank, Bool.or_eq_true, decide_eq_true_eq] at h
  obtain ((rfl | rfl) | rfl) | rfl := h <;> rfl

theorem beginsNot_of_blanks {blanks rest : List UInt8} (h : ∀ b ∈ blanks, isBlank b)
    (hr : BeginsNot continues rest) : BeginsNot continues (blanks ++ rest) :=
  .append (fun b hb => continues_of_isBlank (h b (List.mem_of_mem_head? hb))) hr

/-- A number is not carried on by what a parser takes after it. -/
theorem Laid.beginsNot {p q r : Parser} {t : Token} {ts : List Token} {text : List UInt8}
    (h : Laid ts text) (hn : t.isNumber) (ht : p.feed t = some q)
    (hq : ts.foldlM Parser.feed q = some r) : BeginsNot continues text := by
  cases h with
  | done hb =>
    rw [← List.append_nil text]
    exact beginsNot_of_blanks hb (.nil _)
  | @token _ _ rest u ts hb hlexeme _ =>
    rw [List.foldlM_cons, Option.bind_eq_bind, Option.bind_eq_some_iff] at hq
    obtain ⟨_, hu, -⟩ := hq
    obtain ⟨b, more, hl, -, hother, -⟩ := scanToken_cut hlexeme
    rw [hl, List.append_nil]
    exact beginsNot_of_blanks hb (.cons (hother (Parser.isNumber_of_feed ht hu hn)) _)

/-- A text that spells tokens which some parser takes is read as those tokens. -/
theorem Laid.tokens? {text : List UInt8} {ts : List Token} {p q : Parser} (h : Laid ts text)
    (hp : ts.foldlM Parser.feed p = some q) : tokens? text = some ts := by
  induction h generalizing p with
  | @done blanks hb =>
    have hend : blanks.dropWhile isBlank = [] := by simpa using hb
    rw [tokens?_eq, scan, hend]
    rfl
  | @token blanks lexeme rest t ts hb hlexeme hrest ih =>
    rw [List.foldlM_cons, Option.bind_eq_bind, Option.bind_eq_some_iff] at hp
    obtain ⟨p', ht, hp⟩ := hp
    obtain ⟨b, more, hl, hblank, -, hcut⟩ := scanToken_cut hlexeme
    rw [List.append_nil] at hl
    subst hl
    rw [tokens?_eq, scan, List.dropWhile_append_of_pos hb, List.cons_append,
      List.dropWhile_cons_of_neg (by simp [hblank]), ← List.cons_append,
      hcut rest fun hn => hrest.beginsNot hn ht hp]
    simp only
    rw [ih hp]
    rfl

def commaElements (vs : List Json) : List Token :=
  vs.flatMap fun v => v.toTokens ++ [.comma]

def commaMembers (ms : List (List UInt8 × Json)) : List Token :=
  ms.flatMap fun m => .string m.1 :: .colon :: (m.2.toTokens ++ [.comma])

theorem elementTokens_concat (vs : List Json) (v : Json) :
    elementTokens (vs ++ [v]) = commaElements vs ++ v.toTokens := by
  induction vs with
  | nil => exact elementTokens_single v
  | cons w vs ih =>
    obtain ⟨u, us, hu⟩ := List.exists_cons_of_ne_nil (List.append_ne_nil_of_right_ne_nil vs
      (List.cons_ne_nil v []))
    rw [List.cons_append, hu, elementTokens_cons, ← hu, ih]
    simp [commaElements]

theorem memberTokens_concat (ms : List (List UInt8 × Json)) (k : List UInt8) (v : Json) :
    memberTokens (ms ++ [(k, v)]) = commaMembers ms ++ .string k :: .colon :: v.toTokens := by
  induction ms with
  | nil => exact memberTokens_single k v
  | cons m ms ih =>
    obtain ⟨n, ns, hn⟩ := List.exists_cons_of_ne_nil (List.append_ne_nil_of_right_ne_nil ms
      (List.cons_ne_nil (k, v) []))
    rw [List.cons_append, hn, memberTokens_cons, ← hn, ih]
    simp [commaMembers]

namespace Parser

def openTokens : Opened → List Token
  | .array done => .openArray :: commaElements done.reverse
  | .object done k => .openObject :: (commaMembers done.reverse ++ [.string k, .colon])

def outerTokens (outer : List Opened) : List Token :=
  outer.reverse.flatMap openTokens

def taken : Parser → List Token
  | .value outer => outerTokens outer
  | .first outer => outerTokens outer ++ [.openArray]
  | .key done outer => outerTokens outer ++ .openObject :: commaMembers done.reverse
  | .colon done k outer =>
    outerTokens outer ++ .openObject :: (commaMembers done.reverse ++ [.string k])
  | .complete v outer => outerTokens outer ++ v.toTokens

theorem outerTokens_cons (o : Opened) (outer : List Opened) :
    outerTokens (o :: outer) = outerTokens outer ++ openTokens o := by
  simp [outerTokens]

theorem taken_start {outer : List Opened} {t : Token} {q : Parser} (h : start outer t = some q) :
    q.taken = outerTokens outer ++ [t] := by
  cases t with
  | closeArray | closeObject | comma | colon => contradiction
  | _ =>
    obtain rfl := Option.some.inj h
    rfl

theorem taken_feed {p q : Parser} {t : Token} (h : p.feed t = some q) :
    q.taken = p.taken ++ [t] := by
  revert h
  fun_cases feed p t with
  | case1 outer => exact taken_start
  | case3 outer =>
    intro h
    rw [taken_start h, outerTokens_cons]
    rfl
  | case5 outer =>
    rintro ⟨⟩
    simp [taken, toTokens_object, commaMembers, memberTokens, membersAfter]
  | case8 v done outer =>
    rintro ⟨⟩
    rw [List.reverse_cons]
    simp [taken, outerTokens_cons, openTokens, toTokens_array, elementTokens_concat]
  | case10 v done k outer =>
    rintro ⟨⟩
    rw [List.reverse_cons]
    simp [taken, outerTokens_cons, openTokens, toTokens_object, memberTokens_concat]
  | case11 => rintro ⟨⟩
  | _ =>
    rintro ⟨⟩
    simp [taken, outerTokens_cons, openTokens, commaElements, commaMembers, toTokens_array,
      elementTokens, elementsAfter]

theorem taken_foldlM {ts : List Token} {p q : Parser} (h : ts.foldlM feed p = some q) :
    q.taken = p.taken ++ ts := by
  induction ts generalizing p with
  | nil =>
    obtain rfl := Option.some.inj h
    exact (List.append_nil _).symm
  | cons t ts ih =>
    rw [List.foldlM_cons, Option.bind_eq_bind, Option.bind_eq_some_iff] at h
    obtain ⟨p', ht, h⟩ := h
    rw [ih h, taken_feed ht, List.append_assoc]
    rfl

end Parser

/-- Tokens are read as the value whose tokens they are. -/
theorem ofTokens?_eq_some_iff {ts : List Token} {v : Json} :
    ofTokens? ts = some v ↔ ts = v.toTokens := by
  constructor
  · intro h
    simp only [ofTokens?, Option.bind_eq_bind, Option.bind_eq_some_iff] at h
    obtain ⟨q, hq, hv⟩ := h
    have htaken := Parser.taken_foldlM hq
    obtain rfl : q = .complete v [] := by
      rw [Parser.result?.eq_def] at hv
      split at hv
      · rw [Option.some.inj hv]
      · contradiction
    exact htaken.symm
  · rintro rfl
    exact ofTokens?_toTokens v

/-- A text is read as a value just if it is a layout of the value's tokens. -/
theorem parse?_eq_some_iff {text : List UInt8} {v : Json} :
    parse? text = some v ↔ Laid v.toTokens text := by
  rw [parse?, Option.bind_eq_bind, Option.bind_eq_some_iff]
  constructor
  · rintro ⟨ts, hts, hv⟩
    rw [← ofTokens?_eq_some_iff.mp hv]
    exact laid_of_tokens? hts
  · intro h
    exact ⟨v.toTokens, h.tokens? (Parser.foldlM_toTokens [] v), ofTokens?_toTokens v⟩

end Lobby.Json
