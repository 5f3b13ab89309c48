import Mathlib.Data.List.Lex
import Mathlib.Data.String.Basic
import Lobby.Message.Basic
import Lobby.Text.Utf8

/-! The order of identities is the order of their UTF-8 octets. -/
namespace Lobby
open Text

private theorem toNat_lt (c : Char) : c.toNat < 0x110000 := by
  have : c.toNat.isValidChar := c.valid
  rcases this with h | h <;> omega

private theorem toNat_octet {n : Nat} (h : n < 256) : (UInt8.ofNat n).toNat = n := by
  rw [UInt8.toNat_ofNat']
  exact Nat.mod_eq_of_lt h

private theorem digit_lt {m n : Nat} (h : m < n) :
    m / 64 < n / 64 ∨ m / 64 = n / 64 ∧ m % 64 < n % 64 := by
  omega

/-- Numbers compare as their last three digits in base 64 and what goes before these. -/
private theorem digits_lt {m n : Nat} (h : m < n) :
    m / 262144 < n / 262144 ∨ m / 262144 = n / 262144 ∧
      (m / 4096 % 64 < n / 4096 % 64 ∨ m / 4096 % 64 = n / 4096 % 64 ∧
        (m / 64 % 64 < n / 64 % 64 ∨ m / 64 % 64 = n / 64 % 64 ∧ m % 64 < n % 64)) := by
  have digits (k : Nat) : k / 64 / 64 = k / 4096 ∧ k / 4096 / 64 = k / 262144 := by
    rw [Nat.div_div_eq_div_mul, Nat.div_div_eq_div_mul]
    exact ⟨rfl, rfl⟩
  obtain ⟨hm, hm'⟩ := digits m
  obtain ⟨hn, hn'⟩ := digits n
  rcases digit_lt h with h1 | ⟨h1, h1'⟩
  · rcases digit_lt h1 with h2 | ⟨h2, h2'⟩
    · rw [hm, hn] at h2
      have h3 := digit_lt h2
      omega
    · omega
  · omega

/-- Of two characters the smaller has the smaller octets, whatever follows. -/
private theorem utf8EncodeChar_lt {c d : Char} (h : c < d) (x y : List UInt8) :
    String.utf8EncodeChar c ++ x < String.utf8EncodeChar d ++ y := by
  have hc := toNat_lt c
  have hd := toNat_lt d
  have hlt : c.toNat < d.toNat := h
  rw [String.utf8EncodeChar, String.utf8EncodeChar]
  simp only [show c.val.toNat = c.toNat from rfl, show d.val.toNat = d.toNat from rfl]
  generalize c.toNat = m at *
  generalize d.toNat = n at *
  have digits := digits_lt hlt
  -- the first octet decides, or else both take as many octets
  repeat' split
  all_goals
    simp (disch := omega) only [List.cons_append, List.nil_append, List.cons_lt_cons_iff,
      UInt8.lt_iff_toNat_lt, ← UInt8.toNat_inj, toNat_octet, Nat.mod_eq_of_lt]
    omega

private theorem utf8EncodeChar_ne_nil (c : Char) : String.utf8EncodeChar c ≠ [] := by
  rw [String.utf8EncodeChar]
  repeat' split
  all_goals simp

private theorem flatMap_lt {s t : List Char} (h : s < t) :
    s.flatMap String.utf8EncodeChar < t.flatMap String.utf8EncodeChar := by
  induction h with
  | @nil c t =>
    rw [List.flatMap_nil, List.flatMap_cons]
    obtain ⟨b, octets, hb⟩ := List.exists_cons_of_ne_nil (utf8EncodeChar_ne_nil c)
    rw [hb]
    exact List.Lex.nil
  | @cons c s t _ ih =>
    rw [List.flatMap_cons, List.flatMap_cons]
    exact List.append_left_lt ih
  | @rel c s d t h =>
    rw [List.flatMap_cons, List.flatMap_cons]
    exact utf8EncodeChar_lt h _ _

theorem Text.Utf8.encode_lt_iff (s t : String) : Utf8.encode s < Utf8.encode t ↔ s < t := by
  constructor
  · intro h
    rcases lt_trichotomy s t with hst | rfl | hst
    · exact hst
    · exact absurd h (List.lt_irrefl _)
    · exact absurd (List.lt_trans h (flatMap_lt (String.lt_iff.mp hst))) (List.lt_irrefl _)
  · exact fun h => flatMap_lt (String.lt_iff.mp h)

namespace PlayerId

def Before (a b : PlayerId) : Prop := Utf8.encode a.text < Utf8.encode b.text

theorem Before.trans {a b c : PlayerId} (h : a.Before b) (h' : b.Before c) : a.Before c :=
  List.lt_trans h h'

theorem Before.ne {a b : PlayerId} (h : a.Before b) : a ≠ b := by
  rintro rfl
  exact List.lt_irrefl _ h

theorem compare_lt_iff (a b : PlayerId) : a.compare b = .lt ↔ a.Before b := by
  rw [Before, Utf8.encode_lt_iff]
  exact compare_lt_iff_lt

theorem compare_gt_iff (a b : PlayerId) : a.compare b = .gt ↔ b.Before a := by
  rw [Before, Utf8.encode_lt_iff]
  exact compare_gt_iff_gt

theorem compare_eq_iff (a b : PlayerId) : a.compare b = .eq ↔ a = b := by
  rw [compare, compare_eq_iff_eq]
  exact ⟨fun h => congrArg PlayerId.mk h, fun h => congrArg PlayerId.text h⟩

end PlayerId

end Lobby
