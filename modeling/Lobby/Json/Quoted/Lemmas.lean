import Lobby.Json.Quoted

/-! What is written between quotes is read back: the closing quote is found behind it, and the
escapes in it denote the string written. -/
namespace Lobby.Json.Quoted

open Text

def IsPlain (b : UInt8) : Prop := 32 ≤ b ∧ b ≠ 34 ∧ b ≠ 92

theorem splitBody?_plain {bs : List UInt8} (h : ∀ b ∈ bs, IsPlain b) (read rest : List UInt8) :
    splitBody? read (bs ++ rest) = splitBody? (bs.reverse ++ read) rest := by
  induction bs generalizing read with
  | nil => rfl
  | cons b bs ih =>
    obtain ⟨h₁, h₂, h₃⟩ := h b List.mem_cons_self
    conv => lhs; rw [List.cons_append]; unfold splitBody?
    rw [if_neg h₂, if_neg (by simpa using h₁), if_neg h₃,
      ih (fun x hx => h x (List.mem_cons_of_mem _ hx))]
    simp

theorem pieces?_plain {bs : List UInt8} (h : ∀ b ∈ bs, IsPlain b) (read : List Piece)
    (rest : List UInt8) :
    pieces? read (bs ++ rest) = pieces? ((bs.map Piece.octet).reverse ++ read) rest := by
  induction bs generalizing read with
  | nil => rfl
  | cons b bs ih =>
    obtain ⟨_, _, h₃⟩ := h b List.mem_cons_self
    conv => lhs; rw [List.cons_append]; unfold pieces?
    rw [if_neg h₃, ih (fun x hx => h x (List.mem_cons_of_mem _ hx))]
    simp

theorem isPlain_ofNat {n : Nat} (h₁ : 32 ≤ n) (h₂ : n ≠ 34) (h₃ : n ≠ 92) (h₄ : n < 256) :
    IsPlain (UInt8.ofNat n) := by
  have h : (UInt8.ofNat n).toNat = n := by rw [UInt8.toNat_ofNat']; omega
  refine ⟨?_, ?_, ?_⟩
  · rw [UInt8.le_iff_toNat_le, h]; exact h₁
  · intro e; rw [← UInt8.toNat_inj, h] at e; exact h₂ e
  · intro e; rw [← UInt8.toNat_inj, h] at e; exact h₃ e

theorem isPlain_of_mem_utf8EncodeChar {c : Char} (h₁ : 32 ≤ c.toNat) (h₂ : c ≠ '"')
    (h₃ : c ≠ '\\') {b : UInt8} (h : b ∈ String.utf8EncodeChar c) : IsPlain b := by
  have hc₂ : c.toNat ≠ 34 := fun e => h₂ (Char.toNat_inj.1 e)
  have hc₃ : c.toNat ≠ 92 := fun e => h₃ (Char.toNat_inj.1 e)
  rw [String.utf8EncodeChar] at h
  simp only [show c.val.toNat = c.toNat from rfl] at h
  generalize c.toNat = n at *
  split at h
  · obtain rfl := List.mem_singleton.1 h
    exact isPlain_ofNat h₁ hc₂ hc₃ (by omega)
  split at h
  · simp only [List.mem_cons, List.not_mem_nil, or_false] at h
    rcases h with rfl | rfl <;> apply isPlain_ofNat <;> omega
  split at h
  · simp only [List.mem_cons, List.not_mem_nil, or_false] at h
    rcases h with rfl | rfl | rfl <;> apply isPlain_ofNat <;> omega
  · simp only [List.mem_cons, List.not_mem_nil, or_false] at h
    rcases h with rfl | rfl | rfl | rfl <;> apply isPlain_ofNat <;> omega

theorem hexUnit?_hexDigit {n : Nat} (h : n < 32) :
    hexUnit? 48 48 (hexDigit (n / 16)) (hexDigit (n % 16)) = some n := by
  have : ∀ n : Fin 32,
      hexUnit? 48 48 (hexDigit (n / 16)) (hexDigit (n % 16)) = some n.val := by decide
  exact this ⟨n, h⟩

theorem splitBody?_encodeChar (c : Char) (read rest : List UInt8) :
    splitBody? read (encodeChar c ++ rest) = splitBody? ((encodeChar c).reverse ++ read) rest := by
  unfold encodeChar
  split
  iterate 7 rfl
  split
  · next h =>
    simp only [List.cons_append, List.nil_append, List.reverse_cons, List.reverse_nil]
    conv => lhs; unfold splitBody?
    simp [hexUnit?_hexDigit h]
  · next h₂ h₃ _ _ _ _ _ h =>
    exact splitBody?_plain
      (fun _ => isPlain_of_mem_utf8EncodeChar (by omega) h₂ h₃) read rest

/-- The body of a written string ends at the quote behind it. -/
theorem splitBody?_encode (s : String) (rest : List UInt8) :
    splitBody? [] (encode s ++ 34 :: rest) = some (encode s, rest) := by
  have (cs : List Char) (read : List UInt8) :
      splitBody? read (cs.flatMap encodeChar ++ 34 :: rest) =
        some (read.reverse ++ cs.flatMap encodeChar, rest) := by
    induction cs generalizing read with
    | nil => unfold splitBody?; simp
    | cons c cs ih => simp [List.flatMap_cons, splitBody?_encodeChar, ih]
  simpa [encode] using this s.toList []

theorem character?_toNat (c : Char) : character? c.toNat = some c := by
  have hv : c.toNat.isValidChar := c.valid
  rw [character?, dif_pos hv]
  rfl

def piecesOf (c : Char) : List Piece :=
  if c.toNat < 32 ∧ c ∉ ['\x08', '\x0c', '\n', '\r', '\t'] then [.unit c.toNat]
  else (String.utf8EncodeChar c).map Piece.octet

theorem pieces?_encodeChar (c : Char) (read : List Piece) (rest : List UInt8) :
    pieces? read (encodeChar c ++ rest) = pieces? ((piecesOf c).reverse ++ read) rest := by
  unfold encodeChar
  split
  iterate 7 rfl
  next h₂ h₃ _ _ _ _ _ =>
  split
  · next h =>
    rw [piecesOf, if_pos (by simp_all)]
    simp only [List.cons_append, List.nil_append]
    conv => lhs; unfold pieces?
    rw [if_pos rfl]
    simp [hexUnit?_hexDigit h]
  · next h =>
    rw [piecesOf, if_neg (by simp_all)]
    exact pieces?_plain
      (fun _ => isPlain_of_mem_utf8EncodeChar (by omega) h₂ h₃) read rest

theorem joinOnto_octets (bs joined : List UInt8) (rest : List Piece) :
    joinOnto joined (bs.map Piece.octet ++ rest) = joinOnto (bs.reverse ++ joined) rest := by
  induction bs generalizing joined with
  | nil => rfl
  | cons b bs ih => simp [joinOnto, ih]

theorem joinOnto_piecesOf (c : Char) (joined : List UInt8) (rest : List Piece) :
    joinOnto joined (piecesOf c ++ rest) =
      joinOnto ((String.utf8EncodeChar c).reverse ++ joined) rest := by
  unfold piecesOf
  split
  · rw [List.singleton_append]
    conv => lhs; unfold joinOnto
    simp [character?_toNat]
  · exact joinOnto_octets _ _ _

/-- A written string is read back as itself. -/
theorem unescape?_encode (s : String) : unescape? (encode s) = some (Utf8.encode s) := by
  have pieces (cs : List Char) (read : List Piece) :
      pieces? read (cs.flatMap encodeChar) = some (read.reverse ++ cs.flatMap piecesOf) := by
    induction cs generalizing read with
    | nil => simp [pieces?]
    | cons c cs ih => rw [List.flatMap_cons, pieces?_encodeChar, ih]; simp
  have join (cs : List Char) (joined : List UInt8) :
      joinOnto joined (cs.flatMap piecesOf) =
        some (joined.reverse ++ cs.flatMap String.utf8EncodeChar) := by
    induction cs generalizing joined with
    | nil => simp [joinOnto]
    | cons c cs ih => rw [List.flatMap_cons, joinOnto_piecesOf, ih]; simp
  simp [unescape?, encode, pieces, join, Utf8.encode]

theorem decode?_encode (s : String) : decode? (encode s) = some s := by
  simp [decode?, unescape?_encode, Utf8.decode?_encode]

end Lobby.Json.Quoted
