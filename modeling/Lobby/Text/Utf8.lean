/-! Strings as UTF-8 octets, and the strict reading of octets back into strings. -/
namespace Lobby.Text.Utf8

def encode (s : String) : List UInt8 :=
  s.toList.flatMap String.utf8EncodeChar

def continuation? (b : UInt8) : Option Nat :=
  if 128 ≤ b.toNat ∧ b.toNat < 192 then some (b.toNat - 128) else none

/-- The character numbered `n`, unless a shorter form spells it or it is a surrogate. -/
def scalar? (least n : Nat) : Option Char :=
  if h : n.isValidChar then
    if least ≤ n then some (Char.ofNatAux n h) else none
  else none

def decodeOnto : List Char → List UInt8 → Option (List Char)
  | read, [] => some read.reverse
  | read, a :: rest =>
    let lead := a.toNat
    if lead < 128 then
      match scalar? 0 lead with
      | some c => decodeOnto (c :: read) rest
      | none => none
    else if lead < 192 then none
    else if lead < 224 then
      match rest with
      | b :: rest =>
        match continuation? b with
        | some x =>
          match scalar? 0x80 (64 * (lead - 192) + x) with
          | some c => decodeOnto (c :: read) rest
          | none => none
        | none => none
      | [] => none
    else if lead < 240 then
      match rest with
      | b :: c :: rest =>
        match continuation? b, continuation? c with
        | some x, some y =>
          match scalar? 0x800 (4096 * (lead - 224) + 64 * x + y) with
          | some ch => decodeOnto (ch :: read) rest
          | none => none
        | _, _ => none
      | _ => none
    else if lead < 248 then
      match rest with
      | b :: c :: d :: rest =>
        match continuation? b, continuation? c, continuation? d with
        | some x, some y, some z =>
          match scalar? 0x10000 (262144 * (lead - 240) + 4096 * x + 64 * y + z) with
          | some ch => decodeOnto (ch :: read) rest
          | none => none
        | _, _, _ => none
      | _ => none
    else none

def decode? (octets : List UInt8) : Option String :=
  (decodeOnto [] octets).map String.ofList

theorem continuation?_ofNat (x : Nat) :
    continuation? (UInt8.ofNat (x % 64 + 128)) = some (x % 64) := by
  have : (UInt8.ofNat (x % 64 + 128)).toNat = x % 64 + 128 := by
    rw [UInt8.toNat_ofNat']; omega
  simp only [continuation?, this]
  rw [if_pos (by omega)]
  simp

theorem scalar?_toNat (c : Char) {least : Nat} (h : least ≤ c.toNat) :
    scalar? least c.toNat = some c := by
  have hv : c.toNat.isValidChar := c.valid
  rw [scalar?, dif_pos hv, if_pos h]
  rfl

/-- The octets of a character are read as that character, whatever follows. -/
theorem decodeOnto_encodeChar (c : Char) (read : List Char) (rest : List UInt8) :
    decodeOnto read (String.utf8EncodeChar c ++ rest) = decodeOnto (c :: read) rest := by
  have hv : c.toNat < 0x110000 := by
    have : c.toNat.isValidChar := c.valid
    rcases this with h | h <;> omega
  rw [String.utf8EncodeChar]
  simp only [show c.val.toNat = c.toNat from rfl]
  generalize hx : c.toNat = n at *
  split
  · have : (UInt8.ofNat n).toNat = n := by rw [UInt8.toNat_ofNat']; omega
    simp only [List.cons_append, List.nil_append]
    rw [decodeOnto.eq_def]
    simp only [this]
    rw [if_pos (by omega), ← hx, scalar?_toNat c (by omega)]
  split
  · have : (UInt8.ofNat (n / 64 % 32 + 192)).toNat = n / 64 + 192 := by
      rw [UInt8.toNat_ofNat']; omega
    simp only [List.cons_append, List.nil_append]
    rw [decodeOnto.eq_def]
    simp only [this, continuation?_ofNat]
    rw [if_neg (by omega), if_neg (by omega), if_pos (by omega),
      show 64 * (n / 64 + 192 - 192) + n % 64 = n by omega, ← hx, scalar?_toNat c (by omega)]
  split
  · have : (UInt8.ofNat (n / 4096 % 16 + 224)).toNat = n / 4096 + 224 := by
      rw [UInt8.toNat_ofNat']; omega
    simp only [List.cons_append, List.nil_append]
    rw [decodeOnto.eq_def]
    simp only [this, continuation?_ofNat]
    rw [if_neg (by omega), if_neg (by omega), if_neg (by omega), if_pos (by omega),
      show 4096 * (n / 4096 + 224 - 224) + 64 * (n / 64 % 64) + n % 64 = n by omega, ← hx,
      scalar?_toNat c (by omega)]
  · have : (UInt8.ofNat (n / 262144 % 8 + 240)).toNat = n / 262144 + 240 := by
      rw [UInt8.toNat_ofNat']; omega
    simp only [List.cons_append, List.nil_append]
    rw [decodeOnto.eq_def]
    simp only [this, continuation?_ofNat]
    rw [if_neg (by omega), if_neg (by omega), if_neg (by omega), if_neg (by omega),
      if_pos (by omega),
      show 262144 * (n / 262144 + 240 - 240) + 4096 * (n / 4096 % 64) + 64 * (n / 64 % 64) + n % 64
        = n by omega, ← hx, scalar?_toNat c (by omega)]

theorem decodeOnto_flatMap (cs read : List Char) :
    decodeOnto read (cs.flatMap String.utf8EncodeChar) = some (read.reverse ++ cs) := by
  induction cs generalizing read with
  | nil => simp [decodeOnto]
  | cons c cs ih => rw [List.flatMap_cons, decodeOnto_encodeChar, ih]; simp

theorem decode?_encode (s : String) : decode? (encode s) = some s := by
  simp [decode?, encode, decodeOnto_flatMap]

theorem encode_inj {s t : String} : encode s = encode t ↔ s = t := by
  refine ⟨fun h => ?_, congrArg encode⟩
  have hread := congrArg decode? h
  rw [decode?_encode, decode?_encode] at hread
  exact Option.some.inj hread

end Lobby.Text.Utf8
