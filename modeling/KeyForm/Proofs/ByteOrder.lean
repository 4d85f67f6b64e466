/-! The order of texts. Texts are compared character by character, and characters by their code
points; the bytes of the texts in UTF-8 have the same order. -/
namespace KeyForm

def bytes (s : String) : List UInt8 := s.toUTF8.data.toList

theorem bytesEncoded (s : String) : bytes s = s.toList.flatMap String.utf8EncodeChar := by
  simp [bytes, ← String.utf8Encode_toList, List.utf8Encode]

theorem scalarBound (c : Char) : c.toNat < 0x110000 := by
  rcases c.valid with low | ⟨_, high⟩
  · have below : c.toNat < 0xd800 := low
    omega
  · exact high

-- The first byte tells how many there are, and more of them are for larger code points; among
-- equally many, the bytes are the digits of the code point.
theorem codeLess {c d : Char} (less : c < d) (rest rest' : List UInt8) :
    String.utf8EncodeChar c ++ rest < String.utf8EncodeChar d ++ rest' := by
  have below : c.toNat < d.toNat := less
  have bound := scalarBound d
  clear less
  have last (k : Nat) : (k % 64 + 128) % 256 = k % 64 + 128 := by omega
  have first {k : Nat} (bound : k < 0x110000) :
      (k / 262144 % 8 + 240) % 256 = k / 262144 + 240 := by omega
  simp only [String.utf8EncodeChar, Char.toNat_val]
  generalize c.toNat = m at below ⊢
  generalize d.toNat = n at below bound ⊢
  repeat' split
  all_goals simp only [List.cons_append, List.nil_append, List.cons_lt_cons_iff,
    UInt8.lt_iff_toNat_lt, ← UInt8.toNat_inj, UInt8.toNat_ofNat', Nat.reducePow, last]
  case isFalse.isFalse.isFalse.isFalse.isFalse.isFalse =>
    have digits : m / 262144 < n / 262144 ∨ m / 262144 = n / 262144 ∧
        (m / 4096 % 64 < n / 4096 % 64 ∨ m / 4096 % 64 = n / 4096 % 64 ∧
          (m / 64 % 64 < n / 64 % 64 ∨ m / 64 % 64 = n / 64 % 64 ∧ m % 64 < n % 64)) := by
      omega
    rw [first bound, first (Nat.lt_trans below bound)]
    rcases digits with h | ⟨_, h | ⟨_, h | ⟨_, h⟩⟩⟩ <;> simp [*]
  all_goals omega

theorem encodedSome (c : Char) : ∃ byte rest, String.utf8EncodeChar c = byte :: rest := by
  unfold String.utf8EncodeChar
  extract_lets
  repeat' split
  all_goals exact ⟨_, _, rfl⟩

theorem encodedLess {cs ds : List Char} (less : cs < ds) :
    cs.flatMap String.utf8EncodeChar < ds.flatMap String.utf8EncodeChar := by
  induction cs generalizing ds with
  | nil =>
    cases ds with
    | nil => cases less
    | cons d ds =>
      obtain ⟨byte, rest, encoded⟩ := encodedSome d
      simp [encoded]
  | cons c cs ih =>
    cases ds with
    | nil => cases less
    | cons d ds =>
      rw [List.flatMap_cons, List.flatMap_cons]
      rcases List.cons_lt_cons_iff.mp less with before | ⟨rfl, later⟩
      · exact codeLess before _ _
      · exact List.append_left_lt (ih later)

theorem bytesLess {a b : String} (less : a < b) : bytes a < bytes b := by
  rw [bytesEncoded, bytesEncoded]
  exact encodedLess less

theorem byteOrder {a b : String} : bytes a < bytes b ↔ a < b := by
  refine ⟨fun less => ?_, bytesLess⟩
  by_cases before : a < b
  · exact before
  by_cases after : b < a
  · exact absurd less (List.lt_asymm (bytesLess after))
  · obtain rfl := String.le_antisymm (String.not_lt.1 after) (String.not_lt.1 before)
    exact absurd less (List.lt_irrefl _)

end KeyForm
