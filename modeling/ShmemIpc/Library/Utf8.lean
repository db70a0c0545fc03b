import Mathlib.Data.List.Basic

-- Texts as bytes. A byte below 0x80 is a whole character, so that a text can be split there.
namespace Utf8

def encode (t : List Char) : List UInt8 :=
  t.flatMap String.utf8EncodeChar

def Valid (b : List UInt8) : Prop :=
  ∃ t, b = encode t

def decode (b : List UInt8) : Option (List Char) :=
  b.toByteArray.utf8Decode?.map Array.toList

variable {t s : List Char} {b x y : List UInt8} {a : UInt8} {c : Char}

@[simp]
theorem encode_nil : encode [] = [] :=
  rfl

@[simp]
theorem encode_cons : encode (c :: t) = String.utf8EncodeChar c ++ encode t :=
  List.flatMap_cons

@[simp]
theorem encode_append : encode (t ++ s) = encode t ++ encode s :=
  List.flatMap_append

theorem Valid.encode : Valid (encode t) :=
  ⟨t, rfl⟩

theorem Valid.nil : Valid [] :=
  ⟨[], rfl⟩

theorem Valid.append (hx : Valid x) (hy : Valid y) : Valid (x ++ y) := by
  obtain ⟨t, rfl⟩ := hx
  obtain ⟨s, rfl⟩ := hy
  exact ⟨t ++ s, encode_append.symm⟩

theorem decode_encode : decode (encode t) = some t := by
  have whole : (encode t).toByteArray.utf8Decode? = some t.toArray := List.utf8Decode?_utf8Encode
  simp [decode, whole]

theorem decode_eq_some : decode b = some t ↔ b = encode t := by
  constructor
  case mp =>
    intro h
    obtain ⟨cs, whole, rfl⟩ := Option.map_eq_some_iff.mp h
    have back : cs.toList.utf8Encode = b.toByteArray := by
      simpa [whole] using @ByteArray.utf8Encode_get_utf8Decode? b.toByteArray (by simp [whole])
    exact (List.toByteArray_inj.mp back).symm
  case mpr =>
    rintro rfl
    exact decode_encode

theorem decode_eq_none : decode b = none ↔ ¬ Valid b := by
  rw [Valid, Option.eq_none_iff_forall_ne_some, not_exists]
  exact forall_congr' fun t => not_congr decode_eq_some

-- Characters.

theorem encode_ascii (hc : c.toNat < 0x80) : String.utf8EncodeChar c = [UInt8.ofNat c.toNat] :=
  if_pos (Nat.le_of_lt_succ hc)

theorem ascii_of_mem (ha : a ∈ String.utf8EncodeChar c) (small : a < 0x80) : String.utf8EncodeChar c = [a] := by
  have small : a.toNat < 0x80 := small
  by_cases one : c.toNat < 0x80
  case pos =>
    rw [encode_ascii one] at ha ⊢
    rw [List.mem_singleton.mp ha]
  case neg =>
    -- All bytes of a longer character have their highest bit set.
    have one : ¬ c.val.toNat ≤ 0x7f := fun h => one (Nat.lt_succ_of_le h)
    simp only [String.utf8EncodeChar, one, ↓reduceIte] at ha
    split at ha
    case isTrue =>
      simp only [List.mem_cons, List.not_mem_nil, or_false] at ha
      rcases ha with rfl | rfl <;> simp only [UInt8.toNat_ofNat'] at small <;> omega
    case isFalse =>
      split at ha
      case isTrue =>
        simp only [List.mem_cons, List.not_mem_nil, or_false] at ha
        rcases ha with rfl | rfl | rfl <;> simp only [UInt8.toNat_ofNat'] at small <;> omega
      case isFalse =>
        simp only [List.mem_cons, List.not_mem_nil, or_false] at ha
        rcases ha with rfl | rfl | rfl | rfl <;> simp only [UInt8.toNat_ofNat'] at small <;> omega

theorem encode_ofNat (ha : a < 0x80) : encode [Char.ofNat a.toNat] = [a] := by
  have small : a.toNat < 0x80 := ha
  have value : (Char.ofNat a.toNat).toNat = a.toNat := by
    rw [Char.ofNat, dif_pos (.inl (by omega))]
    rfl
  have short : (Char.ofNat a.toNat).toNat < 0x80 := by omega
  rw [encode, List.flatMap_singleton, encode_ascii short, value, UInt8.ofNat_toNat]

theorem valid_of_append_cons (ha : a < 0x80) (h : x ++ a :: y = encode t) : Valid x ∧ Valid y := by
  induction t generalizing x
  case nil => simp at h
  case cons c t ih =>
    rw [encode_cons] at h
    rcases List.append_eq_append_iff.mp h with ⟨z, hc, hz⟩ | ⟨z, hx, hz⟩
    case inl =>
      cases z
      case nil =>
        have ⟨_, hy⟩ := ih (x := []) hz
        exact ⟨⟨[c], by simpa using hc.symm⟩, hy⟩
      case cons d z =>
        obtain ⟨rfl, rfl⟩ := List.cons.inj hz
        have alone := ascii_of_mem (hc ▸ List.mem_append_right x List.mem_cons_self) ha
        obtain ⟨rfl, rfl⟩ : x = [] ∧ z = [] := by
          have short := congrArg List.length (hc.symm.trans alone)
          simp only [List.length_append, List.length_cons, List.length_nil] at short
          exact ⟨List.eq_nil_of_length_eq_zero (by omega), List.eq_nil_of_length_eq_zero (by omega)⟩
        exact ⟨⟨[], rfl⟩, t, rfl⟩
    case inr =>
      have ⟨valid, hy⟩ := ih hz.symm
      have first : Valid (String.utf8EncodeChar c) := ⟨[c], by simp⟩
      exact ⟨hx ▸ first.append valid, hy⟩

theorem valid_append_cons (ha : a < 0x80) : Valid (x ++ a :: y) ↔ Valid x ∧ Valid y := by
  constructor
  case mp  => exact fun ⟨t, h⟩ => valid_of_append_cons ha h
  case mpr => exact fun ⟨hx, hy⟩ => hx.append (.append ⟨_, (encode_ofNat ha).symm⟩ hy)

-- The first byte of a longer character is not a text of its own.
theorem not_valid_singleton (ha : ¬ a < 0x80) : ¬ Valid [a] := by
  rintro ⟨t, h⟩
  cases t
  case nil => simp at h
  case cons c t =>
    rw [encode_cons] at h
    have size := congrArg List.length h
    simp only [List.length_cons, List.length_nil, List.length_append, String.length_utf8EncodeChar] at size
    have one : c.utf8Size = 1 := by have := c.utf8Size_pos; omega
    have small : c.toNat < 0x80 := Nat.lt_succ_of_le (Char.utf8Size_eq_one_iff.mp one)
    rw [encode_ascii small] at h
    refine ha ?_
    rw [(List.cons.inj h).left, UInt8.lt_iff_toNat_lt, UInt8.toNat_ofNat']
    exact Nat.lt_of_le_of_lt (Nat.mod_le _ _) small

end Utf8
