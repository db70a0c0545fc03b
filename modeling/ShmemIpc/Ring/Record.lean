import ShmemIpc.Code.Channel
import ShmemIpc.Library.Window
import Mathlib.Algebra.BigOperators.Group.List.Basic

-- The records of a ring, and its cursors as counts of bytes that never wrap.
namespace Ring

-- Cursors.

theorem wrap64_of_lt {n : Nat} (h : n < 2 ^ 64) : wrap64 n = n :=
  Nat.mod_eq_of_lt h

theorem wrap64_add {a b : Nat} : wrap64 (wrap64 a + b) = wrap64 (a + b) := by
  simp [wrap64]

theorem wrapSub64_wrap64 {a b : Nat} (hb : b ≤ a) (ha : a < b + 2 ^ 64) :
    wrapSub64 (wrap64 a) (wrap64 b) = a - b := by
  unfold wrapSub64 wrap64
  omega

theorem wrapSub64_of_le {a b : Nat} (hb : b ≤ a) (ha : a < 2 ^ 64) : wrapSub64 a b = a - b := by
  unfold wrapSub64
  omega

-- Both are within `n` bytes of the cursor `w`.
theorem eq_of_wrap64_eq {a b w n : Nat} (h : wrap64 a = wrap64 b) (ha : a ≤ w) (hb : b ≤ w)
    (ha' : w ≤ a + n) (hb' : w ≤ b + n) (hn : n < 2 ^ 64) : a = b := by
  unfold wrap64 at h
  omega

theorem and_mask {k cursor : Nat} (hk : k ≤ 64) : wrap64 cursor &&& (2 ^ k - 1) = cursor % 2 ^ k := by
  rw [Nat.and_two_pow_sub_one_eq_mod, wrap64, Nat.mod_mod_of_dvd]
  exact Nat.pow_dvd_pow 2 hk

theorem ringSize_eq {config : ChannelConfig} (valid : validateConfig config = .ok ()) :
    ∃ k, 6 ≤ k ∧ k < 32 ∧ config.ringSize = 2 ^ k := by
  unfold validateConfig at valid
  split at valid
  case isTrue => cases valid
  case isFalse h =>
    simp only [Bool.or_eq_true, decide_eq_true_eq, Bool.not_eq_true', not_or, isPowerOfTwo,
      Bool.and_eq_false_iff, decide_eq_false_iff_not, not_not] at h
    obtain ⟨⟨small, pow⟩, large⟩ := h
    obtain ⟨k, hk⟩ := (Nat.and_sub_one_eq_zero_iff_isPowerOfTwo pow.left).mp pow.right
    have low : 2 ^ 6 ≤ 2 ^ k := by omega
    have high : 2 ^ k < 2 ^ 32 := by unfold U32_MAX at *; omega
    exact ⟨k, (Nat.pow_le_pow_iff_right (by decide)).mp low, (Nat.pow_lt_pow_iff_right (by decide)).mp high, hk⟩

-- Numbers in shared memory.

@[simp]
theorem length_toLeBytes {v : Nat} : (toLeBytes v).length = 4 :=
  rfl

theorem fromLeBytes_toLeBytes {v : Nat} (h : v < 2 ^ 32) :
    fromLeBytes (.ofNat v) (.ofNat (v / 2 ^ 8)) (.ofNat (v / 2 ^ 16)) (.ofNat (v / 2 ^ 24)) = v := by
  simp only [fromLeBytes, UInt8.toNat_ofNat']
  omega

-- Records.

def frameSize (payload : Bytes) : Nat :=
  MSG_HEADER_SIZE + payload.length

-- The record number `n` of a ring. Its sequence number counts from 1.
def record (n : Nat) (payload : Bytes) : Bytes :=
  toLeBytes (wrap32 payload.length) ++ toLeBytes (wrap32 (n + 1)) ++ payload

def records : Nat → List Bytes → Bytes
  | _, []      => []
  | n, p :: ps => record n p ++ records (n + 1) ps

def total (ps : List Bytes) : Nat :=
  (ps.map frameSize).sum

@[simp]
theorem length_record {n : Nat} {p : Bytes} : (record n p).length = frameSize p := by
  simp only [record, frameSize, MSG_HEADER_SIZE, List.length_append, length_toLeBytes]

@[simp]
theorem total_nil : total [] = 0 :=
  rfl

@[simp]
theorem total_cons {p : Bytes} {ps : List Bytes} : total (p :: ps) = frameSize p + total ps := by
  simp [total]

@[simp]
theorem total_append {ps qs : List Bytes} : total (ps ++ qs) = total ps + total qs := by
  simp [total]

@[simp]
theorem length_records {n : Nat} {ps : List Bytes} : (records n ps).length = total ps := by
  induction ps generalizing n
  case nil          => rfl
  case cons p ps ih => simp [records, ih]

theorem records_append {n : Nat} {ps qs : List Bytes} :
    records n (ps ++ qs) = records n ps ++ records (n + ps.length) qs := by
  induction ps generalizing n
  case nil          => rfl
  case cons p ps ih => simp [records, ih, Nat.add_assoc, Nat.add_comm 1]

theorem frameSize_pos {p : Bytes} : MSG_HEADER_SIZE ≤ frameSize p :=
  Nat.le_add_right _ _

theorem total_take_add_drop (ps : List Bytes) (k : Nat) :
    total (ps.take k) + total (ps.drop k) = total ps := by
  rw [← total_append, List.take_append_drop]

theorem total_take_succ {ps : List Bytes} {k : Nat} {p : Bytes} (h : ps[k]? = some p) :
    total (ps.take (k + 1)) = total (ps.take k) + frameSize p := by
  rw [List.take_add_one, h]
  simp

theorem total_take_le {ps : List Bytes} {j k : Nat} (h : j ≤ k) : total (ps.take j) ≤ total (ps.take k) := by
  rw [← List.take_append_drop j (ps.take k), List.take_take, Nat.min_eq_left h, total_append]
  exact Nat.le_add_right _ _

theorem drop_eq_cons {ps : List Bytes} {k : Nat} {p : Bytes} (h : ps[k]? = some p) :
    ps.drop k = p :: ps.drop (k + 1) := by
  obtain ⟨hk, rfl⟩ := List.getElem?_eq_some_iff.mp h
  exact List.drop_eq_getElem_cons hk

end Ring
