import ShmemIpc.Execution.Bounds
import ShmemIpc.Execution.Corrupt
import ShmemIpc.Execution.Run
import ShmemIpc.Library.Alone
import ShmemIpc.Ring.Record

-- A half copies bytes at a cursor modulo the size of its ring.

open Function Window

-- The byte at the position `p` of an endless sequence that is kept in the area.
def Area.cell (r : Area) (s : World) (p : Nat) : UInt8 :=
  s.byte r.base (r.data + p % r.size)

-- The size is a power of two, of which the mask is made.
structure Area.Modular (r : Area) : Prop where
  size : ∃ k, r.size = 2 ^ k
  mask : r.mask = r.size - 1

namespace Area.Modular

variable {r : Area} {c : Nat} (h : r.Modular)
include h

theorem pos : 0 < r.size := by
  have ⟨k, hk⟩ := h.size
  exact hk ▸ Nat.two_pow_pos k

theorem start_eq : r.start c = c % r.size := by
  have ⟨k, hk⟩ := h.size
  rw [Area.start, h.mask, hk, Nat.and_two_pow_sub_one_eq_mod]

end Area.Modular

-- The bytes from an address on have become `d`, and nothing else has changed.
structure Copied (b : FileId) (a : Nat) (d : Bytes) (s s' : World) : Prop where
  inside  : ∀ j (hj : j < d.length), s'.byte b (a + j) = d[j]
  outside : ∀ f p, (f = b → p < a ∨ a + d.length ≤ p) → s'.byte f p = s.byte f p
  same    : s' = { s with byte := s'.byte }

-- The positions from the cursor on hold `d`, and no other byte has changed.
structure Wrote (r : Area) (c : Nat) (d : Bytes) (s s' : World) : Prop where
  inside  : ∀ j (hj : j < d.length), r.cell s' (c + j) = d[j]
  outside : ∀ f p, (∀ j < d.length, ¬ (f = r.base ∧ p = r.data + (c + j) % r.size)) → s'.byte f p = s.byte f p

variable {plat : Platform} {i : ThreadId} {b : FileId} {a c n : Nat} {d e : Bytes} {s s' t : World} {r : Area}

theorem Copied.nil : Copied b a [] s s where
  inside  := nofun
  outside := fun _ _ _ => rfl
  same    := rfl

theorem Copied.cons {x : UInt8} (h : Copied b (a + 1) d { s with byte := update s.byte b (update (s.byte b) a x) } s') :
    Copied b a (x :: d) s s' where
  inside j hj := by
    cases j
    case zero   => rw [Nat.add_zero, h.outside b a fun _ => .inl (Nat.lt_succ_self a)]; simp
    case succ j => simpa [Nat.add_assoc, Nat.add_comm 1] using h.inside j (Nat.lt_of_succ_lt_succ hj)
  outside f p out := by
    rw [List.length_cons] at out
    rw [h.outside f p fun hf => by have := out hf; omega]
    by_cases hf : f = b
    case pos =>
      have ne : p ≠ a := by have := out hf; omega
      simp [hf, ne]
    case neg => simp [hf]
  same := h.same

theorem copyTo_alone : (copyTo b a d).Alone (worldMachine plat) i s fun v s' => v = .ok () ∧ Copied b a d s s' := by
  induction d generalizing a s
  case nil => exact .pure ⟨rfl, .nil⟩
  case cons x d ih =>
    refine .step (v := ()) (fun _ _ => ⟨fun e => ⟨rfl, e⟩, And.right⟩) ?_
    exact ih.mono fun _ _ h => ⟨h.left, h.right.cons⟩

-- A copy of two segments, of which the second one begins at the first byte of the ring.

theorem firstLen_eq (h : r.Modular) : r.firstLen c n = min n (r.size - c % r.size) := by
  rw [Area.firstLen, h.start_eq]

theorem address_eq (h : r.Modular) {j : Nat} (hj : j < n) (hn : n ≤ r.size) :
    r.address c n j = r.data + (c + j) % r.size := by
  have pos := h.pos
  have start := Nat.mod_lt c pos
  by_cases front : j < r.firstLen c n
  case pos =>
    rw [Area.address_front front, h.start_eq, Nat.add_assoc]
    rw [firstLen_eq h] at front
    rw [mod_front (by omega)]
  case neg =>
    have back : r.firstLen c n ≤ j := Nat.le_of_not_lt front
    rw [Area.address_back back]
    rw [firstLen_eq h] at back ⊢
    have split : c + j = c + (r.size - c % r.size) + (j - min n (r.size - c % r.size)) := by omega
    rw [split, mod_back pos (by omega)]

theorem holds_of_modular (h : r.Modular) (hn : n ≤ r.size) : r.Holds c n := by
  have start := Nat.mod_lt c h.pos
  constructor <;> simp only [firstLen_eq h, h.start_eq] <;> omega

theorem Wrote.of_copied (h : r.Modular) (hn : d.length ≤ r.size)
    (front : Copied r.base (r.data + r.start c) (d.take (r.firstLen c d.length)) s t)
    (back : Copied r.base r.data (d.drop (r.firstLen c d.length)) t s') : Wrote r c d s s' := by
  have ⟨slice, first, second⟩ := holds_of_modular (c := c) h hn
  have size : (d.take (r.firstLen c d.length)).length = r.firstLen c d.length := by rw [List.length_take]; omega
  have size' : (d.drop (r.firstLen c d.length)).length = d.length - r.firstLen c d.length := List.length_drop
  constructor
  case inside =>
    intro j hj
    rw [Area.cell, ← address_eq h hj hn]
    by_cases hf : j < r.firstLen c d.length
    case pos =>
      rw [Area.address_front hf, back.outside _ _ fun _ => .inr (by omega), front.inside j (by omega)]
      exact List.getElem_take
    case neg =>
      have hf : r.firstLen c d.length ≤ j := Nat.le_of_not_lt hf
      rw [Area.address_back hf, back.inside (j - r.firstLen c d.length) (by omega), List.getElem_drop]
      congr 1
      omega
  case outside =>
    intro f p out
    rw [back.outside f p ?back, front.outside f p ?front]
    case back =>
      intro hf
      by_contra within
      have hj : r.firstLen c d.length + (p - r.data) < d.length := by omega
      refine out _ hj ⟨hf, ?_⟩
      rw [← address_eq h hj hn, Area.address_back (Nat.le_add_right _ _)]
      omega
    case front =>
      intro hf
      by_contra within
      have hj : p - (r.data + r.start c) < r.firstLen c d.length := by omega
      refine out _ (Nat.lt_of_lt_of_le hj slice) ⟨hf, ?_⟩
      rw [← address_eq h (Nat.lt_of_lt_of_le hj slice) hn, Area.address_front hj]
      omega

theorem writeRing_alone {x : RingSender} (h : x.area.Modular) (hn : d.length ≤ x.area.size) :
    (x.writeRing c d).Alone (worldMachine plat) i s fun v s' =>
      v = .ok () ∧ Wrote x.area c d s s' ∧ s' = { s with byte := s'.byte } := by
  refine .bind copyTo_alone (fun _ t front => ?_) fun _ _ front => nomatch front.left
  have front := front.right
  split
  case isTrue =>
    refine copyTo_alone.mono fun _ s' back => ⟨back.left, .of_copied h hn front back.right, ?_⟩
    rw [back.right.same, front.same]
  case isFalse all =>
    have rest : d.drop (x.area.firstLen c d.length) = [] := List.drop_eq_nil_of_le (Nat.le_of_not_lt all)
    exact .pure ⟨rfl, .of_copied h hn front (rest ▸ .nil), front.same⟩

-- The bytes at `n` positions from the cursor on.
def Area.read (r : Area) (s : World) (c n : Nat) : Bytes :=
  (List.range n).map fun j => r.cell s (c + j)

theorem bytesAt_eq {y : RingReceiver} (h : y.area.Modular) (hn : n ≤ y.area.size) :
    s.bytesAt y c n = y.area.read s c n := by
  refine List.map_congr_left fun k hk => ?_
  exact congrArg (s.byte y.base) (address_eq h (List.mem_range.mp hk) hn)

theorem readRing_alone {y : RingReceiver} (h : y.area.Modular) (hn : n ≤ y.area.size) :
    (y.readRing c n).Alone (worldMachine plat) i s fun v s' => v = .ok (y.area.read s c n) ∧ s' = s :=
  Corrupt.readRing_alone.mono fun _ _ e => ⟨bytesAt_eq h hn ▸ e.left, e.right⟩

-- What has been written is read again.

theorem Wrote.append (first : Wrote r c d s t) (second : Wrote r (c + d.length) e t s')
    (fits : d.length + e.length ≤ r.size) : Wrote r c (d ++ e) s s' := by
  constructor
  case inside =>
    intro j hj
    rw [List.length_append] at hj
    by_cases hd : j < d.length
    case pos =>
      rw [List.getElem_append_left hd, ← first.inside j hd]
      refine second.outside _ _ fun k hk h => ?_
      have same : (c + j) % r.size = (c + d.length + k) % r.size := by omega
      exact absurd same (mod_ne (Nat.le_add_right c j) (by omega) (by omega))
    case neg =>
      rw [List.getElem_append_right (Nat.le_of_not_lt hd), ← second.inside (j - d.length) (by omega)]
      congr 1
      omega
  case outside =>
    intro f p out
    rw [second.outside f p fun j hj => ?second, first.outside f p fun j hj => out j (by rw [List.length_append]; omega)]
    case second =>
      rw [Nat.add_assoc]
      exact out (d.length + j) (by rw [List.length_append]; omega)

theorem Wrote.left (h : Wrote r c (d ++ e) s s') : r.read s' c d.length = d := by
  refine List.ext_getElem (by simp [Area.read]) fun j _ hj => ?_
  have at_ := h.inside j (by rw [List.length_append]; omega)
  rw [List.getElem_append_left hj] at at_
  simpa [Area.read] using at_

theorem Wrote.right (h : Wrote r c (d ++ e) s s') : r.read s' (c + d.length) e.length = e := by
  refine List.ext_getElem (by simp [Area.read]) fun j _ hj => ?_
  have at_ := h.inside (d.length + j) (by rw [List.length_append]; omega)
  rw [List.getElem_append_right (Nat.le_add_right _ _)] at at_
  simpa [Area.read, Nat.add_assoc] using at_

theorem Wrote.keep (h : Wrote r c d s t) (same : s'.byte = t.byte) : Wrote r c d s s' where
  inside  := by simpa only [Area.cell, same] using h.inside
  outside := by simpa only [same] using h.outside

theorem wake_alone {h : WaitHandle} {w : Word} :
    (wake h w).Alone (worldMachine plat) i s fun v s' => v = .ok () ∧ s'.byte = s.byte := by
  refine .last ?_ ?_
  case refine_1 =>
    by_cases waits : ∃ j, s.Waits plat h w j
    case pos =>
      have ⟨j, hj⟩ := waits
      exact ⟨(), _, .inl ⟨j, hj, rfl⟩⟩
    case neg =>
      cases plat
      case linux   => exact ⟨(), _, .inr ⟨not_exists.mp waits, rfl⟩⟩
      case windows => exact ⟨(), _, .inr ⟨not_exists.mp waits, rfl⟩⟩
  case refine_2 =>
    rintro _ s' (⟨_, _, rfl⟩ | ⟨_, e⟩)
    · exact ⟨rfl, rfl⟩
    · cases plat <;> exact ⟨rfl, e ▸ rfl⟩

theorem publishMessage_alone {h : Handle} (hm : (s.sender h).area.Modular)
    (fits : MSG_HEADER_SIZE + d.length ≤ (s.sender h).area.size) (room : c + (MSG_HEADER_SIZE + d.length) < 2 ^ 64) :
    (RingSender.publishMessage h c d).Alone (worldMachine plat) i s fun v s' =>
      v = .ok () ∧ Wrote (s.sender h).area c (toLeBytes (wrap32 d.length) ++
      toLeBytes (s.sender h).nextSeq ++ d) s s' := by
  unfold MSG_HEADER_SIZE at fits room
  refine .step (fun _ _ => Iff.rfl) ?_
  refine .bind (writeRing_alone hm (by simp; omega)) (fun _ s₁ first => ?_) fun _ _ e => nomatch e.left
  refine .bind (writeRing_alone hm (by simp; omega)) (fun _ s₂ second => ?_) fun _ _ e => nomatch e.left
  refine .bind (writeRing_alone hm (by omega)) (fun _ s₃ third => ?_) fun _ _ e => nomatch e.left
  have four : wrap64 (c + 4) = c + 4 := Ring.wrap64_of_lt (by omega)
  have eight : wrap64 (c + MSG_HEADER_SIZE) = c + 8 := Ring.wrap64_of_lt (by unfold MSG_HEADER_SIZE; omega)
  rw [four] at second
  rw [eight] at third
  have wrote := (first.right.left.append second.right.left (by simp; omega)).append third.right.left (by simp; omega)
  refine .step (v := ()) (fun _ _ => ⟨fun e => ⟨rfl, e⟩, And.right⟩) ?_
  refine .step (v := ()) (fun _ _ => ⟨fun e => ⟨rfl, e⟩, And.right⟩) ?_
  refine .step (v := ()) (fun _ _ => ⟨fun e => ⟨rfl, e⟩, And.right⟩) ?_
  refine .step (fun _ _ => Iff.rfl) (.step (fun _ _ => Iff.rfl) ?_)
  split
  case isTrue  => exact wake_alone.mono fun _ _ e => ⟨e.left, wrote.keep e.right⟩
  case isFalse => exact .pure ⟨rfl, wrote.keep rfl⟩

theorem readMsgHeader_alone {y : RingReceiver} (h : y.area.Modular)
    (fits : MSG_HEADER_SIZE ≤ y.area.size) {len seq : Nat}
    (hl : len < 2 ^ 32) (hs : seq < 2 ^ 32) (hr : y.area.read s c MSG_HEADER_SIZE = toLeBytes len ++ toLeBytes seq) :
    (y.readMsgHeader c).Alone (worldMachine plat) i s fun v s' => v = .ok (len, seq) ∧ s' = s := by
  refine .bind (readRing_alone h fits) (fun header t e => ?_) fun _ _ e => nomatch e.left
  obtain ⟨hv, rfl⟩ := e
  cases hv
  rw [hr]
  refine .pure ⟨?_, rfl⟩
  simp only [toLeBytes, List.cons_append, List.nil_append, List.getD_cons_zero, List.getD_cons_succ]
  rw [Ring.fromLeBytes_toLeBytes hl, Ring.fromLeBytes_toLeBytes hs]

-- A record that the sender `h` publishes at the cursor is found there by a receiver of the same ring.
structure Republished (plat : Platform) (i : ThreadId) (y : RingReceiver) (c seq : Nat) (p : Bytes)
    (s s' : World) : Prop where
  header  : (y.readMsgHeader c).Alone (worldMachine plat) i s' fun v t => v = .ok (p.length, seq) ∧ t = s'
  payload : (y.readRing (c + MSG_HEADER_SIZE) p.length).Alone (worldMachine plat) i s' fun v t => v = .ok p ∧ t = s'
  outside : ∀ f a, (∀ j < MSG_HEADER_SIZE + p.length, ¬ (f = y.base ∧ a = y.dataOffset + (c + j) % y.ringDataSize)) →
    s'.byte f a = s.byte f a

theorem copies_modular (plat : Platform) (i : ThreadId) (s : World) (c : Nat) :
    (∀ (x : RingSender) (d : Bytes), x.area.Modular → d.length ≤ x.ringDataSize →
      (x.writeRing c d).Alone (worldMachine plat) i s fun v s' =>
        v = .ok () ∧ Wrote x.area c d s s' ∧ s' = { s with byte := s'.byte }) ∧
    (∀ (y : RingReceiver) (n : Nat), y.area.Modular → n ≤ y.ringDataSize →
      (y.readRing c n).Alone (worldMachine plat) i s fun v s' => v = .ok (y.area.read s c n) ∧ s' = s) ∧
    (∀ (h : Handle) (y : RingReceiver) (p : Bytes), y.area.Modular → y.area = (s.sender h).area →
      MSG_HEADER_SIZE + p.length ≤ y.ringDataSize → c + (MSG_HEADER_SIZE + p.length) < 2 ^ 64 →
      p.length < 2 ^ 32 → (s.sender h).nextSeq < 2 ^ 32 →
      (RingSender.publishMessage h c p).Alone (worldMachine plat) i s fun v s' =>
        v = .ok () ∧ Republished plat i y c (s.sender h).nextSeq p s s') := by
  refine ⟨fun x d h hd => writeRing_alone h hd, fun y n h hn => readRing_alone h hn, ?_⟩
  intro h y p hm same fits room hp hs
  refine (publishMessage_alone (same ▸ hm) (same ▸ fits) room).mono fun v s' e => ⟨e.left, ?_⟩
  have wrote := e.right
  rw [← same, wrap32, Nat.mod_eq_of_lt hp] at wrote
  have eight : y.area.read s' c MSG_HEADER_SIZE = toLeBytes p.length ++ toLeBytes (s.sender h).nextSeq := wrote.left
  constructor
  case header  => exact readMsgHeader_alone hm (Nat.le_trans (Nat.le_add_right _ _) fits) hp hs eight
  case payload =>
    have payload : y.area.read s' (c + MSG_HEADER_SIZE) p.length = p := wrote.right
    have all : p.length ≤ y.area.size := Nat.le_trans (Nat.le_add_left _ _) fits
    exact (readRing_alone hm all).mono fun _ _ e => ⟨e.left.trans (congrArg _ payload), e.right⟩
  case outside =>
    intro f a out
    exact wrote.outside f a fun j hj => out j (by simpa [MSG_HEADER_SIZE, ← Nat.add_assoc] using hj)

-- A ring of 16 bytes, in which a record at the cursor 14 goes on at the first byte within its length.

def smallSender : RingSender where
  base         := 0
  ringHeader   := 0
  writerWait   := ⟨0, .ringAWriter⟩
  readerWait   := ⟨0, .ringAReader⟩
  dataOffset   := 256
  ringDataSize := 16
  ringMask     := 15
  nextSeq      := 3
  cachedWc     := 14
  cachedRc     := 14
  shared       := 0

def smallReceiver : RingReceiver where
  base         := 0
  ringHeader   := 0
  writerWait   := ⟨0, .ringAWriter⟩
  readerWait   := ⟨0, .ringAReader⟩
  dataOffset   := 256
  ringDataSize := 16
  ringMask     := 15
  expectedSeq  := 3
  cachedRc     := 14
  shared       := 0

theorem copies_modular_wrapped :
    let s := { World.start with sender := fun _ => smallSender }
    (RingSender.publishMessage 0 14 [7, 8, 9]).Alone (worldMachine .linux) 0 s fun v s' =>
      v = .ok () ∧ Republished .linux 0 smallReceiver 14 3 [7, 8, 9] s s' :=
  (copies_modular .linux 0 { World.start with sender := fun _ => smallSender } 14).right.right 0 smallReceiver [7, 8, 9]
    ⟨⟨4, rfl⟩, rfl⟩ rfl (by decide) (by decide) (by decide) (by decide)
