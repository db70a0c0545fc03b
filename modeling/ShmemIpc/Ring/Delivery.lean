import ShmemIpc.Ring.Run

open Ring

-- The messages of a ring arrive whole and in order, and its cursors never pass each other.
namespace Link

variable {L : Link} {plat : Platform} {c : L.system.Config}

theorem Inv.delivered {v : RingState} (h : L.Inv v) :
    ∃ ps, ps <+: v.sent ∧ ps.length = v.received.length ∧
      (∀ (j : Nat) (p : Bytes), v.received[j]? = some (some p) → ps[j]? = some p) ∧
      (¬ L.discards → v.received = ps.map some) := by
  have length : (v.sent.take v.received.length).length = v.received.length := by
    rw [List.length_take]
    exact Nat.min_eq_left h.order
  have agrees (j : Nat) (p : Bytes) (hj : v.received[j]? = some (some p)) :
      (v.sent.take v.received.length)[j]? = some p := by
    have hlt := (List.getElem?_eq_some_iff.mp hj).choose
    rw [List.getElem?_take_of_lt hlt]
    exact h.agrees j p hj
  refine ⟨v.sent.take v.received.length, List.take_prefix _ _, length, agrees, fun hd => ?_⟩
  refine List.ext_getElem (by rw [List.length_map, length]) fun j hj hj' => ?_
  rw [List.getElem_map]
  cases hr : v.received[j]
  case none   => exact absurd (h.discarded (hr ▸ List.getElem_mem hj)) hd
  case some p =>
    have known := agrees j p (by rw [List.getElem?_eq_getElem hj, hr])
    obtain ⟨_, hp⟩ := List.getElem?_eq_some_iff.mp known
    rw [hp]

-- In every interleaving, what the receiver has committed is a prefix of what has been sent. A message
-- is missing only if it was too long for the buffer of the caller.
theorem received_prefix (h : L.system.Reachable (machine plat) c) :
    ∃ ps, ps <+: (L.ring c.mem).sent ∧ ps.length = (L.ring c.mem).received.length ∧
      (∀ (j : Nat) (p : Bytes), (L.ring c.mem).received[j]? = some (some p) → ps[j]? = some p) ∧
      (¬ L.discards → (L.ring c.mem).received = ps.map some) :=
  (inv_of_reachable h).delivered

-- The client has received a message.
theorem received_prefix_message :
    ∃ c : ringA.system.Config, (ringA.ring c.mem).received = [some [7, 8]] ∧
      ∃ ps, ps <+: (ringA.ring c.mem).sent ∧ ps.length = (ringA.ring c.mem).received.length ∧
        (∀ (j : Nat) (p : Bytes), (ringA.ring c.mem).received[j]? = some (some p) → ps[j]? = some p) ∧
        (¬ ringA.discards → (ringA.ring c.mem).received = ps.map some) := by
  have ⟨c, reach, _, hc⟩ := ringA.reaches (crateOracle .linux) (fun _ h => h) (l := ringA.send ++ ringA.receive)
    (p := fun c => (ringA.ring c.mem).received = [some [7, 8]]) (by decide +kernel)
  exact ⟨c, of_decide_eq_true hc, received_prefix reach⟩

-- The cursors and their copies. A private copy lags only between a store to its cursor and the
-- update of the copy, which is then the next step.
structure Ordered (L : Link) (c : L.system.Config) : Prop where
  cachedRc     : (L.ring c.mem).sender.cachedRc ≤ (L.ring c.mem).rc
  order        : (L.ring c.mem).rc ≤ (L.ring c.mem).wc
  room         : (L.ring c.mem).wc - (L.ring c.mem).sender.cachedRc ≤ L.size
  receiver     : (L.ring c.mem).receiver.cachedRc = (L.ring c.mem).rc ∨
    ∃ k p, (L.ring c.mem).received.length = k + 1 ∧ (L.ring c.mem).sent[k]? = some p ∧
      (L.ring c.mem).receiver.cachedRc + frameSize p = (L.ring c.mem).rc
  sender       : (L.ring c.mem).sender.cachedWc = (L.ring c.mem).wc ∨
    ∃ ps p, (L.ring c.mem).sent = ps ++ [p] ∧ (L.ring c.mem).sender.cachedWc + frameSize p = (L.ring c.mem).wc
  receiverNext : ∀ {a}, c.Next L.rx a → (∀ x, a ≠ .setReceiver L.hr x) →
    (L.ring c.mem).receiver.cachedRc = (L.ring c.mem).rc
  senderNext   : ∀ {a}, c.Next L.tx a → (∀ x, a ≠ .setSender L.hs x) →
    (L.ring c.mem).sender.cachedWc = (L.ring c.mem).wc
  receiverIdle : c.thr L.rx = none → (L.ring c.mem).receiver.cachedRc = (L.ring c.mem).rc
  senderIdle   : c.thr L.tx = none → (L.ring c.mem).sender.cachedWc = (L.ring c.mem).wc
  -- No subtraction underflows.
  sub          : ∀ {i a b}, c.Next i (.sub a b) → b ≤ a
  -- No byte that the receiver has not taken yet is overwritten.
  write        : ∀ {i addr b}, c.Next i (.writeByte L.base addr b) →
    ∀ q, (L.ring c.mem).rc ≤ q → q < (L.ring c.mem).wc → addr ≠ L.data + q % L.size

section
variable {v : RingState} {i : ThreadId}

theorem Inv.wc_eq (h : L.Inv v) (small : total v.sent < 2 ^ 64) : v.wc = total v.sent :=
  h.wc.trans (wrap64_of_lt small)

theorem Inv.rc_eq (h : L.Inv v) (small : total v.sent < 2 ^ 64) : v.rc = v.taken :=
  h.rc.trans (wrap64_of_lt (Nat.lt_of_le_of_lt taken_le small))

theorem Inv.cachedRc_eq (h : L.Inv v) (small : total v.sent < 2 ^ 64) :
    v.sender.cachedRc ≤ v.taken ∧ total v.sent ≤ v.sender.cachedRc + L.size := by
  obtain ⟨c, fresh, old, room⟩ := h.room
  have below : c < 2 ^ 64 := Nat.lt_of_le_of_lt (Nat.le_trans old taken_le) small
  rw [fresh, wrap64_of_lt below]
  exact ⟨old, room⟩

theorem Inv.receiver_lag (h : L.Inv v) (small : total v.sent < 2 ^ 64) : v.receiver.cachedRc = v.rc ∨
    ∃ k p, v.received.length = k + 1 ∧ v.sent[k]? = some p ∧ v.receiver.cachedRc + frameSize p = v.rc := by
  refine h.takenLag.imp_right fun ⟨k, hk, hc⟩ => ?_
  have hlt : k < v.sent.length := by
    have := h.order
    omega
  have head : v.sent[k]? = some v.sent[k] := List.getElem?_eq_getElem hlt
  have taken : v.taken = total (v.sent.take k) + frameSize v.sent[k] := by
    rw [RingState.taken, hk, total_take_succ head]
  have below : total (v.sent.take k) < 2 ^ 64 := by
    have := taken_le (v := v)
    omega
  exact ⟨k, _, hk, head, by rw [h.rc_eq small, hc, wrap64_of_lt below, taken]⟩

theorem Inv.sender_lag (h : L.Inv v) (small : total v.sent < 2 ^ 64) : v.sender.cachedWc = v.wc ∨
    ∃ ps p, v.sent = ps ++ [p] ∧ v.sender.cachedWc + frameSize p = v.wc := by
  refine h.sentLag.imp_right fun ⟨ps, p, hs, hc⟩ => ⟨ps, p, hs, ?_⟩
  have all : total v.sent = total ps + frameSize p := by simp [hs]
  rw [h.wc_eq small, hc, wrap64_of_lt (by omega), all]

theorem sub_le {a b : Nat} (small : total v.sent < 2 ^ 64) (h : L.Allowed i (.sub a b) v) : b ≤ a := by
  obtain ⟨x, y, rfl, rfl, hle, hx⟩ := h.left
  have size := L.size_lt
  rw [wrap64_of_lt (by omega), wrap64_of_lt (by omega)]
  exact hle

theorem write_free {addr q : Nat} {b : UInt8} (lo : v.taken ≤ q) (hi : q < total v.sent)
    (h : L.Allowed i (.writeByte L.base addr b) v) : addr ≠ L.data + q % L.size := by
  rintro rfl
  have pos := L.size_pos
  have inside : q % L.size < L.size := Nat.mod_lt _ (by omega)
  obtain ⟨_, q', same, above, c, _, old, room⟩ := h rfl (by omega) (by omega)
  exact Window.mod_ne (n := L.size) lo (Nat.lt_of_lt_of_le hi above) (by omega) (Nat.add_left_cancel same)

end

-- As long as fewer than `2 ^ 64` bytes have been sent.
theorem cursors_ordered (h : L.system.Reachable (machine plat) c) (small : total (L.ring c.mem).sent < 2 ^ 64) :
    Ordered L c := by
  have hi := inv_of_reachable h
  have wc := hi.wc_eq small
  have rc := hi.rc_eq small
  have ⟨old, room⟩ := hi.cachedRc_eq small
  constructor
  case cachedRc     => rwa [rc]
  case order        => rw [wc, rc]; exact taken_le
  case room         => rw [wc]; omega
  case receiver     => exact hi.receiver_lag small
  case sender       => exact hi.sender_lag small
  case receiverNext =>
    intro a hn ha
    rcases (ok_of_next h hn).calm with update | calm
    case inr => exact calm.receiver rfl
    case inl =>
      have allowed := (ok_of_next h hn).allowed
      cases a <;> try exact update.elim
      case setSender   => exact absurd (allowed update).left.symm L.threads
      case setReceiver => obtain rfl := update; exact absurd rfl (ha _)
  case senderNext   =>
    intro a hn ha
    rcases (ok_of_next h hn).calm with update | calm
    case inr => exact calm.sender rfl
    case inl =>
      have allowed := (ok_of_next h hn).allowed
      cases a <;> try exact update.elim
      case setSender   => obtain rfl := update; exact absurd rfl (ha _)
      case setReceiver => exact absurd (allowed update).left L.threads
  case receiverIdle =>
    intro ht
    obtain ⟨rs, b, out, taken, hs, _⟩ := (idle_of_reachable h ht).right rfl
    rw [hs.receiver, hi.rc, hs.taken]
    rfl
  case senderIdle   =>
    intro ht
    obtain ⟨ps, r, hs, _⟩ := (idle_of_reachable h ht).left rfl
    rw [hs.sender, hi.wc, hs.sent]
    rfl
  case sub          => exact fun hn => sub_le small (ok_of_next h hn).allowed
  case write        => exact fun hn q lo hq => write_free (rc ▸ lo) (wc ▸ hq) (ok_of_next h hn).allowed

-- The client has stored the cursor of a message, and not its own copy.
theorem cursors_ordered_lag :
    ∃ c : ringA.system.Config, (ringA.ring c.mem).receiver.cachedRc ≠ (ringA.ring c.mem).rc ∧ Ordered ringA c := by
  have ⟨c, reach, _, hc⟩ := ringA.reaches (crateOracle .linux) (fun _ h => h)
    (l := ringA.send ++ .call 1 (.tryRecv 1) :: CrateMove.steps 1 19)
    (p := fun c => (ringA.ring c.mem).receiver.cachedRc ≠ (ringA.ring c.mem).rc ∧
      total (ringA.ring c.mem).sent < 2 ^ 64) (by decide +kernel)
  have ⟨lag, small⟩ := of_decide_eq_true hc
  exact ⟨c, lag, cursors_ordered reach small⟩

end Link
