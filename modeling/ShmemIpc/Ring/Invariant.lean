import ShmemIpc.Ring.Link

open Function Window Ring

-- How the state of a ring changes, and what always holds of it.
namespace Link

variable (L : Link)

-- The bytes up to the position `hi` are free, as far as the sender knows.
def Free (hi : Nat) (v : RingState) : Prop :=
  ∃ c, v.sender.cachedRc = wrap64 c ∧ c ≤ v.taken ∧ hi ≤ c + L.size

inductive Change (i : ThreadId) (a : Act) (v : RingState) : RingState → Prop
  | keep : Change i a v v
  | publish {p} (act : a = .store L.writeCursor (wrap64 (v.wc + frameSize p)) (.publish p))
      (mine : i = L.tx) (synced : v.sender.cachedWc = v.wc)
      (free : L.Free (total v.sent + frameSize p) v)
      (written : Holds v.cell (total v.sent) (record v.sent.length p)) (ready : 3 ≤ v.state) :
      Change i a v { v with wc := wrap64 (v.wc + frameSize p), sent := v.sent ++ [p] }
  | commit {p r} (act : a = .store L.readCursor (wrap64 (v.rc + frameSize p)) (.commit r))
      (mine : i = L.rx) (synced : v.receiver.cachedRc = v.rc)
      (head : v.sent[v.received.length]? = some p) (what : r = some p ∨ r = none ∧ L.discards) :
      Change i a v { v with rc := wrap64 (v.rc + frameSize p), received := v.received ++ [r] }
  | write {f addr q b} (act : a = .writeByte f addr b) (mine : i = L.tx) (above : total v.sent ≤ q)
      (free : L.Free (q + 1) v) : Change i a v { v with cell := Window.write L.size v.cell q b }
  | sender {n r c} (act : a = .setSender L.hs (L.sender n v.wc r)) (mine : i = L.tx)
      (fresh : r = wrap64 c) (old : c ≤ v.taken) (room : total v.sent ≤ c + L.size) :
      Change i a v { v with sender := L.sender n v.wc r }
  | receiver {n} (act : a = .setReceiver L.hr (L.receiver n v.rc)) (mine : i = L.rx) :
      Change i a v { v with receiver := L.receiver n v.rc }
  | buf {b} (act : a = .setBuf b) (mine : i = L.rx) : Change i a v { v with buf := b }
  | out {o} (act : a = .setOut o) (mine : i = L.rx) : Change i a v { v with out := o }
  | advance {n} (up : v.state < n) (open_ : v.state < 4) (named : n = 3 → v.clientPid ≠ 0) :
      Change i a v { v with
        state  := n
        sealed := if 4 ≤ n then some (v.sealed.getD v.sent) else v.sealed }
  | identify {n} (named : n ≠ 0) : Change i a v { v with clientPid := n }
  | create {n} (more : v.files ≤ n) : Change i a v { v with files := n }
  | fault (mine : i = L.rx) : Change i a v { v with faulted := true }

structure Inv (v : RingState) : Prop where
  old       : L.base < v.files
  order     : v.received.length ≤ v.sent.length
  agrees    : ∀ (j : Nat) (p : Bytes), v.received[j]? = some (some p) → v.sent[j]? = some p
  discarded : none ∈ v.received → L.discards
  fits      : ∀ p ∈ v.sent, frameSize p ≤ L.size
  wc        : v.wc = wrap64 (total v.sent)
  rc        : v.rc = wrap64 v.taken
  live      : Holds v.cell v.taken (records v.received.length (v.sent.drop v.received.length))
  sender    : ∃ n w r, v.sender = L.sender n w r
  receiver  : ∃ n r, v.receiver = L.receiver n r
  room      : L.Free (total v.sent) v
  sentLag   : v.sender.cachedWc = v.wc ∨
    ∃ ps p, v.sent = ps ++ [p] ∧ v.sender.cachedWc = wrap64 (total ps)
  takenLag  : v.receiver.cachedRc = v.rc ∨
    ∃ n, v.received.length = n + 1 ∧ v.receiver.cachedRc = wrap64 (total (v.sent.take n))
  ended     : 4 ≤ v.state ↔ v.sealed.isSome
  before    : ∀ ps, v.sealed = some ps → ps <+: v.sent
  connected : v.sent ≠ [] → 3 ≤ v.state
  server    : v.serverPid ≠ 0
  client    : v.state = 3 → v.clientPid ≠ 0

variable {L} {i : ThreadId} {a : Act} {v v' : RingState}

theorem taken_le : v.taken ≤ total v.sent := by
  rw [← total_take_add_drop v.sent v.received.length]
  exact Nat.le_add_right _ _

theorem taken_append {p : Bytes} (h : v.received.length ≤ v.sent.length) :
    total ((v.sent ++ [p]).take v.received.length) = v.taken := by
  rw [List.take_append_of_le_length h]
  rfl

theorem taken_succ {p : Bytes} (h : v.sent[v.received.length]? = some p) {r : Option Bytes} :
    total (v.sent.take (v.received ++ [r]).length) = v.taken + frameSize p := by
  rw [List.length_append, List.length_singleton]
  exact total_take_succ h

namespace Inv

variable (h : L.Inv v)
include h

theorem publish {p : Bytes} (synced : v.sender.cachedWc = v.wc)
    (free : L.Free (total v.sent + frameSize p) v)
    (written : Holds v.cell (total v.sent) (record v.sent.length p)) (ready : 3 ≤ v.state) :
    L.Inv { v with wc := wrap64 (v.wc + frameSize p), sent := v.sent ++ [p] } := by
  have taken := taken_append (p := p) h.order
  obtain ⟨c, hc, old, room⟩ := free
  constructor
  case order     => simpa using Nat.le_succ_of_le h.order
  case agrees    =>
    intro j q hq
    have hj : j < v.sent.length := Nat.lt_of_lt_of_le (List.getElem?_eq_some_iff.mp hq).choose h.order
    rw [List.getElem?_append_left hj]
    exact h.agrees j q hq
  case fits      =>
    intro q hq
    rcases List.mem_append.mp hq with hq | hq
    case inl => exact h.fits q hq
    case inr =>
      obtain rfl := List.mem_singleton.mp hq
      have := taken_le (v := v)
      omega
  case wc        => simp [h.wc, wrap64_add]
  case rc        => exact h.rc.trans (congrArg wrap64 taken.symm)
  case live      =>
    simp only [RingState.taken]
    rw [taken, List.drop_append_of_le_length h.order, records_append]
    refine h.live.append ?_
    have pos : v.taken + (records v.received.length (v.sent.drop v.received.length)).length = total v.sent := by
      rw [length_records]
      exact total_take_add_drop _ _
    have num : v.received.length + (v.sent.drop v.received.length).length = v.sent.length := by
      rw [List.length_drop]
      exact Nat.add_sub_cancel' h.order
    rw [pos, num]
    simpa [records] using written
  case room      => exact ⟨c, hc, old.trans_eq taken.symm, by simpa using room⟩
  case sentLag   => exact .inr ⟨v.sent, p, rfl, synced.trans h.wc⟩
  case takenLag  =>
    refine h.takenLag.imp_right ?_
    rintro ⟨n, hn, hr⟩
    have hle : n ≤ v.sent.length := by have := h.order; omega
    refine ⟨n, hn, ?_⟩
    rw [List.take_append_of_le_length hle]
    exact hr
  case before    => exact fun ps hps => (h.before ps hps).trans (List.prefix_append _ _)
  case connected => exact fun _ => ready
  case old       => exact h.old
  case discarded => exact h.discarded
  case sender    => exact h.sender
  case receiver  => exact h.receiver
  case ended     => exact h.ended
  case server    => exact h.server
  case client    => exact h.client

theorem commit {p : Bytes} {r : Option Bytes} (synced : v.receiver.cachedRc = v.rc)
    (head : v.sent[v.received.length]? = some p) (what : r = some p ∨ r = none ∧ L.discards) :
    L.Inv { v with rc := wrap64 (v.rc + frameSize p), received := v.received ++ [r] } := by
  have taken := taken_succ head (r := r)
  constructor
  case order     =>
    have hlt := (List.getElem?_eq_some_iff.mp head).choose
    simpa using Nat.succ_le_of_lt hlt
  case agrees    =>
    intro j q hq
    by_cases hj : j < v.received.length
    case pos =>
      rw [List.getElem?_append_left hj] at hq
      exact h.agrees j q hq
    case neg =>
      rw [List.getElem?_append_right (Nat.le_of_not_lt hj)] at hq
      obtain ⟨hz, hq⟩ := List.getElem?_eq_some_iff.mp hq
      obtain rfl : j = v.received.length := by simp at hz; omega
      simp only [Nat.sub_self, List.getElem_cons_zero] at hq
      rcases what with rfl | ⟨rfl, _⟩
      case inl => exact Option.some.inj hq ▸ head
      case inr => cases hq
  case discarded =>
    intro hm
    rcases List.mem_append.mp hm with hm | hm
    case inl => exact h.discarded hm
    case inr =>
      have hr := List.mem_singleton.mp hm
      rcases what with rfl | ⟨_, d⟩
      case inl => cases hr
      case inr => exact d
  case rc        =>
    show wrap64 (v.rc + frameSize p) = wrap64 (total (v.sent.take (v.received ++ [r]).length))
    rw [taken, h.rc, wrap64_add]
  case live      =>
    simp only [RingState.taken]
    rw [taken, List.length_append, List.length_singleton]
    have live := h.live
    rw [drop_eq_cons head] at live
    simpa [records] using live.right
  case room      =>
    obtain ⟨c, hc, old, room⟩ := h.room
    refine ⟨c, hc, ?_, room⟩
    show c ≤ total (v.sent.take (v.received ++ [r]).length)
    omega
  case takenLag  => exact .inr ⟨v.received.length, by simp, synced.trans h.rc⟩
  case old       => exact h.old
  case fits      => exact h.fits
  case wc        => exact h.wc
  case sender    => exact h.sender
  case receiver  => exact h.receiver
  case sentLag   => exact h.sentLag
  case ended     => exact h.ended
  case before    => exact h.before
  case connected => exact h.connected
  case server    => exact h.server
  case client    => exact h.client

-- What the receiver has not taken yet lies below what the sender writes, in one window.
theorem write {q : Nat} {b : UInt8} (above : total v.sent ≤ q) (free : L.Free (q + 1) v) :
    L.Inv { v with cell := Window.write L.size v.cell q b } := by
  obtain ⟨c, _, old, room⟩ := free
  refine { h with live := h.live.write ?_ ?_ }
  · rw [length_records]
    exact (total_take_add_drop _ _).trans_le above
  · show q < v.taken + L.size
    omega

theorem advance {n : Nat} (up : v.state < n) (open_ : v.state < 4) (named : n = 3 → v.clientPid ≠ 0) :
    L.Inv { v with state := n, sealed := if 4 ≤ n then some (v.sealed.getD v.sent) else v.sealed } := by
  have unsealed : v.sealed = none := by
    by_contra hs
    have := h.ended.mpr (Option.isSome_iff_ne_none.mpr hs)
    omega
  refine { h with ended := ?_, before := ?_, connected := ?_, client := ?_ }
  · by_cases hn : 4 ≤ n <;> simp [hn, unsealed]
  · intro ps hps
    by_cases hn : 4 ≤ n
    case pos =>
      simp only [hn, if_true, unsealed, Option.getD_none, Option.some.injEq] at hps
      exact hps ▸ List.prefix_rfl
    case neg =>
      simp only [hn, if_false] at hps
      exact h.before ps hps
  · intro hs
    have := h.connected hs
    show 3 ≤ n
    omega
  · exact named

theorem change : L.Change i a v v' → L.Inv v'
  | .keep => h
  | .publish _ _ synced free written ready => h.publish synced free written ready
  | .commit _ _ synced head what => h.commit synced head what
  | .write _ _ above free => h.write above free
  | .sender (n := n) (r := r) (c := c) _ _ fresh old room =>
    { h with sender := ⟨n, v.wc, r, rfl⟩, room := ⟨c, fresh, old, room⟩, sentLag := .inl rfl }
  | .receiver (n := n) _ _ => { h with receiver := ⟨n, v.rc, rfl⟩, takenLag := .inl rfl }
  | .buf _ _ | .out _ _ | .fault _ => { h with }
  | .advance up open_ named => h.advance up open_ named
  | .identify named => { h with client := fun _ => named }
  | .create more => { h with old := Nat.lt_of_lt_of_le h.old more }

end Inv

end Link
