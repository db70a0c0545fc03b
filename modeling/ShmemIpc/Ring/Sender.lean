import ShmemIpc.Ring.Shared

-- What the sender of a ring does.
namespace Ring

open Assertion Code Effects Window

section
variable {L : Link} {plat : Platform} {α : Type} {ps : List Bytes} {x : RingSender} {done : Bytes}

-- The sender has sent `ps` and after that written `done`, and its private half is `x`.
structure Sends (ps : List Bytes) (x : RingSender) (done : Bytes) (v : RingState) : Prop where
  sent    : v.sent = ps
  sender  : v.sender = x
  written : Holds v.cell (total ps) done

theorem Sends.owned : Owned L L.tx (Sends ps x done) :=
  fun h _ e hs =>
    have same := same_sent e h
    ⟨same.sent.trans hs.sent, same.sender.trans hs.sender, same.cell ▸ hs.written⟩

def sends (ps : List Bytes) (x : RingSender) (done : Bytes) : L.Tx plat :=
  own (Sends ps x done) Sends.owned

theorem sends_keeps (hx : x.cachedWc = wrap64 (total ps)) :
    (sends ps x done : L.Tx plat).Keeps Act.Quiet :=
  own_keeps fun hi hs =>
    ⟨fun _ => by rw [hs.sender, hx, hi.wc, hs.sent], fun h => absurd h L.threads⟩

-- The receiver has taken at least `c` bytes.
def cleared {i : ThreadId} (c : Nat) : Assertion (L.protocol plat) i :=
  fact (fun v => c ≤ v.taken) cleared_stays

-- The cursor `r` of the receiver leaves room up to the position `hi`.
def roomy {i : ThreadId} (r hi : Nat) : Assertion (L.protocol plat) i :=
  ex fun c => cleared c ⊓ const (r = wrap64 c ∧ hi ≤ c + L.size)

theorem roomy_persistent {i : ThreadId} {r hi : Nat} : (roomy r hi : Assertion (L.protocol plat) i).Persistent :=
  .ex fun _ => fact_persistent.inf .const

variable {P : L.Tx plat} {M : α → L.Tx plat}
variable {E : Error → L.Tx plat}

theorem getSender_spec (hp : P.Keeps Act.Quiet) (hs : P ≤ sends ps x done) {f : RingSender → Routine α}
    (hf : Spec P (f x) M E) : Spec P (getSender L.hs >>= f) M E := by
  refine .learn hp (a := .getSender L.hs) trivial (fun _ => ⊤) (· = x) ?_ ?_
  · rintro s y _ hi h ⟨⟨⟨rfl, _⟩, _⟩, _⟩
    exact ⟨trivial, (hs s hi h).sender⟩
  · rintro y rfl
    exact hf.pre fun _ _ h => h.left

theorem loadReadCursor_spec (hp : P.Keeps Act.Quiet) (hs : P ≤ sends ps x done) {f : Nat → Routine α}
    (hf : ∀ rc, Spec (P ⊓ roomy rc (total ps)) (f rc) M E) : Spec P (load L.readCursor >>= f) M E := by
  refine .keep hp (a := .load L.readCursor) trivial (fun rc => roomy rc (total ps)) ?_ hf
  intro s rc s' hi h e
  obtain ⟨rfl, same⟩ := Link.exec_load (L := L) e.left
  obtain ⟨c, _, old, room⟩ := hi.room
  rw [(hs s hi h).sent] at room
  refine ⟨(L.ring s).taken, ?_, hi.rc, by omega⟩
  show (L.ring s).taken ≤ (L.ring s').taken
  rw [same]

-- The free space that the sender computes from a cursor of the receiver.
theorem space_spec (hp : P.Keeps Act.Quiet) (hs : P ≤ sends ps x done) {r : Nat} {f : Nat → Routine α}
    (hf : ∀ c, r = wrap64 c → c ≤ total ps → total ps ≤ c + L.size →
      Spec (P ⊓ cleared c) (f (L.size - (total ps - c))) M E) :
    Spec (P ⊓ roomy r (total ps)) (do
      let used ← sub (wrap64 (total ps)) r
      let free ← sub L.size used
      f free) M E := by
  refine .pre (P := ex fun c => P ⊓ cleared c ⊓
    const (r = wrap64 c ∧ c ≤ total ps ∧ total ps ≤ c + L.size)) (.ex fun c => .assume ?_) ?_
  · rintro ⟨rfl, old, room⟩
    have hp : (P ⊓ cleared c).Keeps Act.Quiet := hp.inf fact_persistent
    have size := L.size_lt
    refine sub_spec hp (fun s hi h => ⟨⟨total ps, c, rfl, rfl, old, .inl ?_⟩, fun h => absurd h L.threads⟩) ?_
    · exact Nat.le_of_eq (by rw [(hs s hi h.left).sent])
    rw [wrapSub64_wrap64 old (by omega)]
    refine sub_spec hp
      (fun s hi h => ⟨⟨L.size, total ps - c, ?_, ?_, by omega, .inr rfl⟩, fun h => absurd h L.threads⟩) ?_
    · exact (wrap64_of_lt (by omega)).symm
    · exact (wrap64_of_lt (by omega)).symm
    rw [wrapSub64_of_le (by omega) (by omega)]
    exact hf c rfl old room
  · rintro s hi ⟨h, c, old, fresh, room⟩
    refine ⟨c, ⟨h, old⟩, fresh, ?_, room⟩
    exact (Nat.le_trans old Link.taken_le).trans_eq (congrArg total (hs s hi h).sent)

theorem hasSpace_spec (hp : P.Keeps Act.Quiet) (hs : P ≤ sends ps x done) {n w r msgLen : Nat} :
    Spec (P ⊓ roomy r (total ps)) ((L.sender n w r).hasSpace (wrap64 (total ps)) msgLen)
      (fun fits => P ⊓ given (fits = true) (roomy r (total ps + msgLen))) E := by
  unfold RingSender.hasSpace
  rw [Link.sender_ringDataSize]
  refine space_spec hp hs fun c fresh old room => .pure fun s _ h => ⟨h.left, fun hb => ?_⟩
  have fits : msgLen ≤ L.size - (total ps - c) := of_decide_eq_true hb
  exact ⟨c, h.right, fresh, by omega⟩

-- The bytes of a record, one by one.

theorem writeByte_spec (hx : x.cachedWc = wrap64 (total ps)) {addr hi : Nat} {b : UInt8}
    (ha : addr = L.data + (total ps + done.length) % L.size) (hb : total ps + done.length < hi) :
    Spec (sends ps x done ⊓ roomy x.cachedRc hi : L.Tx plat) (writeByte L.base addr b)
      (fun _ => sends ps x (done ++ [b]) ⊓ roomy x.cachedRc hi) (fun _ => const False) := by
  subst ha
  refine .perform ?_ ?_
  case refine_1 =>
    rintro s inv ⟨hs, c, old, fresh, room⟩
    refine ⟨.inr (calm_of_keeps (sends_keeps hx) inv hs), fun _ _ _ => ⟨rfl, _, rfl, ?_, c, ?_, old, by omega⟩⟩
    · rw [hs.sent]
      exact Nat.le_add_right _ _
    · rw [hs.sender, fresh]
  case refine_2 =>
    rintro s _ s' inv ⟨hs, c, old, fresh, room⟩ ⟨e, _⟩
    have same := Link.exec_writeByte e
    have below : c ≤ total ps := (Nat.le_trans old Link.taken_le).trans_eq (congrArg total hs.sent)
    refine ⟨?_, c, ?_, fresh, room⟩
    · show Sends ps x (done ++ [b]) (L.ring s')
      rw [same]
      exact ⟨hs.sent, hs.sender, hs.written.snoc (by omega)⟩
    · show c ≤ (L.ring s').taken
      rw [same]
      exact old

theorem copyTo_spec (hx : x.cachedWc = wrap64 (total ps)) {hi : Nat} (bytes : Bytes) {addr : Nat} {done : Bytes}
    (ha : ∀ t < bytes.length, addr + t = L.data + (total ps + done.length + t) % L.size)
    (hb : total ps + done.length + bytes.length ≤ hi) :
    Spec (sends ps x done ⊓ roomy x.cachedRc hi : L.Tx plat) (copyTo L.base addr bytes)
      (fun _ => sends ps x (done ++ bytes) ⊓ roomy x.cachedRc hi) (fun _ => const False) := by
  induction bytes generalizing addr done
  case nil =>
    simp only [List.append_nil]
    exact .pure le_rfl
  case cons b bytes ih =>
    have first : addr = L.data + (total ps + done.length) % L.size := by simpa using ha 0 (by simp)
    rw [List.length_cons] at ha hb
    refine .bind (writeByte_spec hx first (by omega)) fun _ => ?_
    have rest := @ih (addr + 1) (done ++ [b]) (fun t ht => ?_) (by simp; omega)
    · simpa using rest
    · have := ha (t + 1) (by omega)
      simp only [List.length_append, List.length_singleton]
      rw [show addr + 1 + t = addr + (t + 1) by omega, this]
      congr 2
      omega

-- Data at any position, which may run over the end of the ring.
theorem writeRing_spec (hx : x.cachedWc = wrap64 (total ps)) {n w r hi cursor : Nat} {data : Bytes}
    (hc : cursor = wrap64 (total ps + done.length)) (hb : total ps + done.length + data.length ≤ hi)
    (fits : data.length ≤ L.size) :
    Spec (sends ps x done ⊓ roomy x.cachedRc hi : L.Tx plat)
      ((L.sender n w r).writeRing cursor data)
      (fun _ => sends ps x (done ++ data) ⊓ roomy x.cachedRc hi) (fun _ => const False) := by
  subst hc
  unfold RingSender.writeRing
  simp only [Link.sender_base, Link.sender_ringDataSize, Link.sender_ringMask, Link.sender_dataOffset, Link.and_mask]
  generalize hq : total ps + done.length = q at hb
  have pos := L.size_pos
  have start : q % L.size < L.size := Nat.mod_lt _ (by omega)
  refine .bind (copyTo_spec hx (data.take _) (fun t ht => ?_) ?_) fun _ => ?_
  · rw [List.length_take] at ht
    rw [hq, mod_front (by omega), Nat.add_assoc]
  · rw [List.length_take]
    omega
  · split
    case isFalse h =>
      have all : data.take (min data.length (L.size - q % L.size)) = data := List.take_of_length_le (by omega)
      rw [all]
      exact .pure le_rfl
    case isTrue h =>
      refine (copyTo_spec hx (data.drop _) (fun t ht => ?_) ?_).post ?_ fun _ => le_rfl
      · rw [List.length_drop] at ht
        have front : (data.take (min data.length (L.size - q % L.size))).length = L.size - q % L.size := by
          rw [List.length_take]
          omega
        rw [List.length_append, front, ← Nat.add_assoc, hq, mod_back (by omega) (by omega)]
      · simp only [List.length_append, List.length_take, List.length_drop]
        omega
      · rw [List.append_assoc, List.take_append_drop]
        exact fun _ => le_rfl

-- Data as a part of a record, which fits in.
theorem part_spec (hx : x.cachedWc = wrap64 (total ps)) {n w r cursor : Nat} {p data : Bytes}
    (fits : frameSize p ≤ L.size) (hl : done.length + data.length ≤ frameSize p)
    (hc : cursor = wrap64 (total ps + done.length)) {f : Unit → Routine α}
    (hf : Spec (sends ps x (done ++ data) ⊓ roomy x.cachedRc (total ps + frameSize p) ⊓ reached 3) (f ()) M E) :
    Spec (sends ps x done ⊓ roomy x.cachedRc (total ps + frameSize p) ⊓ reached 3)
      ((L.sender n w r).writeRing cursor data >>= f) M E := by
  have inside : total ps + done.length + data.length ≤ total ps + frameSize p := by omega
  exact .bind ((writeRing_spec hx hc inside (by omega)).carry fact_persistent) fun _ => hf

theorem setSender_spec {n r : Nat} :
    Spec (sends ps x [] ⊓ roomy r (total ps) : L.Tx plat)
      (setSender L.hs (L.sender n (wrap64 (total ps)) r))
      (fun _ => sends ps (L.sender n (wrap64 (total ps)) r) [] ⊓ roomy r (total ps)) E := by
  refine .perform ?_ ?_
  case refine_1 =>
    rintro s inv ⟨hs, c, old, fresh, room⟩
    refine ⟨.inl rfl, fun _ => ⟨rfl, n, r, c, ?_, fresh, old, ?_⟩⟩
    · rw [inv.wc, hs.sent]
    · rwa [hs.sent]
  case refine_2 =>
    rintro s _ s' _ ⟨hs, c, old, fresh, room⟩ ⟨e, _⟩
    have same := Link.exec_setSender e
    refine ⟨?_, c, ?_, fresh, room⟩
    · show Sends ps _ [] (L.ring s')
      rw [same]
      exact ⟨hs.sent, rfl, .nil⟩
    · show c ≤ (L.ring s').taken
      rw [same]
      exact old

theorem publish_spec {n r : Nat} {p : Bytes} :
    let x := L.sender n (wrap64 (total ps)) r
    Spec (sends ps x (record ps.length p) ⊓ roomy r (total (ps ++ [p])) ⊓ reached 3 : L.Tx plat)
      (store L.writeCursor (wrap64 (total (ps ++ [p]))) (.publish p))
      (fun _ => sends (ps ++ [p]) x [] ⊓ roomy r (total (ps ++ [p]))) E := by
  intro x
  have new {v : RingState} (h : v.wc = wrap64 (total ps)) :
    wrap64 (total (ps ++ [p])) = wrap64 (v.wc + frameSize p) := by
    simp [h, wrap64_add]
  refine .perform ?_ ?_
  case refine_1 =>
    rintro s inv ⟨⟨hs, c, old, fresh, room⟩, ready⟩
    have wc := inv.wc.trans (congrArg (wrap64 <| total ·) hs.sent)
    have total_eq : total (L.ring s).sent + frameSize p = total (ps ++ [p]) := by simp [hs.sent]
    refine ⟨.inr (calm_of_keeps (sends_keeps rfl) inv hs), fun _ _ =>
      ⟨rfl, ready, p, rfl, new wc, ⟨c, ?_, old, ?_⟩, ?_⟩⟩
    · rw [hs.sender]
      exact fresh
    · rwa [total_eq]
    · rw [hs.sent]
      exact hs.written
  case refine_2 =>
    rintro s _ s' inv ⟨⟨hs, c, old, fresh, room⟩, _⟩ ⟨e, _⟩
    have same := Link.exec_publish e
    refine ⟨?_, c, ?_, fresh, room⟩
    · show Sends (ps ++ [p]) x [] (L.ring s')
      rw [same]
      exact ⟨congrArg (· ++ [p]) hs.sent, hs.sender, .nil⟩
    · show c ≤ (L.ring s').taken
      rw [same]
      exact old.trans_eq (Link.taken_append inv.order).symm

-- A record, and the store that publishes it.
theorem publishMessage_spec {r : Nat} {p : Bytes} :
    Spec (sends ps (L.sender (wrap32 (ps.length + 1)) (wrap64 (total ps)) r) [] ⊓ roomy r (total ps + frameSize p) ⊓
        reached 3 : L.Tx plat)
      (RingSender.publishMessage L.hs (wrap64 (total ps)) p)
      (fun _ => sends (ps ++ [p]) (L.sender (wrap32 (ps.length + 2)) (wrap64 (total (ps ++ [p]))) r) [])
      (fun _ => const False) := by
  have hx : (L.sender (wrap32 (ps.length + 1)) (wrap64 (total ps)) r).cachedWc = wrap64 (total ps) := rfl
  refine .pre (P := (sends ps (L.sender (wrap32 (ps.length + 1)) (wrap64 (total ps)) r) [] ⊓
    roomy r (total ps + frameSize p) ⊓ reached 3) ⊓ const (frameSize p ≤ L.size)) (.assume fun fits => ?_) ?_
  case refine_2 =>
    rintro s _ ⟨⟨hs, c, old, fresh, room⟩, ready⟩
    have below : c ≤ total ps := (Nat.le_trans old Link.taken_le).trans_eq (congrArg total hs.sent)
    exact ⟨⟨⟨hs, c, old, fresh, room⟩, ready⟩, show frameSize p ≤ L.size by omega⟩
  refine getSender_spec (((sends_keeps hx).inf roomy_persistent).inf fact_persistent) (fun _ _ hs => hs.left.left) ?_
  have size : frameSize p = 8 + p.length := rfl
  refine part_spec hx fits ?_ rfl ?_
  · simp [size]; omega
  refine part_spec hx fits ?_ (by simp [wrap64_add]) ?_
  · simp [size]
  refine part_spec hx fits ?_ (by simp [wrap64_add, MSG_HEADER_SIZE]) ?_
  · simp [size]
  simp only [List.nil_append, Link.sender_writeCursor]
  have after : wrap64 (wrap64 (total ps) + (MSG_HEADER_SIZE + p.length)) = wrap64 (total (ps ++ [p])) := by
    simp [wrap64_add, frameSize]
  have seq : wrap32 (wrap32 (ps.length + 1) + 1) = wrap32 (ps.length + 2) := by simp [wrap32]
  have total_eq : total ps + frameSize p = total (ps ++ [p]) := by simp
  rw [after, total_eq]
  refine .bind publish_spec fun _ => .bind (setSender_spec (n := wrap32 (ps.length + 1))) fun _ => ?_
  refine .bind (setSender_spec (n := wrap32 (wrap32 (ps.length + 1) + 1))) fun _ => ?_
  rw [seq]
  refine .pre ?_ fun _ _ hs => hs.left
  have keeps : (sends (ps ++ [p]) (L.sender (wrap32 (ps.length + 2)) (wrap64 (total (ps ++ [p]))) r) [] :
      L.Tx plat).Keeps Act.Quiet := sends_keeps rfl
  refine .skip keeps (by trivial) fun _ => .skip keeps (by trivial) fun parked => ?_
  split
  case isTrue  => exact .perform (fun _ => keeps.ok (by trivial)) fun _ _ _ => keeps.kept (by trivial)
  case isFalse => exact .pure le_rfl

-- Between its operations, the sender has sent `ps`.
def sending (ps : List Bytes) : L.Tx plat :=
  ex fun r => sends ps (L.sender (wrap32 (ps.length + 1)) (wrap64 (total ps)) r) [] ⊓ held L.hs L.xs

theorem sending_keeps : (sending ps : L.Tx plat).Keeps Act.Quiet :=
  .ex fun _ => (sends_keeps rfl).inf held_persistent

def sentOr (ps : List Bytes) (p : Bytes) : TrySendResult → L.Tx plat
  | .sent => sending (ps ++ [p])
  | .full => sending ps

theorem roomy_of_sends : sends ps x done ≤ (roomy x.cachedRc (total ps) : L.Tx plat) := by
  intro s hi hs
  obtain ⟨c, fresh, old, room⟩ := hi.room
  exact ⟨c, old, hs.sender ▸ fresh, hs.sent ▸ room⟩

theorem messageSize_spec {n w r len : Nat} (he : ∀ e, P ≤ E e) :
    Spec P ((L.sender n w r).messageSize len) (fun m => P ⊓ const (m = MSG_HEADER_SIZE + len)) E := by
  unfold RingSender.messageSize
  simp only
  split
  case isTrue  => exact .throw (he _)
  case isFalse => exact .pure fun _ _ hs => ⟨hs, rfl⟩

-- Where the channel is known to be connected.
def sendingAt (ps : List Bytes) (r : Nat) : L.Tx plat :=
  sends ps (L.sender (wrap32 (ps.length + 1)) (wrap64 (total ps)) r) [] ⊓ (reached 3 ⊓ held L.hs L.xs)

theorem sendingAt_keeps {r : Nat} : (sendingAt ps r : L.Tx plat).Keeps Act.Quiet :=
  (sends_keeps rfl).inf (fact_persistent.inf held_persistent)

theorem sends_of_sendingAt {r : Nat} :
    sendingAt ps r ≤ (sends ps (L.sender (wrap32 (ps.length + 1)) (wrap64 (total ps)) r) [] : L.Tx plat) :=
  fun _ _ hs => hs.left

theorem sending_of_sendingAt {r : Nat} : sendingAt ps r ≤ (sending ps : L.Tx plat) :=
  fun _ _ hs => ⟨r, hs.left, hs.right.right⟩

-- The message is published where there is enough room for it.
theorem offer_spec {r : Nat} {p : Bytes} {fits : Bool} {full : Routine TrySendResult} {M : TrySendResult → L.Tx plat}
    (hm : sending (ps ++ [p]) ≤ M .sent)
    (hf : fits = false → Spec (sendingAt ps r : L.Tx plat) full M (fun _ => sending ps)) :
    Spec (sendingAt ps r ⊓ given (fits = true) (roomy r (total ps + frameSize p)) : L.Tx plat)
      (if fits then do
          RingSender.publishMessage L.hs (wrap64 (total ps)) p
          Pure.pure TrySendResult.sent
        else full) M (fun _ => sending ps) := by
  cases fits
  case false => exact (hf rfl).pre fun _ _ hs => hs.left
  case true =>
    refine .bind (M := fun _ => sending (ps ++ [p])) ?_ fun _ => .pure hm
    have sent (_ : Unit) : (sends (ps ++ [p]) (L.sender (wrap32 (ps.length + 2)) (wrap64 (total (ps ++ [p]))) r) [] ⊓
        held L.hs L.xs : L.Tx plat) ≤ sending (ps ++ [p]) := fun s _ hs => ⟨r, by simpa using hs⟩
    refine .pre ((publishMessage_spec.carry held_persistent).post sent fun _ => le_rfl) ?_
    exact fun s _ hs => ⟨⟨⟨hs.left.left, hs.right rfl⟩, hs.left.right.left⟩, hs.left.right.right⟩

theorem checkReady_sender (hp : P.Keeps Act.Quiet) {n w r : Nat} :
    Spec (P ⊓ held L.hs L.xs) (SharedChannel.checkReady (L.sender n w r).shared)
      (fun ready => P ⊓ held L.hs L.xs ⊓ given (ready = true) (reached 3))
      (fun e => P ⊓ held L.hs L.xs ⊓ given e.Terminal (reached 4)) := by
  rw [Link.sender_shared]
  exact checkReady_spec hp rfl

theorem trySendOnce_spec {p : Bytes} :
    Spec (sending ps : L.Tx plat) (RingSender.trySendOnce L.hs p) (sentOr ps p)
      (fun _ => sending ps) := by
  refine .ex fun r => ?_
  have keeps : (sends ps (L.sender (wrap32 (ps.length + 1)) (wrap64 (total ps)) r) [] :
      L.Tx plat).Keeps Act.Quiet := sends_keeps rfl
  refine getSender_spec (keeps.inf held_persistent) (fun _ _ hs => hs.left) ?_
  refine .bind ((checkReady_sender keeps).post (fun _ => le_rfl) fun _ _ _ hs => ⟨r, hs.left⟩) fun ready => ?_
  cases ready
  case false => exact .pure fun _ _ hs => ⟨r, hs.left⟩
  case true =>
    refine .pre (P := sendingAt ps r) ?_ fun s hi hs => ⟨hs.left.left, hs.right rfl, hs.left.right⟩
    refine .bind (messageSize_spec fun _ => sending_of_sendingAt) fun m => .assume ?_
    rintro rfl
    refine .pre (P := sendingAt ps r ⊓ roomy r (total ps)) ?_ fun s hi h => ⟨h, roomy_of_sends s hi h.left⟩
    refine .bind (hasSpace_spec sendingAt_keeps sends_of_sendingAt) fun fits => offer_spec le_rfl fun _ => ?_
    rw [Link.sender_readCursor]
    refine loadReadCursor_spec sendingAt_keeps sends_of_sendingAt fun rc => ?_
    refine .pre (P := sends ps (L.sender (wrap32 (ps.length + 1)) (wrap64 (total ps)) r) [] ⊓ roomy rc (total ps) ⊓
      (reached 3 ⊓ held L.hs L.xs)) ?_ fun s hi h => ⟨⟨h.left.left, h.right⟩, h.left.right⟩
    refine .bind (setSender_spec.carry (fact_persistent.inf held_persistent)) fun _ => ?_
    refine .pre (P := sendingAt ps rc ⊓ roomy rc (total ps)) ?_ fun s hi h => ⟨⟨h.left.left, h.right⟩, h.left.right⟩
    refine .bind (hasSpace_spec sendingAt_keeps sends_of_sendingAt) fun fits => offer_spec le_rfl fun _ => ?_
    exact .pure sending_of_sendingAt

-- Waiting for space.

-- Where the sender knows what its private half is.
def waitingAt (ps : List Bytes) (r : Nat) : L.Tx plat :=
  sends ps (L.sender (wrap32 (ps.length + 1)) (wrap64 (total ps)) r) [] ⊓ held L.hs L.xs

theorem waitingAt_keeps {r : Nat} : (waitingAt ps r : L.Tx plat).Keeps Act.Quiet :=
  (sends_keeps rfl).inf held_persistent

-- A cursor is answered only by a channel that has been connected, and it leaves room for the message.
def spaced (ps : List Bytes) (r m : Nat) : Option Nat → L.Tx plat
  | some rc => sendingAt ps r ⊓ roomy rc (total ps + m)
  | none    => waitingAt ps r

theorem waitingAt_of_sendingAt {r : Nat} : sendingAt ps r ≤ (waitingAt ps r : L.Tx plat) :=
  fun _ _ hs => ⟨hs.left, hs.right.right⟩

theorem spaceCondition_spec {n w r m : Nat} :
    Spec (waitingAt ps r : L.Tx plat) ((L.sender n w r).spaceCondition (wrap64 (total ps)) m) (spaced ps r m)
      (fun _ => waitingAt ps r) := by
  refine .bind ((checkReady_sender (sends_keeps rfl)).post (fun _ => le_rfl) fun _ _ _ hs => hs.left) fun ready => ?_
  cases ready
  case false => exact .pure fun _ _ hs => hs.left
  case true =>
    refine .pre (P := sendingAt ps r) ?_ fun _ _ hs => ⟨hs.left.left, hs.right rfl, hs.left.right⟩
    simp only [if_true, Link.sender_readCursor, Link.sender_ringDataSize]
    refine loadReadCursor_spec sendingAt_keeps sends_of_sendingAt fun rc => ?_
    refine space_spec sendingAt_keeps sends_of_sendingAt fun c fresh old room => ?_
    split
    case isTrue fits => exact .pure fun _ _ hs => ⟨hs.left, c, hs.right, fresh, by omega⟩
    case isFalse     => exact .pure fun s hi hs => waitingAt_of_sendingAt s hi hs.left

theorem roomy_mono {i : ThreadId} {r hi lo : Nat} (h : lo ≤ hi) :
    roomy r hi ≤ (roomy r lo : Assertion (L.protocol plat) i) :=
  fun _ _ ⟨c, old, fresh, room⟩ => ⟨c, old, fresh, Nat.le_trans h room⟩

theorem clock_quiet {α : Type} {q : Routine α} (hq : Code.Only (· = Act.now) (fun _ => False) q) :
    Code.Only Act.Quiet (fun _ => False) q :=
  hq.weaken (by rintro _ rfl; trivial)

-- What `send` does when its message does not fit in, and then the rest.
theorem awaitSpace_spec {wait : WaitStrategy} {m : Nat} {deadline : Option Nat} {rest : Routine α}
    (he : ∀ e, sending ps ≤ E e) (hr : ∀ r, Spec (sendingAt ps r ⊓ roomy r (total ps + m)) rest M E) :
    Spec (sending ps) (do
      let self ← getSender L.hs
      let remaining ← RingSender.remainingUntil deadline
      let newRc ← wait.waitUntil self.readerWait self.readerNotify self.readerParked remaining
        (RingSender.spaceCondition self self.cachedWc m)
      setSender L.hs { self with cachedRc := newRc }
      rest) M E := by
  refine .ex fun r => getSender_spec waitingAt_keeps (fun _ _ hs => hs.left) ?_
  refine .pass waitingAt_keeps (clock_quiet remainingUntil_now) nofun fun remaining => ?_
  have waits {P : L.Tx plat} {w : Word} (hw : w.IsParked) (hp : P.Keeps Act.Quiet) : P.Keeps (Waiting.Waits w) :=
    hp.mono fun _ => waits_quiet hw
  have known : (waitingAt ps r : L.Tx plat).Keeps Act.Quiet := waitingAt_keeps
  refine .bind (.post (Waiting.waitUntil_spec (waits trivial known) (fun v => ?_) (fun _ => waits trivial known)
    ⟨spaceCondition_spec, le_rfl, le_rfl⟩) (fun _ => le_rfl) fun e s hi hs => he e s hi ⟨r, hs⟩) fun rc => ?_
  case refine_1 =>
    cases v
    case none    => exact waits trivial known
    case some rc => exact waits trivial (sendingAt_keeps.inf roomy_persistent)
  case refine_2 =>
    have all : (roomy rc (total ps + m) ⊓ (reached 3 ⊓ held L.hs L.xs) : L.Tx plat).Persistent :=
      roomy_persistent.inf (fact_persistent.inf held_persistent)
    refine .pre (.bind (setSender_spec.carry all) fun _ => .pre (hr rc) ?_) fun s hi hs =>
      ⟨⟨hs.left.left, roomy_mono (Nat.le_add_right _ m) s hi hs.right⟩, hs.right, hs.left.right⟩
    exact fun _ _ hs => ⟨⟨hs.left.left, hs.right.right⟩, hs.right.left⟩

theorem send_spec {p : Bytes} {wait : WaitStrategy} {timeout : Option Nat} :
    Spec (sending ps : L.Tx plat) (RingSender.send L.hs p wait timeout) (fun _ => sending (ps ++ [p]))
      (fun _ => sending ps) := by
  refine .ex fun r => getSender_spec waitingAt_keeps (fun _ _ hs => hs.left) ?_
  refine .bind (messageSize_spec fun _ _ _ hs => ⟨r, hs⟩) fun m => .assume fun _ => ?_
  refine .pass waitingAt_keeps (clock_quiet deadlineOf_now) nofun fun deadline => ?_
  refine .loop (fun _ => sending ps) (fun _ _ hs => ⟨r, hs⟩) fun _ => .bind trySendOnce_spec fun v => ?_
  cases v
  case sent => exact .pure le_rfl
  case full =>
    refine awaitSpace_spec (fun _ => le_rfl) fun r => .pure ?_
    exact fun s hi hs => sending_of_sendingAt s hi hs.left

-- The asynchronous operations.

theorem spinSend_spec {p : Bytes} :
    (n : Nat) → Spec (sending ps : L.Tx plat) (Tokio.spinSend L.hs p n) (sentOr ps p) (fun _ => sending ps)
  | 0     => trySendOnce_spec
  | n + 1 => by
    refine .bind trySendOnce_spec fun v => ?_
    cases v
    case sent => exact .pure le_rfl
    case full => exact spinSend_spec n

theorem sendAsync_spec {p : Bytes} {wait : AsyncWait} :
    Spec (sending ps : L.Tx plat) (Tokio.sendAsync L.hs wait p) (fun _ => sending (ps ++ [p]))
      (fun _ => sending ps) := by
  refine .loop (fun _ => sending ps) le_rfl fun _ => .bind (spinSend_spec _) fun v => ?_
  cases v
  case sent => exact .pure le_rfl
  case full =>
    refine .pass sending_keeps (signals_quiet snapshot_signals) (fun _ _ => le_rfl) fun observed => ?_
    refine .bind (spinSend_spec _) fun v => ?_
    cases v
    case sent => exact .pure le_rfl
    case full =>
      exact .pass sending_keeps (signals_quiet waitChanged_signals) (fun _ _ => le_rfl) fun _ => .pure le_rfl

end
end Ring
