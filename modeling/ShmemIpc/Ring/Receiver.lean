import ShmemIpc.Ring.Observer

-- What the receiver of a ring does.
namespace Ring

open Assertion Code Effects Window

section
variable {L : Link} {plat : Platform} {α : Type} {rs : List (Option Bytes)} {taken n : Nat}
variable {x : RingReceiver} {b : Bytes} {o : List Bytes} {p : Bytes} {v v' : RingState}

-- The receiver has committed `rs`, which are `taken` bytes, its private half is `x`, and the buffer
-- and the vector of its caller are `b` and `o`.
structure Receives (rs : List (Option Bytes)) (taken : Nat) (x : RingReceiver) (b : Bytes)
    (o : List Bytes) (v : RingState) : Prop where
  received : v.received = rs
  taken    : v.taken = taken
  receiver : v.receiver = x
  buf      : v.buf = b
  out      : v.out = o

theorem taken_eq {i : ThreadId} {a : Act} (hi : L.Inv v) (e : L.Change i a v v')
    (same : v'.received = v.received) : v'.taken = v.taken := by
  cases e
  case publish p _ _ _ _ _ _ => exact Link.taken_append (p := p) hi.order
  case commit                => simpa using congrArg List.length same
  all_goals rfl

theorem Receives.owned : Owned L L.rx (Receives rs taken x b o) :=
  fun h hi e hs =>
    have same := same_received e h
    ⟨same.received.trans hs.received, (taken_eq hi e same.received).trans hs.taken,
     same.receiver.trans hs.receiver, same.buf.trans hs.buf, same.out.trans hs.out⟩

def receives (rs : List (Option Bytes)) (taken : Nat) (x : RingReceiver) (b : Bytes) (o : List Bytes) :
    L.Rx plat :=
  own (Receives rs taken x b o) Receives.owned

theorem receives_keeps (hx : x.cachedRc = wrap64 taken) :
    (receives rs taken x b o : L.Rx plat).Keeps Act.Quiet :=
  own_keeps fun hi hs =>
    ⟨fun h => absurd h.symm L.threads, fun _ => by rw [hs.receiver, hx, hi.rc, hs.taken]⟩

-- The message number `k` is `p`.
def found {i : ThreadId} (k : Nat) (p : Bytes) : Assertion (L.protocol plat) i :=
  fact (fun v => v.sent[k]? = some p) found_stays

-- At least `n` messages, or `n` bytes, have been sent.

def arrived {i : ThreadId} (n : Nat) : Assertion (L.protocol plat) i :=
  fact (fun v => n ≤ v.sent.length) arrived_stays

def grown {i : ThreadId} (n : Nat) : Assertion (L.protocol plat) i :=
  fact (fun v => n ≤ total v.sent) grown_stays

variable {P : L.Rx plat} {M : α → L.Rx plat} {E : Error → L.Rx plat}

theorem getReceiver_spec (hp : P.Keeps Act.Quiet) (hr : P ≤ receives rs taken x b o)
    {f : RingReceiver → Routine α} (hf : Spec P (f x) M E) : Spec P (getReceiver L.hr >>= f) M E := by
  refine .learn hp (a := .getReceiver L.hr) trivial (fun _ => ⊤) (· = x) ?_ ?_
  · rintro s y _ hi h ⟨⟨⟨rfl, _⟩, _⟩, _⟩
    exact ⟨trivial, (hr s hi h).receiver⟩
  · rintro y rfl
    exact hf.pre fun _ _ h => h.left

-- The record that is the next one to be received.
theorem live_record (hi : L.Inv v) (hr : Receives rs taken x b o v) (hf : v.sent[rs.length]? = some p) :
    Holds v.cell taken (record rs.length p) := by
  have live := hi.live
  rw [hr.received, hr.taken, drop_eq_cons hf] at live
  exact live.left

theorem readByte_spec (hp : P.Keeps Act.Quiet) (hr : P ≤ receives rs taken x b o)
    (hx : x = L.receiver (wrap32 (rs.length + 1)) (wrap64 taken)) (hf : P ≤ found rs.length p) {t addr : Nat}
    (ht : t < (record rs.length p).length) (ha : addr = L.data + (taken + t) % L.size) {f : UInt8 → Routine α}
    (rest : Spec P (f (record rs.length p)[t]) M E) : Spec P (readByte L.base addr >>= f) M E := by
  subst ha
  refine .act (fun r => P ⊓ const (r = (record rs.length p)[t])) ?_ ?_ fun r => .assume ?_
  · intro s hi h
    have own : Receives rs taken x b o (L.ring s) := hr s hi h
    have head : (L.ring s).sent[(L.ring s).received.length]? = some p := own.received ▸ hf s hi h
    have seq : (L.ring s).receiver.expectedSeq = wrap32 ((L.ring s).received.length + 1) := by
      rw [own.receiver, hx, own.received]
      rfl
    refine ⟨.inr (calm_of_keeps hp hi h), fun _ => ⟨rfl, seq, p, t, head, length_record ▸ ht, ?_⟩⟩
    rw [own.taken]
  · intro s r s' hi h e
    obtain ⟨rfl, rfl⟩ := exec_readByte e
    exact ⟨h, live_record hi (hr _ hi h) (hf _ hi h) t ht⟩
  · rintro rfl
    exact rest

theorem copyFrom_spec (hp : P.Keeps Act.Quiet) (hr : P ≤ receives rs taken x b o)
    (hx : x = L.receiver (wrap32 (rs.length + 1)) (wrap64 taken)) (hf : P ≤ found rs.length p) (len : Nat)
    {t addr : Nat} (ht : t + len ≤ frameSize p)
    (ha : ∀ j < len, addr + j = L.data + (taken + t + j) % L.size) :
    Spec P (copyFrom L.base addr len)
      (fun bytes => P ⊓ const (bytes = ((record rs.length p).drop t).take len)) E := by
  induction len generalizing addr t
  case zero => exact .pure fun _ _ h => ⟨h, rfl⟩
  case succ len ih =>
    have inside : t < (record rs.length p).length := by rw [length_record]; omega
    refine readByte_spec hp hr hx hf inside (by simpa using ha 0 (by omega)) ?_
    refine .bind (ih (t := t + 1) (by omega) fun j hj => ?_) fun bytes => .assume ?_
    · rw [Nat.add_right_comm, Nat.add_assoc addr, ha (j + 1) (by omega)]
      congr 2
      omega
    · rintro rfl
      refine .pure fun _ _ h => ⟨h, ?_⟩
      rw [List.drop_eq_getElem_cons inside, List.take_succ_cons]
      rfl

-- A part of the next record, which may run over the end of the ring.
theorem readRing_spec (hp : P.Keeps Act.Quiet) (hr : P ≤ receives rs taken x b o)
    (hx : x = L.receiver (wrap32 (rs.length + 1)) (wrap64 taken)) (hf : P ≤ found rs.length p)
    (fits : frameSize p ≤ L.size) {m r t len cursor : Nat}
    (ht : t + len ≤ frameSize p) (hc : cursor = wrap64 (taken + t)) :
    Spec P ((L.receiver m r).readRing cursor len)
      (fun bytes => P ⊓ const (bytes = ((record rs.length p).drop t).take len)) E := by
  subst hc
  unfold RingReceiver.readRing
  simp only [Link.receiver_base, Link.receiver_ringDataSize, Link.receiver_ringMask,
    Link.receiver_dataOffset, Link.and_mask]
  have pos := L.size_pos
  generalize hq : taken + t = q
  refine .bind (copyFrom_spec hp hr hx hf _ (t := t) (by omega) fun j hj => ?_) fun front => .assume ?_
  · rw [hq, mod_front (by omega), Nat.add_assoc]
  rintro rfl
  split
  case isFalse h =>
    have all : min len (L.size - q % L.size) = len := by omega
    rw [all]
    exact .pure fun _ _ h => ⟨h, rfl⟩
  case isTrue h =>
    have front : min len (L.size - q % L.size) = L.size - q % L.size := by omega
    rw [front] at h ⊢
    refine .bind (copyFrom_spec hp hr hx hf _ (t := t + (L.size - q % L.size)) (by omega) fun j hj => ?_)
      fun back => .assume ?_
    · rw [← Nat.add_assoc, hq, mod_back (by omega) (by omega)]
    · rintro rfl
      refine .pure fun _ _ h' => ⟨h', ?_⟩
      rw [← List.drop_drop, ← List.take_add, Nat.add_sub_cancel' (Nat.le_of_lt h)]
      rfl

-- The two numbers at the front of a record.
theorem record_header {k : Nat} (hp : p.length < 2 ^ 32) :
    let header := ((record k p).drop 0).take MSG_HEADER_SIZE
    let byte (n : Nat) := header.getD n 0
    fromLeBytes (byte 0) (byte 1) (byte 2) (byte 3) = p.length ∧
      fromLeBytes (byte 4) (byte 5) (byte 6) (byte 7) = wrap32 (k + 1) := by
  have length : wrap32 p.length = p.length := Nat.mod_eq_of_lt hp
  have seq : wrap32 (k + 1) < 2 ^ 32 := Nat.mod_lt _ (by decide)
  exact ⟨(fromLeBytes_toLeBytes (length.symm ▸ hp)).trans length, fromLeBytes_toLeBytes seq⟩

theorem readMsgHeader_spec (hp : P.Keeps Act.Quiet) (hr : P ≤ receives rs taken x b o)
    (hx : x = L.receiver (wrap32 (rs.length + 1)) (wrap64 taken)) (hf : P ≤ found rs.length p)
    (fits : frameSize p ≤ L.size) {m r : Nat} {f : Nat × Nat → Routine α}
    (hg : Spec P (f (p.length, wrap32 (rs.length + 1))) M E) :
    Spec P ((L.receiver m r).readMsgHeader (wrap64 taken) >>= f) M E := by
  have size := L.size_lt
  have short : p.length < 2 ^ 32 := by unfold frameSize at fits; omega
  have ⟨length, seq⟩ := record_header (k := rs.length) short
  refine .bind (M := fun v => P ⊓ const (v = (p.length, wrap32 (rs.length + 1)))) ?_ fun v => .assume ?_
  · refine .bind (readRing_spec hp hr hx hf fits (t := 0) ?_ rfl) fun header => .assume ?_
    · exact (Nat.zero_add _).trans_le frameSize_pos
    · rintro rfl
      exact .pure fun _ _ h => ⟨h, Prod.ext length seq⟩
  · rintro rfl
    exact hg

-- The receiver finds that it has taken everything, or that there is a whole record.
theorem loadWriteCursor_spec (hp : P.Keeps Act.Quiet) (hr : P ≤ receives rs taken x b o)
    (hn : P ≤ arrived n) {f : Nat → Routine α}
    (none : n ≤ rs.length → Spec P (f (wrap64 taken)) M E)
    (some : ∀ p t, taken + frameSize p ≤ t → t ≤ taken + L.size → frameSize p ≤ L.size →
      Spec (P ⊓ (found rs.length p ⊓ grown t)) (f (wrap64 t)) M E) :
    Spec P (load L.writeCursor >>= f) M E := by
  let known (wc : Nat) : Option (Bytes × Nat) → L.Rx plat
    | .none        => P ⊓ const (wc = wrap64 taken ∧ n ≤ rs.length)
    | .some (p, t) => P ⊓ (found rs.length p ⊓ grown t) ⊓
        const (wc = wrap64 t ∧ taken + frameSize p ≤ t ∧ t ≤ taken + L.size ∧ frameSize p ≤ L.size)
  refine .act (fun wc => ex (known wc)) (fun _ => hp.ok (a := .load _) trivial) ?_ fun wc => .ex fun v => ?_
  case refine_1 =>
    intro s wc s' hi h e
    have kept : P s' := hp.kept (a := .load _) trivial hi h e
    obtain ⟨rfl, same⟩ := Link.exec_load (L := L) e.left
    have hi : L.Inv (L.ring s) := hi
    have hs : Receives rs taken x b o (L.ring s) := hr s hi h
    have split := total_take_add_drop (L.ring s).sent rs.length
    have before : total ((L.ring s).sent.take rs.length) = taken := hs.received ▸ hs.taken
    have wc : s.fst.word L.writeCursor = wrap64 (total (L.ring s).sent) := hi.wc
    rw [before] at split
    cases next : (L.ring s).sent[rs.length]?
    case none =>
      have all := List.getElem?_eq_none_iff.mp next
      refine ⟨.none, kept, ?_, Nat.le_trans (hn s hi h) all⟩
      rw [wc, ← split, List.drop_eq_nil_of_le all, total_nil, Nat.add_zero]
    case some p =>
      obtain ⟨c, _, old, room⟩ := hi.room
      have fits := hi.fits p (List.mem_of_getElem? next)
      rw [hs.taken] at old
      rw [drop_eq_cons next, total_cons] at split
      refine ⟨.some (p, total (L.ring s).sent), ⟨kept, ?_, ?_⟩, wc, ?_, ?_, fits⟩
      · show (L.ring s').sent[rs.length]? = _
        rw [same, next]
      · show _ ≤ total (L.ring s').sent
        rw [same]
      · rw [← split]
        omega
      · exact Nat.le_trans room (Nat.add_le_add_right old _)
  case refine_2 =>
    match v with
    | .none        => exact .assume fun ⟨hw, hl⟩ => hw ▸ none hl
    | .some (p, t) => exact .assume fun ⟨hw, lo, hi, fits⟩ => hw ▸ some p t lo hi fits

-- The message of the record number `k`, which lies behind `taken` bytes.
def peeked (k taken : Nat) (p : Bytes) : PeekedMessage :=
  ⟨wrap64 taken, p.length, wrap32 (k + 1)⟩

-- What the receiver finds out, if at least `n` messages had been sent before.
def peeks (P : L.Rx plat) (k taken n : Nat) : Option PeekedMessage → L.Rx plat
  | none   => P ⊓ const (n ≤ k)
  | some m => ex fun p => P ⊓ found k p ⊓ const (m = peeked k taken p)

def TryPeekResult.message : TryPeekResult → Option PeekedMessage
  | .empty   => none
  | .ready m => some m

theorem tryPeekMessage_spec (hp : P.Keeps Act.Quiet)
    (hr : P ≤ receives rs taken (L.receiver (wrap32 (rs.length + 1)) (wrap64 taken)) b o)
    (hn : P ≤ arrived n) : Spec P (RingReceiver.tryPeekMessage L.hr)
      (fun r => peeks P rs.length taken n (TryPeekResult.message r)) E := by
  have size := L.size_lt
  refine getReceiver_spec hp hr ?_
  simp only [Link.receiver_writeCursor, Link.receiver_ringDataSize]
  refine loadWriteCursor_spec hp hr hn (fun hl => ?_) fun p t lo hi fits => ?_
  · have empty (s : State) (hi : L.Inv (L.ring s)) (h : P s) :
        L.Allowed L.rx (.sub (wrap64 taken) (wrap64 taken)) (L.ring s) := by
      refine ⟨⟨taken, taken, rfl, rfl, Nat.le_refl _, .inl ?_⟩, fun _ => ⟨?_, .inl rfl⟩⟩
      · exact (hr s hi h).taken ▸ Link.taken_le
      · exact (hr s hi h).taken ▸ hi.rc.symm
    refine sub_spec hp empty ?_
    · rw [wrapSub64_wrap64 (Nat.le_refl _) (by omega), Nat.sub_self]
      exact .pure fun _ _ h => ⟨h, hl⟩
  · have hp' : (P ⊓ (found rs.length p ⊓ grown t)).Keeps Act.Quiet := hp.inf (fact_persistent.inf fact_persistent)
    have hr' : P ⊓ (found rs.length p ⊓ grown t) ≤ receives _ _ _ _ _ := fun s hi h => hr s hi h.left
    have frame := frameSize_pos (p := p)
    have known : wrapSub64 (wrap64 t) (wrap64 taken) = t - taken := wrapSub64_wrap64 (by omega) (by omega)
    have whole (s : State) (hi : L.Inv (L.ring s)) (h : (P ⊓ (found rs.length p ⊓ grown t)) s) :
        L.Allowed L.rx (.sub (wrap64 t) (wrap64 taken)) (L.ring s) := by
      refine ⟨⟨t, taken, rfl, rfl, by omega, .inl h.right.right⟩, fun _ => ⟨?_, .inr ⟨p, ?_, by omega⟩⟩⟩
      · exact (hr s hi h.left).taken ▸ hi.rc.symm
      · exact (hr s hi h.left).received ▸ h.right.left
    refine sub_spec hp' whole ?_
    rw [known, if_neg (by omega)]
    refine readMsgHeader_spec hp' hr' rfl (fun _ _ h => h.right.left) fits ?_
    simp only
    rw [if_neg (by unfold frameSize MSG_HEADER_SIZE at fits; unfold MSG_HEADER_SIZE; omega)]
    refine sub_spec hp' whole ?_
    rw [known, if_neg (by unfold frameSize at lo; omega)]
    exact .pure fun _ _ h => ⟨p, ⟨h.left, h.right.left⟩, rfl⟩

-- Where the receiver knows how many bytes it has taken, and that at least `n` messages were sent.
def receivingAt (n : Nat) (rs : List (Option Bytes)) (taken : Nat) (b : Bytes) (o : List Bytes) : L.Rx plat :=
  receives rs taken (L.receiver (wrap32 (rs.length + 1)) (wrap64 taken)) b o ⊓ (arrived n ⊓ held L.hr L.xr)

theorem receivingAt_keeps : (receivingAt n rs taken b o : L.Rx plat).Keeps Act.Quiet :=
  (receives_keeps rfl).inf (fact_persistent.inf held_persistent)

theorem receives_of_receivingAt : receivingAt n rs taken b o ≤
    (receives rs taken (L.receiver (wrap32 (rs.length + 1)) (wrap64 taken)) b o : L.Rx plat) :=
  fun _ _ hs => hs.left

-- The channel has ended, and of what had been sent until then nothing is left after `n` messages.
def ended {i : ThreadId} (n : Nat) : Assertion (L.protocol plat) i :=
  fact (Ended n) Ended.stays

def sealedAt {i : ThreadId} (ps : List Bytes) : Assertion (L.protocol plat) i :=
  fact (fun v => 4 ≤ v.state ∧ v.sealed = some ps) sealed_stays

theorem sealedAt_of_reached : (reached 4 : L.Rx plat) ≤ ex fun ps => sealedAt ps ⊓ arrived ps.length := by
  intro s hi hs
  have hi : L.Inv (L.ring s) := hi
  obtain ⟨ps, hps⟩ := Option.isSome_iff_exists.mp (hi.ended.mp hs)
  exact ⟨ps, ⟨hs, hps⟩, (hi.before ps hps).length_le⟩

-- What an error of the receiver tells: there was nothing to receive.
def drained (n : Nat) (rs : List (Option Bytes)) (taken : Nat) (b : Bytes) (o : List Bytes) (e : Error) : L.Rx plat :=
  receivingAt n rs taken b o ⊓ const (n ≤ rs.length ∧ ¬ e.Framing) ⊓ given e.Terminal (ended rs.length)

def failed (n : Nat) (rs : List (Option Bytes)) (taken : Nat) (b : Bytes) (o : List Bytes) (e : Error) : L.Rx plat :=
  drained n rs taken b o e ⊓ given (rs ≠ []) (explained e)

theorem connected_of_received (h : rs ≠ []) : receivingAt n rs taken b o ≤ (reached 3 : L.Rx plat) := by
  intro s hi hs
  refine hi.connected fun none => h ?_
  have order := hi.order
  rw [none, hs.left.received] at order
  exact List.eq_nil_of_length_eq_zero (Nat.le_zero.mp order)

theorem checkReady_receiver :
    Spec (receivingAt n rs taken b o : L.Rx plat) (SharedChannel.checkReady L.hr) (fun _ => receivingAt n rs taken b o)
      (fun e => receivingAt n rs taken b o ⊓ const (¬ e.Framing) ⊓ given e.Terminal (reached 4) ⊓
        given (rs ≠ []) (explained e)) := by
  have keeps : (receivingAt n rs taken b o : L.Rx plat).Keeps Act.Quiet := receivingAt_keeps
  have known : receivingAt n rs taken b o ≤ (held L.hr L.xr : L.Rx plat) := fun _ _ hs => hs.right.right
  have ready := ((checkReady_spec keeps L.file).pre fun s hi hs => ⟨hs, known s hi hs⟩).both
    (checkReady_framing (keeps.mono fun _ => Act.Ends.quiet) fun e => lock_error e.left)
  by_cases some : rs = []
  case pos =>
    refine (ready.pre fun _ _ hs => ⟨hs, hs⟩).post (fun _ _ _ hs => hs.right) fun _ _ _ hs => ?_
    exact ⟨⟨hs.right, hs.left.right⟩, fun h => absurd some h⟩
  case neg =>
    have both := ready.both (checkReady_explains keeps known (connected_of_received some) L.file)
    refine (both.pre fun _ _ hs => ⟨⟨hs, hs⟩, hs⟩).post (fun _ _ _ hs => hs.right) ?_
    exact fun _ _ _ hs => ⟨⟨hs.left.right, hs.left.left.right⟩, fun _ => hs.right.right⟩

theorem tryPeekOrClosed_spec :
    Spec (receivingAt n rs taken b o : L.Rx plat) (RingReceiver.tryPeekOrClosed L.hr)
      (peeks (receivingAt n rs taken b o) rs.length taken n) (failed n rs taken b o) := by
  have keeps : (receivingAt n rs taken b o : L.Rx plat).Keeps Act.Quiet := receivingAt_keeps
  refine .bind (tryPeekMessage_spec keeps receives_of_receivingAt fun _ _ hs => hs.right.left) fun r => ?_
  cases r
  case ready m => exact .pure le_rfl
  case empty =>
    refine .assume fun all => getReceiver_spec keeps receives_of_receivingAt ?_
    rw [Link.receiver_shared]
    refine .handle checkReady_receiver (fun _ => .pure fun _ _ hs => ⟨hs, all⟩) fun e => ?_
    simp only
    split
    case isFalse he =>
      refine .throw fun _ _ hs => ⟨⟨⟨hs.left.left.left, all, hs.left.left.right⟩, fun h => absurd h he⟩, hs.right⟩
    case isTrue he =>
      have plain : ¬ e.Framing := by cases e <;> first | exact id | exact he.elim
      refine .pre (P := ex fun ps => receivingAt n rs taken b o ⊓ (sealedAt ps ⊓ arrived ps.length))
        (.ex fun ps => ?_) ?_
      case refine_2 =>
        intro s hi hs
        obtain ⟨ps, h⟩ := sealedAt_of_reached s hi (hs.left.right he)
        exact ⟨ps, hs.left.left.left, h⟩
      case refine_1 =>
        have keeps' := keeps.inf (Q := sealedAt ps ⊓ arrived ps.length) (fact_persistent.inf fact_persistent)
        refine .bind (tryPeekMessage_spec (n := max n ps.length) keeps' (fun _ _ hs => hs.left.left) ?_) fun r => ?_
        · exact fun _ _ hs => Nat.max_le.mpr ⟨hs.left.right.left, hs.right.right⟩
        · cases r
          case ready m => exact .pure fun _ _ ⟨p, hs, hm⟩ => ⟨p, ⟨hs.left.left, hs.right⟩, hm⟩
          case empty =>
            refine .assume fun last => .throw fun s _ hs =>
              ⟨⟨⟨hs.left, all, plain⟩, fun _ => ?_⟩, fun _ h => absurd he h⟩
            refine ⟨hs.right.left.left, fun ps' hps => ?_⟩
            obtain rfl := Option.some.inj (hs.right.left.right.symm.trans hps)
            exact Nat.le_trans (Nat.le_max_right _ _) last

-- Copying and committing a message.

theorem fits_of_found (hi : L.Inv v) {k : Nat} (hf : v.sent[k]? = some p) : frameSize p ≤ L.size :=
  hi.fits p (List.mem_of_getElem? hf)

theorem record_payload {k : Nat} : ((record k p).drop MSG_HEADER_SIZE).take p.length = p := by
  have front : (toLeBytes (wrap32 p.length) ++ toLeBytes (wrap32 (k + 1))).length = MSG_HEADER_SIZE := rfl
  rw [record, ← front, List.drop_left, List.take_length]

theorem copyCurrentMessage_spec {len : Nat} (hl : p.length ≤ len) :
    Spec (receivingAt n rs taken b o ⊓ found rs.length p : L.Rx plat)
      (RingReceiver.copyCurrentMessage L.hr (peeked rs.length taken p) len)
      (fun bytes => receivingAt n rs taken b o ⊓ found rs.length p ⊓ const (bytes = p)) (fun _ => const False) := by
  have keeps : (receivingAt n rs taken b o ⊓ found rs.length p : L.Rx plat).Keeps Act.Quiet :=
    receivingAt_keeps.inf fact_persistent
  unfold RingReceiver.copyCurrentMessage
  rw [if_neg (show ¬ (peeked rs.length taken p).payloadLen > len from Nat.not_lt_of_le hl)]
  refine getReceiver_spec keeps (fun _ _ hs => hs.left.left) ?_
  refine .pre (P := (receivingAt n rs taken b o ⊓ found rs.length p) ⊓ const (frameSize p ≤ L.size))
    (.assume fun fits => ?_) fun s hi hs => ⟨hs, fits_of_found hi hs.right⟩
  refine (readRing_spec keeps (fun _ _ hs => hs.left.left) rfl (fun _ _ hs => hs.right) fits (t := MSG_HEADER_SIZE)
    (Nat.le_refl _) wrap64_add).post (fun bytes => ?_) fun _ => le_rfl
  exact fun _ _ hs => ⟨hs.left, hs.right.trans record_payload⟩

theorem setReceiver_spec {m : Nat} :
    Spec (receives rs taken x b o : L.Rx plat) (setReceiver L.hr (L.receiver m (wrap64 taken)))
      (fun _ => receives rs taken (L.receiver m (wrap64 taken)) b o) E := by
  refine .perform ?_ ?_
  case refine_1 =>
    intro s inv hs
    refine ⟨.inl rfl, fun _ => ⟨rfl, m, ?_⟩⟩
    rw [inv.rc, hs.taken]
  case refine_2 =>
    rintro s _ s' _ hs ⟨e, _⟩
    have same := Link.exec_setReceiver e
    show Receives _ _ _ _ _ (L.ring s')
    rw [same]
    exact ⟨hs.received, hs.taken, rfl, hs.buf, hs.out⟩

theorem commit_spec {c : Option Bytes} (hx : x.cachedRc = wrap64 taken) (what : c = some p ∨ c = none ∧ L.discards) :
    Spec (receives rs taken x b o ⊓ found rs.length p : L.Rx plat)
      (store L.readCursor (wrap64 (taken + frameSize p)) (.commit c))
      (fun _ => receives (rs ++ [c]) (taken + frameSize p) x b o) E := by
  refine .perform ?_ ?_
  case refine_1 =>
    rintro s inv ⟨hs, hf⟩
    refine ⟨.inr (calm_of_keeps (receives_keeps hx) inv hs), fun _ _ => ⟨rfl, c, p, rfl, ?_, ?_, what⟩⟩
    · rw [inv.rc, hs.taken, wrap64_add]
    · rw [hs.received]
      exact hf
  case refine_2 =>
    rintro s _ s' _ ⟨hs, hf⟩ ⟨e, _⟩
    have same := Link.exec_commit e
    have head : (L.ring s).sent[(L.ring s).received.length]? = some p := hs.received ▸ hf
    show Receives _ _ _ _ _ (L.ring s')
    rw [same]
    refine ⟨congrArg (· ++ [c]) hs.received, ?_, hs.receiver, hs.buf, hs.out⟩
    exact (Link.taken_succ head).trans (congrArg (· + frameSize p) hs.taken)

theorem commitCurrentMessage_spec {c : Option Bytes} (what : c = some p ∨ c = none ∧ L.discards) :
    Spec (receivingAt n rs taken b o ⊓ found rs.length p : L.Rx plat)
      (RingReceiver.commitCurrentMessage L.hr (peeked rs.length taken p) c)
      (fun _ => receivingAt n (rs ++ [c]) (taken + frameSize p) b o) (fun _ => const False) := by
  have known : (arrived n ⊓ held L.hr L.xr : L.Rx plat).Persistent := fact_persistent.inf held_persistent
  have seq : wrap32 (wrap32 (rs.length + 1) + 1) = wrap32 ((rs ++ [c]).length + 1) := by simp [wrap32]
  have after : wrap64 (wrap64 taken + (MSG_HEADER_SIZE + p.length)) = wrap64 (taken + frameSize p) := wrap64_add
  refine .bind (M := fun _ => receives rs taken (L.receiver (wrap32 ((rs ++ [c]).length + 1)) (wrap64 taken)) b o ⊓
    found rs.length p ⊓ (arrived n ⊓ held L.hr L.xr)) ?_ fun _ => ?_
  · refine getReceiver_spec (receivingAt_keeps.inf fact_persistent) (fun _ _ hs => hs.left.left) ?_
    refine .pre (P := receives rs taken (L.receiver (wrap32 (rs.length + 1)) (wrap64 taken)) b o ⊓ found rs.length p ⊓
      (arrived n ⊓ held L.hr L.xr)) ?_ fun _ _ hs => ⟨⟨hs.left.left, hs.right⟩, hs.left.right⟩
    rw [← seq]
    split
    case isTrue h => exact absurd rfl h
    case isFalse  =>
      exact ((setReceiver_spec (m := wrap32 (wrap32 (rs.length + 1) + 1))).carry fact_persistent).carry known
  · refine getReceiver_spec (((receives_keeps rfl).inf fact_persistent).inf known) (fun _ _ hs => hs.left.left) ?_
    rw [Link.receiver_readCursor]
    simp only [peeked]
    rw [after]
    refine .bind ((commit_spec rfl what).carry known) fun _ => ?_
    refine .bind ((setReceiver_spec (m := wrap32 ((rs ++ [c]).length + 1))).carry known) fun _ => ?_
    have keeps : (receivingAt n (rs ++ [c]) (taken + frameSize p) b o : L.Rx plat).Keeps Act.Quiet := receivingAt_keeps
    refine .skip keeps (by trivial) fun _ => .skip keeps (by trivial) fun parked => ?_
    split
    case isTrue  => exact .perform (fun _ => keeps.ok (by trivial)) fun _ _ _ => keeps.kept (by trivial)
    case isFalse => exact .pure le_rfl

-- Between its operations, the receiver has committed `rs`.
def receiving (n : Nat) (rs : List (Option Bytes)) (b : Bytes) (o : List Bytes) : L.Rx plat :=
  ex fun taken => receivingAt n rs taken b o

theorem receiving_keeps : (receiving n rs b o : L.Rx plat).Keeps Act.Quiet :=
  .ex fun _ => receivingAt_keeps

theorem takeMessage_spec :
    Spec (receivingAt n rs taken b o ⊓ found rs.length p : L.Rx plat)
      (RingReceiver.takeMessage L.hr (peeked rs.length taken p))
      (fun bytes => receiving n (rs ++ [some p]) b o ⊓ const (bytes = p)) E := by
  refine .bind ((copyCurrentMessage_spec (Nat.le_refl _)).post (fun _ => le_rfl) fun _ _ _ h => h.elim) fun bytes => ?_
  refine .assume ?_
  rintro rfl
  refine .bind ((commitCurrentMessage_spec (.inl rfl)).post (fun _ => le_rfl) fun _ _ _ h => h.elim) fun _ => ?_
  exact .pure fun _ _ hs => ⟨⟨_, hs⟩, rfl⟩

theorem getBuf_spec (hp : P.Keeps Act.Quiet) (hr : P ≤ receives rs taken x b o) {f : Bytes → Routine α}
    (hf : Spec P (f b) M E) : Spec P (getBuf >>= f) M E := by
  refine .learn hp (a := .getBuf) trivial (fun _ => ⊤) (· = b) ?_ ?_
  · rintro s y _ hi h ⟨⟨⟨rfl, _⟩, _⟩, _⟩
    exact ⟨trivial, (hr s hi h).buf⟩
  · rintro y rfl
    exact hf.pre fun _ _ h => h.left

theorem getOut_spec (hp : P.Keeps Act.Quiet) (hr : P ≤ receives rs taken x b o) {f : List Bytes → Routine α}
    (hf : Spec P (f o) M E) : Spec P (getOut >>= f) M E := by
  refine .learn hp (a := .getOut) trivial (fun _ => ⊤) (· = o) ?_ ?_
  · rintro s y _ hi h ⟨⟨⟨rfl, _⟩, _⟩, _⟩
    exact ⟨trivial, (hr s hi h).out⟩
  · rintro y rfl
    exact hf.pre fun _ _ h => h.left

theorem setBuf_spec (hx : x.cachedRc = wrap64 taken) {b' : Bytes} :
    Spec (receives rs taken x b o : L.Rx plat) (setBuf b') (fun _ => receives rs taken x b' o) E := by
  refine .perform (fun s inv hs => ⟨.inr (calm_of_keeps (receives_keeps hx) inv hs), trivial⟩) ?_
  rintro s _ s' _ hs ⟨e, _⟩
  have same := Link.exec_setBuf e
  show Receives _ _ _ _ _ (L.ring s')
  rw [same]
  exact ⟨hs.received, hs.taken, hs.receiver, rfl, hs.out⟩

theorem setOut_spec (hx : x.cachedRc = wrap64 taken) {o' : List Bytes} :
    Spec (receives rs taken x b o : L.Rx plat) (setOut o') (fun _ => receives rs taken x b o') E := by
  refine .perform (fun s inv hs => ⟨.inr (calm_of_keeps (receives_keeps hx) inv hs), trivial⟩) ?_
  rintro s _ s' _ hs ⟨e, _⟩
  have same := Link.exec_setOut e
  show Receives _ _ _ _ _ (L.ring s')
  rw [same]
  exact ⟨hs.received, hs.taken, hs.receiver, hs.buf, rfl⟩

-- The next message does not fit in the buffer of the caller, and is lost.
def short (n : Nat) (rs : List (Option Bytes)) (b : Bytes) (o : List Bytes) (p : Bytes) (e : Error) : L.Rx plat :=
  receiving n (rs ++ [none]) b o ⊓ found rs.length p ⊓
    const (b.length < p.length ∧ e = .messageTooLarge p.length b.length)

-- The next message is in the buffer of the caller.
def copied (n : Nat) (rs : List (Option Bytes)) (b : Bytes) (o : List Bytes) (p : Bytes) (len : Nat) : L.Rx plat :=
  receiving n (rs ++ [some p]) (p ++ b.drop p.length) o ⊓ const (len = p.length ∧ p.length ≤ b.length)

theorem takeMessageInto_spec (hd : L.discards) :
    Spec (receivingAt n rs taken b o ⊓ found rs.length p : L.Rx plat)
      (RingReceiver.takeMessageInto L.hr (peeked rs.length taken p)) (copied n rs b o p) (short n rs b o p) := by
  have keeps : (receivingAt n rs taken b o ⊓ found rs.length p : L.Rx plat).Keeps Act.Quiet :=
    receivingAt_keeps.inf fact_persistent
  have rest : (arrived n ⊓ held L.hr L.xr ⊓ found rs.length p : L.Rx plat).Persistent :=
    (fact_persistent.inf held_persistent).inf fact_persistent
  refine getBuf_spec keeps (fun _ _ hs => hs.left.left) ?_
  split
  case isTrue h =>
    refine .pre (P := (receivingAt n rs taken b o ⊓ found rs.length p) ⊓ found rs.length p) ?_
      fun _ _ hs => ⟨hs, hs.right⟩
    refine .bind ((commitCurrentMessage_spec (.inr ⟨rfl, hd⟩)).carry fact_persistent) fun _ => ?_
    exact .throw fun _ _ hs => ⟨⟨⟨_, hs.left⟩, hs.right⟩, h, rfl⟩
  case isFalse h =>
    refine .bind ((copyCurrentMessage_spec (Nat.le_refl _)).post (fun _ => le_rfl) fun _ _ _ h =>
      h.elim) fun bytes => ?_
    refine .assume ?_
    rintro rfl
    refine .pre (P := receives rs taken (L.receiver (wrap32 (rs.length + 1)) (wrap64 taken)) b o ⊓
      (arrived n ⊓ held L.hr L.xr ⊓ found rs.length bytes)) ?_ fun _ _ hs => ⟨hs.left.left, hs.left.right, hs.right⟩
    refine .bind ((setBuf_spec rfl).carry rest) fun _ => ?_
    refine .pre (P := receivingAt n rs taken (bytes ++ b.drop bytes.length) o ⊓ found rs.length bytes) ?_
      fun _ _ hs => ⟨⟨hs.left, hs.right.left⟩, hs.right.right⟩
    refine .bind ((commitCurrentMessage_spec (.inl rfl)).post (fun _ => le_rfl) fun _ _ _ h => h.elim) fun _ => ?_
    exact .pure fun _ _ hs => ⟨⟨_, hs⟩, rfl, Nat.le_of_not_lt h⟩

-- Waiting for a message.

theorem peeks_keeps {k : Nat} (hp : P.Keeps Act.Quiet) : (v : Option PeekedMessage) →
    (peeks P k taken n v).Keeps Act.Quiet
  | none   => hp.const
  | some _ => .ex fun _ => (hp.inf fact_persistent).const

theorem drained_keeps {e : Error} : (drained n rs taken b o e : L.Rx plat).Keeps Act.Quiet :=
  receivingAt_keeps.const.inf (.given fact_persistent)

theorem waitForMessage_spec {wait : WaitStrategy} {timeout : Option Nat} :
    Spec (receivingAt n rs taken b o : L.Rx plat) (RingReceiver.waitForMessage L.hr wait timeout)
      (fun m => peeks (receivingAt n rs taken b o) rs.length taken n (some m)) (drained n rs taken b o) := by
  have waits {Q : L.Rx plat} {w : Word} (hw : w.IsParked) (hq : Q.Keeps Act.Quiet) : Q.Keeps (Waiting.Waits w) :=
    hq.mono fun _ => waits_quiet hw
  refine getReceiver_spec receivingAt_keeps receives_of_receivingAt ?_
  refine Waiting.waitUntil_spec (waits trivial receivingAt_keeps)
    (fun v => waits trivial (peeks_keeps receivingAt_keeps v)) (fun _ => waits trivial drained_keeps) ⟨?_, ?_, ?_⟩
  · exact tryPeekOrClosed_spec.post (fun _ => le_rfl) fun _ _ _ hs => hs.left
  · exact fun _ _ hs => hs.left
  · exact fun _ _ hs => ⟨⟨hs.left, hs.right, id⟩, nofun⟩

theorem spinPeekOrClosed_spec :
    (k : Nat) → Spec (receivingAt n rs taken b o : L.Rx plat) (Tokio.spinPeekOrClosed L.hr k)
      (peeks (receivingAt n rs taken b o) rs.length taken n) (failed n rs taken b o)
  | 0     => tryPeekOrClosed_spec
  | k + 1 => by
    refine .bind tryPeekOrClosed_spec fun v => ?_
    cases v
    case some m => exact .pure le_rfl
    case none   => exact (spinPeekOrClosed_spec k).pre fun _ _ hs => hs.left

theorem peekAsync_spec {wait : AsyncWait} :
    Spec (receivingAt n rs taken b o : L.Rx plat) (Tokio.peekAsync L.hr wait)
      (fun m => peeks (receivingAt n rs taken b o) rs.length taken n (some m)) (drained n rs taken b o) := by
  have spin (k : Nat) : Spec (receivingAt n rs taken b o : L.Rx plat) (Tokio.spinPeekOrClosed L.hr k)
      (peeks (receivingAt n rs taken b o) rs.length taken n) (drained n rs taken b o) :=
    (spinPeekOrClosed_spec k).post (fun _ => le_rfl) fun _ _ _ hs => hs.left
  refine .loop (fun _ => receivingAt n rs taken b o) le_rfl fun _ => .bind (spin _) fun v => ?_
  cases v
  case some m => exact .pure le_rfl
  case none =>
    have keeps : (peeks (receivingAt n rs taken b o) rs.length taken n none : L.Rx plat).Keeps Act.Quiet :=
      peeks_keeps receivingAt_keeps none
    have empty (e : Error) (he : ¬ e.Terminal ∧ ¬ e.Framing) :
      peeks (receivingAt n rs taken b o) rs.length taken n none ≤
        (drained n rs taken b o e : L.Rx plat) :=
        fun _ _ hs => ⟨⟨hs.left, hs.right, he.right⟩, fun h => absurd h he.left⟩
    refine .pass keeps (signals_quiet snapshot_signals) empty fun observed => ?_
    refine .bind ((spin _).pre fun _ _ hs => hs.left) fun v => ?_
    cases v
    case some m => exact .pure le_rfl
    case none   => exact .pass keeps (signals_quiet waitChanged_signals) empty fun _ => .pure fun _ _ hs => hs.left

end
end Ring
