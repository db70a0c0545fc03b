import ShmemIpc.Ring.Ending

open Ring Window

-- The two ends of a ring agree where its records begin, and what their headers say.
namespace Link

-- The numbers in the eight bytes of a header.

def lengthWord (header : Bytes) : Nat :=
  fromLeBytes (header.getD 0 0) (header.getD 1 0) (header.getD 2 0) (header.getD 3 0)

def seqWord (header : Bytes) : Nat :=
  fromLeBytes (header.getD 4 0) (header.getD 5 0) (header.getD 6 0) (header.getD 7 0)

-- The eight bytes at the read cursor.
def headerAt (v : RingState) : Bytes :=
  (List.range MSG_HEADER_SIZE).map fun t => v.cell (v.rc + t)

-- The receiver reads these bytes, from the cursor `rc` on.
def headerReads (L : Link) (rc : Nat) (header : Bytes) : Events :=
  header.mapIdx fun t b => ⟨.readByte L.base (L.data + (rc + t) % L.size), b⟩

-- It computes `wc - rc` before it reads a header, and again after that.
def peekReads (L : Link) (wc rc first : Nat) (header : Bytes) (second : Nat) : Events :=
  ⟨.sub wc rc, first⟩ :: L.headerReads rc header ++ [⟨.sub wc rc, second⟩]

structure Framed (L : Link) (c : L.system.logged.Config) : Prop where
  -- The cursors are boundaries of the records that have been sent, and the records lie between them.
  order     : (L.ring c.mem.fst).received.length ≤ (L.ring c.mem.fst).sent.length
  rc        : (L.ring c.mem.fst).rc = wrap64 (total ((L.ring c.mem.fst).sent.take (L.ring c.mem.fst).received.length))
  wc        : (L.ring c.mem.fst).wc = wrap64 (total (L.ring c.mem.fst).sent)
  stream    : Holds (L.ring c.mem.fst).cell (L.ring c.mem.fst).taken
    (records (L.ring c.mem.fst).received.length ((L.ring c.mem.fst).sent.drop (L.ring c.mem.fst).received.length))
  -- The record at the read cursor.
  header    : ∀ p, (L.ring c.mem.fst).sent[(L.ring c.mem.fst).received.length]? = some p →
    lengthWord (headerAt (L.ring c.mem.fst)) = p.length ∧
    seqWord (headerAt (L.ring c.mem.fst)) = wrap32 ((L.ring c.mem.fst).received.length + 1) ∧
    MSG_HEADER_SIZE + p.length ≤ L.size
  expected  : c.thr L.rx = none →
    (L.ring c.mem.fst).receiver.expectedSeq = wrap32 ((L.ring c.mem.fst).received.length + 1)
  -- The receiver has just read a header.
  peeked    : ∀ t header, header.length = MSG_HEADER_SIZE →
    c.mem.snd.of L.rx = t ++ L.headerReads (L.ring c.mem.fst).rc header →
    ∃ p, (L.ring c.mem.fst).sent[(L.ring c.mem.fst).received.length]? = some p ∧ lengthWord header = p.length ∧
      seqWord header = (L.ring c.mem.fst).receiver.expectedSeq ∧ lengthWord header ≤ L.size - MSG_HEADER_SIZE
  -- The record is whole.
  whole     : ∀ t wc rc first header second, header.length = MSG_HEADER_SIZE → MSG_HEADER_SIZE ≤ first →
    c.mem.snd.of L.rx = t ++ L.peekReads wc rc first header second → MSG_HEADER_SIZE + lengthWord header ≤ second
  -- No operation reports a record, except one that is too long for the buffer of the caller.
  mismatch  : ∀ o s e, o.Receives → c.Returning L.rx o s (.error e) → ∀ n m, e ≠ .sequenceMismatch n m
  tooLarge  : ∀ o s n m, o.Receives → c.Returning L.rx o s (.error (.messageTooLarge n m)) →
    m = (L.ring s.fst).buf.length ∧ m < n ∧ MSG_HEADER_SIZE + n ≤ L.size ∧
    (L.ring c.mem.fst).received = (L.ring s.fst).received ++ [none] ∧
    (L.ring c.mem.fst).sent[(L.ring s.fst).received.length]?.map List.length = some n

section
variable {L : Link} {plat : Platform} {v v' : RingState} {p : Bytes} {i : ThreadId} {a : Act}

theorem wrap64_mod {n t : Nat} : (wrap64 n + t) % L.size = (n + t) % L.size := by
  obtain ⟨k, _, hk, h⟩ := L.size_eq
  have dvd : 2 ^ k ∣ 2 ^ 64 := Nat.pow_dvd_pow 2 (by omega)
  rw [h, Nat.add_mod, wrap64, Nat.mod_mod_of_dvd _ dvd, ← Nat.add_mod]

theorem ring_cell {s : State} {m n : Nat} (h : m % L.size = n % L.size) : (L.ring s).cell m = (L.ring s).cell n := by
  simp only [Link.ring, h]

-- The record that is the next one to be received.
theorem Inv.live_head (h : L.Inv v) (head : v.sent[v.received.length]? = some p) :
    Holds v.cell v.taken (record v.received.length p) := by
  have live := h.live
  rw [drop_eq_cons head] at live
  exact live.left

theorem length_headerAt : (headerAt v).length = MSG_HEADER_SIZE := by
  simp [headerAt]

-- The header of the next record lies at the read cursor.
theorem headerAt_eq {s : State} (h : L.Inv (L.ring s)) (head : (L.ring s).sent[(L.ring s).received.length]? = some p) :
    headerAt (L.ring s) = ((record (L.ring s).received.length p).drop 0).take MSG_HEADER_SIZE := by
  refine List.ext_getElem (by simp [headerAt, frameSize_pos]) fun t ht _ => ?_
  rw [length_headerAt] at ht
  have same : (L.ring s).cell ((L.ring s).rc + t) = (L.ring s).cell ((L.ring s).taken + t) :=
    ring_cell (by rw [h.rc, wrap64_mod])
  simp only [headerAt, List.getElem_map, List.getElem_range, List.drop_zero, List.getElem_take]
  rw [same, h.live_head head t (by rw [length_record]; exact Nat.lt_of_lt_of_le ht frameSize_pos)]

theorem decode_headerAt {s : State} (h : L.Inv (L.ring s))
    (head : (L.ring s).sent[(L.ring s).received.length]? = some p) :
    lengthWord (headerAt (L.ring s)) = p.length ∧
      seqWord (headerAt (L.ring s)) = wrap32 ((L.ring s).received.length + 1) ∧
      MSG_HEADER_SIZE + p.length ≤ L.size := by
  have fits := h.fits p (List.mem_of_getElem? head)
  have size := L.size_lt
  have short : p.length < 2 ^ 32 := by unfold frameSize at fits; omega
  have ⟨length, seq⟩ := record_header (k := (L.ring s).received.length) short
  rw [headerAt_eq h head]
  exact ⟨length, seq, fits⟩

-- What the receiver has read.

-- The answer is a byte of the next record.
def Seen (L : Link) (v : RingState) (e : Event Act Act.Ret) : Prop :=
  v.receiver.expectedSeq = wrap32 (v.received.length + 1) ∧
  ∃ p k, v.sent[v.received.length]? = some p ∧ ∃ h : k < (record v.received.length p).length,
    e = ⟨.readByte L.base (L.data + (v.taken + k) % L.size), (record v.received.length p)[k]⟩

theorem Seen.change {e : Event Act Act.Ret} (hi : i ≠ L.rx) (inv : L.Inv v) (ch : L.Change i a v v') (h : L.Seen v e) :
    L.Seen v' e := by
  obtain ⟨seq, p, k, head, hk, rfl⟩ := h
  have same := same_received ch (.inl hi)
  have head := found_stays inv ch head
  have taken := taken_eq inv ch same.received
  unfold Seen
  rw [same.received, same.receiver, taken]
  exact ⟨seq, p, k, head, hk, rfl⟩

def IsRead : Act → Prop
  | .readByte .. => True
  | _            => False

def IsSub : Act → Prop
  | .sub .. => True
  | _       => False

structure Read (L : Link) (s : State) (l : Events) : Prop where
  recent : ∀ t u, l = t ++ u → (∀ e ∈ u, IsRead e.fst) → ∀ e ∈ u, L.Seen (L.ring s) e
  subs   : ∀ a b r, ⟨.sub a b, r⟩ ∈ l → r = wrapSub64 a b
  whole  : ∀ t wc rc first header second, header.length = MSG_HEADER_SIZE → MSG_HEADER_SIZE ≤ first →
    l = t ++ L.peekReads wc rc first header second → MSG_HEADER_SIZE + lengthWord header ≤ second

namespace Read

variable {s s' : State} {l : Events} {r : a.Ret}

theorem nil : L.Read s [] where
  recent t u h _ e he := by
    obtain rfl := (List.append_eq_nil_iff.mp h.symm).right
    cases he
  subs := nofun
  whole t wc rc first header second _ _ h := by
    have := congrArg List.length h
    simp [peekReads] at this

-- A step of another thread.
theorem change (hi : i ≠ L.rx) (inv : L.Inv (L.ring s)) (ch : L.Change i a (L.ring s) (L.ring s')) (h : L.Read s l) :
    L.Read s' l where
  recent t u hl hu e he := (h.recent t u hl hu e he).change hi inv ch
  subs   := h.subs
  whole  := h.whole

-- The end of a log to which an event is added.

theorem snoc_cases {e : Event Act Act.Ret} {t u : Events} (h : l ++ [e] = t ++ u) :
    u = [] ∨ ∃ u', u = u' ++ [e] ∧ l = t ++ u' := by
  rcases List.eq_nil_or_concat' u with rfl | ⟨u', x, rfl⟩
  case inl => exact .inl rfl
  case inr =>
    rw [← List.append_assoc] at h
    have ⟨front, last⟩ := List.append_inj' h rfl
    obtain rfl := List.singleton_inj.mp last
    exact .inr ⟨u', rfl, front⟩

theorem snoc_peek {e : Event Act Act.Ret} {t : Events} {wc rc first second : Nat} {header : Bytes}
    (h : l ++ [e] = t ++ L.peekReads wc rc first header second) :
    e = ⟨.sub wc rc, second⟩ ∧ l = (t ++ [⟨.sub wc rc, first⟩]) ++ L.headerReads rc header := by
  rw [peekReads, ← List.append_assoc] at h
  have ⟨front, last⟩ := List.append_inj' h rfl
  exact ⟨List.singleton_inj.mp last, by simpa using front⟩

-- A step of the receiver that is not about the record.
theorem other (hr : ¬ IsRead a) (hs : ¬ IsSub a) (h : L.Read s l) : L.Read s' (l ++ [⟨a, r⟩]) where
  recent t u hl hu := by
    rcases snoc_cases hl with rfl | ⟨u', rfl, _⟩
    case inl => exact nofun
    case inr => exact absurd (hu ⟨a, r⟩ (by simp)) hr
  subs b b' r' hm := by
    rcases List.mem_append.mp hm with hm | hm
    case inl => exact h.subs b b' r' hm
    case inr => exact absurd ((Sigma.mk.inj (List.mem_singleton.mp hm)).left ▸ trivial) hs
  whole t wc rc first header second _ _ hl :=
    absurd ((Sigma.mk.inj (snoc_peek hl).left).left ▸ trivial) hs

theorem read {base : FileId} {addr : Nat} {b : UInt8} (h : L.Read s l)
    (seen : L.Seen (L.ring s) ⟨.readByte base addr, b⟩) :
    L.Read s (l ++ [⟨.readByte base addr, b⟩]) where
  recent t u hl hu x hx := by
    rcases snoc_cases hl with rfl | ⟨u', rfl, front⟩
    case inl => cases hx
    case inr =>
      rcases List.mem_append.mp hx with hx | hx
      case inl => exact h.recent t u' front (fun y hy => hu y (List.mem_append_left _ hy)) x hx
      case inr => exact List.mem_singleton.mp hx ▸ seen
  subs a b r hm := h.subs a b r (by simpa using hm)
  whole t wc rc first header second _ _ hl := nomatch (snoc_peek hl).left

-- The receiver finds the header that lies at its cursor.
theorem peeked (inv : L.Inv (L.ring s)) (h : L.Read s l) {t : Events} {header : Bytes}
    (hh : header.length = MSG_HEADER_SIZE) (hl : l = t ++ L.headerReads (L.ring s).rc header) :
    ∃ p, (L.ring s).sent[(L.ring s).received.length]? = some p ∧ lengthWord header = p.length ∧
      seqWord header = (L.ring s).receiver.expectedSeq ∧ MSG_HEADER_SIZE + p.length ≤ L.size := by
  have reads : ∀ e ∈ L.headerReads (L.ring s).rc header, IsRead e.fst := by
    intro e he
    obtain ⟨_, _, rfl⟩ := List.mem_mapIdx.mp he
    trivial
  have seen {k : Nat} (hk : k < header.length) :
      L.Seen (L.ring s) ⟨.readByte L.base (L.data + ((L.ring s).rc + k) % L.size), header[k]⟩ :=
    h.recent t _ hl reads _ (List.mem_mapIdx.mpr ⟨k, hk, rfl⟩)
  have same : header = headerAt (L.ring s) := by
    refine List.ext_getElem (hh.trans length_headerAt.symm) fun k hk _ => ?_
    obtain ⟨_, p, k', head, hk', he⟩ := seen hk
    have ⟨at_, byte⟩ := Sigma.mk.inj he
    have addr : ((L.ring s).rc + k) % L.size = ((L.ring s).taken + k') % L.size := by
      simpa using at_
    simp only [headerAt, List.getElem_map, List.getElem_range]
    rw [eq_of_heq byte, ring_cell addr, inv.live_head head k' hk']
  obtain ⟨seq, p, _, head, _⟩ := seen (k := 0) (hh ▸ by decide)
  have ⟨length, seq', fits⟩ := decode_headerAt inv head
  exact ⟨p, head, same ▸ length, (same ▸ seq').trans seq.symm, fits⟩

theorem sub {b b' : Nat} (inv : L.Inv (L.ring s)) (ok : L.Allowed L.rx (.sub b b') (L.ring s)) (h : L.Read s l) :
    L.Read s (l ++ [⟨.sub b b', wrapSub64 b b'⟩]) where
  recent t u hl hu := by
    rcases snoc_cases hl with rfl | ⟨u', rfl, _⟩
    case inl => exact nofun
    case inr => exact (hu ⟨.sub b b', wrapSub64 b b'⟩ (by simp)).elim
  subs c c' r hm := by
    rcases List.mem_append.mp hm with hm | hm
    case inl => exact h.subs c c' r hm
    case inr =>
      cases List.mem_singleton.mp hm
      rfl
  whole t wc rc first header second hh hf hl := by
    have ⟨last, front⟩ := snoc_peek hl
    cases last
    obtain ⟨rfl, what⟩ := ok.right rfl
    have first_eq : first = wrapSub64 b (L.ring s).rc := h.subs _ _ _ (front ▸ by simp)
    obtain ⟨p, head, length, _⟩ := h.peeked inv hh front
    rcases what with rfl | ⟨p', head', fits⟩
    case inl =>
      have none : wrapSub64 (L.ring s).rc (L.ring s).rc = 0 := by unfold wrapSub64; omega
      rw [first_eq, none] at hf
      exact absurd hf (by decide)
    case inr =>
      obtain rfl := Option.some.inj (head.symm.trans head')
      exact length ▸ fits

theorem own (inv : L.Inv (L.ring s)) (ok : L.Allowed L.rx a (L.ring s))
    (e : ((machine plat).under (headerProtocol plat)).exec L.rx a s r s') (h : L.Read s l) :
    L.Read s' (l ++ [⟨a, r⟩]) := by
  cases a
  case readByte base addr =>
    obtain ⟨rfl, rfl⟩ := exec_readByte e
    obtain ⟨rfl, seq, p, k, head, hk, rfl⟩ := ok rfl
    have long : k < (record (L.ring s').received.length p).length := length_record ▸ hk
    have byte : s'.fst.byte L.base (L.data + ((L.ring s').taken + k) % L.size) =
      (record (L.ring s').received.length p)[k] :=
      inv.live_head head k long
    exact h.read (byte ▸ ⟨seq, p, k, head, long, rfl⟩)
  case sub b b' =>
    obtain ⟨rfl, rfl⟩ := exec_sub e
    exact h.sub inv ok
  all_goals exact h.other id id

end Read

theorem permitted_exec {c : L.system.Config} {r : a.Ret} {s' : State} (h : L.system.Reachable (machine plat) c)
    (hn : c.Next i a) (e : (machine plat).exec i a c.mem r s') :
    ((machine plat).under (headerProtocol plat)).exec i a c.mem r s' :=
  ⟨e, (L.headerVerified plat).inv_of_reachable h, (L.headerVerified plat).ok_of_next h hn⟩

theorem read_of_reachable {c : L.system.logged.Config} (h : L.system.logged.Reachable (machine plat).logged c) :
    L.Read c.mem.fst (c.mem.snd.of L.rx) := by
  refine h.invariant (P := fun c => L.Read c.mem.fst (c.mem.snd.of L.rx)) (fun c hc => ?_) fun c c' reach hc e => ?_
  case refine_1 =>
    show L.Read c.mem.fst (Log.of L.rx c.mem.snd)
    rw [hc.mem.right]
    exact .nil
  case refine_2 =>
    cases e
    case act i o s a k r mem at_ exec =>
      obtain ⟨exec, hl⟩ := exec
      have next : c.forget.Next i a := ⟨o, s.fst, k, congrArg (Option.map System.Frame.forget) at_⟩
      have ok := ok_of_next reach.forget next
      have exec := permitted_exec reach.forget next exec
      have inv := inv_of_reachable reach.forget
      show L.Read mem.fst (Log.of L.rx mem.snd)
      rw [hl]
      by_cases hi : i = L.rx
      case pos =>
        subst hi
        rw [Log.of_snoc_self]
        exact hc.own inv ok.allowed exec
      case neg =>
        rw [Log.of_snoc_ne hi]
        exact hc.change hi inv (change_of_exec inv ok exec)
    all_goals exact hc

-- The errors of the receiver.
theorem framing_of_answer {n : Nat} {rs : List (Option Bytes)} {b : Bytes} {out : List Bytes}
    {o : Operation} {e : Error}
    {s : State} (ho : o.Receives) (h : (receiveAnswer n rs b out o (.error e) : L.Rx plat) s) :
    ¬ e.Framing ∨ ∃ p, (short n rs b out p e : L.Rx plat) s := by
  have emptied {rs out} (h : (emptied n rs b out e : L.Rx plat) s) : ¬ e.Framing := by
    obtain ⟨_, ⟨_, _, plain⟩, _⟩ := h
    exact plain
  have spoiled (h : (spoiled n rs b out e : L.Rx plat) s) : ¬ e.Framing ∨ ∃ p,
    (short n rs b out p e : L.Rx plat) s := by
    obtain ⟨_ | p, h⟩ := h
    case none   => exact .inl (emptied h)
    case some p => exact .inr ⟨p, h⟩
  have broken (h : (broken n rs b out e : L.Rx plat) s) : ¬ e.Framing := by
    obtain ⟨_, h, _⟩ := h
    exact emptied h
  cases o <;> first
    | exact ho.elim
    | exact .inl (emptied h)
    | exact spoiled h
    | exact .inl (broken h)

-- In every interleaving, however many messages there are, the receiver finds a record at its cursor, with
-- the number and the length that the sender has given it.
theorem framing_exact {c : L.system.logged.Config} (h : L.system.logged.Reachable (machine plat).logged c) :
    Framed L c := by
  have inv := inv_of_reachable h.forget
  have read := read_of_reachable h
  have failed {o : Operation} {s : State × Log ThreadId Act Act.Ret} {e : Error} (ho : o.Receives)
      (hr : c.Returning L.rx o s (.error e)) :=
    framing_of_answer ho
    ((answer_of_returning (v := .error e) h.forget (congrArg (Option.map System.Frame.forget) hr)).right rfl)
  constructor
  case order    => exact inv.order
  case rc       => exact inv.rc
  case wc       => exact inv.wc
  case stream   => exact inv.live
  case header   => exact fun p head => decode_headerAt inv head
  case expected =>
    intro idle
    obtain ⟨rs, _, _, _, own, _⟩ :=
      (idle_of_reachable h.forget (i := L.rx) (by simp [System.Config.forget, idle])).right rfl
    have own : Receives _ _ _ _ _ (L.ring c.mem.fst) := own
    rw [own.receiver, own.received]
    rfl
  case peeked   =>
    intro t header hh hl
    obtain ⟨p, head, length, seq, fits⟩ := read.peeked inv hh hl
    exact ⟨p, head, length, seq, by omega⟩
  case whole    => exact fun t wc rc first header second hh hf hl => read.whole t wc rc first header second hh hf hl
  case mismatch =>
    rintro o s e ho hr n m rfl
    rcases failed ho hr with plain | ⟨p, _, _, he⟩
    case inl => exact plain trivial
    case inr => cases he
  case tooLarge =>
    intro o s n m ho hr
    rcases failed ho hr with plain | ⟨p, ⟨⟨taken, own, _⟩, found⟩, long, he⟩
    case inl => exact absurd trivial plain
    case inr =>
      obtain ⟨hn, hm⟩ := Error.messageTooLarge.inj he
      have own : Receives _ _ _ _ _ (L.ring c.mem.fst) := own
      have found : (L.ring c.mem.fst).sent[(L.ring s.fst).received.length]? = some p := found
      subst hn
      refine ⟨hm, hm ▸ long, inv.fits p (List.mem_of_getElem? found), own.received, ?_⟩
      exact congrArg (Option.map List.length) found

-- The client is about to subtract its cursor from a different one.
def peeking (c : ringA.system.Config) : Bool :=
  match c.thr 1 with
  | some ⟨_, _, .act (.sub wc rc) _⟩ => wc ≠ rc
  | _                                => false

theorem next_of_peeking {c : ringA.system.Config} (h : peeking c = true) :
    ∃ o s wc rc k, c.thr 1 = some ⟨o, s, .act (.sub wc rc) k⟩ ∧ wc ≠ rc := by
  unfold peeking at h
  split at h
  case h_1 at_ => exact ⟨_, _, _, _, _, at_, of_decide_eq_true h⟩
  case h_2     => cases h

-- The client has read the header of the second record.
theorem framing_exact_second :
    ∃ c : ringA.system.logged.Config, (ringA.ring c.mem.fst).received = [some [7, 8]] ∧
      (∃ wc rc, c.Next ringA.rx (.sub wc rc) ∧ wc ≠ rc) ∧ Framed ringA c := by
  have ⟨c, reach, _, hc⟩ := ringA.reaches (crateOracle .linux) (fun _ h => h)
    (l := ringA.send ++ ringA.receive ++ CrateMove.steps 1 1 ++
    (.call 0 (.trySendOnce 0 [9]) :: CrateMove.steps 0 26) ++
      .call 1 (.tryRecv 1) :: CrateMove.steps 1 11)
    (p := fun c => decide ((ringA.ring c.mem).received = [some [7, 8]]) && peeking c) (by decide +kernel)
  obtain ⟨hr, hp⟩ := (Bool.and_eq_true _ _).mp hc
  obtain ⟨c, logged, rfl⟩ := reach.lift
  obtain ⟨o, s, wc, rc, k, at_, hne⟩ := next_of_peeking hp
  have ⟨l, at_⟩ := System.Config.exists_frame at_
  exact ⟨c, of_decide_eq_true hr, ⟨wc, rc, ⟨o, (s, l), k, at_⟩, hne⟩, framing_exact logged⟩

end
end Link
