import ShmemIpc.Ring.Run

open Ring

-- The operations of the receiver.
namespace Operation

def Receives : Operation → Prop
  | tryRecv _ | recv .. | recvInto .. | recvAsync .. | recvIntoAsync .. | drainReady .. | recvManyAsync .. => True
  | _ => False

-- The answer says that there was a message.
def Delivers : (o : Operation) → o.Ret → Prop
  | recv .., .ok _ | recvAsync .., .ok _ | recvInto .., .ok _ | recvIntoAsync .., .ok _ => True
  | tryRecv _, .ok v                               => v.isSome
  | drainReady .., .ok k | recvManyAsync .., .ok k => 0 < k
  | _, _                                           => False

-- The message of a call that reports that it has been sent.
def Sends : (o : Operation) → o.Ret → Bytes → Prop
  | trySendOnce _ p, .ok v, q                  => v = .sent ∧ p = q
  | send _ p .., .ok _, q | sendAsync _ _ p, .ok _, q => p = q
  | _, _, _                                    => False

end Operation

-- What the end of a channel means for the messages of a ring.
namespace Link

variable {L : Link} {plat : Platform} {c c' : L.system.Config} {v : RingState}

-- The message number `k`, which is `p`, has been received, or was too long for the buffer of the caller.
def Consumed (L : Link) (v : RingState) (k : Nat) (p : Bytes) : Prop :=
  ∃ r, v.received[k]? = some r ∧ (r = some p ∨ r = none ∧ L.discards)

theorem Inv.consumed (h : L.Inv v) {k : Nat} {p : Bytes} (hk : v.sent[k]? = some p) (hlt : k < v.received.length) :
    L.Consumed v k p := by
  refine ⟨v.received[k], List.getElem?_eq_getElem hlt, ?_⟩
  cases hr : v.received[k]
  case none   => exact .inr ⟨rfl, h.discarded (hr ▸ List.getElem_mem hlt)⟩
  case some q =>
    have known := h.agrees k q (by rw [List.getElem?_eq_getElem hlt, hr])
    exact .inl (congrArg some (Option.some.inj (known.symm.trans hk)))

-- A terminal error says that nothing is left that had been sent before the end.
theorem ended_of_terminal {n : Nat} {rs : List (Option Bytes)} {b : Bytes} {out : List Bytes}
    {o : Operation} {e : Error}
    (ho : o.Receives) (he : e.Terminal) {s : State}
    (h : (receiveAnswer n rs b out o (.error e) : L.Rx plat) s) : Ended (L.ring s).received.length (L.ring s) := by
  have emptied {rs out} (h : (emptied n rs b out e : L.Rx plat) s) : Ended (L.ring s).received.length (L.ring s) := by
    obtain ⟨taken, ⟨⟨hs, _⟩, _⟩, ended⟩ := h
    exact hs.received ▸ ended he
  have spoiled (h : (spoiled n rs b out e : L.Rx plat) s) : Ended (L.ring s).received.length (L.ring s) := by
    obtain ⟨_ | p, h⟩ := h
    · exact emptied h
    · obtain ⟨_, _, rfl⟩ := h
      exact he.elim
  have broken (h : (broken n rs b out e : L.Rx plat) s) : Ended (L.ring s).received.length (L.ring s) := by
    obtain ⟨ms, h, _⟩ := h
    exact emptied h
  cases o <;> try exact ho.elim
  all_goals first | exact emptied h | exact spoiled h | exact broken h

-- What had been sent before the end.
theorem before_stays (ps : List Bytes) :
    Stays L (fun v => ps <+: v.sent ∧ ∀ qs, v.sealed = some qs → ps <+: qs) := by
  intro j a v v' hi e ⟨sent, before⟩
  cases e
  case publish => exact ⟨sent.trans (List.prefix_append _ _), before⟩
  case advance n _ open_ _ =>
    refine ⟨sent, fun qs hqs => ?_⟩
    by_cases hn : 4 ≤ n
    case neg => exact before qs (by simpa [hn] using hqs)
    case pos =>
      cases hv : v.sealed
      case none    => simp only [hn, hv, if_true, Option.getD_none, Option.some.injEq] at hqs; exact hqs ▸ sent
      case some ps =>
        simp only [hn, hv, if_true, Option.getD_some, Option.some.injEq] at hqs; exact before qs (hqs ▸ hv)
  all_goals exact ⟨sent, before⟩

theorem sealed_none (h : L.Inv v) (open_ : v.state < 4) : v.sealed = none := by
  by_contra hs
  have := h.ended.mpr (Option.isSome_iff_ne_none.mpr hs)
  omega

-- Wherever the end of the channel falls among the steps of the receiver: when it reports the end, it
-- has consumed everything that was sent while the channel had not ended.
theorem drained_before_terminal_error (h : L.system.Reachable (machine plat) c)
    (e : L.system.Steps (machine plat) c c') (open_ : (L.ring c.mem).state < 4) {o : Operation} {s : State}
    {er : Error} (hr : c'.Returning L.rx o s (.error er)) (ho : o.Receives) (he : er.Terminal) {k : Nat} {p : Bytes}
    (hp : (L.ring c.mem).sent[k]? = some p) : L.Consumed (L.ring c'.mem) k p := by
  have reach := h.steps e
  have ended := ended_of_terminal ho he ((answer_of_returning reach hr).right rfl)
  have none := sealed_none (inv_of_reachable h) open_
  have ⟨sent, before⟩ := stays_along (before_stays (L.ring c.mem).sent) h e
    ⟨List.prefix_rfl, fun qs hqs => by simp [none] at hqs⟩
  obtain ⟨ps, hps⟩ := Option.isSome_iff_exists.mp ((inv_of_reachable reach).ended.mp ended.state)
  have hk : k < (L.ring c.mem).sent.length := (List.getElem?_eq_some_iff.mp hp).choose
  have enough : k < (L.ring c'.mem).received.length :=
    Nat.lt_of_lt_of_le hk (Nat.le_trans (before ps hps).length_le (ended.last ps hps))
  refine (inv_of_reachable reach).consumed ?_ enough
  obtain ⟨qs, hq⟩ := sent
  rw [← hq, List.getElem?_append_left hk]
  exact hp

-- The channel is closed behind a message, which the client receives before it finds the end.
theorem drained_before_terminal_error_closed :
    ∃ (c c' : ringA.system.Config) (h : Handle) (s : State), (ringA.ring c.mem).state < 4 ∧
      c'.Returning ringA.rx (.tryRecv h) s (.error .channelClosed) ∧ ringA.Consumed (ringA.ring c'.mem) 0 [7, 8] := by
  have ⟨c, reach, good, hc⟩ := ringA.reaches (crateOracle .linux) (fun _ h => h) (l := ringA.send)
    (p := fun c => decide ((ringA.ring c.mem).state < 4 ∧ (ringA.ring c.mem).sent[0]? = some [7, 8]) &&
      (ringA.system.run (crateOracle .linux) c
        (ringA.close ++ ringA.receive ++ .step 1 .normal :: ringA.fail)).any ringA.closed) (by decide +kernel)
  have ⟨known, more⟩ := (Bool.and_eq_true _ _).mp hc
  have ⟨open_, sent⟩ := of_decide_eq_true known
  have ⟨c', steps, _, hc'⟩ := System.run_test good more
  have ⟨h, s, hr⟩ := ringA.returning_of_closed hc'
  exact ⟨c, c', h, s, open_, hr, drained_before_terminal_error reach steps open_ hr trivial trivial sent⟩

-- The sender stores the write cursor of a message only while the channel has not ended.
def Timely (L : Link) (_ : ThreadId) (a : Act) (s : State) (_ : a.Ret) (_ : State) : Prop :=
  ∀ n p, a = .store L.writeCursor n (.publish p) → (L.ring s).state < 4

abbrev timely (L : Link) (plat : Platform) : Machine ThreadId Act Act.Ret State :=
  (machine plat).restrict L.Timely

-- In such runs nothing changes in the ring any more, once the receiver has drained it after the end.
structure Stopped (rs : List (Option Bytes)) (ps : List Bytes) (v : RingState) : Prop where
  state    : 4 ≤ v.state
  received : v.received = rs
  sent     : v.sent = ps
  all      : rs.length = ps.length

variable {i : ThreadId} {a : Act} {v' : RingState}

theorem Stopped.change {rs : List (Option Bytes)} {ps : List Bytes} (e : L.Change i a v v')
    (timely : ∀ n p, a = .store L.writeCursor n (.publish p) → v.state < 4) (h : Stopped rs ps v) :
    Stopped rs ps v' := by
  have state := h.state
  cases e
  case publish act _ _ _ _ _    => exact absurd (timely _ _ act) (by omega)
  case commit head _            =>
    have hlt := (List.getElem?_eq_some_iff.mp head).choose
    rw [h.received, h.sent, h.all] at hlt
    exact absurd hlt (Nat.lt_irrefl _)
  case advance _ open_ _        => exact absurd open_ (by omega)
  all_goals exact ⟨h.state, h.received, h.sent, h.all⟩

-- In such runs, what has been sent is what had been sent when the channel ended.
theorem sealed_change (e : L.Change i a v v')
    (timely : ∀ n p, a = .store L.writeCursor n (.publish p) → v.state < 4) (hi : L.Inv v)
    (h : ∀ ps, v.sealed = some ps → v.sent = ps) : ∀ ps, v'.sealed = some ps → v'.sent = ps := by
  cases e
  case publish act _ _ _ _ _ =>
    intro ps hps
    have := sealed_none hi (timely _ _ act)
    simp [this] at hps
  case advance n _ open_ _ =>
    intro ps hps
    have := sealed_none hi open_
    by_cases hn : 4 ≤ n <;> simp [hn, this] at hps
    exact hps
  all_goals exact h

theorem reachable_of_timely (h : L.system.Reachable (L.timely plat) c) : L.system.Reachable (machine plat) c :=
  h.mono Machine.restrict_le

-- What is preserved by the changes of such runs.
theorem timely_along {P : RingState → Prop}
    (hP : ∀ {i a v v'}, L.Inv v → L.Change i a v v' →
      (∀ n p, a = .store L.writeCursor n (.publish p) → v.state < 4) → P v → P v')
    (h : L.system.Reachable (machine plat) c) (e : L.system.Steps (L.timely plat) c c') (hp : P (L.ring c.mem)) :
    P (L.ring c'.mem) := by
  refine (L.verified plat).persists (P := fun s => P (L.ring s)) ?_ (fun hi ho e => ?_)
    ((L.headerVerified plat).under h)
    ((L.headerVerified plat).permitted_steps Machine.restrict_le h e) hp
  · exact fun e => ⟨e.left.left, e.right⟩
  · exact hP hi (change_of_exec hi ho ⟨e.left.left, e.right⟩) e.left.right

theorem sent_of_sealed (h : L.system.Reachable (L.timely plat) c) :
    ∀ ps, (L.ring c.mem).sealed = some ps → (L.ring c.mem).sent = ps := by
  obtain ⟨init, e⟩ := h
  refine timely_along (P := fun v => ∀ ps, v.sealed = some ps → v.sent = ps)
    (fun hi e timely => sealed_change e timely hi) (.initial init) e fun ps hps => ?_
  simp [Link.ring, init.mem.unsealed] at hps

-- A call that delivers something has taken it out of the ring.
theorem more_of_delivers {n : Nat} {rs : List (Option Bytes)} {b : Bytes} {out : List Bytes} {o : Operation} {w : o.Ret}
    (hd : o.Delivers w) {s : State} (h : (receiveAnswer n rs b out o w : L.Rx plat) s) :
    rs.length < (L.ring s).received.length := by
  have receiving {b : Bytes} {r : Option Bytes} (h : (receiving n (rs ++ [r]) b out : L.Rx plat) s) :
      rs.length < (L.ring s).received.length := by
    obtain ⟨taken, hs, _⟩ := h
    simp [hs.received]
  have filled {len} (h : (filled n rs b out len : L.Rx plat) s) : rs.length < (L.ring s).received.length := by
    obtain ⟨p, h, _⟩ := h
    exact receiving h
  have batched {max k} (h : (batched n max rs b out k : L.Rx plat) s) (hk : 0 < k) :
      rs.length < (L.ring s).received.length := by
    obtain ⟨ms, ⟨taken, hs, _⟩, _, rfl⟩ := h
    simp [hs.received, hk]
  cases o <;> cases w <;> try exact hd.elim
  case tryRecv.ok w =>
    cases w
    case none   => cases hd
    case some p => exact receiving h
  all_goals first | exact receiving h | exact filled h | exact batched h hd

-- A call that reports that it has sent a message has added it to those that were sent before it began.
theorem sent_of_sends (h : L.system.Reachable (machine plat) c) {o : Operation} {s : State} {v : o.Ret} {p : Bytes}
    (hr : c.Returning L.tx o s v) (hs : o.Sends v p) : (L.ring c.mem).sent = (L.ring s).sent ++ [p] := by
  have answer := (answer_of_returning h hr).left rfl
  cases o <;> cases v <;> try exact hs.elim
  case trySendOnce.ok v =>
    obtain ⟨rfl, rfl⟩ := hs
    obtain ⟨r, hs, _⟩ := answer
    exact hs.sent
  all_goals
    obtain rfl := hs
    obtain ⟨r, hs, _⟩ := answer
    exact hs.sent

theorem sent_along (h : L.system.Reachable (machine plat) c) (e : L.system.Steps (machine plat) c c')
    {k : Nat} {p : Bytes}
    (hk : (L.ring c.mem).sent[k]? = some p) : (L.ring c'.mem).sent[k]? = some p := by
  obtain ⟨ps, hps⟩ := stays_along sent_stays h e List.prefix_rfl
  rw [← hps, List.getElem?_append_left (List.getElem?_eq_some_iff.mp hk).choose]
  exact hk

-- In runs in which every message is published before the channel ends, the first terminal error of the
-- receiver is final: afterwards it receives nothing, and everything that was ever sent has been consumed. That
-- includes the message of each call that reports that it has sent it, whenever it does, at an index of its own.
theorem terminal_error_final (h : L.system.Reachable (L.timely plat) c) (e : L.system.Steps (L.timely plat) c c')
    {o : Operation} {s : State} {er : Error} (hr : c.Returning L.rx o s (.error er)) (ho : o.Receives)
    (he : er.Terminal) :
    (L.ring c'.mem).received = (L.ring c.mem).received ∧
    (∀ {o' s' v'}, c'.Returning L.rx o' s' v' → ¬ o'.Delivers v') ∧
    (∀ k p, (L.ring c'.mem).sent[k]? = some p → L.Consumed (L.ring c'.mem) k p) ∧
    (∀ {d o' s' v' p}, L.system.Reachable (L.timely plat) d → L.system.Steps (L.timely plat) d c' →
      d.Returning L.tx o' s' v' → o'.Sends v' p → (L.ring c'.mem).sent[(L.ring s').sent.length]? = some p) := by
  have reach := reachable_of_timely h
  have reach' := reach.steps (System.Steps.mono Machine.restrict_le e)
  have ended := ended_of_terminal ho he ((answer_of_returning reach hr).right rfl)
  have inv := inv_of_reachable reach
  obtain ⟨ps, hps⟩ := Option.isSome_iff_exists.mp (inv.ended.mp ended.state)
  have all : (L.ring c.mem).received.length = (L.ring c.mem).sent.length := by
    have last := ended.last ps hps
    rw [← sent_of_sealed h ps hps] at last
    exact Nat.le_antisymm inv.order last
  have stopped {d : L.system.Config} (e : L.system.Steps (L.timely plat) c d) :
      Stopped (L.ring c.mem).received (L.ring c.mem).sent (L.ring d.mem) :=
    timely_along (fun _ e timely h => Stopped.change e timely h) reach e ⟨ended.state, rfl, rfl, all⟩
  refine ⟨(stopped e).received, fun {o' s' v'} hr' hd => ?_, fun k p hk => ?_, fun {d o' s' v' p} hd e' hr' hs => ?_⟩
  · have more := more_of_delivers hd ((answer_of_returning reach' hr').right rfl)
    rcases System.Steps.called hr e _ hr' with same | ⟨d, before, _, _, start⟩
    case inl =>
      cases same
      cases o <;> exact hd.elim
    case inr =>
      obtain rfl : s' = d.mem := start
      rw [(stopped before).received, (stopped e).received] at more
      exact Nat.lt_irrefl _ more
  · refine (inv_of_reachable reach').consumed hk ?_
    rw [(stopped e).received, (stopped e).all, ← (stopped e).sent]
    exact (List.getElem?_eq_some_iff.mp hk).choose
  · have sent := sent_of_sends (reachable_of_timely hd) hr' hs
    refine sent_along (reachable_of_timely hd) (e'.mono Machine.restrict_le) ?_
    simp [sent]

def timelyTest (_ : ThreadId) (a : Act) (s : State) : Bool :=
  match a with
  | .store _ _ (.publish _) => (ringA.ring s).state < 4
  | _                       => true

def timelyOracle : Oracle (ringA.timely .linux) Choice :=
  (crateOracle .linux).restrict timelyTest fun ht n p ha => by
    subst ha
    exact of_decide_eq_true ht

-- The client receives a message, and after that finds the end twice.
theorem terminal_error_final_closed :
    ∃ (c c' : ringA.system.Config) (h : Handle) (s : State),
      c.Returning ringA.rx (.tryRecv h) s (.error .channelClosed) ∧
      ringA.system.Steps (ringA.timely .linux) c c' ∧ (c'.thr 1).isSome ∧
      (ringA.ring c'.mem).received = (ringA.ring c.mem).received ∧
      (∀ {o' s' v'}, c'.Returning ringA.rx o' s' v' → ¬ o'.Delivers v') ∧
      (∀ k p, (ringA.ring c'.mem).sent[k]? = some p → ringA.Consumed (ringA.ring c'.mem) k p) ∧
      (∀ {d o' s' v' p}, ringA.system.Reachable (ringA.timely .linux) d →
        ringA.system.Steps (ringA.timely .linux) d c' → d.Returning ringA.tx o' s' v' → o'.Sends v' p →
        (ringA.ring c'.mem).sent[(ringA.ring s').sent.length]? = some p) := by
  have ⟨c, reach, good, hc⟩ := ringA.reaches timelyOracle (fun _ h => h)
    (l := ringA.send ++ ringA.receive ++ .step 1 .normal :: ringA.close ++ ringA.fail)
    (p := fun c => ringA.closed c &&
      (ringA.system.run timelyOracle c (.step 1 .normal :: ringA.fail)).any fun c' => (c'.thr 1).isSome)
    (by decide +kernel)
  have ⟨closed, more⟩ := (Bool.and_eq_true _ _).mp hc
  have ⟨h, s, hr⟩ := ringA.returning_of_closed closed
  have ⟨c', steps, _, hc'⟩ := System.run_test good more
  exact ⟨c, c', h, s, hr, steps, hc', terminal_error_final reach steps hr trivial trivial⟩

-- The call of the client has received a message.
def received (c : ringA.system.Config) : Bool :=
  c.returns 1 fun
    | .tryRecv _, _, .ok v => v.isSome
    | _, _, _              => false

theorem returning_of_received {c : ringA.system.Config} (h : received c = true) :
    ∃ o s v, c.Returning ringA.rx o s v ∧ o.Delivers v := by
  have ⟨o, s, v, hr, hv⟩ := System.Config.returning h
  split at hv
  case h_1 => exact ⟨_, _, _, hr, hv⟩
  case h_2 => cases hv

-- A sender that has found the channel connected may publish after its end. The client has found the end
-- before, and then receives a message.
theorem terminal_error_not_final :
    ¬ ∀ {c c' : ringA.system.Config}, ringA.system.Reachable (machine .linux) c →
      ringA.system.Steps (machine .linux) c c' → ∀ {o s er}, c.Returning ringA.rx o s (.error er) → o.Receives →
        er.Terminal → ∀ {o' s' v'}, c'.Returning ringA.rx o' s' v' → ¬ o'.Delivers v' := by
  intro claim
  have ⟨c, reach, good, hc⟩ := ringA.reaches (crateOracle .linux) (fun _ h => h)
    (l := .call 0 (.trySendOnce 0 [7, 8]) :: CrateMove.steps 0 33 ++ ringA.close ++ ringA.fail)
    (p := fun c => ringA.closed c &&
      (ringA.system.run (crateOracle .linux) c
        (.step 1 .normal :: CrateMove.steps 0 6 ++ ringA.receive)).any received)
    (by decide +kernel)
  have ⟨closed, more⟩ := (Bool.and_eq_true _ _).mp hc
  have ⟨h, s, hr⟩ := ringA.returning_of_closed closed
  have ⟨c', steps, _, hc'⟩ := System.run_test good more
  have ⟨o', s', v', hr', delivers⟩ := returning_of_received hc'
  exact claim reach steps hr trivial trivial hr' delivers

end Link
