import ShmemIpc.Library.Schedule
import ShmemIpc.Execution.History

open Function

-- How an action with several outcomes turns out.
inductive Choice
  -- the operation succeeds, and the clock stands still
  | normal
  -- a system call or a weak exchange fails
  | fails (e : IoError)
  -- the time
  | time (t : Nat)
  -- which waiter is released
  | wakes (j : ThreadId)

namespace World

-- The threads from `n` on never sleep.
def Bounded (n : Nat) (s : World) : Prop :=
  ∀ j, n ≤ j → s.asleep j = none

instance (plat : Platform) (s : World) (h : WaitHandle) (w : Word) (j : ThreadId) :
    Decidable (s.Waits plat h w j) :=
  match plat with
  | .linux   =>
    match hz : s.asleep j with
    | none   => isFalse fun ⟨_, h, _⟩ => by rw [hz] at h; cases h
    | some z => decidable_of_iff (z.word = w) ⟨fun h => ⟨z, hz, h⟩, fun ⟨_, h', h⟩ => by
        rw [hz] at h'; cases h'; exact h⟩
  | .windows =>
    match hz : s.asleep j with
    | none   => isFalse fun ⟨_, h, _⟩ => by rw [hz] at h; cases h
    | some z => decidable_of_iff (z.handle = h) ⟨fun h => ⟨z, hz, h⟩, fun ⟨_, h', h⟩ => by
        rw [hz] at h'; cases h'; exact h⟩


-- A weak exchange that does not fail.
def exchange (s : World) (w : Word) (e n : Nat) : Except Nat Nat × World :=
  if s.word w = e then (.ok e, s.stored w n) else (.error (s.word w), s)

def fall (s : World) (i : ThreadId) (h : WaitHandle) (w : Word) (expected timeout : Nat) : World :=
  { s with asleep := update s.asleep i (some ⟨h, w, expected, timeout⟩) }

-- One outcome of an action of a thread below `n`.
def pick (plat : Platform) (n : Nat) (i : ThreadId) :
    (a : Act) → World → Choice → Option (a.Ret × World)
  | .load w, s, _                    => some (s.word w, s)
  | .store w v _, s, _               => some ((), s.stored w v)
  | .fetchAdd w, s, _                => some (s.word w, s.bumped w)
  | .compareExchange w e v, s, _     => some (s.exchange w e v)
  | .compareExchangeWeak w _ _, s, .fails _ => some (.error (s.word w), s)
  | .compareExchangeWeak w e v, s, _ => some (s.exchange w e v)
  | .fence, s, _                     => some ((), s)
  | .readByte base addr, s, _        => some (s.byte base addr, s)
  | .writeByte base addr b, s, _     =>
      some ((), { s with byte := update s.byte base (update (s.byte base) addr b) })
  | .sub a b, s, _                   => some (wrapSub64 a b, s)
  | .getSender h, s, _               => some (s.sender h, s)
  | .setSender h x, s, _             => some ((), { s with sender := update s.sender h x })
  | .getReceiver h, s, _             => some (s.receiver h, s)
  | .setReceiver h x, s, _           => some ((), { s with receiver := update s.receiver h x })
  | .getBuf, s, _                    => some (s.buf i, s)
  | .setBuf b, s, _                  => some ((), { s with buf := update s.buf i b })
  | .getOut, s, _                    => some (s.out i, s)
  | .setOut xs, s, _                 => some ((), { s with out := update s.out i xs })
  | .getShared h, s, _               => (s.shared h).map (·, s)
  | .newShared x p, s, _             =>
      some (s.handles,
        { s with
          shared    := update s.shared s.handles (some x)
          peer      := update s.peer s.handles p
          nextProbe := update s.nextProbe s.handles 0
          locked    := update s.locked s.handles false
          poisoned  := update s.poisoned s.handles false
          handles   := s.handles + 1 })
  | .freeShared h, s, _              => some ((), { s with shared := update s.shared h none })
  | .lockPeer h, s, _                =>
      if s.locked h = false ∧ s.poisoned h = false
        then some (.ok (), { s with locked := update s.locked h true })
        else none
  | .unlockPeer h, s, _              => some ((), { s with locked := update s.locked h false })
  | .isPoisoned h, s, _              => some (s.poisoned h, s)
  | .getPeer h, s, _                 => some (s.peer h, s)
  | .setPeer h p, s, _               => some ((), { s with peer := update s.peer h (some p) })
  | .loadNextProbe h, s, _           => some (s.nextProbe h, s)
  | .storeNextProbe h v, s, _        => some ((), { s with nextProbe := update s.nextProbe h v })
  | .now, s, .time t                 => if s.clock ≤ t then some (t, { s with clock := t }) else none
  | .now, s, _                       => some (s.clock, s)
  | .currentPid, s, _                => some ((s.process i).pid, s)
  | .readProcStat pid, s, _          =>
      match s.proc pid with
      | some t => some (.ok t, s)
      | none   => some (.error ⟨.notFound, ""⟩, s)
  | .setProc pid t, s, _             => some ((), { s with proc := update s.proc pid t })
  | .newWaitKey, s, _                => some (0, s)
  | .newWaitSet, s, _                => some (.ok (), s)
  | .createNew p, s, .normal         =>
      if s.path p = none then some (.ok s.files, s.created p s.files) else none
  | .createNew _, s, .fails e        => some (.error e, s)
  | .openFile p, s, _                =>
      match s.path p with
      | some f => some (.ok f, s)
      | none   => some (.error ⟨.notFound, ""⟩, s)
  | .setLen f n, s, _                => some (.ok (), { s with len := update s.len f n })
  | .fileLen f, s, _                 => some (.ok (s.len f), s)
  | .mapMut f, s, _                  => some (.ok (s.len f), s)
  | .removeFile p, s, .normal        =>
      if (s.path p).isSome then some (.ok (), { s with path := update s.path p none }) else none
  | .removeFile _, s, .fails e       => some (.error e, s)
  | .waitOn h w expected t, s, _     =>
      if n ≤ i then none
      else match plat with
        | .linux   => some ((), if s.word w = expected then s.fall i h w expected t else s)
        | .windows =>
          some ((), if s.signalled h
            then { s with signalled := update s.signalled h false }
            else s.fall i h w expected t)
  | .resume, s, _                    => some ((), s.woken i)
  | .wake h w, s, .wakes j           => if s.Waits plat h w j then some ((), s.woken j) else none
  | .wake h w, s, _                  =>
      if ∀ j < n, ¬ s.Waits plat h w j then
        match plat with
        | .linux   => some ((), s)
        | .windows => some ((), { s with signalled := update s.signalled h true })
      else none
  | .isRunning m, s, _               => some ((s.bridge m).running, s)
  | .spawnBridge m, s, _             =>
      some (.ok (), s.bridged m fun _ => ⟨false, true, false, false, false, none⟩)
  | .setRunning m b, s, _            => some ((), s.bridged m ({ · with running := b }))
  | .sendReady m, s, _               => some ((), s.bridged m ({ · with ready := true }))
  | .recvReady m, s, _               => if (s.bridge m).ready then some ((), s) else none
  | .loadStop m, s, _                => some ((s.bridge m).stop, s)
  | .storeStop m, s, _               => some ((), s.bridged m ({ · with stop := true }))
  | .notified m, s, _                => some ((), s.bridged m ({ · with future := some false }))
  | .awaitNotified m _, s, .normal   =>
      if (s.bridge m).future = some true
        then some (true, s.bridged m ({ · with future := none }))
        else none
  | .awaitNotified m _, s, _         => some (false, s.bridged m ({ · with future := none }))
  | .notifyWaiters m, s, _           =>
      some ((), s.bridged m fun b => { b with future := b.future.map fun _ => true })
  | .exitBridge m, s, _              => some ((), s.bridged m ({ · with exited := true }))
  | .joinBridge m, s, _              => if (s.bridge m).exited then some ((), s) else none
  | _, _, _                          => none

theorem exchange_sound {s s' : World} {w : Word} {e n : Nat} {r : Except Nat Nat}
    (h : s.exchange w e n = (r, s')) :
    (s.word w = e ∧ r = .ok e ∧ s' = s.stored w n) ∨
    (s.word w ≠ e ∧ r = .error (s.word w) ∧ s' = s) := by
  unfold exchange at h
  split at h
  case isTrue he  => cases h; exact .inl ⟨he, rfl, rfl⟩
  case isFalse he => cases h; exact .inr ⟨he, rfl, rfl⟩

theorem exchange_asleep {s s' : World} {w : Word} {e n : Nat} {r : Except Nat Nat}
    (h : s.exchange w e n = (r, s')) : s'.asleep = s.asleep := by
  rcases exchange_sound h with ⟨_, _, rfl⟩ | ⟨_, _, rfl⟩ <;> rfl

theorem Bounded.congr {n : Nat} {s s' : World} (h : s'.asleep = s.asleep) (hb : s.Bounded n) :
    s'.Bounded n :=
  fun j hj => h ▸ hb j hj

theorem Bounded.woken {n : Nat} {s : World} (hb : s.Bounded n) (j : ThreadId) :
    (s.woken j).Bounded n := by
  intro k hk
  by_cases h : k = j
  case pos => simp [World.woken, h]
  case neg => simpa [World.woken, h] using hb k hk

theorem Bounded.fall {n : Nat} {s : World} (hb : s.Bounded n) {i : ThreadId} (hi : i < n)
    {h : WaitHandle} {w : Word} {e t : Nat} : (s.fall i h w e t).Bounded n := by
  intro k hk
  have hn : k ≠ i := Nat.ne_of_gt (Nat.lt_of_lt_of_le hi hk)
  simpa [World.fall, hn] using hb k hk

theorem Bounded.waits {plat : Platform} {n : Nat} {s : World} (hb : s.Bounded n) {h : WaitHandle}
    {w : Word} (hw : ∀ j < n, ¬ s.Waits plat h w j) (j : ThreadId) : ¬ s.Waits plat h w j := by
  by_cases hj : j < n
  case pos => exact hw j hj
  case neg =>
    have hz := hb j (Nat.le_of_not_lt hj)
    cases plat <;> simp [World.Waits, hz]

theorem pick_sound {plat : Platform} {n : Nat} {i : ThreadId} {a : Act} {s s' : World} {x : Choice}
    {r : a.Ret} (hb : s.Bounded n) (h : pick plat n i a s x = some (r, s')) :
    exec plat i a s r s' ∧ s'.Bounded n := by
  cases a
  case compareExchange w e v =>
    simp only [pick, Option.some.injEq] at h
    exact ⟨exchange_sound h, hb.congr (exchange_asleep h)⟩
  case compareExchangeWeak w e v =>
    have weak : ∀ {r}, s.exchange w e v = (r, s') → exec plat i (.compareExchangeWeak w e v) s r s' :=
      fun h => (exchange_sound h).imp id And.right
    cases x <;> simp only [pick, Option.some.injEq] at h
    case fails e => cases h; exact ⟨.inr ⟨rfl, rfl⟩, hb⟩
    all_goals exact ⟨weak h, hb.congr (exchange_asleep h)⟩
  case getShared h =>
    obtain ⟨x, hx, he⟩ := Option.map_eq_some_iff.mp h
    cases he
    exact ⟨⟨hx, rfl⟩, hb⟩
  case newShared => cases h; exact ⟨⟨rfl, rfl⟩, hb⟩
  case lockPeer h =>
    simp only [pick] at h
    split at h
    case isTrue hl  => cases h; exact ⟨⟨hl.left, by simp [hl.right]⟩, hb⟩
    case isFalse    => cases h
  case now =>
    cases x <;> simp only [pick] at h
    case time t =>
      split at h
      case isTrue ht => cases h; exact ⟨⟨ht, rfl⟩, hb⟩
      case isFalse   => cases h
    all_goals cases h; exact ⟨⟨Nat.le_refl _, rfl⟩, hb⟩
  case readProcStat pid =>
    simp only [pick] at h
    split at h
    case h_1 hp => cases h; exact ⟨⟨rfl, by simp [hp]⟩, hb⟩
    case h_2 hp => cases h; exact ⟨⟨rfl, by simp [hp]⟩, hb⟩
  case createNew p =>
    cases x <;> simp only [pick] at h
    case normal =>
      split at h
      case isTrue hp => cases h; exact ⟨.inl ⟨hp, rfl, rfl⟩, hb⟩
      case isFalse   => cases h
    case fails e => cases h; exact ⟨.inr ⟨.intro e, rfl⟩, hb⟩
    all_goals cases h
  case openFile p =>
    simp only [pick] at h
    split at h
    case h_1 hp => cases h; exact ⟨⟨rfl, by simp [hp]⟩, hb⟩
    case h_2 hp => cases h; exact ⟨⟨rfl, by simp [hp]⟩, hb⟩
  case setLen => cases h; exact ⟨.inl ⟨rfl, rfl⟩, hb⟩
  case fileLen => cases h; exact ⟨⟨.inl rfl, rfl⟩, hb⟩
  case mapMut => cases h; exact ⟨⟨.inl rfl, rfl⟩, hb⟩
  case removeFile p =>
    cases x <;> simp only [pick] at h
    case normal =>
      split at h
      case isTrue hp => cases h; exact ⟨.inl ⟨rfl, Option.isSome_iff_ne_none.mp hp, rfl⟩, hb⟩
      case isFalse   => cases h
    case fails e => cases h; exact ⟨.inr ⟨.intro e, rfl⟩, hb⟩
    all_goals cases h
  case waitOn hd w e t =>
    simp only [pick] at h
    split at h
    case isTrue => cases h
    case isFalse hi =>
      have hi : i < n := Nat.lt_of_not_le hi
      cases plat <;> cases h
      case linux   =>
        refine ⟨?_, ?_⟩
        · by_cases hw : s.word w = e <;> simp [exec, hw, World.fall]
        · split
          case isTrue  => exact hb.fall hi
          case isFalse => exact hb
      case windows =>
        refine ⟨?_, ?_⟩
        · by_cases hw : s.signalled hd <;> simp [exec, hw, World.fall]
        · split
          case isTrue  => exact hb
          case isFalse => exact hb.fall hi
  case resume => cases h; exact ⟨rfl, hb.woken i⟩
  case wake hd w =>
    have none_waits : (h : (if ∀ j < n, ¬ s.Waits plat hd w j then
        match plat with
        | .linux   => some ((), s)
        | .windows => some ((), { s with signalled := update s.signalled hd true })
      else none) = some (r, s')) → exec plat i (.wake hd w) s r s' ∧ s'.Bounded n := by
      intro h
      split at h
      case isTrue hw =>
        cases plat <;> cases h
        · exact ⟨.inr ⟨hb.waits hw, rfl⟩, hb⟩
        · exact ⟨.inr ⟨hb.waits hw, rfl⟩, hb⟩
      case isFalse => cases h
    cases x <;> simp only [pick] at h
    case wakes j =>
      split at h
      case isTrue hw => cases h; exact ⟨.inl ⟨j, hw, rfl⟩, hb.woken j⟩
      case isFalse   => cases h
    all_goals exact none_waits h
  case spawnBridge => cases h; exact ⟨.inl ⟨rfl, rfl⟩, hb⟩
  case recvReady m =>
    simp only [pick] at h
    split at h
    case isTrue hr => cases h; exact ⟨⟨hr, rfl⟩, hb⟩
    case isFalse   => cases h
  case awaitNotified m o =>
    cases x <;> simp only [pick] at h
    case normal =>
      split at h
      case isTrue hf => cases h; exact ⟨⟨fun _ => hf, rfl⟩, hb⟩
      case isFalse   => cases h
    all_goals cases h; exact ⟨⟨fun hf => (Bool.false_ne_true hf).elim, rfl⟩, hb⟩
  case joinBridge m =>
    simp only [pick] at h
    split at h
    case isTrue hr => cases h; exact ⟨⟨hr, rfl⟩, hb⟩
    case isFalse   => cases h
  -- the actions with one outcome
  all_goals cases h
  all_goals first | exact ⟨rfl, hb⟩ | exact ⟨⟨rfl, rfl⟩, hb⟩

end World

def oracle (plat : Platform) (n : Nat) : Oracle (worldMachine plat) Choice where
  good  := World.Bounded n
  pick  := World.pick plat n
  sound := World.pick_sound
