import ShmemIpc.Library.Logged
import ShmemIpc.Header.Shared

-- How the time ends in which a channel waits for its client. Either the client publishes its identity, or a
-- half of the server retires the channel.
namespace Header

open Assertion Channels

-- The client of the channel in the file `b` is connected.
def connects (b : FileId) : Event Act Act.Ret :=
  ⟨.compareExchange (.global b .state) ChannelState.clientClaimed.toU32 ChannelState.connected.toU32,
   .ok ChannelState.clientClaimed.toU32⟩

-- The channel was in the state `n` when its connect timeout had elapsed.
def retires (b : FileId) (n : Nat) : Event Act Act.Ret :=
  ⟨.compareExchange (.global b .state) n ChannelState.closed.toU32, .ok n⟩

def Decides (b : FileId) (e : Event Act Act.Ret) : Prop :=
  e = connects b ∨ ∃ n < ChannelState.connected.toU32, e = retires b n

def Creates (b : FileId) (e : Event Act Act.Ret) : Prop :=
  ∃ p, e = ⟨.createNew p, .ok b⟩

theorem Decides.not_creates {b c : FileId} {e : Event Act Act.Ret} (h : Decides b e) : ¬ Creates c e := by
  rintro ⟨p, rfl⟩
  rcases h with h | ⟨_, _, h⟩
  · exact nomatch congrArg Sigma.fst h
  · exact nomatch congrArg Sigma.fst h

-- The entry `k` of the log, if the file has not been created after it.
structure DecidedAt (b : FileId) (k : Nat) (i : ThreadId) (e : Event Act Act.Ret)
    (l : Log ThreadId Act Act.Ret) : Prop where
  at_     : l[k]? = some (i, e)
  decides : Decides b e
  last    : ∀ j x, k < j → l[j]? = some x → ¬ Creates b x.snd

namespace DecidedAt

variable {b : FileId} {k : Nat} {i : ThreadId} {e : Event Act Act.Ret} {l : Log ThreadId Act Act.Ret}
variable {x : ThreadId × Event Act Act.Ret}

theorem lt_length (h : DecidedAt b k i e l) : k < l.length :=
  (List.getElem?_eq_some_iff.mp h.at_).fst

theorem snoc (h : DecidedAt b k i e l) (hx : ¬ Creates b x.snd) : DecidedAt b k i e (l ++ [x]) where
  at_      := by rw [List.getElem?_append_left h.lt_length]; exact h.at_
  decides  := h.decides
  last j y hj hy := by
    rcases Nat.lt_or_ge j l.length with lt | ge
    case inl => exact h.last j y hj (by rwa [List.getElem?_append_left lt] at hy)
    case inr =>
      rw [List.getElem?_append_right ge] at hy
      obtain ⟨_, rfl⟩ : j - l.length = 0 ∧ x = y := by
        rcases hd : j - l.length with _ | d
        · simpa [hd] using hy
        · simp [hd] at hy
      exact hx

theorem of_last (h : Decides b e) : DecidedAt b l.length i e (l ++ [(i, e)]) where
  at_      := by simp
  decides  := h
  last j y hj hy := by
    have : j < (l ++ [(i, e)]).length := (List.getElem?_eq_some_iff.mp hy).fst
    simp only [List.length_append, List.length_singleton] at this
    omega

theorem of_snoc (h : DecidedAt b k i e (l ++ [x])) :
    ¬ Creates b x.snd ∧ (DecidedAt b k i e l ∨ k = l.length ∧ x = (i, e)) := by
  have bound := h.lt_length
  have at_ := h.at_
  simp only [List.length_append, List.length_singleton] at bound
  rcases Nat.lt_or_ge k l.length with lt | ge
  case inl =>
    refine ⟨h.last l.length x lt (by simp), .inl ⟨?_, h.decides, fun j y hj hy => ?_⟩⟩
    · rwa [List.getElem?_append_left lt] at at_
    · refine h.last j y hj ?_
      rwa [List.getElem?_append_left (List.getElem?_eq_some_iff.mp hy).fst]
  case inr =>
    obtain rfl : k = l.length := by omega
    obtain rfl : x = (i, e) := by simpa using at_
    exact ⟨h.decides.not_creates, .inr ⟨rfl, rfl⟩⟩

end DecidedAt

-- An end is decided once, and it remains.
structure Decided (s : State × Log ThreadId Act Act.Ret) : Prop where
  once    : ∀ {b k k' i j e e'}, DecidedAt b k i e s.snd → DecidedAt b k' j e' s.snd → k = k'
  past    : ∀ {b k i e}, DecidedAt b k i e s.snd → ChannelState.connected.toU32 ≤ s.fst.fst.word (.global b .state)
  retired : ∀ {b k i n}, DecidedAt b k i (retires b n) s.snd →
    s.fst.fst.word (.global b .state) = ChannelState.closed.toU32

section
variable {plat : Platform} {i : ThreadId} {a : Act} {r : a.Ret} {s s' : State} {b : FileId}

theorem files_of_exec (e : (machine plat).exec i a s r s') :
    s'.fst.files = s.fst.files ∨ s'.fst.files = s.fst.files + 1 ∧ Creates s.fst.files ⟨a, r⟩ := by
  have exec := e.left
  have frame := World.frame exec
  cases a
  case createNew p =>
    rcases exec with ⟨_, rfl, hs⟩ | ⟨_, hs⟩
    · exact .inr ⟨by rw [hs]; rfl, p, rfl⟩
    · exact .inl (by rw [hs])
  all_goals exact .inl (frame.files (by simp [Act.parts]))

theorem creates_of_exec (e : (machine plat).exec i a s r s') (h : Creates b ⟨a, r⟩) : b = s.fst.files := by
  obtain ⟨p, h⟩ := h
  cases h
  rcases e.left with ⟨_, hr, _⟩ | ⟨hr, _⟩
  · exact Except.ok.inj hr
  · cases hr

theorem old_of_exec (e : (machine plat).exec i a s r s') (hb : b < s.fst.files) :
    b < s'.fst.files ∧ ¬ Creates b ⟨a, r⟩ := by
  refine ⟨?_, fun h => ?_⟩
  · rcases files_of_exec e with h | h
    · exact h ▸ hb
    · exact h.left ▸ Nat.lt_succ_of_lt hb
  · exact absurd (creates_of_exec e h) (Nat.ne_of_lt hb)

-- Unless the file is created, its channel goes forward.
theorem state_of_exec (ok : HeaderOk i a (channels s)) (e : (machine plat).exec i a s r s')
    (hc : ¬ Creates b ⟨a, r⟩) :
    (channels s).state b ≤ (channels s').state b ∧
      (4 ≤ (channels s).state b → (channels s').state b = (channels s).state b) := by
  have change := Change.of_exec ok e
  generalize hv : channels s' = v' at change
  cases change
  case publish c _ _ _ _ at_ =>
    by_cases hb : b = c
    case pos => subst hb; simp [at_]
    case neg => simp [hb]
  case advance c n _ open_ up _ =>
    by_cases hb : b = c
    case pos => subst hb; simp only [Function.update_self]; omega
    case neg => simp [hb]
  case create p =>
    have hb : b ≠ s.fst.files := by
      rintro rfl
      rcases files_of_exec e with h | h
      · have grown : s'.fst.files = s.fst.files + 1 := congrArg Channels.files hv
        exact Nat.succ_ne_self _ (grown.symm.trans h)
      · exact hc h.right
    have hb : b ≠ (channels s).files := hb
    simp [hb]
  all_goals exact ⟨Nat.le_refl _, fun _ => rfl⟩

theorem decides_of_exec (e : (machine plat).exec i a s r s') (h : Decides b ⟨a, r⟩) :
    (channels s).state b < ChannelState.connected.toU32 ∧ ChannelState.connected.toU32 ≤ (channels s').state b ∧
      ∀ n, ⟨a, r⟩ = retires b n → (channels s').state b = ChannelState.closed.toU32 := by
  rcases h with h | ⟨n, small, h⟩
  · cases h
    rcases e.left with ⟨before, _, hs⟩ | ⟨_, hr, _⟩
    · refine ⟨?_, ?_, nofun⟩
      · show s.fst.word _ < _
        rw [before]
        decide
      · show _ ≤ s'.fst.word _
        simp [hs, World.stored]
    · cases hr
  · cases h
    rcases e.left with ⟨before, _, hs⟩ | ⟨_, hr, _⟩
    · have after : s'.fst.word (.global b .state) = ChannelState.closed.toU32 := by simp [hs, World.stored]
      refine ⟨?_, ?_, fun _ _ => after⟩
      · show s.fst.word _ < _
        rwa [before]
      · show _ ≤ s'.fst.word _
        rw [after]
        decide
    · cases hr

theorem Decided.exec {s s' : State × Log ThreadId Act Act.Ret} (h : Decided s) (ok : HeaderOk i a (channels s.fst))
    (e : (machine plat).logged.exec i a s r s') : Decided s' := by
  obtain ⟨e, hl⟩ := e
  have hl : s'.snd = s.snd ++ [(i, ⟨a, r⟩)] := hl
  have split {b k j e'} (hd : DecidedAt b k j e' s'.snd) := (hl ▸ hd).of_snoc
  -- An end that has been decided is not decided again.
  have apart {b k j e'} (hd : DecidedAt b k j e' s.snd) (hn : Decides b ⟨a, r⟩) : False :=
    absurd (h.past hd) (Nat.not_le_of_lt (decides_of_exec e hn).left)
  constructor
  · intro b k k' j j' e₁ e₂ h₁ h₂
    rcases (split h₁).right with old | ⟨rfl, hx⟩ <;> rcases (split h₂).right with old' | ⟨rfl, hx'⟩
    · exact h.once old old'
    · cases hx'; exact (apart old h₂.decides).elim
    · cases hx; exact (apart old' h₁.decides).elim
    · rfl
  · intro b k j e' hd
    rcases (split hd).right with old | ⟨_, hx⟩
    · exact Nat.le_trans (h.past old) (state_of_exec ok e (split hd).left).left
    · cases hx; exact (decides_of_exec e hd.decides).right.left
  · intro b k j n hd
    rcases (split hd).right with old | ⟨_, hx⟩
    · have at_ : (channels s.fst).state b = 4 := h.retired old
      exact ((state_of_exec ok e (split hd).left).right (Nat.le_of_eq at_.symm)).trans at_
    · have hx : ⟨a, r⟩ = retires b n := congrArg Prod.snd hx
      exact (decides_of_exec e (hx.symm ▸ hd.decides)).right.right n hx

end

theorem Decided.start {s : State} : Decided (s, []) where
  once h    := absurd h.lt_length (Nat.not_lt_zero _)
  past h    := absurd h.lt_length (Nat.not_lt_zero _)
  retired h := absurd h.lt_length (Nat.not_lt_zero _)

end Header

-- What the threads that follow the protocol of the header know of the log.
def decisionProtocol (plat : Platform) : Protocol ((machine plat).logged.under (headerProtocol plat).logged) where
  inv s             := (channels s.fst).Inv ∧ Header.Decided s
  ok _ _ _          := True
  preserves hi _ e  := ⟨hi.left.change (.of_exec e.right.right e.left.left), hi.right.exec e.right.right e.left⟩
