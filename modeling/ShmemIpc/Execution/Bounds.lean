import ShmemIpc.Execution.Messages

-- The action reads or writes this byte.
def Act.Touches (base : FileId) (addr : Nat) : Act → Prop
  | readByte b p | writeByte b p _ => b = base ∧ p = addr
  | _                              => False

-- How the private part of an endpoint is used in one call.
namespace Bounds

open Assertion Code Discipline Effects

-- The last `k` events are the first `k` steps of a copy.
structure Copying (r : Area) (cursor len k : Nat) (t : Events) : Prop where
  done : ∃ t₀ front, t = t₀ ++ front ∧ front.length = k ∧
    ∀ j (hj : j < front.length), Act.Touches r.base (r.address cursor len j) (front[j].fst)
  left : k < len

-- The action is the next step of a copy of `len` bytes, of which it copies one.
structure Copies (r : Area) (cursor len : Nat) (t : Events) (a : Act) : Prop where
  step   : ∃ k, Copying r cursor len k t ∧ a.Touches r.base (r.address cursor len k)
  holds  : r.Holds cursor len

-- A message of so many bytes fits into the ring that the receiver `h` belongs to.
def Fits (h : Handle) (n : Nat) (t : Events) : Prop :=
  ∃ x, ⟨.getReceiver h, x⟩ ∈ t ∧ n + MSG_HEADER_SIZE ≤ x.ringDataSize

-- What the steps of a call may do. It copies into the ring with its sender, and with its receiver it copies
-- out of the ring headers and messages that fit. It keeps the place of its halves. A buffer of the
-- caller is overwritten from the front.
def InBounds (h : Handle) (t : Events) : Act → Prop
  | .writeByte b p v   => ∃ x cursor len, ⟨.getSender h, x⟩ ∈ t ∧ Copies x.area cursor len t (.writeByte b p v)
  | .readByte b p      => ∃ x cursor len, ⟨.getReceiver h, x⟩ ∈ t ∧ Copies x.area cursor len t (.readByte b p) ∧
      (len = MSG_HEADER_SIZE ∨ len + MSG_HEADER_SIZE ≤ x.ringDataSize)
  | .setSender k y     => k = h ∧ ∃ x, ⟨.getSender h, x⟩ ∈ t ∧ y.area = x.area
  | .setReceiver k y   => k = h ∧ ∃ x, ⟨.getReceiver h, x⟩ ∈ t ∧ y.area = x.area
  | .setBuf b          =>
      ∃ c bs, ⟨.getBuf, c⟩ ∈ t ∧ Fits h bs.length t ∧ bs.length ≤ c.length ∧ b = bs ++ c.drop bs.length
  | .setOut xs         => ∃ ys p, ⟨.getOut, ys⟩ ∈ t ∧ Fits h p.length t ∧ xs = ys ++ [p]
  | _                  => True

-- A half is where it was.
def Stands (t : Events) : (a : Act) → a.Ret → Prop
  | .getSender k, x   => x.area.Valid ∧ ∀ y, ⟨.getSender k, y⟩ ∈ t → x.area = y.area
  | .getReceiver k, x => x.area.Valid ∧ ∀ y, ⟨.getReceiver k, y⟩ ∈ t → x.area = y.area
  | _, _              => True

def bounded (h : Handle) : Discipline Act Act.Ret where
  may := Stands
  ok  := InBounds h

-- The actions of which nothing is asked.
def Free : Act → Prop
  | .writeByte .. | .readByte .. | .setSender .. | .setReceiver .. | .setBuf _ | .setOut _ => False
  | _                                                                                      => True

theorem Free.of_ends {a : Act} (h : a.Ends) : Free a := by
  cases a <;> trivial

theorem Free.of_signals {a : Act} (h : a.Signals) : Free a := by
  cases a <;> trivial

theorem Free.of_waits {w : Word} {a : Act} (h : Waiting.Waits w a) : Free a := by
  cases a <;> trivial

section
variable {h : Handle} {P : Events → Prop} {E : Error → (bounded h).Knows} {α : Type}

theorem free_keeps (hp : Grows P) : (known P : (bounded h).Knows).Keeps Free := by
  refine keeps_of_snoc (fun {t a} ha _ => ?_) fun _ ht => hp ht
  cases a <;> trivial

theorem free_spec {F : Error → Prop} {p : Routine α} (hp : Grows P) (h' : Code.Only Free F p) :
    Spec (known P : (bounded h).Knows) p (fun _ => known P) (fun _ => known P) :=
  (Spec.only (free_keeps hp) h').post (fun _ => le_rfl) fun _ _ _ hs => hs.left

-- An action whose answer is remembered.
theorem seen_spec {a : Act} (ha : Free a) (hp : Grows P) {q : a.Ret → Prop} (hq : ∀ {t r}, P t → Stands t a r → q r)
    {f : a.Ret → Routine α} {M : α → (bounded h).Knows}
    (hf : ∀ r, q r → Spec (known fun t => P t ∧ ⟨a, r⟩ ∈ t) (f r) M E) : Spec (known P) (perform a >>= f) M E := by
  refine .learn (free_keeps hp) ha (fun r => known fun t => (⟨a, r⟩ : Event Act Act.Ret) ∈ t) q
    (fun t r t' _ ht e => ?_) hf
  obtain ⟨may, rfl⟩ := e
  exact ⟨by simp, hq ht may⟩

theorem free_perform {a : Act} (ha : Free a) (hp : Grows P) : Spec (known P) (perform a) (fun _ => known P) E :=
  .perform (fun _ => (free_keeps hp).ok ha) fun _ _ _ => (free_keeps hp).kept ha

-- The halves of the call.

theorem getSender_spec (hp : Grows P) {f : RingSender → Routine α} {M : α → (bounded h).Knows}
    (hf : ∀ x : RingSender, x.area.Valid → Spec (known fun t => P t ∧ ⟨.getSender h, x⟩ ∈ t) (f x) M E) :
    Spec (known P) (getSender h >>= f) M E :=
  seen_spec (a := .getSender h) trivial hp (q := fun x : RingSender => x.area.Valid) (fun _ stands => stands.left) hf

theorem getReceiver_spec (hp : Grows P) {f : RingReceiver → Routine α} {M : α → (bounded h).Knows}
    (hf : ∀ x : RingReceiver, x.area.Valid → Spec (known fun t => P t ∧ ⟨.getReceiver h, x⟩ ∈ t) (f x) M E) :
    Spec (known P) (getReceiver h >>= f) M E :=
  seen_spec (a := .getReceiver h) trivial hp (q := fun x : RingReceiver => x.area.Valid)
    (fun _ stands => stands.left) hf

-- Copies. `k` bytes have been copied since `P` was known.

variable {r : Area} {cursor len k : Nat}

def copying (h : Handle) (P : Events → Prop) (r : Area) (cursor len k : Nat) : (bounded h).Knows :=
  known fun t => ∃ t₀ front, t = t₀ ++ front ∧ P t₀ ∧ front.length = k ∧
    ∀ j (hj : j < front.length), Act.Touches r.base (r.address cursor len j) (front[j].fst)

theorem copying_zero : known P ≤ copying h P r cursor len 0 :=
  fun t _ ht => ⟨t, [], (List.append_nil t).symm, ht, rfl, nofun⟩

theorem copying_le (hp : Grows P) : copying h P r cursor len k ≤ known P :=
  fun t _ ⟨_, _, same, ht, _⟩ => show P t from same ▸ hp.append ht

-- The copies that a call may make, where `P` is known.
def Permits (h : Handle) (P : Events → Prop) (r : Area) (cursor len : Nat) (a : Act) : Prop :=
  ∀ t, P t → Copies r cursor len t a → InBounds h t a

theorem touch_spec (hp : Grows P) (hr : r.Holds cursor len) (hk : k < len) {a : Act}
    (ha : a.Touches r.base (r.address cursor len k)) (ok : Permits h P r cursor len a) {f : a.Ret → Routine α}
    {M : α → (bounded h).Knows} (hf : ∀ v, Spec (copying h P r cursor len (k + 1)) (f v) M E) :
    Spec (copying h P r cursor len k) (perform a >>= f) M E := by
  refine .act (fun _ => copying h P r cursor len (k + 1)) (fun t hi ht => ?_) (fun t v t' _ ht e => ?_) hf
  · refine ok t (copying_le hp t hi ht) ⟨⟨k, ⟨?_, hk⟩, ha⟩, hr⟩
    obtain ⟨t₀, front, same, _, rest⟩ := ht
    exact ⟨t₀, front, same, rest⟩
  · obtain ⟨_, rfl⟩ := e
    obtain ⟨t₀, front, rfl, ht, rfl, touched⟩ := ht
    refine ⟨t₀, front ++ [⟨a, v⟩], List.append_assoc .., ht, by simp, fun j hj => ?_⟩
    by_cases last : j < front.length
    case pos => rw [List.getElem_append_left last]; exact touched j last
    case neg =>
      obtain rfl : j = front.length := by simp at hj; omega
      simpa using ha

theorem copyTo_spec (hp : Grows P) (hr : r.Holds cursor len) {d : Nat} {l : Bytes}
    (ok : ∀ p v, Permits h P r cursor len (.writeByte r.base p v)) (hk : k + l.length ≤ len)
    (ha : ∀ j < l.length, r.address cursor len (k + j) = d + j) :
    Spec (copying h P r cursor len k) (copyTo r.base d l) (fun _ => copying h P r cursor len (k + l.length)) E := by
  induction l generalizing k d
  case nil => exact .pure le_rfl
  case cons b l ih =>
    have first : r.address cursor len k = d := ha 0 (Nat.zero_lt_succ _)
    have size : (b :: l).length = l.length + 1 := rfl
    refine touch_spec hp hr (by omega) (a := .writeByte r.base d b) ⟨rfl, first.symm⟩ (ok _ _) fun _ => ?_
    have rest := ih (k := k + 1) (d := d + 1) (by omega) fun j hj => by
      rw [Nat.add_right_comm, Nat.add_assoc, ha (j + 1) (by omega)]
      omega
    rwa [Nat.add_assoc, Nat.add_comm 1, ← size] at rest

theorem copyFrom_spec (hp : Grows P) (hr : r.Holds cursor len) {d n : Nat}
    (ok : ∀ p, Permits h P r cursor len (.readByte r.base p)) (hk : k + n ≤ len)
    (ha : ∀ j < n, r.address cursor len (k + j) = d + j) :
    Spec (copying h P r cursor len k) (copyFrom r.base d n)
      (fun bs => copying h P r cursor len (k + n) ⊓ const (bs.length = n)) E := by
  induction n generalizing k d
  case zero => exact .pure fun _ _ hs => ⟨hs, rfl⟩
  case succ n ih =>
    have first : r.address cursor len k = d := ha 0 (Nat.zero_lt_succ _)
    refine touch_spec hp hr (by omega) (a := .readByte r.base d) ⟨rfl, first.symm⟩ (ok _) fun b => ?_
    have rest := ih (k := k + 1) (d := d + 1) (by omega) fun j hj => by
      rw [Nat.add_right_comm, Nat.add_assoc, ha (j + 1) (by omega)]
      omega
    rw [Nat.add_assoc, Nat.add_comm 1] at rest
    exact .bind rest fun bs => .pure fun _ _ hs => ⟨hs.left, congrArg (· + 1) hs.right⟩

theorem writeRing_spec (hp : Grows P) {x : RingSender} (hx : ∀ t, P t → ⟨.getSender h, x⟩ ∈ t) (valid : x.area.Valid)
    {bs : Bytes} (fits : bs.length ≤ x.ringDataSize) : Spec (known P) (x.writeRing cursor bs) (fun _ => known P) E := by
  have hr : x.area.Holds cursor bs.length := Area.holds valid fits
  have ok (p : Nat) (v : UInt8) : Permits h P x.area cursor bs.length (.writeByte x.base p v) :=
    fun t ht copies => ⟨x, cursor, bs.length, hx t ht, copies⟩
  have split : x.area.firstLen cursor bs.length = min bs.length (x.ringDataSize - (cursor &&& x.ringMask)) := rfl
  have slice := hr.slice
  refine .bind (M := fun _ => copying h P x.area cursor bs.length (x.area.firstLen cursor bs.length)) ?_ fun _ => ?_
  · have front := copyTo_spec (E := E) (k := 0) (d := x.dataOffset + (cursor &&& x.ringMask)) (r := x.area)
      (l := bs.take (x.area.firstLen cursor bs.length)) hp hr ok (by rw [List.length_take]; omega) fun j hj => by
        rw [List.length_take] at hj
        rw [Nat.zero_add, Area.address_front (by omega)]
        rfl
    refine (front.pre copying_zero).post (fun _ => ?_) fun _ => le_rfl
    rw [Nat.zero_add, List.length_take, Nat.min_eq_left slice]
    exact le_rfl
  · split
    case isFalse => exact .pure (copying_le hp)
    case isTrue more =>
      have back := copyTo_spec (E := E) (k := x.area.firstLen cursor bs.length) (d := x.dataOffset) (r := x.area)
        (l := bs.drop (x.area.firstLen cursor bs.length)) hp hr ok (by rw [List.length_drop]; omega) fun j _ => by
          rw [Area.address_back (Nat.le_add_right _ _), Nat.add_sub_cancel_left]
          rfl
      exact back.post (fun _ => copying_le hp) fun _ => le_rfl

theorem readRing_spec (hp : Grows P) {x : RingReceiver} (hx : ∀ t, P t → ⟨.getReceiver h, x⟩ ∈ t) (valid : x.area.Valid)
    (fits : len = MSG_HEADER_SIZE ∨ len + MSG_HEADER_SIZE ≤ x.ringDataSize) :
    Spec (known P) (x.readRing cursor len) (fun bs => known fun t => P t ∧ bs.length = len) E := by
  have inside : len ≤ x.ringDataSize := by
    have small : 64 ≤ x.ringDataSize := valid.size
    unfold MSG_HEADER_SIZE at fits
    omega
  have hr : x.area.Holds cursor len := Area.holds valid inside
  have ok (p : Nat) : Permits h P x.area cursor len (.readByte x.base p) :=
    fun t ht copies => ⟨x, cursor, len, hx t ht, copies, fits⟩
  have slice := hr.slice
  have front := copyFrom_spec (E := E) (k := 0) (d := x.dataOffset + (cursor &&& x.ringMask)) (r := x.area)
    (n := x.area.firstLen cursor len) hp hr ok (by omega) fun j hj => by
      rw [Nat.zero_add, Area.address_front hj]
      rfl
  rw [Nat.zero_add] at front
  refine .bind (front.pre copying_zero) fun bs =>
    .pre (P := copying h P x.area cursor len _ ⊓ const _) (.assume fun hl => ?_)
    fun _ _ hs => hs
  split
  case isFalse all =>
    have all : ¬ x.area.firstLen cursor len < len := all
    exact .pure fun t hi ht => ⟨copying_le hp t hi ht, by omega⟩
  case isTrue more =>
    have back := copyFrom_spec (E := E) (k := x.area.firstLen cursor len) (d := x.dataOffset) (r := x.area)
      (n := len - x.area.firstLen cursor len) hp hr ok (by omega) fun j _ => by
        rw [Area.address_back (Nat.le_add_right _ _), Nat.add_sub_cancel_left]
        rfl
    refine .bind back fun cs => .pure fun t hi ht => ⟨copying_le hp t hi ht.left, ?_⟩
    rw [List.length_append, hl, show cs.length = _ from ht.right]
    omega

-- Sending.

-- A message of so many bytes fits into the ring that the sender `h` belongs to.
def Room (h : Handle) (n : Nat) (t : Events) : Prop :=
  ∃ x, ⟨.getSender h, x⟩ ∈ t ∧ n + MSG_HEADER_SIZE ≤ x.ringDataSize

def Any (_ : Events) : Prop :=
  True

theorem Any.grows : Grows Any :=
  fun _ => trivial

theorem Room.grows {n : Nat} : Grows (Room h n) :=
  fun ⟨x, hx, fits⟩ => ⟨x, mem_grows hx, fits⟩

theorem Fits.grows {n : Nat} : Grows (Fits h n) :=
  fun ⟨x, hx, fits⟩ => ⟨x, mem_grows hx, fits⟩

theorem setSender_spec (hp : Grows P) {x y : RingSender} (hx : ∀ t, P t → ⟨.getSender h, x⟩ ∈ t)
    (same : y.area = x.area) :
    Spec (known P) (setSender h y) (fun _ => known P) E :=
  .perform (fun t _ ht => ⟨rfl, x, hx t ht, same⟩) fun _ _ _ _ ht e => e.right ▸ hp ht

theorem publishMessage_spec {wc : Nat} {payload : Bytes} :
    Spec (known (Room h payload.length)) (RingSender.publishMessage h wc payload) (fun _ => known Any) E := by
  refine seen_spec (a := .getSender h) trivial Room.grows
    (q := fun x : RingSender => x.area.Valid ∧ payload.length + MSG_HEADER_SIZE ≤ x.ringDataSize) ?_
    fun self ⟨valid, fits⟩ => ?_
  · rintro t x ⟨y, hy, fits⟩ ⟨valid, stands⟩
    have same : x.ringDataSize = y.ringDataSize := congrArg Area.size (stands y hy)
    exact ⟨valid, same ▸ fits⟩
  have hp : Grows fun t => Room h payload.length t ∧ ⟨.getSender h, self⟩ ∈ t := Room.grows.and mem_grows
  have hx (t : Events) (ht : Room h payload.length t ∧ ⟨.getSender h, self⟩ ∈ t) : ⟨.getSender h, self⟩ ∈ t := ht.right
  have word (bs : Bytes) (hb : bs.length = 4) : bs.length ≤ self.ringDataSize := by
    have size : 64 ≤ self.ringDataSize := valid.size
    omega
  refine .bind (writeRing_spec hp hx valid (word _ rfl)) fun _ => ?_
  refine .bind (writeRing_spec hp hx valid (word _ rfl)) fun _ => ?_
  refine .bind (writeRing_spec hp hx valid (by omega)) fun _ => ?_
  refine .skip (free_keeps hp) (by trivial) fun _ => .bind (setSender_spec hp hx rfl) fun _ => ?_
  refine .bind (setSender_spec hp hx rfl) fun _ => .pre (P := known Any) ?_ fun _ _ _ => trivial
  refine .skip (free_keeps @Any.grows) (by trivial) fun _ => .skip (free_keeps @Any.grows) (by trivial) fun parked => ?_
  split
  case isTrue  => exact free_perform (by trivial) @Any.grows
  case isFalse => exact .pure le_rfl

theorem messageSize_spec {x : RingSender} {n : Nat} : Spec (known P : (bounded h).Knows) (x.messageSize n)
    (fun _ => known fun t => P t ∧ n + MSG_HEADER_SIZE ≤ x.ringDataSize) (fun _ => known P) := by
  unfold RingSender.messageSize
  simp only
  split
  case isTrue  => exact .throw le_rfl
  case isFalse => exact .pure fun t _ ht => ⟨ht, by omega⟩

theorem checkReady_spec (hp : Grows P) {k : Handle} : Spec (known P : (bounded h).Knows) (SharedChannel.checkReady k)
    (fun _ => known P) (fun _ => known P) :=
  free_spec hp (checkReady_ends.weaken fun _ => Free.of_ends)

theorem hasSpace_spec (hp : Grows P) {x : RingSender} {wc n : Nat} :
    Spec (known P : (bounded h).Knows) (x.hasSpace wc n) (fun _ => known P) E :=
  .skip (free_keeps hp) (by trivial) fun _ => .skip (free_keeps hp) (by trivial) fun _ => .pure le_rfl

theorem trySendOnce_spec {payload : Bytes} : Spec (known Any) (RingSender.trySendOnce h payload)
    (fun _ => known Any) (fun _ => (known Any : (bounded h).Knows)) := by
  refine getSender_spec @Any.grows fun self valid => ?_
  have hp : Grows fun t => Any t ∧ ⟨.getSender h, self⟩ ∈ t := Grows.and @Any.grows mem_grows
  refine .bind ((checkReady_spec hp).post (fun _ => le_rfl) fun _ _ _ _ => trivial) fun ready => ?_
  cases ready
  case false => exact .pure fun _ _ _ => trivial
  refine .bind (messageSize_spec.post (fun _ => le_rfl) fun _ _ _ _ => trivial) fun n => ?_
  have hq : Grows fun t => (Any t ∧ ⟨.getSender h, self⟩ ∈ t) ∧ payload.length + MSG_HEADER_SIZE ≤ self.ringDataSize :=
    fun ⟨h, fits⟩ => ⟨hp h, fits⟩
  have publish {wc : Nat} : Spec (known fun t => (Any t ∧ ⟨.getSender h, self⟩ ∈ t) ∧
    payload.length + MSG_HEADER_SIZE ≤ self.ringDataSize)
      (do RingSender.publishMessage h wc payload; Pure.pure TrySendResult.sent) (fun _ => known Any)
      (fun _ => (known Any : (bounded h).Knows)) := by
    refine .pre (.bind publishMessage_spec fun _ => .pure le_rfl) fun t _ ht => ⟨self, ht.left.right, ht.right⟩
  refine .bind (hasSpace_spec hq) fun space => ?_
  cases space
  case true => exact publish
  refine .skip (free_keeps hq) (by trivial) fun rc => ?_
  refine .bind (setSender_spec hq (fun t ht => ht.left.right) rfl) fun _ => .bind (hasSpace_spec hq) fun space => ?_
  cases space
  case true  => exact publish
  case false => exact .pure fun _ _ _ => trivial

theorem spaceCondition_spec (hp : Grows P) {x : RingSender} {wc n : Nat} :
    Spec (known P : (bounded h).Knows) (x.spaceCondition wc n) (fun _ => known P) (fun _ => known P) := by
  refine .bind (checkReady_spec hp) fun ready => ?_
  cases ready
  case false => exact .pure le_rfl
  refine .skip (free_keeps hp) (by trivial) fun rc => .skip (free_keeps hp) (by trivial) fun used => ?_
  refine .skip (free_keeps hp) (by trivial) fun free => ?_
  split
  case isTrue  => exact .pure le_rfl
  case isFalse => exact .pure le_rfl

theorem waitUntil_spec (hp : Grows P) {wait : WaitStrategy} {handle : WaitHandle} {notify parked : Word}
    {timeout : Option Nat} {condition : Routine (Option α)} {Q : Option α → (bounded h).Knows}
    (hq : ∀ v, (Q v).Keeps Free) (again : Q none ≤ known P) (hc : Spec (known P) condition Q (fun _ => known P)) :
    Spec (known P) (wait.waitUntil handle notify parked timeout condition) (fun v => Q (some v)) (fun _ => known P) :=
  Waiting.waitUntil_spec ((free_keeps hp).mono fun _ => Free.of_waits (w := parked))
    (fun v => (hq v).mono fun _ => Free.of_waits) (fun _ => (free_keeps hp).mono fun _ => Free.of_waits)
    ⟨hc, again, again⟩

theorem send_spec {payload : Bytes} {wait : WaitStrategy} {timeout : Option Nat} :
    Spec (known Any) (RingSender.send h payload wait timeout) (fun _ => known Any)
      (fun _ => (known Any : (bounded h).Knows)) := by
  refine getSender_spec @Any.grows fun self _ => .pre (P := known Any) ?_ fun _ _ _ => trivial
  refine .bind messageSize_spec fun n => .pre (P := known Any) ?_ fun _ _ _ => trivial
  refine .bind (free_spec (F := fun _ => False) @Any.grows ((deadlineOf_now (F := fun _ => False)).weaken ?_))
    fun deadline => ?_
  · rintro _ rfl; trivial
  refine .loop (fun _ => known Any) le_rfl fun _ => .bind trySendOnce_spec fun v => ?_
  cases v
  case sent => exact .pure le_rfl
  case full =>
    refine getSender_spec @Any.grows fun self _ => ?_
    have hp : Grows fun t => Any t ∧ ⟨.getSender h, self⟩ ∈ t := Grows.and @Any.grows mem_grows
    refine .bind ((free_spec hp ((remainingUntil_now (F := fun _ => False)).weaken ?_)).post (fun _ => le_rfl)
      fun _ _ _ _ => trivial) fun remaining => ?_
    · rintro _ rfl; trivial
    refine .bind ((waitUntil_spec hp (fun _ => free_keeps hp) le_rfl (spaceCondition_spec hp)).post (fun _ => le_rfl)
      fun _ _ _ _ => trivial) fun rc => ?_
    exact .bind (setSender_spec hp (fun t ht => ht.right) rfl) fun _ => .pure fun _ _ _ => trivial

theorem spinSend_spec {payload : Bytes} : (n : Nat) → Spec (known Any) (Tokio.spinSend h payload n) (fun _ => known Any)
    (fun _ => (known Any : (bounded h).Knows))
  | 0     => trySendOnce_spec
  | n + 1 => .bind trySendOnce_spec fun | .sent => .pure le_rfl | .full => spinSend_spec n

theorem signals_spec (hp : Grows P) {F : Error → Prop} {p : Routine α} (h' : Code.Only Act.Signals F p) :
    Spec (known P : (bounded h).Knows) p (fun _ => known P) (fun _ => known P) :=
  free_spec hp (h'.weaken fun _ => Free.of_signals)

theorem sendAsync_spec {wait : AsyncWait} {payload : Bytes} : Spec (known Any) (Tokio.sendAsync h wait payload)
    (fun _ => known Any) (fun _ => (known Any : (bounded h).Knows)) := by
  refine .loop (fun _ => known Any) le_rfl fun _ => .bind (spinSend_spec _) fun v => ?_
  cases v
  case sent => exact .pure le_rfl
  case full =>
    refine .bind (signals_spec @Any.grows snapshot_signals) fun observed => .bind (spinSend_spec _) fun v => ?_
    cases v
    case sent => exact .pure le_rfl
    case full => exact .bind (signals_spec @Any.grows waitChanged_signals) fun _ => .pure le_rfl

-- Receiving.

def peeked (P : Events → Prop) : Option PeekedMessage → (bounded h).Knows
  | some m => known fun t => P t ∧ Fits h m.payloadLen t
  | none   => known P

theorem peeked_keeps (hp : Grows P) (v : Option PeekedMessage) : (peeked P v : (bounded h).Knows).Keeps Free := by
  cases v
  case none   => exact free_keeps hp
  case some m => exact free_keeps (hp.and Fits.grows)

theorem readMsgHeader_spec (hp : Grows P) {x : RingReceiver} (hx : ∀ t, P t → ⟨.getReceiver h, x⟩ ∈ t)
    (valid : x.area.Valid) :
    Spec (known P) (x.readMsgHeader cursor) (fun _ => known P) E :=
  .bind (readRing_spec hp hx valid (.inl rfl)) fun _ => .pure fun _ _ ht => ht.left

theorem tryPeekMessage_spec (hp : Grows P) : Spec (known P) (RingReceiver.tryPeekMessage h)
    (fun | .ready m => peeked P (some m) | .empty => peeked P none) (fun _ => (known P : (bounded h).Knows)) := by
  refine getReceiver_spec hp fun self valid => ?_
  have hq : Grows fun t => P t ∧ ⟨.getReceiver h, self⟩ ∈ t := hp.and mem_grows
  have back : (known fun t => P t ∧ ⟨.getReceiver h, self⟩ ∈ t) ≤ (known P : (bounded h).Knows) := fun _ _ ht => ht.left
  refine .skip (free_keeps hq) (by trivial) fun wc => .skip (free_keeps hq) (by trivial) fun available => ?_
  split
  case isTrue => exact .pure back
  refine .bind (readMsgHeader_spec hq (fun t ht => ht.right) valid) fun (payloadLen, seq) => ?_
  simp only
  split
  case isTrue => exact .throw back
  case isFalse small =>
    refine .skip (free_keeps hq) (by trivial) fun available => ?_
    split
    case isTrue  => exact .pure back
    case isFalse =>
      refine .pure fun t _ ht => ⟨ht.left, self, ht.right, ?_⟩
      have size : 64 ≤ self.ringDataSize := valid.size
      unfold MSG_HEADER_SIZE at small ⊢
      simp only
      omega

theorem tryPeekOrClosed_spec (hp : Grows P) : Spec (known P) (RingReceiver.tryPeekOrClosed h) (peeked P)
    (fun _ => (known P : (bounded h).Knows)) := by
  refine .bind (tryPeekMessage_spec hp) fun v => ?_
  cases v
  case ready m => exact .pure le_rfl
  refine .skip (free_keeps hp) (by trivial) fun self => .handle (checkReady_spec hp) (fun _ => .pure le_rfl) fun e => ?_
  simp only
  split
  case isFalse => exact .throw le_rfl
  refine .bind (tryPeekMessage_spec hp) fun v => ?_
  cases v
  case ready m => exact .pure le_rfl
  case empty   => exact .throw le_rfl

-- What `commit_current_message` gives to the receiver is where it was.
theorem setReceiver_spec (hp : Grows P) {x y : RingReceiver} (hx : ∀ t, P t → ⟨.getReceiver h, x⟩ ∈ t)
    (same : y.area = x.area) :
    Spec (known P) (setReceiver h y) (fun _ => known P) E :=
  .perform (fun t _ ht => ⟨rfl, x, hx t ht, same⟩) fun _ _ _ _ ht e => e.right ▸ hp ht

theorem commitCurrentMessage_spec (hp : Grows P) {m : PeekedMessage} {copied : Option Bytes} :
    Spec (known P) (RingReceiver.commitCurrentMessage h m copied) (fun _ => known P)
      (fun _ => (known P : (bounded h).Knows)) := by
  refine .bind (M := fun _ => known P) ?_ fun _ => ?_
  · refine getReceiver_spec hp fun self _ => ?_
    split
    case isTrue  => exact .throw fun _ _ ht => ht.left
    case isFalse =>
      have hq : Grows fun t => P t ∧ ⟨.getReceiver h, self⟩ ∈ t := hp.and mem_grows
      have set := setReceiver_spec (E := fun _ => known P) (x := self)
        (y := { self with expectedSeq := wrap32 (self.expectedSeq + 1) }) @hq (fun t ht => ht.right) rfl
      exact set.post (fun _ _ _ ht => ht.left) fun _ => le_rfl
  refine getReceiver_spec hp fun self _ => ?_
  have hq : Grows fun t => P t ∧ ⟨.getReceiver h, self⟩ ∈ t := hp.and mem_grows
  refine .skip (free_keeps hq) (by trivial) fun _ =>
    .bind (setReceiver_spec (x := self) hq (fun t ht => ht.right) rfl) fun _ => ?_
  refine .skip (free_keeps hq) (by trivial) fun _ => .skip (free_keeps hq) (by trivial) fun parked => ?_
  split
  case isTrue  => exact (free_perform (by trivial) hq).post (fun _ _ _ ht => ht.left) fun _ => le_rfl
  case isFalse => exact .pure fun _ _ ht => ht.left

theorem copyCurrentMessage_spec (hp : Grows P) {m : PeekedMessage} {n : Nat} :
    Spec (peeked P (some m)) (RingReceiver.copyCurrentMessage h m n)
      (fun bs => known fun t => (P t ∧ Fits h m.payloadLen t) ∧ bs.length = m.payloadLen)
      (fun _ => (known P : (bounded h).Knows)) := by
  unfold RingReceiver.copyCurrentMessage
  split
  case isTrue => exact .throw fun _ _ ht => ht.left
  have hq : Grows fun t => P t ∧ Fits h m.payloadLen t := hp.and Fits.grows
  refine seen_spec (a := .getReceiver h) trivial hq
    (q := fun x : RingReceiver => x.area.Valid ∧ m.payloadLen + MSG_HEADER_SIZE ≤ x.ringDataSize) ?_
    fun self ⟨valid, fits⟩ => ?_
  · rintro t x ⟨_, y, hy, fits⟩ ⟨valid, stands⟩
    have same : x.ringDataSize = y.ringDataSize := congrArg Area.size (stands y hy)
    exact ⟨valid, same ▸ fits⟩
  exact (readRing_spec (hq.and mem_grows) (fun t ht => ht.right) valid (.inr fits)).post
    (fun bs t _ ht => ⟨ht.left.left, ht.right⟩) fun _ => le_rfl

theorem takeMessage_spec (hp : Grows P) {m : PeekedMessage} : Spec (peeked P (some m)) (RingReceiver.takeMessage h m)
    (fun bs => known fun t => P t ∧ Fits h bs.length t) (fun _ => (known P : (bounded h).Knows)) := by
  refine .bind (copyCurrentMessage_spec hp) fun bs => ?_
  have hq : Grows fun t => P t ∧ Fits h bs.length t := hp.and Fits.grows
  refine .pre (P := known fun t => P t ∧ Fits h bs.length t) ?_ fun t _ ht =>
    ⟨ht.left.left, ht.right.symm ▸ ht.left.right⟩
  exact .bind ((commitCurrentMessage_spec hq).post (fun _ => le_rfl) fun _ _ _ ht => ht.left) fun _ => .pure le_rfl

-- The length that `recv_into` reports.
def Filled (h : Handle) (n : Nat) (t : Events) : Prop :=
  Fits h n t ∧ ∃ c : Bytes, ⟨.getBuf, c⟩ ∈ t ∧ n ≤ c.length

theorem takeMessageInto_spec {m : PeekedMessage} : Spec (peeked Any (some m)) (RingReceiver.takeMessageInto h m)
    (fun n => known (Filled h n)) (fun _ => (known Any : (bounded h).Knows)) := by
  refine seen_spec (a := .getBuf) trivial (Grows.and @Any.grows Fits.grows) (q := fun _ => True)
    (fun _ _ => trivial) fun c _ => ?_
  have hp : Grows fun t => Any t ∧ ⟨.getBuf, c⟩ ∈ t := Grows.and @Any.grows mem_grows
  split
  case isTrue =>
    refine .bind (.pre (P := known Any) ((commitCurrentMessage_spec @Any.grows).post (fun _ => le_rfl)
      fun _ _ _ _ => trivial)
      fun _ _ _ => trivial) fun _ => .throw fun _ _ _ => trivial
  case isFalse small =>
    have enough : m.payloadLen ≤ c.length := Nat.le_of_not_lt small
    refine .pre (P := peeked (fun t => Any t ∧ ⟨.getBuf, c⟩ ∈ t) (some m)) ?_ fun t _ ht =>
      ⟨⟨trivial, ht.right⟩, ht.left.right⟩
    refine .bind ((copyCurrentMessage_spec hp).post (fun _ => le_rfl) fun _ _ _ _ => trivial) fun bs => ?_
    have hq : Grows fun t => (Any t ∧ ⟨.getBuf, c⟩ ∈ t) ∧ Fits h m.payloadLen t := hp.and Fits.grows
    refine .act (fun _ => known fun t => (Any t ∧ ⟨.getBuf, c⟩ ∈ t) ∧ Fits h m.payloadLen t) (fun t _ ht => ?_)
      (fun t _ t' _ ht e => e.right ▸ hq ht.left) fun _ => ?_
    · have same : bs.length = m.payloadLen := ht.right
      exact ⟨c, bs, ht.left.left.right, same ▸ ht.left.right, same ▸ enough, by rw [same]⟩
    refine .bind ((commitCurrentMessage_spec hq).post (fun _ => le_rfl) fun _ _ _ _ => trivial) fun _ => ?_
    exact .pure fun t _ ht => ⟨ht.right, c, ht.left.right, enough⟩

theorem waitForMessage_spec (hp : Grows P) {wait : WaitStrategy} {timeout : Option Nat} :
    Spec (known P) (RingReceiver.waitForMessage h wait timeout) (fun m => peeked P (some m))
      (fun _ => (known P : (bounded h).Knows)) :=
  .skip (free_keeps hp) (by trivial) fun _ => waitUntil_spec hp (peeked_keeps hp) le_rfl (tryPeekOrClosed_spec hp)

theorem spinPeekOrClosed_spec (hp : Grows P) : (n : Nat) → Spec (known P) (Tokio.spinPeekOrClosed h n) (peeked P)
    (fun _ => (known P : (bounded h).Knows))
  | 0     => tryPeekOrClosed_spec hp
  | n + 1 => .bind (tryPeekOrClosed_spec hp) fun | some _ => .pure le_rfl | none => spinPeekOrClosed_spec hp n

theorem peekAsync_spec (hp : Grows P) {wait : AsyncWait} : Spec (known P) (Tokio.peekAsync h wait)
    (fun m => peeked P (some m)) (fun _ => (known P : (bounded h).Knows)) := by
  refine .loop (fun _ => known P) le_rfl fun _ => .bind (spinPeekOrClosed_spec hp _) fun v => ?_
  cases v
  case some m => exact .pure le_rfl
  case none =>
    refine .bind (signals_spec hp snapshot_signals) fun observed => .bind (spinPeekOrClosed_spec hp _) fun v => ?_
    cases v
    case some m => exact .pure le_rfl
    case none   => exact .bind (signals_spec hp waitChanged_signals) fun _ => .pure le_rfl

theorem drainReadyWithSpin_spec {max spin : Nat} : Spec (known Any) (Tokio.drainReadyWithSpin h max spin)
    (fun _ => known Any) (fun _ => (known Any : (bounded h).Knows)) := by
  have past {Q : Events → Prop} : known Q ≤ (known Any : (bounded h).Knows) := fun _ _ _ => trivial
  refine .bind (free_perform trivial @Any.grows) fun out => ?_
  refine .bind (M := fun _ => known Any) (.loop (fun _ => known Any) le_rfl fun _ => ?_) fun _ => ?_
  · refine seen_spec (a := .getOut) trivial @Any.grows (q := fun _ => True) (fun _ _ => trivial) fun xs _ => ?_
    have hp : Grows fun t => Any t ∧ ⟨.getOut, xs⟩ ∈ t := Grows.and @Any.grows mem_grows
    split
    case isFalse => exact .pure past
    refine .handle (spinPeekOrClosed_spec hp spin) (fun v => ?_) fun e => ?_
    · cases v
      case none => exact .pure past
      case some m =>
        refine .bind ((takeMessage_spec hp).post (fun _ => le_rfl) fun _ => past) fun bs => ?_
        refine .act (fun _ => known Any) (fun t _ ht => ⟨xs, bs, ht.left.right, ht.right, rfl⟩)
          (fun _ _ _ _ _ _ => trivial) fun _ => ?_
        exact .pure le_rfl
    · simp only
      split
      case isTrue  => exact .pure past
      case isFalse => exact .throw past
  · exact .bind (free_perform trivial @Any.grows) fun _ => .pure le_rfl

theorem recvManyAsync_spec {wait : AsyncWait} {max : Nat} : Spec (known Any) (Tokio.recvManyAsync h wait max)
    (fun _ => known Any) (fun _ => (known Any : (bounded h).Knows)) := by
  unfold Tokio.recvManyAsync
  split
  case isTrue => exact .pure le_rfl
  refine .loop (fun _ => known Any) le_rfl fun _ => .bind drainReadyWithSpin_spec fun k => ?_
  split
  case isTrue => exact .pure le_rfl
  refine .bind (signals_spec @Any.grows snapshot_signals) fun observed => .bind drainReadyWithSpin_spec fun k => ?_
  split
  case isTrue  => exact .pure le_rfl
  case isFalse => exact .bind (signals_spec @Any.grows waitChanged_signals) fun _ => .pure le_rfl

end

end Bounds
