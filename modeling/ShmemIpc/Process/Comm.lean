import ShmemIpc.Code.Process
import ShmemIpc.Library.Alone
import ShmemIpc.Library.Utf8
import ShmemIpc.Process.Stat

-- What the observer of a process finds out from the bytes that the kernel shows of it.

open Text

-- `fs::read_to_string`
def readToString (b : Bytes) : Except IoError (List Char) :=
  match Utf8.decode b with
  | some text => .ok text
  | none      => .error ⟨.invalidData, "stream did not contain valid UTF-8"⟩

theorem readToString_encode {t : List Char} : readToString (Utf8.encode t) = .ok t := by
  simp [readToString, Utf8.decode_encode]

theorem readToString_invalid {b : Bytes} (h : ¬ Utf8.Valid b) :
    readToString b = .error ⟨.invalidData, "stream did not contain valid UTF-8"⟩ := by
  simp [readToString, Utf8.decode_eq_none.mpr h]

theorem error_of_readToString {b : Bytes} {e : IoError} (h : readToString b = .error e) : e.kind ≠ .notFound := by
  unfold readToString at h
  split at h
  case h_1 => cases h
  case h_2 => cases h; simp

-- A process as the kernel shows it: its PID, its name, its state, and the other fields of its line. The birth
-- is the field 22.
structure Proc where
  pid       : Nat
  comm      : Bytes
  state     : Char
  fields    : List Int
  birth     : Nat
  others    : List Int
  pid_pos   : 0 < pid
  comm_ne   : 0 ∉ comm
  letter    : state.isAlpha
  length    : fields.length = 18
  birth_lt  : birth < 2 ^ 64

namespace Proc

def Lives (x : Proc) : Prop :=
  x.state ∉ ['Z', 'X', 'x']

instance {x : Proc} : Decidable x.Lives :=
  inferInstanceAs (Decidable (_ ∉ _))

-- The kernel escapes line breaks and backslashes in a name.
def escape (b : UInt8) : Bytes :=
  if b = 0x0A then [0x5C, 0x6E] else if b = 0x5C then [0x5C, 0x5C] else [b]

def decimal : Int → List Char
  | .ofNat n   => Nat.toDigits 10 n
  | .negSucc n => '-' :: Nat.toDigits 10 (n + 1)

-- The words behind the state.
def numbers (x : Proc) : List (List Char) :=
  x.fields.map decimal ++ Nat.toDigits 10 x.birth :: x.others.map decimal

def behind (x : Proc) : List Char :=
  x.state :: x.numbers.flatMap (' ' :: ·) ++ ['\n']

-- The contents of `/proc/<pid>/stat`.
def line (x : Proc) : Bytes :=
  Utf8.encode (Nat.toDigits 10 x.pid ++ [' ', '(']) ++ x.comm.flatMap escape ++ Utf8.encode (separator ++ x.behind)

variable {x : Proc}

theorem valid_escape {b c : Bytes} : Utf8.Valid (b ++ c.flatMap escape) ↔ Utf8.Valid (b ++ c) := by
  induction c generalizing b
  case nil => simp
  case cons a c ih =>
    have rest := ih (b := [])
    by_cases special : a = 0x0A ∨ a = 0x5C
    case pos =>
      obtain ⟨d, he, hd⟩ : ∃ d, escape a = [0x5C, d] ∧ d < 0x80 := by
        rcases special with rfl | rfl
        · exact ⟨0x6E, by rfl, by decide⟩
        · exact ⟨0x5C, by rfl, by decide⟩
      have small : a < 0x80 := by rcases special with rfl | rfl <;> decide
      have between : Utf8.Valid (d :: c.flatMap escape) ↔ Utf8.Valid (c.flatMap escape) := by
        simpa [Utf8.Valid.nil] using Utf8.valid_append_cons (x := []) (y := c.flatMap escape) hd
      rw [List.flatMap_cons, he, Utf8.valid_append_cons small]
      refine (Utf8.valid_append_cons (by decide)).trans (and_congr_right' ?_)
      simpa using between.trans rest
    case neg =>
      have he : escape a = [a] := by simp [escape, not_or.mp special]
      simpa [he] using ih (b := b ++ [a])

theorem line_eq : x.line = Utf8.encode (Nat.toDigits 10 x.pid ++ [' ']) ++
    0x28 :: (x.comm.flatMap escape ++ 0x29 :: Utf8.encode (' ' :: x.behind)) := by
  have opening : String.utf8EncodeChar '(' = [0x28] := by rfl
  have closing : String.utf8EncodeChar ')' = [0x29] := by rfl
  simp [line, opening, closing]

theorem valid_line : Utf8.Valid x.line ↔ Utf8.Valid x.comm := by
  rw [line_eq, Utf8.valid_append_cons (by decide), Utf8.valid_append_cons (by decide)]
  have name : Utf8.Valid (x.comm.flatMap escape) ↔ Utf8.Valid x.comm := valid_escape (b := [])
  rw [name, and_iff_right .encode, and_iff_left .encode]

-- The fields.

theorem toDigits_plain {n : Nat} {c : Char} (hc : c ∈ Nat.toDigits 10 n) : isWhitespace c = false ∧ c ≠ ')' := by
  have digit := Nat.isDigit_of_mem_toDigits (by omega) (by omega) hc
  simp only [Char.isDigit, Bool.and_eq_true, decide_eq_true_eq, UInt32.le_iff_toNat_le] at digit
  have low : 48 ≤ c.toNat := digit.left
  have high : c.toNat ≤ 57 := digit.right
  constructor
  case left  => simp [isWhitespace]; omega
  case right => rintro rfl; simp at low

theorem decimal_plain {n : Int} : decimal n ≠ [] ∧ ∀ c ∈ decimal n, isWhitespace c = false ∧ c ≠ ')' := by
  cases n
  case ofNat n   => exact ⟨Nat.toDigits_ne_nil, fun _ => toDigits_plain⟩
  case negSucc n =>
    refine ⟨List.cons_ne_nil _ _, fun c hc => ?_⟩
    cases hc
    case head    => exact ⟨by rfl, by decide⟩
    case tail hc => exact toDigits_plain hc

theorem numbers_plain {w : List Char} (hw : w ∈ x.numbers) : w ≠ [] ∧ ∀ c ∈ w, isWhitespace c = false ∧ c ≠ ')' := by
  rcases List.mem_append.mp hw with h | h
  case inl =>
    obtain ⟨n, _, rfl⟩ := List.mem_map.mp h
    exact decimal_plain
  case inr =>
    cases h
    case head   => exact decimal_plain (n := .ofNat x.birth)
    case tail h =>
      obtain ⟨n, _, rfl⟩ := List.mem_map.mp h
      exact decimal_plain

theorem state_plain : isWhitespace x.state = false ∧ x.state ≠ ')' := by
  have letter : (decide (65 ≤ x.state.val ∧ x.state.val ≤ 90) ||
      (decide (97 ≤ x.state.val) && decide (x.state.val ≤ 122))) = true := x.letter
  simp only [Bool.or_eq_true, Bool.and_eq_true, decide_eq_true_eq, UInt32.le_iff_toNat_le] at letter
  have range : 65 ≤ x.state.toNat ∧ x.state.toNat ≤ 90 ∨ 97 ≤ x.state.toNat ∧ x.state.toNat ≤ 122 := letter
  constructor
  case left  => simp [isWhitespace]; omega
  case right => intro h; simp [h] at range

theorem words_behind : Words isWhitespace x.behind ([x.state] :: x.numbers) := by
  have newline : Words isWhitespace ['\n'] [] := .skip (by rfl) .nil
  have rest : Words isWhitespace (x.numbers.flatMap (' ' :: ·) ++ ['\n']) (x.numbers ++ []) :=
    .spaced (by rfl) (fun w hw => ⟨(numbers_plain hw).left, fun c hc => ((numbers_plain hw).right c hc).left⟩)
      (by simp; rfl) newline
  rw [List.append_nil] at rest
  refine .word (w := [x.state]) (List.cons_ne_nil _ _) (by simpa using state_plain.left) ?_ rest
  cases x.numbers
  case nil  => simp; rfl
  case cons => simp; rfl

theorem bare_behind : ¬ separator <:+: x.behind := by
  intro h
  have found : ')' ∈ x.behind := h.subset List.mem_cons_self
  simp only [behind, List.cons_append, List.mem_cons, List.mem_append, List.mem_flatMap, List.not_mem_nil,
    or_false] at found
  rcases found with h | ⟨w, hw, h | h⟩ | h
  · exact state_plain.right h.symm
  · simp at h
  · exact ((numbers_plain hw).right _ h).right rfl
  · simp at h

theorem denotes (live : x.Lives) : Denotes ([x.state] :: x.numbers) x.birth true := by
  constructor
  case birth =>
    refine ⟨Nat.toDigits 10 x.birth, ?_, Nat.toDigits 10 x.birth, .inl rfl, Nat.toDigits_ne_nil, ?_⟩
    · simp [numbers, x.length]
    · exact ⟨fun c hc => Nat.isDigit_of_mem_toDigits (by omega) (by omega) hc,
        Nat.ofDigitChars_ten_toDigits, x.birth_lt⟩
  case alive => simpa [Lives] using live

theorem parse_line {name : List Char} (live : x.Lives) :
    parseProcessStat (Nat.toDigits 10 x.pid ++ [' ', '('] ++ name ++ separator ++ x.behind) = .ok (x.birth, true) := by
  rw [parseProcessStat_eq bare_behind, splitWhitespace_iff.mp words_behind]
  exact ofFields_eq_ok.mpr (denotes live)

-- The text of the line is read if it is one, which depends on the name alone.
theorem read_line (live : x.Lives) (valid : Utf8.Valid x.comm) :
    ∃ t, readToString x.line = .ok t ∧ parseProcessStat t = .ok (x.birth, true) := by
  obtain ⟨name, hn⟩ : Utf8.Valid (x.comm.flatMap escape) := (valid_escape (b := [])).mpr valid
  refine ⟨Nat.toDigits 10 x.pid ++ [' ', '('] ++ name ++ separator ++ x.behind, ?_, parse_line live⟩
  rw [line, hn, ← Utf8.encode_append, ← Utf8.encode_append, readToString_encode, List.append_assoc _ separator]

end Proc

-- The processes that a process can observe, and its own PID.
structure Kernel where
  self  : Nat
  proc  : Nat → Option Proc
  named : ∀ {pid x}, proc pid = some x → x.pid = pid

namespace Kernel

def exec (_ : ThreadId) : (a : Act) → Kernel → a.Ret → Kernel → Prop
  | .currentPid, k, r, k'       => r = k.self ∧ k' = k
  | .readProcStat pid, k, r, k' =>
      r = (match k.proc pid with
        | some x => readToString x.line
        | none   => .error ⟨.notFound, "No such file or directory"⟩) ∧ k' = k
  | _, _, _, _                  => False

def machine : Machine ThreadId Act Act.Ret Kernel where
  exec := exec

-- The world shows the same processes. What it says of a line that is no text does not matter.
structure Shows (k : Kernel) (i : ThreadId) (s : World) : Prop where
  self : (s.process i).pid = k.self
  none : ∀ {pid}, k.proc pid = none → s.proc pid = none
  some : ∀ {pid x}, k.proc pid = some x → ∃ t, s.proc pid = some t ∧ ∀ u, readToString x.line = .ok u → u = t

theorem world_exec {plat : Platform} {i : ThreadId} {k k' : Kernel} {s : World} (h : k.Shows i s) {a : Act} {r : a.Ret}
    (e : exec i a k r k') : World.exec plat i a s r s := by
  cases a
  case currentPid => exact ⟨e.left.trans h.self.symm, rfl⟩
  case readProcStat pid =>
    obtain ⟨rfl, _⟩ := e
    refine ⟨rfl, ?_⟩
    cases hx : k.proc pid
    case none   => rw [h.none hx]; trivial
    case some x =>
      have ⟨t, ht, same⟩ := h.some hx
      rw [ht]
      cases hr : readToString x.line
      case error e => simpa only [hr] using error_of_readToString hr
      case ok u    => simpa only [hr] using same u hr
  all_goals exact e.elim

variable {k : Kernel} {x : Proc} {i : ThreadId}

-- The observer takes a process to be alive.
structure Observes (i : ThreadId) (k : Kernel) (x : Proc) : Prop where
  stat     : (processStat x.pid).Alone machine i k fun v _ => v = .ok (x.birth, true)
  alive    : (ProcessMonitor.isAlive ⟨x.pid, x.birth⟩).Alone machine i k fun v _ => v = .ok true
  opens    : (ProcessMonitor.open ⟨x.pid, x.birth⟩).Alone machine i k fun v _ => v = .ok ()
  identity : k.self = x.pid → currentIdentity.Alone machine i k fun v _ => v = .ok ⟨x.pid, x.birth⟩

theorem read_alone {α : Type} {f : Except IoError (List Char) → Routine α} {Q : Except Error α → Kernel → Prop}
    (hx : k.proc x.pid = some x) (h : (f (readToString x.line)).Alone machine i k Q) :
    (readProcStat x.pid >>= f).Alone machine i k Q :=
  .step (fun r t => by simp [machine, exec, hx]) h

theorem processStat_alone (hx : k.proc x.pid = some x) (live : x.Lives) (valid : Utf8.Valid x.comm) :
    (processStat x.pid).Alone machine i k fun v k' => v = .ok (x.birth, true) ∧ k' = k := by
  have ⟨t, read, parsed⟩ := Proc.read_line live valid
  refine read_alone hx ?_
  rw [read]
  show (Code.ofExcept (parseProcessStat t)).Alone machine i k _
  rw [parsed]
  exact .pure ⟨rfl, rfl⟩

theorem processStat_fails (hx : k.proc x.pid = some x) (invalid : ¬ Utf8.Valid x.comm) :
    (processStat x.pid).Alone machine i k fun v _ =>
      v = .error (.io ⟨.invalidData, "stream did not contain valid UTF-8"⟩) := by
  refine read_alone hx ?_
  rw [readToString_invalid (invalid <| Proc.valid_line.mp ·)]
  exact .throw rfl

theorem isAlive_alone (hx : k.proc x.pid = some x) (live : x.Lives) (valid : Utf8.Valid x.comm) :
    (ProcessMonitor.isAlive ⟨x.pid, x.birth⟩).Alone machine i k fun v k' => v = .ok true ∧ k' = k := by
  refine .attempt (processStat_alone hx live valid) fun v k' h => ?_
  rw [h.left]
  exact .pure ⟨by simp, h.right⟩

theorem open_alone (hx : k.proc x.pid = some x) (live : x.Lives) (valid : Utf8.Valid x.comm) :
    (ProcessMonitor.open ⟨x.pid, x.birth⟩).Alone machine i k fun v k' => v = .ok () ∧ k' = k := by
  rw [ProcessMonitor.open, if_neg (Nat.ne_of_gt x.pid_pos)]
  refine .bind (isAlive_alone hx live valid) (fun v k' h => ?_) fun e k' h => nomatch h.left
  rw [Except.ok.inj h.left]
  exact .pure ⟨rfl, h.right⟩

theorem currentIdentity_alone (hx : k.proc x.pid = some x) (live : x.Lives) (valid : Utf8.Valid x.comm)
    (own : k.self = x.pid) : currentIdentity.Alone machine i k fun v k' => v = .ok ⟨x.pid, x.birth⟩ ∧ k' = k := by
  have reads (r : Nat) (t : Kernel) : machine.exec i .currentPid k r t ↔ r = x.pid ∧
    t = k := by simp [machine, exec, own]
  refine .step reads ?_
  refine .attempt (processStat_alone hx live valid) fun v k' h => ?_
  rw [h.left]
  exact .pure ⟨rfl, h.right⟩

-- A live process is taken to be alive exactly when its name is a text.
theorem observes_iff (hx : k.proc x.pid = some x) (live : x.Lives) : Observes i k x ↔ Utf8.Valid x.comm := by
  constructor
  case mp =>
    intro observes
    by_contra invalid
    have ⟨v, _, ok, error⟩ := Program.Alone.exists_both observes.stat (processStat_fails hx invalid)
    cases ok.symm.trans error
  case mpr =>
    intro valid
    constructor
    case stat     => exact (processStat_alone hx live valid).mono fun _ _ h => h.left
    case alive    => exact (isAlive_alone hx live valid).mono fun _ _ h => h.left
    case opens    => exact (open_alone hx live valid).mono fun _ _ h => h.left
    case identity => exact fun own => (currentIdentity_alone hx live valid own).mono fun _ _ h => h.left

-- A process that sleeps under the given name, and no other one.
def sleeping (comm : Bytes) (h : 0 ∉ comm) : Proc where
  pid      := 42
  comm     := comm
  state    := 'S'
  fields   := [1, 42, 42, 0, -1, 4194304, 0, 0, 0, 0, 0, 0, 0, 0, 20, 0, 1, 0]
  birth    := 987654321
  others   := [0, 0]
  pid_pos  := by decide
  comm_ne  := h
  letter   := by decide
  length   := rfl
  birth_lt := by decide

def only (x : Proc) : Kernel where
  self        := x.pid
  proc pid    := if pid = x.pid then some x else none
  named found := by
    split at found
    case isTrue h  => exact (Option.some.inj found) ▸ h.symm
    case isFalse h => cases found

-- A name that looks like the end of another one.
def worker : Proc :=
  sleeping [0x61, 0x29, 0x20, 0x53, 0x20, 0x31] (by decide)

theorem observes_iff_worker : worker.Lives ∧ (Observes 0 (only worker) worker ↔ Utf8.Valid worker.comm) :=
  have live : worker.Lives := by decide
  ⟨live, observes_iff rfl live⟩

-- A name that ends within a character of three bytes.
def cut : Proc :=
  sleeping [0xE3] (by decide)

theorem not_observes_cut :
    (only cut).proc cut.pid = some cut ∧ cut.Lives ∧ ¬ Observes 0 (only cut) cut ∧
      (processStat cut.pid).Alone machine 0 (only cut) fun v _ =>
        v = .error (.io ⟨.invalidData, "stream did not contain valid UTF-8"⟩) := by
  have invalid : ¬ Utf8.Valid cut.comm := Utf8.not_valid_singleton (by decide)
  have fails := processStat_fails (k := only cut) (i := 0) rfl invalid
  refine ⟨rfl, by decide, fun observes => ?_, fails⟩
  have ⟨v, _, ok, error⟩ := Program.Alone.exists_both observes.stat fails
  cases ok.symm.trans error

end Kernel
