import ShmemIpc.Objects.Process
import ShmemIpc.Library.Text

-- What `parse_process_stat` accepts.

open Text

-- Separators.

variable {sep p r t cs field : List Char} {n m : Nat}

theorem rsplitOnce_eq_none (hs : sep ≠ []) : rsplitOnce sep t = none ↔ ¬ sep <:+: t := by
  induction t
  case nil => simp [rsplitOnce, hs]
  case cons c t ih =>
    rw [List.infix_cons_iff, rsplitOnce]
    cases split : rsplitOnce sep t
    case none   => simp [split, ← ih]
    case some v => simp [show sep <:+: t from not_not.mp fun h => by simp [ih.mpr h] at split]

-- The occurrence behind which there is no other one.
theorem rsplitOnce_last {s : Char} (hr : ¬ (s :: sep) <:+: (sep ++ r)) :
    rsplitOnce (s :: sep) (p ++ s :: sep ++ r) = some (p, r) := by
  induction p
  case nil =>
    have last : rsplitOnce (s :: sep) (sep ++ r) = none := (rsplitOnce_eq_none (List.cons_ne_nil _ _)).mpr hr
    simp [rsplitOnce, last]
  case cons c p ih => rw [List.cons_append, List.cons_append, rsplitOnce, ih]

-- The separator in front of the fields that follow the command name.
abbrev separator : List Char :=
  [')', ' ']

theorem rsplitOnce_separator (hr : ¬ separator <:+: r) : rsplitOnce separator (p ++ separator ++ r) = some (p, r) := by
  refine rsplitOnce_last fun h => ?_
  cases List.infix_cons_iff.mp h
  case inl front => simp at front
  case inr back  => exact hr back

-- Numbers.

-- The field denotes the number as `str::parse::<u64>` defines it.
def IsU64 (field : List Char) (n : Nat) : Prop :=
  ∃ ds, (field = ds ∨ field = '+' :: ds) ∧ ds ≠ [] ∧ (∀ c ∈ ds, c.isDigit) ∧ Nat.ofDigitChars 10 ds 0 = n ∧ n < 2 ^ 64

theorem digit?_eq_some {c : Char} {d : Nat} : digit? c = some d ↔ c.isDigit ∧ c.toNat - '0'.toNat = d := by
  simp [digit?, Char.isDigit, Char.le_def]

theorem le_ofDigitChars : n ≤ Nat.ofDigitChars 10 cs n := by
  induction cs generalizing n
  case nil          => simp
  case cons c cs ih =>
    rw [Nat.ofDigitChars_cons]
    exact le_trans (by omega) ih

theorem parseDigits_eq_some (hn : n < 2 ^ 64) :
    parseDigits n cs = some m ↔ (∀ c ∈ cs, c.isDigit) ∧ Nat.ofDigitChars 10 cs n = m ∧ m < 2 ^ 64 := by
  induction cs generalizing n
  case nil => simp [parseDigits]; omega
  case cons c cs ih =>
    rw [parseDigits, Nat.ofDigitChars_cons, List.forall_mem_cons]
    cases hd : digit? c
    case none =>
      have hc : ¬ c.isDigit := fun hc => by simp [digit?_eq_some.mpr ⟨hc, rfl⟩] at hd
      simp [hc]
    case some d =>
      have ⟨hc, value⟩ := digit?_eq_some.mp hd
      rw [value, Nat.mul_comm 10]
      by_cases small : n * 10 + d < 2 ^ 64
      case pos => simp only [if_pos small, ih small, hc, true_and]
      case neg =>
        have large : n * 10 + d ≤ Nat.ofDigitChars 10 cs (n * 10 + d) := le_ofDigitChars
        simp only [if_neg small, reduceCtorEq, false_iff]
        omega

theorem parseDigits_iff (ne : cs ≠ []) : parseDigits 0 cs = some n ↔
    cs ≠ [] ∧ (∀ c ∈ cs, c.isDigit) ∧ Nat.ofDigitChars 10 cs 0 = n ∧ n < 2 ^ 64 := by
  rw [parseDigits_eq_some (by omega), and_iff_right ne]

theorem parseU64_eq_some : parseU64 field = some n ↔ IsU64 field n := by
  unfold IsU64 parseU64
  split
  case h_1 => simp
  case h_2 cs =>
    have signed {ds : List Char} (hd : ∀ c ∈ ds, c.isDigit) : ¬ '+' :: cs = ds := by
      rintro rfl
      simp [Char.isDigit] at hd
    cases cs
    case nil => simp
    case cons c cs =>
      refine (parseDigits_iff (List.cons_ne_nil _ _)).trans ⟨fun h => ⟨_, .inr rfl, h⟩, ?_⟩
      rintro ⟨ds, same | same, h⟩
      · exact absurd same (signed h.right.left)
      · rwa [List.cons.inj same |>.right]
  case h_3 unsigned =>
    have plain {ds : List Char} : field = ds ∨ field = '+' :: ds ↔ ds = field :=
      ⟨fun h => (h.resolve_right (unsigned ds)).symm, fun h => .inl h.symm⟩
    simp only [plain, exists_eq_left]
    cases field
    case nil      => contradiction
    case cons c _ => exact parseDigits_iff (List.cons_ne_nil _ _)

-- Lines.

theorem splitWhitespace_iff {ws : List (List Char)} : Words isWhitespace t ws ↔ splitWhitespace t = ws :=
  Words.iff_filter.trans eq_comm

-- The fields behind the command name denote a birth, and whether the process is alive.
structure Denotes (fields : List (List Char)) (birth : Nat) (alive : Bool) : Prop where
  birth : ∃ field, fields[19]? = some field ∧ IsU64 field birth
  alive : alive = false ↔ ∃ state, fields[0]? = some state ∧ state ∈ [['Z'], ['X'], ['x']]

-- The part of the parser behind the separator.
def ofFields : List (List Char) → Except Error (Nat × Bool)
  | []              => .error .invalidHeader
  | state :: fields =>
    match fields[18]?.bind parseU64 with
    | none       => .error .invalidHeader
    | some birth => .ok (birth, !(state == ['Z'] || state == ['X'] || state == ['x']))

theorem parseProcessStat_eq (hr : ¬ separator <:+: r) :
    parseProcessStat (p ++ separator ++ r) = ofFields (splitWhitespace r) := by
  unfold parseProcessStat
  rw [rsplitOnce_separator hr]
  rfl

section
variable {fields : List (List Char)} {birth : Nat} {alive : Bool}

theorem dead_iff {state : List Char} :
    (!(state == ['Z'] || state == ['X'] || state == ['x'])) = false ↔ state ∈ [['Z'], ['X'], ['x']] := by
  simp only [Bool.not_eq_false', Bool.or_eq_true, beq_iff_eq, or_assoc, List.mem_cons, List.not_mem_nil, or_false]

theorem ofFields_eq_ok : ofFields fields = .ok (birth, alive) ↔ Denotes fields birth alive := by
  cases fields
  case nil => exact ⟨nofun, fun h => absurd h.birth (by simp)⟩
  case cons state fields =>
    rw [ofFields]
    constructor
    case mp =>
      intro h
      split at h
      case h_1 => cases h
      case h_2 read =>
        cases h
        have ⟨field, found, value⟩ := Option.bind_eq_some_iff.mp read
        exact ⟨⟨field, found, parseU64_eq_some.mp value⟩, dead_iff.trans (by simp)⟩
    case mpr =>
      intro h
      have ⟨field, found, value⟩ := h.birth
      have read : fields[18]?.bind parseU64 = some birth :=
        Option.bind_eq_some_iff.mpr ⟨field, found, parseU64_eq_some.mpr value⟩
      have dead : (!(state == ['Z'] || state == ['X'] || state == ['x'])) = alive :=
        Bool.eq_iff_iff.mpr (not_iff_not.mp (by simpa using dead_iff.trans (.trans (by simp) h.alive.symm)))
      rw [read, dead]

theorem eq_invalidHeader {e : Error} (h : ofFields fields = .error e) : e = .invalidHeader := by
  unfold ofFields at h
  split at h
  case h_1 => exact (Except.error.inj h).symm
  case h_2 =>
    split at h
    case h_1 => exact (Except.error.inj h).symm
    case h_2 => cases h

end

-- `parse_process_stat` reads nothing but the fields behind the last separator.
theorem parseProcessStat_accepts (t : List Char) :
    (¬ separator <:+: t → parseProcessStat t = .error .invalidHeader) ∧
    ∀ p r, t = p ++ separator ++ r → ¬ separator <:+: r →
      (∀ q, parseProcessStat (q ++ separator ++ r) = parseProcessStat t) ∧
      (∀ birth alive, parseProcessStat t = .ok (birth, alive) ↔
        ∃ fields, Words isWhitespace r fields ∧ Denotes fields birth alive) ∧
      ((¬ ∃ fields birth, Words isWhitespace r fields ∧ ∃ field, fields[19]? = some field ∧ IsU64 field birth) →
        parseProcessStat t = .error .invalidHeader) := by
  refine ⟨fun none => ?_, fun p r split hr => ?_⟩
  · unfold parseProcessStat
    rw [(rsplitOnce_eq_none (List.cons_ne_nil _ _)).mpr none]
  · have same (q : List Char) : parseProcessStat (q ++ separator ++ r) = parseProcessStat t := by
      rw [split, parseProcessStat_eq hr, parseProcessStat_eq hr]
    refine ⟨same, fun birth alive => ?_, fun unread => ?_⟩
    · rw [split, parseProcessStat_eq hr, ofFields_eq_ok]
      simp [splitWhitespace_iff]
    · rw [split, parseProcessStat_eq hr]
      cases h : ofFields (splitWhitespace r)
      case error e => rw [eq_invalidHeader h]
      case ok v    => exact absurd ⟨_, v.fst, splitWhitespace_iff.mpr rfl, (ofFields_eq_ok.mp h).birth⟩ unread

theorem parseProcessStat_accepts_worker :
    let fields := "S 1 2 3 4 5 6 7 8 9 10 11 12 13 14 15 16 17 18 987654321 99".toList
    ¬ separator <:+: fields ∧
      parseProcessStat ("42 (a) S 1 (b".toList ++ separator ++ fields) = .ok (987654321, true) := by
  have bare : ¬ separator <:+: "S 1 2 3 4 5 6 7 8 9 10 11 12 13 14 15 16 17 18 987654321 99".toList :=
    (rsplitOnce_eq_none (List.cons_ne_nil _ _)).mp (by rfl)
  exact ⟨bare, ((parseProcessStat_accepts _).right "42 (worker".toList _ rfl bare).left _ |>.trans (by rfl)⟩
