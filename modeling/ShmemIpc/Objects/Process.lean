import ShmemIpc.Objects.Error

structure ProcessIdentity where
  pid   : Nat
  birth : Nat
  deriving DecidableEq, Repr

-- `str::rsplit_once`: the text before and after the last occurrence of `sep`.
def rsplitOnce (sep : List Char) : List Char → Option (List Char × List Char)
  | []      => none
  | c :: cs =>
    match rsplitOnce sep cs with
    | some (before, after) => some (c :: before, after)
    | none                 => if sep.isPrefixOf (c :: cs) then some ([], (c :: cs).drop sep.length) else none

-- `char::is_whitespace`, which is the Unicode property White_Space.
def isWhitespace (c : Char) : Bool :=
  let n := c.toNat
  (9 ≤ n && n ≤ 13) || n == 0x20 || n == 0x85 || n == 0xA0 || n == 0x1680 ||
  (0x2000 ≤ n && n ≤ 0x200A) || n == 0x2028 || n == 0x2029 || n == 0x202F || n == 0x205F || n == 0x3000

-- `str::split_whitespace`: the maximal runs of characters that are not white space.
def splitWhitespace (text : List Char) : List (List Char) :=
  (text.splitOnP isWhitespace).filter (!·.isEmpty)

def digit? (c : Char) : Option Nat :=
  if '0' ≤ c ∧ c ≤ '9' then some (c.toNat - '0'.toNat) else none

def parseDigits : Nat → List Char → Option Nat
  | n, []      => some n
  | n, c :: cs =>
    match digit? c with
    | some d => if n * 10 + d < 2 ^ 64 then parseDigits (n * 10 + d) cs else none
    | none   => none

-- `str::parse::<u64>`: an optional `+` and at least one decimal digit, without overflow.
def parseU64 : List Char → Option Nat
  | []        => none
  | '+' :: cs => if cs.isEmpty then none else parseDigits 0 cs
  | cs        => parseDigits 0 cs

-- The birth, in clock ticks since boot, and whether the process is neither a zombie nor dead.
def parseProcessStat (stat : List Char) : Except Error (Nat × Bool) :=
  match rsplitOnce [')', ' '] stat with
  | none             => .error .invalidHeader
  | some (_, fields) =>
    match splitWhitespace fields with
    | []             => .error .invalidHeader
    | state :: fields =>
      match fields[18]?.bind parseU64 with
      | none       => .error .invalidHeader
      | some birth => .ok (birth, !(state == ['Z'] || state == ['X'] || state == ['x']))

example :
    parseProcessStat
      "42 (worker (name)) S 1 2 3 4 5 6 7 8 9 10 11 12 13 14 15 16 17 18 987654321 99".toList =
        .ok (987654321, true) := by
  rfl
