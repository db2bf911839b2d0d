namespace Inlay.Toml

/-- Something a miss adds to its report. -/
inductive Hint where
  /-- What was being read: reported as `invalid …`. -/
  | label (what : String)
  /-- What would have been accepted, as written in the report. -/
  | expected (what : String)
  deriving DecidableEq, Repr

/-- A failed read. -/
structure Miss where
  /-- The number of characters left where the input stood. -/
  left : Nat
  committed : Bool
  hints : List Hint
  cause : Option String
  deriving Repr, Inhabited

/-- A stretch of the input, each end given as the number of characters left after it. -/
structure Span where
  startLeft : Nat
  stopLeft : Nat
  deriving DecidableEq, Repr

/-- A reader: from the characters left, a value and the characters left after it. -/
abbrev Reader (α : Type) := StateT (List Char) (Except Miss) α

namespace Miss

/-- The first label of a miss. -/
def label? (m : Miss) : Option String :=
  m.hints.findSome? fun
    | .label w => some w
    | .expected _ => none

/-- Everything expected, in the order gathered. -/
def expectations (m : Miss) : List String :=
  m.hints.filterMap fun
    | .expected w => some w
    | .label _ => none

/-- The report: `invalid <label>`, then `expected <a>, <b>`, then the cause, one per line. -/
def report (m : Miss) : String :=
  let parts := (m.label?.map ("invalid " ++ ·)).toList ++
    (if m.expectations.isEmpty then [] else ["expected " ++ ", ".intercalate m.expectations]) ++
    m.cause.toList
  "\n".intercalate parts

end Miss

/-- An uncommitted miss where the input stands. -/
def missAt (cs : List Char) : Miss := ⟨cs.length, false, [], none⟩

namespace Reader

variable {α β : Type}

/-- Fails, uncommitted, where the input stands. -/
def fail : Reader α := fun cs => .error (missAt cs)

/-- Fails, committed, with a cause, where the input stands. -/
def abort (cause : String) : Reader α := fun cs => .error ⟨cs.length, true, [], some cause⟩

/-- The next character, without consuming it. -/
def peek? : Reader (Option Char) := fun cs => .ok (cs.head?, cs)

/-- The next two characters, without consuming them. -/
def peekTwo : Reader (List Char) := fun cs => .ok (cs.take 2, cs)

/-- The next character. -/
def next : Reader Char := fun cs =>
  match cs with
  | c :: rest => .ok (c, rest)
  | [] => .error (missAt cs)

/-- The next character, if it passes the test. -/
def satisfy (p : Char → Bool) : Reader Char := fun cs =>
  match cs with
  | c :: rest => if p c then .ok (c, rest) else .error (missAt cs)
  | [] => .error (missAt cs)

/-- Exactly the given characters, or nothing consumed. -/
def literal (s : String) : Reader Unit := fun cs =>
  if s.toList.isPrefixOf cs then .ok ((), cs.drop s.length) else .error (missAt cs)

/-- The longest run of at most `max` characters that pass the test; a miss, consuming nothing,
when it is shorter than `min`. -/
def takeWhile (p : Char → Bool) (min : Nat) (max : Option Nat) : Reader (List Char) :=
  fun cs =>
    let run := cs.takeWhile p
    let run := match max with
      | some m => run.take m
      | none => run
    if run.length < min then .error (missAt cs) else .ok (run, cs.drop run.length)

/-- Succeeds at the end of the input only. -/
def atEnd : Reader Unit := fun cs =>
  if cs.isEmpty then .ok ((), cs) else .error (missAt cs)

/-- Makes every miss of `r` committed. -/
def commit (r : Reader α) : Reader α := fun cs =>
  match r cs with
  | .ok v => .ok v
  | .error m => .error { m with committed := true }

/-- Adds a hint to every miss of `r`. -/
def hint (h : Hint) (r : Reader α) : Reader α := fun cs =>
  match r cs with
  | .ok v => .ok v
  | .error m => .error { m with hints := m.hints ++ [h] }

/-- Adds the label `what`. -/
def labelled (what : String) (r : Reader α) : Reader α := hint (.label what) r

/-- Adds an expectation. -/
def expecting (what : String) (r : Reader α) : Reader α := hint (.expected what) r

/-- `r`, or nothing from where it started on an uncommitted miss. -/
def optional (r : Reader α) : Reader (Option α) := fun cs =>
  match r cs with
  | .ok (a, rest) => .ok (some a, rest)
  | .error m => if m.committed then .error m else .ok (none, cs)

/-- The first alternative that does not miss uncommitted; when all do, the last miss. -/
def firstOf : List (Reader α) → Reader α
  | [] => fail
  | [r] => r
  | r :: rs => fun cs =>
    match r cs with
    | .ok v => .ok v
    | .error m => if m.committed then .error m else firstOf rs cs

/-- `r` as long as it succeeds and consumes, at most `fuel` times. -/
def repeatWithin : Nat → Reader α → Reader (List α)
  | 0, _ => fun cs => .ok ([], cs)
  | fuel + 1, r => fun cs =>
    match r cs with
    | .ok (a, rest) =>
      if rest.length < cs.length then
        match repeatWithin fuel r rest with
        | .ok (as, rest') => .ok (a :: as, rest')
        | .error m => .error m
      else .ok ([a], rest)
    | .error m => if m.committed then .error m else .ok ([], cs)

/-- `r` as long as it succeeds and consumes. -/
def many (r : Reader α) : Reader (List α) := fun cs => repeatWithin (cs.length + 1) r cs

/-- One `r` or more, separated by `sep`; a separator not followed by an item is left unread. -/
def sepBy1 (r : Reader α) (sep : Reader Unit) : Reader (List α) := do
  let first ← r
  let rest ← many (do sep; r)
  return first :: rest

/-- Zero `r` or more, separated by `sep`. -/
def sepBy (r : Reader α) (sep : Reader Unit) : Reader (List α) := do
  match ← optional r with
  | none => return []
  | some first =>
    let rest ← many (do sep; r)
    return first :: rest

/-- `r`, then `f` of its value; when `f` refuses, an uncommitted miss with its cause at the
start of `r`. -/
def tryMap (r : Reader α) (f : α → Except String β) : Reader β := fun cs =>
  match r cs with
  | .ok (a, rest) =>
    match f a with
    | .ok b => .ok (b, rest)
    | .error cause => .error ⟨cs.length, false, [], some cause⟩
  | .error m => .error m

/-- `r`, then `f` of its value; when `f` refuses, a committed miss with its cause at the start
of `r`, while the misses of `r` itself stay as they are. -/
def tryMapCommitted (r : Reader α) (f : α → Except (Option String) β) : Reader β := fun cs =>
  match r cs with
  | .ok (a, rest) =>
    match f a with
    | .ok b => .ok (b, rest)
    | .error cause => .error ⟨cs.length, true, [], cause⟩
  | .error m => .error m

/-- `r`, refused without cause at its start unless its value passes the test. -/
def check (r : Reader α) (p : α → Bool) : Reader α := fun cs =>
  match r cs with
  | .ok (a, rest) => if p a then .ok (a, rest) else .error (missAt cs)
  | .error m => .error m

/-- `r` with the span it read. -/
def spanned (r : Reader α) : Reader (α × Span) := fun cs =>
  match r cs with
  | .ok (a, rest) => .ok ((a, ⟨cs.length, rest.length⟩), rest)
  | .error m => .error m

/-- The characters `r` consumed. -/
def consumed (r : Reader α) : Reader (List Char) := fun cs =>
  match r cs with
  | .ok (_, rest) => .ok (cs.take (cs.length - rest.length), rest)
  | .error m => .error m

end Reader

end Inlay.Toml
