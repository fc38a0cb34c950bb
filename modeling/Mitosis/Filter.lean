import Mitosis.Schema

namespace Mitosis
set_option autoImplicit true

def splitChar (c : Char) (s : String) : List String :=
  (s.toList.splitOn c).map String.ofList

/-- The PostgreSQL operator `xs @> ys`: every element of `ys` occurs in `xs`. -/
def containsAll (xs ys : List String) : Bool := ys.all fun y => y ∈ xs

/-- `Path::is_absolute` on Unix. -/
def isAbsolute (path : String) : Bool := path.toList.head? = some '/'

/-- `path.components()` contains `Component::ParentDir`. -/
def hasParentDir (path : String) : Bool := ".." ∈ splitChar '/' path

def checkTaskSpec (spec : TaskSpec) : Except Error Unit :=
  if spec.resources.any fun r => isAbsolute r.localPath || hasParentDir r.localPath then
    .error (.apiError (.invalidRequest "Resource local path is absolute or contains `..`"))
  else .ok ()

inductive OperatorWithNumber where
  | eq (n : Int) | neq (n : Int) | gt (n : Int) | gte (n : Int) | lt (n : Int) | lte (n : Int)
  deriving DecidableEq

/-- The value of the decimal digits `cs` after the number `acc`, which must not pass the limit. -/
def parseDigits (limit : Nat) (overflow : String) (acc : Nat) : List Char → Except String Nat
  | [] => .ok acc
  | c :: cs =>
    if c.isDigit then
      let n := 10 * acc + (c.toNat - 48)
      if n ≤ limit then parseDigits limit overflow n cs else .error overflow
    else .error "invalid digit found in string"

theorem parseDigits_le (ha : acc ≤ limit) (h : parseDigits limit overflow acc cs = .ok n) :
    n ≤ limit := by
  induction cs generalizing acc with
  | nil =>
    obtain rfl := Except.ok.inj h
    exact ha
  | cons c cs ih =>
    rw [parseDigits] at h
    split at h
    next =>
      dsimp only at h
      split at h
      next hle => exact ih hle h
      next => cases h
    next => cases h

def invalidNumber (s msg : String) : Error :=
  .apiError (.invalidRequest s!"Failed to parse number from {s}: {msg}")

def parseSigned (s : String) (neg : Bool) : List Char → Except Error Int
  | [] => .error (invalidNumber s "invalid digit found in string")
  | c :: cs =>
    if neg then
      match parseDigits (2 ^ 31) "number too small to fit in target type" 0 (c :: cs) with
      | .ok n => .ok (-n)
      | .error msg => .error (invalidNumber s msg)
    else
      match parseDigits (2 ^ 31 - 1) "number too large to fit in target type" 0 (c :: cs) with
      | .ok n => .ok n
      | .error msg => .error (invalidNumber s msg)

/-- `str::parse::<i32>`: an optional sign, then at least one digit, within the range. -/
def parseI32 (cs : List Char) : Except Error Int :=
  match cs with
  | [] => .error (invalidNumber "" "cannot parse integer from empty string")
  | '-' :: ds => parseSigned (String.ofList cs) true ds
  | '+' :: ds => parseSigned (String.ofList cs) false ds
  | ds => parseSigned (String.ofList cs) false ds

theorem parseSigned_range (h : parseSigned s neg cs = .ok n) : -2 ^ 31 ≤ n ∧ n < 2 ^ 31 := by
  cases cs with
  | nil => cases h
  | cons c cs =>
    rw [parseSigned] at h
    split at h
    next =>
      split at h
      next m hm =>
        obtain rfl := Except.ok.inj h
        have hle := parseDigits_le (Nat.zero_le _) hm
        omega
      next => cases h
    next =>
      split at h
      next m hm =>
        obtain rfl := Except.ok.inj h
        have hle := parseDigits_le (Nat.zero_le _) hm
        omega
      next => cases h

theorem parseI32_range (h : parseI32 cs = .ok n) : -2 ^ 31 ≤ n ∧ n < 2 ^ 31 := by
  unfold parseI32 at h
  split at h
  next => cases h
  next => exact parseSigned_range h
  next => exact parseSigned_range h
  next => exact parseSigned_range h

def parseOperatorsWithNumber (s : String) : Except Error OperatorWithNumber :=
  match s.toList with
  | '>' :: '=' :: cs => .gte <$> parseI32 cs
  | '<' :: '=' :: cs => .lte <$> parseI32 cs
  | '!' :: '=' :: cs => .neq <$> parseI32 cs
  | '>' :: cs => .gt <$> parseI32 cs
  | '<' :: cs => .lt <$> parseI32 cs
  | '=' :: cs => .eq <$> parseI32 cs
  | cs => .eq <$> parseI32 cs

/-- The comparison of an integer column with the operand. -/
def OperatorWithNumber.holds (n : Int) : OperatorWithNumber → Bool
  | .eq m => n = m
  | .neq m => n ≠ m
  | .gt m => n > m
  | .gte m => n ≥ m
  | .lt m => n < m
  | .lte m => n ≤ m

/-- The comparison of a JSON field, cast to text, with the operand as text. -/
def OperatorWithNumber.holdsText (s : String) : OperatorWithNumber → Bool
  | .eq m => s = toString m
  | .neq m => s ≠ toString m
  | .gt m => toString m < s
  | .gte m => toString m < s ∨ s = toString m
  | .lt m => s < toString m
  | .lte m => s < toString m ∨ s = toString m

/-- The conditions that `apply_task_filters` adds to the statement on the active tasks. -/
structure TaskFilter where
  creatorUsernames : Option (List String)
  groupName : Option String
  tags : Option (List String)
  labels : Option (List String)
  states : Option (List TaskState)
  exitStatus : Option OperatorWithNumber
  priority : Option OperatorWithNumber
  excluded : Bool

def applyTaskFilters (query : TasksQueryReq) : Except Error TaskFilter := do
  let exitStatus ← query.exitStatus.mapM parseOperatorsWithNumber
  let priority ← query.priority.mapM parseOperatorsWithNumber
  return {
    creatorUsernames := query.creatorUsernames
    groupName := query.groupName
    tags := query.tags
    labels := query.labels
    states := query.states
    exitStatus
    priority
    -- a reporter exists only on archived tasks
    excluded := query.reporterUuid.isSome }

theorem applyTaskFilters_states (h : applyTaskFilters query = .ok filter) :
    filter.states = query.states := by
  unfold applyTaskFilters at h
  cases he : query.exitStatus.mapM parseOperatorsWithNumber with
  | error =>
    rw [he] at h
    cases h
  | ok exitStatus =>
    cases hp : query.priority.mapM parseOperatorsWithNumber with
    | error =>
      rw [he, hp] at h
      cases h
    | ok priority =>
      rw [he, hp] at h
      obtain ⟨⟩ := h
      rfl

def TaskFilter.selects (f : TaskFilter) (creator : User) (group : Group) (task : ActiveTask) :
    Bool :=
  !f.excluded &&
  f.creatorUsernames.all (fun us => decide (creator.username ∈ us)) &&
  f.groupName.all (fun g => decide (group.groupName = g)) &&
  f.tags.all (containsAll task.tags) &&
  f.labels.all (containsAll task.labels) &&
  f.states.all (fun ss => decide (task.state ∈ ss)) &&
  f.exitStatus.all (fun op => task.result.any fun r => op.holdsText (toString r.exitStatus)) &&
  f.priority.all fun op => op.holds task.priority

end Mitosis
