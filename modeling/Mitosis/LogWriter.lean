import Mitosis.Lib.Lines

namespace Mitosis
set_option autoImplicit true

/-- The byte `\n`. -/
def newline : UInt8 := 10

structure WorkerIdWriter where
  inner : List UInt8
  prefixBytes : List UInt8
  atLineStart : Bool
  buffer : List UInt8

namespace WorkerIdWriter

def new (workerId : String) : WorkerIdWriter where
  inner := []
  prefixBytes := ("[worker:" ++ workerId ++ "] ").toUTF8.toList
  atLineStart := true
  buffer := []

def flushBuffer (w : WorkerIdWriter) : WorkerIdWriter :=
  if w.buffer.isEmpty then w else { w with inner := w.inner ++ w.buffer, buffer := [] }

def extend (w : WorkerIdWriter) (bytes : List UInt8) : WorkerIdWriter :=
  { w with buffer := w.buffer ++ bytes }

def startLine (w : WorkerIdWriter) : WorkerIdWriter :=
  { w.extend w.prefixBytes with atLineStart := false }

/-- The loop of `write`. -/
def writeLines (w : WorkerIdWriter) (remaining : List UInt8) : WorkerIdWriter :=
  if _hne : remaining.isEmpty then w
  else
    match remaining.idxOf? newline with
    | some newlinePos =>
      let w := if w.atLineStart && newlinePos > 0 then w.startLine else w
      let w := { w.extend (remaining.take (newlinePos + 1)) with atLineStart := true }
      let w := if w.buffer.length > 4096 then w.flushBuffer else w
      writeLines w (remaining.drop (newlinePos + 1))
    | none =>
      let w := if w.atLineStart && !remaining.isEmpty then w.startLine else w
      w.extend remaining
termination_by remaining.length
decreasing_by
  have hpos : 0 < remaining.length := List.length_pos_iff.2 (by simpa using _hne)
  simp only [List.length_drop]
  omega

inductive Call where
  | write (buf : List UInt8)
  | flush

def call (w : WorkerIdWriter) : Call → WorkerIdWriter
  | .write buf => w.writeLines buf
  | .flush => w.flushBuffer

def Call.bytes : Call → List UInt8
  | .write buf => buf
  | .flush => []

/-- The inner writer after the calls and the final flush or drop. -/
def delivered (workerId : String) (calls : List Call) : List UInt8 :=
  ((calls.foldl call (new workerId)).flushBuffer).inner

def sent (w : WorkerIdWriter) : List UInt8 := w.inner ++ w.buffer

def prefixLine (prefixBytes line : List UInt8) : List UInt8 :=
  if line = [] then [] else prefixBytes ++ line

/-- The text with the prefix before each line that is not empty. -/
def prefixed (prefixBytes bytes : List UInt8) : List UInt8 :=
  Lines.mapLines newline (prefixLine prefixBytes) bytes

/-- The writer has been given the bytes: what it has sent is their transform, and it is at the start
of a line exactly if the last line of them is empty. -/
structure Given (w : WorkerIdWriter) (p bytes : List UInt8) : Prop where
  starts : w.prefixBytes = p
  sent : w.sent = prefixed p bytes
  last : ∃ lines line, bytes = lines ++ line ∧ Lines.Complete newline lines ∧ newline ∉ line ∧
    w.atLineStart = line.isEmpty

variable {w : WorkerIdWriter} {p bytes seg : List UInt8}

theorem prefixLine_nil (p : List UInt8) : prefixLine p [] = [] := rfl

theorem prefixLine_of_ne_nil {p line : List UInt8} (h : line ≠ []) :
    prefixLine p line = p ++ line := if_neg h

theorem prefixLine_append {p line : List UInt8} (h : line ≠ []) :
    prefixLine p (line ++ seg) = prefixLine p line ++ seg := by
  have hne : line ++ seg ≠ [] := fun hn => h (List.append_eq_nil_iff.1 hn).1
  rw [prefixLine_of_ne_nil h, prefixLine_of_ne_nil hne, List.append_assoc]

theorem prefixed_append_line {p lines line : List UInt8} (hc : Lines.Complete newline lines)
    (hl : newline ∉ line) : prefixed p (lines ++ line) = prefixed p lines ++ prefixLine p line := by
  rw [prefixed, Lines.mapLines_complete (prefixLine_nil p) hc, Lines.mapLines_line hl]
  rfl

theorem prefixed_snoc (p l : List UInt8) :
    prefixed p (l ++ [newline]) = prefixed p l ++ [newline] := by
  rw [prefixed, Lines.mapLines_append_cons, Lines.mapLines_line List.not_mem_nil, prefixLine_nil]
  rfl

@[simp] theorem flushBuffer_sent (w : WorkerIdWriter) : w.flushBuffer.sent = w.sent := by
  rw [flushBuffer]
  split
  · rfl
  · simp only [sent, List.append_nil]

@[simp] theorem flushBuffer_prefixBytes (w : WorkerIdWriter) :
    w.flushBuffer.prefixBytes = w.prefixBytes := by
  rw [flushBuffer]
  split <;> rfl

@[simp] theorem flushBuffer_atLineStart (w : WorkerIdWriter) :
    w.flushBuffer.atLineStart = w.atLineStart := by
  rw [flushBuffer]
  split <;> rfl

theorem flushBuffer_inner (w : WorkerIdWriter) : w.flushBuffer.inner = w.sent := by
  rw [flushBuffer]
  split
  next h =>
    rw [sent, List.isEmpty_iff.1 h, List.append_nil]
  next => rfl

theorem Given.flushBuffer (h : w.Given p bytes) : w.flushBuffer.Given p bytes := by
  constructor
  · rw [flushBuffer_prefixBytes, h.starts]
  · rw [flushBuffer_sent, h.sent]
  · rw [flushBuffer_atLineStart]
    exact h.last

/-- The prefix, where one is due, and then a part of a line. -/
def addPart (w : WorkerIdWriter) (seg : List UInt8) : WorkerIdWriter :=
  (if w.atLineStart && !seg.isEmpty then w.startLine else w).extend seg

theorem extend_append (w : WorkerIdWriter) (l m : List UInt8) :
    w.extend (l ++ m) = (w.extend l).extend m := by
  simp only [extend, List.append_assoc]

theorem addPart_sent (w : WorkerIdWriter) (seg : List UInt8) : (w.addPart seg).sent =
    w.sent ++ if w.atLineStart then prefixLine w.prefixBytes seg else seg := by
  cases hstart : w.atLineStart with
  | false => simp [addPart, hstart, sent, extend]
  | true =>
    by_cases hs : seg = []
    · simp [addPart, hs, sent, extend, prefixLine_nil]
    · simp [addPart, hstart, hs, sent, extend, startLine, prefixLine_of_ne_nil]

@[simp] theorem addPart_prefixBytes (w : WorkerIdWriter) (seg : List UInt8) :
    (w.addPart seg).prefixBytes = w.prefixBytes := by
  rw [addPart]
  split <;> rfl

theorem Given.addPart (h : w.Given p bytes) (hs : newline ∉ seg) :
    (w.addPart seg).sent = prefixed p (bytes ++ seg) := by
  obtain ⟨lines, line, rfl, hc, hl, hstart⟩ := h.last
  have hls : newline ∉ line ++ seg := by
    rw [List.mem_append, not_or]
    exact ⟨hl, hs⟩
  rw [addPart_sent, h.starts, h.sent, List.append_assoc, prefixed_append_line hc hls,
    prefixed_append_line hc hl, List.append_assoc, hstart]
  by_cases hline : line = []
  · simp [hline, prefixLine_nil]
  · simp [hline, prefixLine_append hline]

theorem Given.rest (h : w.Given p bytes) (hs : newline ∉ seg) (hne : seg ≠ []) :
    (w.addPart seg).Given p (bytes ++ seg) := by
  constructor
  · rw [addPart_prefixBytes, h.starts]
  · rw [h.addPart hs]
  · obtain ⟨lines, line, rfl, hc, hl, hstart⟩ := h.last
    refine ⟨lines, line ++ seg, List.append_assoc _ _ _, hc, ?_, ?_⟩
    · rw [List.mem_append, not_or]
      exact ⟨hl, hs⟩
    · cases hline : w.atLineStart with
      | false => simp [WorkerIdWriter.addPart, hline, extend, hne]
      | true => simp [WorkerIdWriter.addPart, hline, extend, startLine, hne]

theorem Given.line (h : w.Given p bytes) (hs : newline ∉ seg) :
    ({ (w.addPart seg).extend [newline] with atLineStart := true } : WorkerIdWriter).Given p
      (bytes ++ (seg ++ [newline])) := by
  constructor
  · exact (addPart_prefixBytes w seg).trans h.starts
  · have hsent := h.addPart hs
    rw [← List.append_assoc, prefixed_snoc, ← hsent]
    exact (List.append_assoc _ _ _).symm
  · refine ⟨bytes ++ (seg ++ [newline]), [], (List.append_nil _).symm, ?_, List.not_mem_nil, rfl⟩
    rw [← List.append_assoc]
    exact .snoc _

theorem Given.write (h : w.Given p bytes) (remaining : List UInt8) :
    (w.writeLines remaining).Given p (bytes ++ remaining) := by
  fun_induction writeLines w remaining generalizing bytes with
  | case1 w remaining hne =>
    rw [List.isEmpty_iff.1 hne, List.append_nil]
    exact h
  | case2 w remaining hne newlinePos hpos w₁ w₂ w₃ =>
    rename_i ih
    obtain ⟨hline, hempty, htake⟩ := Lines.take_of_idxOf hpos
    have hw₂ : w₂ = { (w.addPart (remaining.take newlinePos)).extend [newline] with
        atLineStart := true } := by
      have hdue : decide (newlinePos > 0) = !(remaining.take newlinePos).isEmpty := by
        rw [hempty]
        cases newlinePos <;> rfl
      simp only [w₂, w₁, hdue, htake, extend_append]
      rfl
    have hgiven : w₃.Given p (bytes ++ remaining.take (newlinePos + 1)) := by
      have hgiven : w₂.Given p (bytes ++ remaining.take (newlinePos + 1)) := by
        rw [hw₂, htake]
        exact h.line hline
      simp only [w₃]
      split
      · exact hgiven.flushBuffer
      · exact hgiven
    have hrest := ih hgiven
    rw [List.append_assoc, List.take_append_drop] at hrest
    exact hrest
  | case3 w remaining hne hpos =>
    exact h.rest (List.idxOf?_eq_none_iff.1 hpos) fun hn => hne (List.isEmpty_iff.2 hn)

theorem Given.calls (h : w.Given p bytes) (calls : List Call) :
    (calls.foldl call w).Given p (bytes ++ calls.flatMap Call.bytes) := by
  induction calls generalizing w bytes with
  | nil =>
    rw [List.flatMap_nil, List.append_nil]
    exact h
  | cons c calls ih =>
    rw [List.flatMap_cons, ← List.append_assoc]
    apply ih
    cases c with
    | write buf => exact h.write buf
    | flush =>
      rw [Call.bytes, List.append_nil]
      exact h.flushBuffer

theorem given_new (workerId : String) :
    (new workerId).Given (new workerId).prefixBytes [] := by
  constructor
  · rfl
  · rw [prefixed, Lines.mapLines_line List.not_mem_nil]
    rfl
  · exact ⟨[], [], rfl, .inl rfl, List.not_mem_nil, rfl⟩

/-- The bytes of all calls arrive with the prefix before each line that is not empty, so that it does
not matter how they are split and flushed. -/
theorem delivered_prefixed (workerId : String) (calls : List Call) :
    delivered workerId calls = prefixed (new workerId).prefixBytes (calls.flatMap Call.bytes) ∧
      ∀ calls', calls'.flatMap Call.bytes = calls.flatMap Call.bytes →
        delivered workerId calls' = delivered workerId calls := by
  have heq (calls : List Call) : delivered workerId calls =
      prefixed (new workerId).prefixBytes (calls.flatMap Call.bytes) := by
    have h := (given_new workerId).calls calls
    rw [delivered, flushBuffer_inner, h.sent, List.nil_append]
  refine ⟨heq calls, ?_⟩
  intro calls' h
  rw [heq, heq, h]

end WorkerIdWriter
end Mitosis
