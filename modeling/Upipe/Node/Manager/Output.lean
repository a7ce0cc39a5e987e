import Upipe.Node.Manager.Monitor

/-!
# The output of an instance at its exit

Before `handle_instance_exit` removes a DONE instance, `monitor_pipe` reads its output queue in a loop that ends at the
first falsy line. `read_stdout_line` returns `None` for an empty queue, and for a blank chunk too; an inline worker
writes a newline chunk after every text that it prints.
-/

namespace Upipe

open Upipe.Common

/-! ## Definitions -/

namespace WorkerController

/-- The reading loop of `monitor_pipe` with at most `n` calls of `read_stdout_line`, and the lines that it prints. -/
def printLines : ℕ → PyM WorkerController (List String)
  | 0 => pure []
  | n + 1 => do
      match ← readStdoutLine with
      | none => pure []
      | some line => do
          let lines ← printLines n
          pure (line :: lines)

/-- What `read_stdout_line` makes of a line of bytes. -/
def lineReading (i : WorkerController) (line : Bytes) : Except PyError (Option String) :=
  if line = [] then .ok none else (decodeUtf8 line).map fun text => i.lineOf (strip text)

/-- What `read_stdout_line` makes of each chunk in the queue: a line, nothing for a blank one, or an exception. -/
def readings (i : WorkerController) : List (Except PyError (Option String)) :=
  match i.stdoutQ with
  | .process chunks => chunks.map fun chunk => .ok (i.lineOf chunk)
  | .subProcess lines => lines.map i.lineReading

/-- What the loop prints of chunks with these readings. -/
def printedOf : List (Except PyError (Option String)) → Except PyError (List String)
  | [] => .ok []
  | .ok none :: _ => .ok []
  | .ok (some line) :: readings => (printedOf readings).map (line :: ·)
  | .error e :: _ => .error e

end WorkerController

/-- A method call on `self.instances[n]` that returns a value. -/
def ProcessorController.callInstance {α : Type} (n : ℕ) (m : PyM WorkerController α) :
    PyM ProcessorController α := fun p =>
  match p.instances[n]? with
  | none => .error ⟨.indexError, "list index out of range"⟩ p
  | some i =>
      match m i with
      | .ok a i' => .ok a { p with instances := p.instances.set n i' }
      | .error e i' => .error e { p with instances := p.instances.set n i' }

namespace PipeController

/-- One turn of `monitor_pipe`, at the instance at position `n` of the processor, and the lines that it prints. -/
def visit (key : String) (n : ℕ) (i : WorkerController) : PyM PipeController (List String) := do
  let lines ← onProcessor key (ProcessorController.callInstance n (WorkerController.printLines i.visitReads))
  if i.isDone then handleInstanceExit key n i
  pure lines

/-- The turn returns with the instance removed, and it has printed every chunk that is not blank, in order. -/
def ExitPrintsAll (key : String) (n : ℕ) (i : WorkerController) (c : PipeController) (p : ProcessorController) : Prop :=
  ∃ lines c' p', visit key n i c = .ok lines c' ∧
    (i.readings.filter fun reading => reading ≠ .ok none) = lines.map (fun line => .ok (some line)) ∧
    c'.processors.get? key = some p' ∧ p'.instances = p.instances.eraseIdx n

end PipeController

/-! ## What is printed -/

namespace WorkerController

variable {i : WorkerController} {n : ℕ} {reading : Except PyError (Option String)}
  {readings : List (Except PyError (Option String))}

theorem length_readings (i : WorkerController) : i.readings.length = i.stdoutSize := by
  rw [WorkerController.readings, stdoutSize]
  cases i.stdoutQ with
  | process chunks => exact List.length_map _
  | subProcess lines => exact List.length_map _

theorem readStdoutLine_of_nil (h : i.readings = []) : readStdoutLine i = .ok none i := by
  rw [readStdoutLine, get_bind_apply]
  rw [WorkerController.readings] at h
  rcases hq : i.stdoutQ with (- | ⟨chunk, rest⟩) | (- | ⟨line, rest⟩)
  · rfl
  · rw [hq] at h
    cases h
  · rfl
  · rw [hq] at h
    cases h

theorem readStdoutLine_subProcess {line : Bytes} {rest : List Bytes} (h : i.stdoutQ = .subProcess (line :: rest)) :
    readStdoutLine i
      = (ofExcept (i.lineReading line) : PyM WorkerController (Option String))
          { i with stdoutQ := .subProcess rest } := by
  rw [readStdoutLine, get_bind_apply, lineReading]
  simp only [h]
  by_cases hempty : line = []
  · simp only [if_pos hempty]
    rfl
  · simp only [if_neg hempty]
    cases decodeUtf8 line with
    | ok text => rfl
    | error e => rfl

/-- A call takes one chunk from the queue and ends as that chunk is read. -/
theorem readStdoutLine_of_cons (h : i.readings = reading :: readings) :
    ∃ i', i'.readings = readings ∧ answerOf (readStdoutLine i) = reading ∧ stateOf (readStdoutLine i) = i' := by
  rw [WorkerController.readings] at h
  rcases hq : i.stdoutQ with (- | ⟨chunk, rest⟩) | (- | ⟨line, rest⟩)
  · rw [hq] at h
    cases h
  · rw [hq] at h
    obtain ⟨rfl, rfl⟩ := List.cons.inj h
    rw [readStdoutLine, get_bind_apply]
    simp only [hq]
    exact ⟨{ i with stdoutQ := .process rest }, rfl, rfl, rfl⟩
  · rw [hq] at h
    cases h
  · rw [hq] at h
    obtain ⟨rfl, rfl⟩ := List.cons.inj h
    rw [readStdoutLine_subProcess hq]
    refine ⟨{ i with stdoutQ := .subProcess rest }, rfl, ?_⟩
    cases i.lineReading line with
    | ok text => exact ⟨rfl, rfl⟩
    | error e => exact ⟨rfl, rfl⟩

/-- The reading loop without its output. -/
theorem readLines_eq_printLines (n : ℕ) : readLines n = (printLines n >>= fun _ => pure ()) := by
  induction n with
  | zero => rfl
  | succ n ih =>
    rw [readLines, printLines, bind_assoc]
    refine bind_congr fun line => ?_
    cases line with
    | none => rfl
    | some line =>
      show readLines n = _
      rw [ih, bind_assoc]
      rfl

/-- With more calls than chunks the loop prints what the readings say. -/
theorem answerOf_printLines (h : i.readings.length < n) : answerOf (printLines n i) = printedOf i.readings := by
  induction n generalizing i with
  | zero => exact absurd h (Nat.not_lt_zero _)
  | succ n ih =>
    rw [printLines]
    cases hreadings : i.readings with
    | nil =>
      rw [bind_ok (readStdoutLine_of_nil hreadings)]
      rfl
    | cons reading readings =>
      obtain ⟨i', hrest, hanswer, hstate⟩ := readStdoutLine_of_cons hreadings
      have hlength : i'.readings.length < n := by
        rw [hreadings, List.length_cons] at h
        rw [hrest]
        omega
      cases hcall : readStdoutLine i with
      | error e s =>
        rw [hcall] at hanswer
        rw [← hanswer, bind_error hcall]
        rfl
      | ok line s =>
        rw [hcall] at hanswer hstate
        obtain rfl : s = i' := hstate
        rw [← hanswer, bind_ok hcall]
        cases line with
        | none => rfl
        | some line =>
          show answerOf ((printLines n >>= fun lines => pure (line :: lines)) s) = (printedOf readings).map (line :: ·)
          rw [answerOf_bind_pure, ih hlength, hrest]

theorem filter_ne_blank_eq_nil_iff :
    (readings.filter fun reading => reading ≠ .ok none) = [] ↔ ∀ reading ∈ readings, reading = .ok none := by
  rw [List.filter_eq_nil_iff]
  exact forall₂_congr fun reading _ => by simp

/-- Everything is printed exactly when every chunk can be decoded and none that is not blank stands behind a blank
one. -/
theorem printedOf_all_iff : (∃ lines, printedOf readings = .ok lines ∧
      (readings.filter fun reading => reading ≠ .ok none) = lines.map fun line => .ok (some line)) ↔
    (∀ reading ∈ readings, ∃ line, reading = .ok line) ∧
      readings.Pairwise fun first later => first = .ok none → later = .ok none := by
  induction readings with
  | nil => exact iff_of_true ⟨[], rfl, rfl⟩ ⟨fun _ h => absurd h List.not_mem_nil, List.Pairwise.nil⟩
  | cons reading readings ih =>
    rw [List.forall_mem_cons, List.pairwise_cons]
    rcases reading with e | (- | line)
    · refine iff_of_false ?_ ?_
      · rintro ⟨lines, hprinted, -⟩
        cases hprinted
      · rintro ⟨⟨⟨line, hline⟩, -⟩, -⟩
        cases hline
    · -- the loop ends here, so all that follows has to be blank
      rw [List.filter_cons, if_neg (by simp)]
      constructor
      · rintro ⟨lines, hprinted, hfilter⟩
        obtain rfl := Except.ok.inj hprinted
        have hblank := filter_ne_blank_eq_nil_iff.mp hfilter
        refine ⟨⟨⟨none, rfl⟩, fun later hlater => ⟨none, hblank later hlater⟩⟩,
          fun later hlater _ => hblank later hlater, ?_⟩
        exact List.pairwise_of_forall_mem_list fun _ _ later hlater _ => hblank later hlater
      · rintro ⟨-, hblank, -⟩
        exact ⟨[], rfl, filter_ne_blank_eq_nil_iff.mpr fun later hlater => hblank later hlater rfl⟩
    · rw [List.filter_cons, if_pos (by simp)]
      have hfirst : ∀ later ∈ readings, (.ok (some line) : Except PyError (Option String)) = .ok none →
          later = .ok none := fun _ _ h => by cases h
      have hreading : ∃ l, (.ok (some line) : Except PyError (Option String)) = .ok l := ⟨_, rfl⟩
      rw [and_iff_right hfirst, and_iff_right hreading, ← ih]
      constructor
      · rintro ⟨lines, hprinted, hfilter⟩
        obtain ⟨rest, hrest, rfl⟩ := except_map_eq_ok_iff.mp hprinted
        rw [List.map_cons] at hfilter
        exact ⟨rest, hrest, (List.cons.inj hfilter).2⟩
      · rintro ⟨rest, hrest, hfilter⟩
        refine ⟨line :: rest, except_map_eq_ok_iff.mpr ⟨rest, hrest, rfl⟩, ?_⟩
        rw [hfilter, List.map_cons]

end WorkerController

/-! ## The turn at an instance -/

namespace PipeController

variable {c : PipeController} {key : String} {p : ProcessorController} {n fuel running : ℕ} {i : WorkerController}

theorem callInstance_ok {α : Type} {m : PyM WorkerController α} {a : α} {i' : WorkerController}
    (hn : p.instances[n]? = some i) (h : m i = .ok a i') :
    ProcessorController.callInstance n m p = .ok a { p with instances := p.instances.set n i' } := by
  rw [ProcessorController.callInstance, hn]
  simp only [h]

theorem callInstance_error {α : Type} {m : PyM WorkerController α} {e : PyError} {i' : WorkerController}
    (hn : p.instances[n]? = some i) (h : m i = .error e i') :
    ProcessorController.callInstance n m p = .error e { p with instances := p.instances.set n i' } := by
  rw [ProcessorController.callInstance, hn]
  simp only [h]

/-- The reading of a turn, without what it prints. -/
theorem onInstance_readLines (hn : p.instances[n]? = some i) (k : ℕ) :
    ProcessorController.onInstance n (WorkerController.readLines k) p
      = (ProcessorController.callInstance n (WorkerController.printLines k) >>= fun _ => pure ()) p := by
  rw [ProcessorController.onInstance, hn, WorkerController.readLines_eq_printLines]
  cases hcall : WorkerController.printLines k i with
  | ok lines i' =>
    rw [bind_ok (callInstance_ok hn hcall)]
    simp only [bind_ok hcall]
    rfl
  | error e i' =>
    rw [bind_error (callInstance_error hn hcall)]
    simp only [bind_error hcall]

/-- The loop of `monitor_pipe` is made of these turns. -/
theorem monitorLoop_eq_visit (hp : c.processors.get? key = some p) (hn : p.instances[n]? = some i) :
    monitorLoop key (fuel + 1) n running c
      = (visit key n i >>= fun _ => monitorLoop key fuel (n + 1) (if i.isDone then running else running + 1)) c := by
  have hturn : monitorLoop key (fuel + 1) n running (c.withProcessor key p) = _ := monitorLoop_succ hn
  rw [withProcessor_of_get? hp] at hturn
  rw [hturn, visit]
  have hread := onInstance_readLines hn i.visitReads
  cases hcall : WorkerController.printLines i.visitReads i with
  | ok lines i' =>
    rw [bind_ok (callInstance_ok hn hcall)] at hread
    rw [bind_ok (onProcessor_ok hp hread), bind_assoc, bind_ok (onProcessor_ok hp (callInstance_ok hn hcall))]
    by_cases hdone : i.isDone
    · simp only [if_pos hdone, bind_assoc, pure_bind]
    · simp only [if_neg hdone, pure_bind]
  | error e i' =>
    rw [bind_error (callInstance_error hn hcall)] at hread
    rw [bind_error (onProcessor_error hp hread), bind_assoc,
      bind_error (onProcessor_error hp (callInstance_error hn hcall))]

theorem visit_error {e : PyError} (hp : c.processors.get? key = some p) (hn : p.instances[n]? = some i)
    (h : answerOf (WorkerController.printLines i.visitReads i) = .error e) : ∃ c', visit key n i c = .error e c' := by
  cases hcall : WorkerController.printLines i.visitReads i with
  | ok lines i' =>
    rw [hcall] at h
    cases h
  | error e' i' =>
    rw [hcall] at h
    obtain rfl : e' = e := Except.error.inj h
    rw [visit, bind_error (onProcessor_error hp (callInstance_error hn hcall))]
    exact ⟨_, rfl⟩

theorem visit_ok {lines : List String} (hp : c.processors.get? key = some p) (hn : p.instances[n]? = some i)
    (hkey : i.procId = key) (hdone : i.isDone) (hcode : i.exitCode = some 0)
    (h : answerOf (WorkerController.printLines i.visitReads i) = .ok lines) :
    visit key n i c
      = .ok lines (c.withProcessor key { p with instances := p.instances.eraseIdx n, status := .completed }) := by
  cases hcall : WorkerController.printLines i.visitReads i with
  | error e i' =>
    rw [hcall] at h
    cases h
  | ok lines' i' =>
    rw [hcall] at h
    obtain rfl : lines' = lines := Except.ok.inj h
    have hexit := handleInstanceExit_remove (c := c) (n := n)
      (p := { p with instances := p.instances.set n i' }) hkey hcode
    rw [List.eraseIdx_set_eq] at hexit
    rw [visit, bind_ok (onProcessor_ok hp (callInstance_ok hn hcall))]
    simp only [if_pos hdone]
    rw [bind_ok hexit]
    rfl

/-- A clean exit prints all that is left in the queue exactly when every chunk of it can be decoded and none that is
not blank stands behind a blank one. -/
theorem exitPrintsAll_iff (hp : c.processors.get? key = some p) (hn : p.instances[n]? = some i)
    (hkey : i.procId = key) (hdone : i.isDone) (hcode : i.exitCode = some 0) :
    c.ExitPrintsAll key n i p ↔ (∀ reading ∈ i.readings, ∃ line, reading = .ok line) ∧
      i.readings.Pairwise fun first later => first = .ok none → later = .ok none := by
  have hprinted : answerOf (WorkerController.printLines i.visitReads i) = WorkerController.printedOf i.readings := by
    apply WorkerController.answerOf_printLines
    rw [WorkerController.visitReads, if_pos hdone, WorkerController.length_readings]
    exact Nat.lt_succ_self _
  rw [← WorkerController.printedOf_all_iff]
  constructor
  · rintro ⟨lines, c', -, hvisit, hfilter, -⟩
    refine ⟨lines, ?_, hfilter⟩
    rw [← hprinted]
    cases hcall : answerOf (WorkerController.printLines i.visitReads i) with
    | error e =>
      obtain ⟨s, hs⟩ := visit_error hp hn hcall
      rw [hs] at hvisit
      cases hvisit
    | ok lines' =>
      rw [visit_ok hp hn hkey hdone hcode hcall] at hvisit
      exact congrArg Except.ok (EStateM.Result.ok.inj hvisit).1
  · rintro ⟨lines, hlines, hfilter⟩
    have hvisit := visit_ok hp hn hkey hdone hcode (hprinted.trans hlines)
    exact ⟨lines, _, _, hvisit, hfilter, get?_withProcessor c key _, rfl⟩

/-! ## An inline worker -/

/-- An inline worker that has printed these texts and ended without an error. -/
def printedInline (texts : List String) : WorkerController :=
  { WorkerController.launched APIPipe.childProcessor 7 "" (.process (texts.flatMap fun text => [text, "\n"])) with
    state := .done, exitCode := some 0 }

def exitedInline (texts : List String) : ProcessorController where
  proc := APIPipe.childProcessor
  instances := [printedInline texts]
  status := .running

/-- The pipe `main` with one instance of `a`, which has ended. -/
def inlinePipe (texts : List String) : PipeController :=
  (load APIPipe.oneChild).withProcessor "a" (exitedInline texts)

theorem get?_inlinePipe (texts : List String) :
    (inlinePipe texts).processors.get? "a" = some (exitedInline texts) := get?_withProcessor _ _ _

theorem getElem?_exitedInline (texts : List String) :
    (exitedInline texts).instances[0]? = some (printedInline texts) := rfl

theorem exitPrintsAll_one_text :
    (inlinePipe ["first"]).ExitPrintsAll "a" 0 (printedInline ["first"]) (exitedInline ["first"]) := by
  refine (exitPrintsAll_iff (get?_inlinePipe _) (getElem?_exitedInline _) rfl rfl rfl).mpr ⟨?_, by decide⟩
  intro reading hreading
  obtain ⟨chunk, -, rfl⟩ := List.mem_map.mp hreading
  exact ⟨_, rfl⟩

/-- Of two printed texts the second is lost behind the newline of the first. -/
theorem second_text_lost :
    ¬ (inlinePipe ["first", "second"]).ExitPrintsAll "a" 0 (printedInline ["first", "second"])
        (exitedInline ["first", "second"]) ∧
      returned (visit "a" 0 (printedInline ["first", "second"]) (inlinePipe ["first", "second"]))
        = some ["a(7)>>>\x1b[0mfirst"] := by
  have hprinted : returned (visit "a" 0 (printedInline ["first", "second"]) (inlinePipe ["first", "second"]))
      = some ["a(7)>>>\x1b[0mfirst"] := by decide
  refine ⟨?_, hprinted⟩
  rintro ⟨lines, c', -, hvisit, hall, -⟩
  rw [hvisit] at hprinted
  obtain rfl := Option.some.inj hprinted
  exact absurd hall (by decide)

end PipeController

end Upipe
