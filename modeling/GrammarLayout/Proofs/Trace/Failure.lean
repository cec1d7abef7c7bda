import GrammarLayout.Proofs.Trace.Latest
import GrammarLayout.Run.Probe

/-!
# Failures in a trace

A text that cannot be read is noted in the trace as a failure within the span of
its reading.  A span of a scope that is not traced is inactive, and an inactive
span records no failure either: whether a failure is told depends on what the
level keeps of passes, not on what it keeps of failures.

What is proved here:

* `Recorder.exists_emitNext` — an event of a scope that is traced reaches the
  sink;
* `Probe.phase_failed` — what a phase that fails hands to the sink;
* `formatObserved_failure` — the trace of a text that cannot be read.
-/

namespace GrammarLayout

open Text

/-! ## What reaches the sink -/

namespace Sink

/-- The sink after events were handed to it. -/
def receive : Sink → List TraceEvent → Sink
  | nowhere, _ => nowhere
  | stream l f o, es => stream l f (es.foldl (fun o e => o.add (e.write f)) o)
  | ring l r, es => ring l (es.foldl Ring.push r)

@[simp] theorem level_receive (s : Sink) (es : List TraceEvent) :
    (s.receive es).level = s.level := by
  cases s <;> rfl

@[simp] theorem receive_nil (s : Sink) : s.receive [] = s := by
  cases s <;> rfl

theorem receive_append (s : Sink) (es fs : List TraceEvent) :
    s.receive (es ++ fs) = (s.receive es).receive fs := by
  cases s with
  | nowhere => rfl
  | stream l f o => simp only [receive, List.foldl_append]
  | ring l r => simp only [receive, List.foldl_append]

end Sink

namespace TraceLevel

/-- The levels at which passes are traced. -/
def tracesPasses : List TraceLevel := [phase, detail, debug]

theorem keeps_pass_iff (l : TraceLevel) : l.keeps .pass = true ↔ l ∈ tracesPasses := by
  cases l <;> decide

/-- Where passes are traced, something is traced, and failures are kept. -/
theorem of_keeps_pass {l : TraceLevel} (h : l.keeps .pass = true) :
    l.enabled = true ∧ l.keeps .error = true := by
  cases l <;> revert h <;> decide

end TraceLevel

namespace Recorder

/-- An event of a scope that is traced reaches the sink. -/
theorem exists_emitNext (r : Recorder) {scope : Scope} (h : r.sink.level.keeps scope = true)
    (kind : EventKind) (span parent : Nat) (name detail : Text) (extra : List (Text × Text)) :
    ∃ e : TraceEvent, e.kind = kind ∧ e.scope = scope ∧ e.detail = detail ∧
      (r.emitNext kind scope span parent name detail extra).sink = r.sink.receive [e] := by
  cases hsink : r.sink with
  | nowhere =>
    rw [hsink] at h
    exact absurd h Bool.false_ne_true
  | stream l f o =>
    rw [hsink] at h
    have hkeeps : l.keeps scope = true := h
    refine ⟨⟨r.now, r.seq + 1, kind, scope, span, parent, r.worker, name, detail, extra⟩, rfl, rfl,
      rfl, ?_⟩
    simp only [emitNext, emit, hsink, hkeeps, if_true]
    rfl
  | ring l ring =>
    rw [hsink] at h
    have hkeeps : l.keeps scope = true := h
    -- Memory counts the event once more.
    refine ⟨⟨r.now, r.seq + 1 + 1, kind, scope, span, parent, r.worker, name, detail, extra⟩, rfl,
      rfl, rfl, ?_⟩
    simp only [emitNext, emit, hsink, hkeeps, if_true]
    rfl

/-- A span of a scope that is traced is active, and its beginning reaches the sink. -/
theorem exists_startSpan (r : Recorder) {scope : Scope} (h : r.records scope = true) (name : Text)
    (parent : Nat) : ∃ e : TraceEvent, e.kind = .start ∧ e.scope = scope ∧
      (r.startSpan scope name parent).1.sink = r.sink.receive [e] ∧
      (r.startSpan scope name parent).2.isActive = true ∧
      (r.startSpan scope name parent).2.scope = scope := by
  have hkeeps : r.sink.level.keeps scope = true := (Bool.and_eq_true_iff.1 h).2
  obtain ⟨e, hkind, hscope, -, hsink⟩ := exists_emitNext { r with spans := r.spans + 1 } hkeeps
    .start (r.spans + 1) parent name [] []
  rw [startSpan, if_pos h]
  exact ⟨e, hkind, hscope, hsink, by simp [Span.isActive], rfl⟩

end Recorder

/-! ## A phase that fails -/

/-- Does the event tell of a failure? -/
def TraceEvent.isFailure (e : TraceEvent) : Bool := e.kind = .point && e.scope = .error

namespace Probe

variable (p : Probe) (current : Nat) (name note message : Text)

/-- Where passes are not traced, a phase leaves no trace, even if it fails. -/
theorem phase_untraced (h : p.recorder.sink.level.keeps .pass = false) :
    (p.phase current name note [] (some message)).recorder = p.recorder := by
  have hrecords : p.recorder.records .pass = false := by rw [Recorder.records, h, Bool.and_false]
  simp [phase, Recorder.startSpan, hrecords, Recorder.failSpan, Recorder.endSpan, Span.isActive,
    Span.inactive]

/-- Where passes are traced, a phase that fails tells its beginning, the failure and its end. -/
theorem phase_failed (h : p.recorder.sink.level.keeps .pass = true) :
    ∃ begun failed ended : TraceEvent, begun.kind = .start ∧ ended.kind = .finish ∧
      failed.isFailure = true ∧ failed.detail = message ∧
      (p.phase current name note [] (some message)).recorder.sink
        = p.recorder.sink.receive [begun, failed, ended] := by
  obtain ⟨henabled, herror⟩ := TraceLevel.of_keeps_pass h
  have hrecords : p.recorder.records .pass = true := by
    rw [Recorder.records, Recorder.enabled, henabled, h, Bool.and_self]
  obtain ⟨begun, hbegun, -, hstart, hactive, hscope⟩ :=
    p.recorder.exists_startSpan hrecords name current
  generalize hspan : (p.recorder.startSpan .pass name current).2 = span at hactive hscope
  generalize hbegin : (p.recorder.startSpan .pass name current).1 = r at hstart
  have hlevel : r.sink.level = p.recorder.sink.level := by rw [hstart, Sink.level_receive]
  -- The failure is told below the span.
  have hpoint : r.records .error = true := by
    rw [Recorder.records, Recorder.enabled, hlevel, henabled, herror, Bool.and_self]
  obtain ⟨failed, hkind, herr, hdetail, hfail⟩ := r.exists_emitNext (hlevel ▸ herror)
    .point 0 span.id span.name message []
  have hfailed : r.failSpan span message = r.emitNext .point .error 0 span.id span.name message [] := by
    rw [Recorder.failSpan, if_pos hactive, Recorder.point, if_pos hpoint]
  -- The span ends after it.
  have hkept : (r.failSpan span message).sink.level.keeps span.scope = true := by
    rw [hfailed, hfail, Sink.level_receive, hlevel, hscope]
    exact h
  obtain ⟨ended, hended, -, -, hend⟩ := (r.failSpan span message).exists_emitNext hkept
    .finish span.id span.parent span.name note span.extra
  refine ⟨begun, failed, ended, hbegun, hended, by simp [TraceEvent.isFailure, hkind, herr],
    hdetail, ?_⟩
  have hphase : (p.phase current name note [] (some message)).recorder
      = (r.failSpan span message).endSpan span note := by
    rw [← hbegin, ← hspan]
    rfl
  rw [hphase, Recorder.endSpan, if_pos hactive, hend, hfailed, hfail, hstart,
    ← Sink.receive_append, ← Sink.receive_append]
  rfl

end Probe

/-! ## A text that cannot be read -/

/-- Formatting a text that cannot be read returns its error, and the trace tells the error once, as
a failure, exactly at the levels at which passes are traced; at every other level nothing is
traced. -/
theorem formatObserved_failure (style : Style) (passes : List PassName) (current : Nat) (p : Probe)
    {text : Text} {e : ParseError} (h : Document.parse text = .error e) :
    (formatObserved style passes current p text).2 = .error e ∧
      ∃ es : List TraceEvent,
        (formatObserved style passes current p text).1.recorder.sink = p.recorder.sink.receive es ∧
        ((es.filter TraceEvent.isFailure).map TraceEvent.detail = [e.failure.message]
          ↔ p.recorder.sink.level ∈ TraceLevel.tracesPasses) ∧
        (p.recorder.sink.level ∉ TraceLevel.tracesPasses → es = []) ∧
        ∀ (level : TraceLevel) (ring : Ring), p.recorder.sink = .ring level ring → ring.Sound →
          (formatObserved style passes current p text).1.recorder.sink.events?
            = some (latest ring.capacity (ring.toList ++ es)) := by
  have hobserved : formatObserved style passes current p text =
      (p.phase current (bytes "parse") (bytes "failed") [] (some e.failure.message), .error e) := by
    rw [formatObserved, h]
  have hheld : ∀ es, (formatObserved style passes current p text).1.recorder.sink
        = p.recorder.sink.receive es →
      ∀ (level : TraceLevel) (ring : Ring), p.recorder.sink = .ring level ring → ring.Sound →
        (formatObserved style passes current p text).1.recorder.sink.events?
          = some (latest ring.capacity (ring.toList ++ es)) := by
    intro es hes level ring hsink hsound
    rw [hes, hsink, ← hsound.toList_foldl_push]
    rfl
  refine ⟨by rw [hobserved], ?_⟩
  simp only [← TraceLevel.keeps_pass_iff]
  by_cases hlevel : p.recorder.sink.level.keeps .pass = true
  · obtain ⟨begun, failed, ended, hbegun, hended, hfailed, hdetail, hsink⟩ :=
      p.phase_failed current (bytes "parse") (bytes "failed") e.failure.message hlevel
    have hes := congrArg (fun o => o.1.recorder.sink) hobserved
    have hother : begun.isFailure = false ∧ ended.isFailure = false := by
      simp [TraceEvent.isFailure, hbegun, hended]
    refine ⟨[begun, failed, ended], hes.trans hsink, ?_, fun hnot => absurd hlevel hnot,
      hheld _ (hes.trans hsink)⟩
    simp [hother.1, hother.2, hfailed, hdetail, hlevel]
  · have hnone := p.phase_untraced current (bytes "parse") (bytes "failed") e.failure.message
      (by simpa using hlevel)
    have hes : (formatObserved style passes current p text).1.recorder.sink
        = p.recorder.sink.receive [] := by
      rw [hobserved, hnone, Sink.receive_nil]
    exact ⟨[], hes, by simp [hlevel], fun _ => rfl, hheld [] hes⟩

/-- A block that is never closed, traced into an empty ring at the level of phases. -/
theorem formatObserved_failure_unclosed :
    ∃ e, Document.parse (bytes "a: b \x7b\n") = .error e ∧
      ∃ es : List TraceEvent,
        (formatObserved {} [] 0 { recorder := { sink := .ring .phase (.ofCapacity 8) } }
          (bytes "a: b \x7b\n")).1.recorder.sink.events? = some (latest 8 es) ∧
        (es.filter TraceEvent.isFailure).map TraceEvent.detail = [e.failure.message] := by
  have h : Document.parse (bytes "a: b \x7b\n") = .error ⟨1, .unterminated (bytes "a")⟩ := by
    rfl
  obtain ⟨-, es, -, honce, -, hheld⟩ := formatObserved_failure {} [] 0
    { recorder := { sink := .ring .phase (.ofCapacity 8) } } h
  exact ⟨_, h, es, hheld .phase (.ofCapacity 8) rfl (Ring.sound_ofCapacity 8),
    honce.2 (by decide)⟩

end GrammarLayout
