import ChipEight.Proofs.History
import ChipEight.Proofs.IteratedSteps
import ChipEight.Proofs.LogLines
import ChipEight.Proofs.UnknownOpcodes

/-!
The trace: what a machine logs, told from what happens to it. A cycle is worth one line for the
opcode it fetches, with the machine as the cycle finds it, and a second line if the opcode is left
out (`Machine.stepLog_eq_traced`). The log of a list of requests is what its history is worth,
moment by moment (`Machine.log_answers`), and a threshold only chooses among these lines.
-/
namespace ChipEight

namespace Machine

/-- The lines the next cycle is worth. It is worth none if the machine waits for a key, or if memory
ends before the opcode does. -/
def traced (m : Machine) : List Log.Entry :=
  if m.isWaiting ∨ Memory.size < m.pc.toNat + 2 then []
  else
    let op : Opcode := ⟨m.memory.word m.pc.toNat⟩
    .cycle op m.registers m.index m.pc ::
      if op.Unknown ∧ m.config.unknown = .skip then [.leftOut op m.pc] else []

/-- A cycle logs what it is worth, whether it succeeds or not. -/
theorem stepLog_eq_traced (m : Machine) : m.stepLog = m.traced := by
  rw [stepLog, traced, Memory.fetch_eq]
  by_cases hwait : m.isWaiting = true
  · rw [if_pos hwait, if_pos (.inl hwait)]
  · by_cases hend : m.pc.toNat + 2 ≤ Memory.size
    · rw [if_neg hwait, if_pos hend, if_neg (not_or.mpr ⟨hwait, Nat.not_lt.mpr hend⟩)]
      simp only [executeLog, Instruction.decode?_eq_none_iff]
    · rw [if_neg hwait, if_neg hend, if_pos (.inr (Nat.lt_of_not_le hend))]

/-- An opcode that is left out. -/
example :
    let m := ((bare {} (.ofList [])).load [0x01, 0x23]).machine
    m.traced.map (fun e => (e.level, e.text)) =
      [(.trace,
          "0123 v[00, 00, 00, 00, 00, 00, 00, 00, 00, 00, 00, 00, 00, 00, 00, 00] i0000 pc0200"),
        (.warn, "opcode 0123 at 0200 is not implemented")] := by
  decide +kernel

end Machine

/-! ## Histories -/

/-- The lines a moment is worth. An answer is worth one if an image has been loaded, or if a run was
stopped from outside. -/
def Moment.notes : Moment → List Log.Entry
  | cycle start .. => start.traced
  | answer (.load image) ⟨_, .done, _⟩ => [.loaded image.length]
  | answer (.loadFrom stream) ⟨_, .done, _⟩ => [.loaded (Chunk.total stream)]
  | answer (.run _) ⟨_, .cycles count, _⟩ => [.stopped count]
  | answer .. => []

theorem Run.log_foldl_note {moments : List Moment}
    (hcycles : ∀ x ∈ moments, ∃ m : Machine, x = m.nextCycle) (r : Run) :
    (moments.foldl note r).log.toList = r.log.toList ++ moments.flatMap Moment.notes := by
  induction moments generalizing r with
  | nil => exact (List.append_nil _).symm
  | cons x rest ih =>
    rw [List.forall_mem_cons] at hcycles
    obtain ⟨⟨m, rfl⟩, hrest⟩ := hcycles
    have hlog : (r.note m.nextCycle).log.toList = r.log.toList ++ m.traced := by
      rw [← m.stepLog_eq_traced]
      exact Array.toList_appendList ..
    rw [List.foldl_cons, ih hrest, hlog, List.append_assoc]
    rfl

theorem Run.log_cyclesUntil (m : Machine) (halt : Machine → Bool) (limit : Nat) :
    ((start m).cyclesUntil halt limit).log.toList =
      (m.cycles halt limit).flatMap Moment.notes := by
  rw [cyclesUntil_eq_foldl, log_foldl_note fun _ => Machine.exists_of_mem_cycles]
  rfl

/-- A run that no fault ended has one line more. -/
theorem Run.log_close (r : Run) (limit : Nat) :
    (Answer.ofRun r.close).log =
      r.log.toList ++ (Moment.answer (.run limit) (Answer.ofRun r.close)).notes := by
  rw [close]
  cases hfault : r.fault with
  | none => simp [Answer.ofRun, Moment.notes]
  | some f => simp [Answer.ofRun, hfault, Moment.notes]

theorem Answer.log_look {α : Type} (m : Machine) (reply : α → Reply) (found : Except Fault α) :
    (look m reply found).log = [] := by
  cases found <;> rfl

namespace Machine

/-- An answer has the lines of the cycles it took, and its own. -/
theorem log_serve (m : Machine) (request : Request) :
    (m.serve request).log = (m.cyclesOf request).flatMap Moment.notes ++
      (Moment.answer request (m.serve request)).notes := by
  cases request with
  | load image =>
    rw [serve, Answer.ofOutcome]
    cases (m.load image).fault <;> rfl
  | loadFrom stream =>
    rw [serve, Answer.ofOutcome]
    cases (m.loadFrom stream).fault <;> rfl
  | readBlock =>
    rw [serve]
    split
    · exact Answer.log_look ..
    · rfl
  | readByte | fetch =>
    rw [serve]
    exact Answer.log_look ..
  | cell x y =>
    rw [serve]
    cases Frame.point? x y <;> rfl
  | register x =>
    rw [serve]
    cases m.registers[x]? <;> rfl
  | step times =>
    exact (Run.log_cyclesUntil m _ times).trans (List.append_nil _).symm
  | run limit =>
    rw [serve, cyclesOf]
    split
    · rfl
    · rw [← Run.log_cyclesUntil]
      exact Run.log_close _ limit
  | _ => rfl

/-- What is logged on the way is what the history is worth. -/
theorem log_answers (m : Machine) (requests : List Request) :
    (m.answers requests).flatMap Answer.log = (m.history requests).flatMap Moment.notes := by
  induction requests generalizing m with
  | nil => rfl
  | cons request rest ih =>
    rw [answers, history, List.flatMap_cons, ih, log_serve, List.flatMap_append, List.flatMap_cons,
      List.append_assoc]

/-- The cycles that a machine goes through when it is asked for them one by one, whatever they come
to, are worth what the machines before them are. -/
theorem log_answers_single (m : Machine) (n : Nat) :
    (m.answers (.replicate n (.step 1))).flatMap Answer.log =
      (List.range n).flatMap fun j => (m.stepped j).traced := by
  induction n generalizing m with
  | zero => rfl
  | succ n ih =>
    have hserve : (m.serve (.step 1)).machine = m.step.machine := by
      rw [machine_serve]
      exact act_cycle m
    have hlog : (m.serve (.step 1)).log = m.traced := by
      rw [log_serve]
      simp [cyclesOf, cycles, Moment.notes, nextCycle]
    rw [List.replicate_succ, answers, List.flatMap_cons, hlog, hserve, ih, List.range_succ_eq_map,
      List.flatMap_cons, List.flatMap_map]
    rfl

/-! ## Thresholds -/

end Machine

/-- What is left of an answer where a threshold keeps lines back. -/
def Answer.upTo (threshold : Log.Level) (a : Answer) : Answer :=
  { a with log := Log.visible threshold a.log }

namespace Machine

/-- The answers to a list of requests, where each is held back to a threshold before the next
request is made. -/
def answersUpTo (threshold : Log.Level) (m : Machine) : List Request → List Answer
  | [] => []
  | request :: rest =>
      let answer := (m.serve request).upTo threshold
      answer :: answer.machine.answersUpTo threshold rest

/-- A threshold takes nothing away from answers but lines. -/
theorem answersUpTo_eq (threshold : Log.Level) (m : Machine) (requests : List Request) :
    m.answersUpTo threshold requests = (m.answers requests).map (Answer.upTo threshold) := by
  induction requests generalizing m with
  | nil => rfl
  | cons request rest ih =>
    rw [answersUpTo, answers, List.map_cons, ← ih]
    rfl

/-- The lines logged through a list of requests, at a threshold. -/
def lines (threshold : Log.Level) (m : Machine) (requests : List Request) : List String :=
  (m.answersUpTo threshold requests).flatMap fun answer => answer.log.map Log.Entry.line

theorem lines_eq (threshold : Log.Level) (m : Machine) (requests : List Request) :
    m.lines threshold requests =
      (Log.visible threshold ((m.answers requests).flatMap Answer.log)).map Log.Entry.line := by
  rw [lines, answersUpTo_eq, List.flatMap_map, Log.visible, List.filter_flatMap, List.map_flatMap]
  rfl

theorem lines_trace (m : Machine) (requests : List Request) :
    m.lines .trace requests = ((m.answers requests).flatMap Answer.log).map Log.Entry.line := by
  rw [lines_eq, Log.visible_trace]

/-- **The trace is complete and faithful.** With nothing kept back, the lines logged through a list
of requests are those its history is worth, in order: for each cycle those of the machine it starts
from, which come to one if an opcode is fetched, whatever becomes of it, to a second if the opcode
is unknown and left out, and to none if the machine waits or has nothing to fetch. So it is for
single cycles, each from the machine the ones before it lead to. A cycle's line is a trace of the
opcode, the registers and both addresses, and the second line a warning of the opcode and where it
stands. Lines of two cycles agree just if the opcodes, all registers and both addresses do. A threshold keeps back lines that name a less
severe level, and changes neither machines nor replies. -/
theorem trace_tells_cycles (m : Machine) (requests : List Request) (threshold : Log.Level) :
    let hex (width n : Nat) := String.ofList (Hex.fixed .upper width n)
    m.lines .trace requests =
        ((m.history requests).flatMap Moment.notes).map Log.Entry.line ∧
      (∀ n, m.lines .trace (.replicate n (.step 1)) =
        ((List.range n).flatMap fun j => (m.stepped j).traced).map Log.Entry.line) ∧
      (∀ (op : Opcode) (r : Vector UInt8 16) (i pc : UInt16),
        (Log.Entry.cycle op r i pc).level = .trace ∧
          (Log.Entry.cycle op r i pc).line = "TRACE " ++
            (hex 4 op.word.toNat
              ++ " v" ++ ("[" ++ ", ".intercalate (r.toList.map fun b => hex 2 b.toNat) ++ "]")
              ++ " i" ++ hex 4 i.toNat ++ " pc" ++ hex 4 pc.toNat)) ∧
      (∀ (op : Opcode) (pc : UInt16),
        (Log.Entry.leftOut op pc).level = .warn ∧
          (Log.Entry.leftOut op pc).line = "WARN " ++
            ("opcode " ++ hex 4 op.word.toNat ++ " at " ++ hex 4 pc.toNat
              ++ " is not implemented")) ∧
      (∀ (op op' : Opcode) (r r' : Vector UInt8 16) (i i' pc pc' : UInt16),
        (Log.Entry.cycle op r i pc).line = (Log.Entry.cycle op' r' i' pc').line ↔
          op = op' ∧ r = r' ∧ i = i' ∧ pc = pc') ∧
      m.lines threshold requests =
        (m.lines .trace requests).filter (Log.lineVisible threshold) ∧
      (m.answersUpTo threshold requests).map (fun answer => (answer.machine, answer.reply)) =
        (m.answersUpTo .trace requests).map fun answer => (answer.machine, answer.reply) := by
  intro hex
  refine ⟨?_, fun n => ?_, fun op r i pc => ⟨rfl, Log.Entry.line_cycle op r i pc⟩,
    fun op pc => ⟨rfl, Log.Entry.line_leftOut op pc⟩,
    fun _ _ _ _ _ _ _ _ => Log.Entry.line_cycle_inj, ?_, ?_⟩
  · rw [lines_trace, log_answers]
  · rw [lines_trace, log_answers_single]
  · rw [lines_eq, Log.lines_visible, lines_trace]
  · rw [answersUpTo_eq, answersUpTo_eq, List.map_map, List.map_map]
    rfl

end Machine
end ChipEight
