import ChipEight.Machine.Execute

/-!
Cycles: a machine that does not wait for a key fetches the opcode at its program counter and
executes it. A `Run` is a machine on its way through cycles, together with how many have
succeeded, what they logged, and the fault that ended them, if one did.
-/
namespace ChipEight

namespace Machine

/-- One cycle. A machine that waits for a key stays as it is. -/
def step (m : Machine) : Outcome :=
  if m.isWaiting then .success m
  else .check m (m.memory.fetch m.pc) m.execute

/-- What a cycle logs: the opcode it fetched with the state it found, whether the cycle succeeds
or not, and what executing the opcode logs. -/
def stepLog (m : Machine) : List Log.Entry :=
  if m.isWaiting then []
  else
    match m.memory.fetch m.pc with
    | .ok op => .cycle op m.registers m.index m.pc :: m.executeLog op
    | .error _ => []

end Machine

/-- A machine on its way through cycles. -/
structure Run where
  machine : Machine
  /-- The cycles that have succeeded. -/
  cycles : Nat
  log : Array Log.Entry
  /-- The fault that ended the run. -/
  fault : Option Fault

namespace Run

/-- Before the first cycle. -/
def start (m : Machine) : Run :=
  ⟨m, 0, #[], none⟩

/-- Notes the outcome of one cycle, and what it logged. -/
def record (r : Run) (log : List Log.Entry) (o : Outcome) : Run where
  machine := o.machine
  cycles := if o.fault.isNone then r.cycles + 1 else r.cycles
  log := r.log ++ log
  fault := o.fault

/-- One cycle more. -/
def step (r : Run) : Run :=
  r.record r.machine.stepLog r.machine.step

/-- Executes an opcode that is given, not fetched. -/
def execute (r : Run) (op : Opcode) : Run :=
  r.record (r.machine.executeLog op) (r.machine.execute op)

/-- Up to `limit` cycles. It ends before that after a cycle that fails, and after a cycle behind
which the machine is in a state to halt in. -/
def cyclesUntil (halt : Machine → Bool) : Nat → Run → Run
  | 0, r => r
  | limit + 1, r =>
      let r := r.step
      if r.fault.isSome || halt r.machine then r else cyclesUntil halt limit r

/-- Executes opcodes in order, up to the first that fails. -/
def executeAll : List Opcode → Run → Run
  | [], r => r
  | op :: rest, r =>
      let r := r.execute op
      if r.fault.isSome then r else executeAll rest r

/-- Executes a list of opcodes a number of times over, up to the first that fails. -/
def executeRounds (code : List Opcode) : Nat → Run → Run
  | 0, r => r
  | rounds + 1, r =>
      let r := executeAll code r
      if r.fault.isSome then r else executeRounds code rounds r

/-- A run that no fault ended notes how long it was. -/
def close (r : Run) : Run :=
  if r.fault.isSome then r else { r with log := r.log.push (.stopped r.cycles) }

end Run

namespace Machine

/-- Up to a number of cycles, to the first that fails. -/
def steps (m : Machine) (limit : Nat) : Run :=
  (Run.start m).cyclesUntil (fun _ => false) limit

/-- Runs until a host stops the machine, which it does behind a number of cycles, or behind the
first cycle that leaves the machine in a state to halt in. -/
def run (m : Machine) (halt : Machine → Bool) (limit : Nat) : Run :=
  ((Run.start m).cyclesUntil halt limit).close

end Machine
end ChipEight
