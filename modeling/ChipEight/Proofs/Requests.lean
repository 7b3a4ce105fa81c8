import ChipEight.Proofs.Acts
import ChipEight.Proofs.Atomicity
import Mathlib.Data.List.Basic

/-!
Requests as acts. A request does to a machine what a list of acts does, one after the other
(`Machine.machine_serve`), so what every act keeps, every request keeps. A request that asks for
more cycles than the machine goes through is no exception: a cycle that fails, and one that only
waits, can be repeated without end.
-/
namespace ChipEight

namespace Request

/-- What a request does to a machine, act by act. -/
def acts : Request → List Act
  | load image => [.load image]
  | loadFrom stream => [.loadFrom stream]
  | press key => [.press key]
  | release key => [.release key]
  | tick times => .replicate times .tick
  | setDelay value => [.setDelay value]
  | tickDelay times => .replicate times .tickDelay
  | acknowledge => [.acknowledge]
  | step times | run times => .replicate times .cycle
  | readDelay | frame | picture | readBlock .. | readByte _ | fetch _ | cell .. | register _ => []

/-- Whether a request takes the machine through cycles. -/
def goes : Request → Bool
  | step _ | run _ => true
  | _ => false

/-- The parts a request may change, the cycles it takes the machine through aside. -/
def touches : Request → List Part
  | load _ | loadFrom _ => [.memory]
  | press _ => [.registers, .keys, .awaiting]
  | release _ => [.keys]
  | tick _ => [.delay, .sound]
  | setDelay _ | tickDelay _ => [.delay]
  | acknowledge => [.display]
  | readDelay | frame | picture | readBlock .. | readByte _ | fetch _ | cell .. | register _ => []
  | step _ | run _ => []

/-- The image a request puts into memory: none if it does not ask for that, or is refused. -/
def image? : Request → Option (List UInt8)
  | load image => if image.length ≤ imageCapacity then some image else none
  | loadFrom stream =>
      match Chunk.gather stream with
      | .ok image => if image.length ≤ imageCapacity then some image else none
      | .error _ => none
  | _ => none

/-- The images a request's acts put into memory are the one the request does. -/
theorem images_acts (request : Request) :
    request.acts.filterMap (fun a => a.request.image?) = request.image?.toList := by
  cases request with
  | load image | loadFrom stream =>
    simp only [acts, Act.request, List.filterMap_cons, List.filterMap_nil]
    cases image? _ <;> rfl
  | tick | tickDelay | step | run => exact List.filterMap_replicate_of_none rfl
  | _ => rfl

theorem images_flatMap_acts (requests : List Request) :
    (requests.flatMap acts).filterMap (fun a => a.request.image?) = requests.filterMap image? := by
  rw [List.filterMap_flatMap, List.filterMap_eq_flatMap_toList, funext images_acts]

end Request

theorem Act.goes_request {a : Act} (h : a ≠ .cycle) : a.request.goes = false := by
  cases a with
  | cycle => exact absurd rfl h
  | _ => rfl

theorem Answer.machine_look {α : Type} (m : Machine) (reply : α → Reply) (found : Except Fault α) :
    (look m reply found).machine = m := by
  cases found <;> rfl

namespace Machine

/-! ## Cycles that come to nothing -/

theorem step_of_fault {m : Machine} {f : Fault} (h : m.step.fault = some f) :
    m.step = .failure m f := by
  have hm := (m.step_failsCleanly f h).1
  cases ho : m.step
  simp_all [Outcome.failure]

theorem perform_cycles_of_rest {m : Machine} (h : m.step.machine = m) (times : Nat) :
    m.perform (.replicate times .cycle) = m := by
  induction times with
  | zero => rfl
  | succ times ih => rw [List.replicate_succ, perform_cons, act_cycle, h, ih]

/-- A loop that ends early ends where going on would change nothing. -/
theorem machine_cyclesUntil {halt : Machine → Bool}
    (hhalt : ∀ m, halt m = true → m.step.machine = m) (limit : Nat) (r : Run) :
    (Run.cyclesUntil halt limit r).machine = r.machine.perform (.replicate limit .cycle) := by
  induction limit generalizing r with
  | zero => rfl
  | succ limit ih =>
    have hstep : r.step.machine = r.machine.step.machine := rfl
    rw [Run.cyclesUntil, List.replicate_succ, perform_cons, act_cycle]
    split
    · rename_i hends
      have hrest : r.machine.step.machine.step.machine = r.machine.step.machine := by
        rw [Bool.or_eq_true] at hends
        rcases hends with hfault | hhalts
        · obtain ⟨f, hf⟩ := Option.isSome_iff_exists.mp hfault
          have hm : r.machine.step.machine = r.machine := (r.machine.step_failsCleanly f hf).1
          rw [hm, hm]
        · exact hhalt _ hhalts
      rw [hstep, perform_cycles_of_rest hrest]
    · rw [ih, hstep]

/-! ## Requests -/

/-- A machine that already waits runs to where it is. -/
theorem machine_serve_run (m : Machine) (limit : Nat) :
    (m.serve (.run limit)).machine = ((Run.start m).cyclesUntil isWaiting limit).machine := by
  rw [serve]
  split
  · rename_i hwait
    obtain ⟨limit, rfl⟩ := Nat.exists_eq_succ_of_ne_zero (Nat.ne_of_gt hwait.2)
    have hstep : (Run.start m).step.machine = m := by
      show m.step.machine = m
      rw [step_of_isWaiting hwait.1]
      rfl
    rw [Run.cyclesUntil, hstep, hwait.1, Bool.or_true, if_pos rfl, hstep]
    rfl
  · show (Run.close _).machine = _
    rw [Run.close]
    split <;> rfl

theorem perform_ticks (m : Machine) (times : Nat) :
    m.perform (.replicate times .tick) = m.ticks times := by
  induction times generalizing m with
  | zero => rfl
  | succ times ih => rw [List.replicate_succ, perform_cons, ih]; rfl

theorem perform_delayTicks (m : Machine) (times : Nat) :
    m.perform (.replicate times .tickDelay) = { m with delay := m.delay.ticks times } := by
  induction times generalizing m with
  | zero => rfl
  | succ times ih => rw [List.replicate_succ, perform_cons, ih]; rfl

/-- A request does what its acts do. -/
theorem machine_serve (m : Machine) (request : Request) :
    (m.serve request).machine = m.perform request.acts := by
  cases request with
  | load | loadFrom | press | release | setDelay | acknowledge => rfl
  | readDelay | frame | picture => rfl
  | tick times => exact (m.perform_ticks times).symm
  | tickDelay times => exact (m.perform_delayTicks times).symm
  | readBlock =>
    rw [serve]
    split
    · exact Answer.machine_look ..
    · rfl
  | readByte | fetch => exact Answer.machine_look ..
  | cell x y =>
    rw [serve]
    split <;> rfl
  | register x =>
    rw [serve]
    split <;> rfl
  | step times => exact machine_cyclesUntil (by simp) times (.start m)
  | run limit =>
    rw [machine_serve_run]
    exact machine_cyclesUntil (fun m h => by rw [step_of_isWaiting h]; rfl) limit (.start m)

theorem after_append (m : Machine) (requests more : List Request) :
    m.after (requests ++ more) = (m.after requests).after more :=
  List.foldl_append

theorem perform_append (m : Machine) (acts more : List Act) :
    m.perform (acts ++ more) = (m.perform acts).perform more := by
  rw [perform, List.map_append, after_append]
  rfl

theorem after_eq_perform (m : Machine) (requests : List Request) :
    m.after requests = m.perform (requests.flatMap Request.acts) := by
  induction requests generalizing m with
  | nil => rfl
  | cons request rest ih =>
    rw [List.flatMap_cons, perform_append, ← machine_serve, ← ih]
    rfl

/-! ## Footprints -/

/-- Acts that leave a part alone, whatever the machine, leave it alone one after the other. -/
theorem perform_same {part : Part} {acts : List Act} (h : ∀ a ∈ acts, ∀ m, part ∉ a.touches m)
    (m : Machine) : part.Same m (m.perform acts) := by
  induction acts generalizing m with
  | nil => exact .refl part m
  | cons a rest ih =>
    rw [List.forall_mem_cons] at h
    exact (m.act_same a (h.1 m)).trans (ih h.2 _)

/-- A request that asks for no cycles changes only what it touches. -/
theorem serve_same {part : Part} {request : Request} (hgoes : request.goes = false)
    (h : part ∉ request.touches) (m : Machine) : part.Same m (m.serve request).machine := by
  rw [machine_serve]
  refine perform_same (fun a ha n => ?_) m
  cases request with
  | step | run => cases hgoes
  | tick | tickDelay =>
    obtain rfl := List.eq_of_mem_replicate ha
    exact h
  | load | loadFrom | press | release | setDelay | acknowledge =>
    obtain rfl := List.mem_singleton.mp ha
    exact h
  | readDelay | frame | picture | readBlock | readByte | fetch | cell | register => cases ha

/-! ## Configuration -/

theorem config_act (m : Machine) (a : Act) : (m.act a).config = m.config := by
  have hsame : Part.config.Same m (m.act a) := by
    refine m.act_same a ?_
    cases a with
    | cycle => exact Act.not_mem_touches_cycle (by simp) Instruction.config_not_mem_touches m
    | _ => simp [Act.touches]
  exact hsame

theorem config_serve (m : Machine) (request : Request) :
    (m.serve request).machine.config = m.config := by
  rw [machine_serve]
  generalize request.acts = acts
  induction acts generalizing m with
  | nil => rfl
  | cons a rest ih => rw [perform_cons, ih, config_act]

theorem config_after (m : Machine) (requests : List Request) :
    (m.after requests).config = m.config := by
  induction requests generalizing m with
  | nil => rfl
  | cons request rest ih =>
    show ((m.serve request).machine.after rest).config = m.config
    rw [ih, config_serve]

/-! ## Memory -/

/-- Among the deeds of a host, only loading an image changes memory. -/
theorem memory_act_of_ne_cycle (m : Machine) {a : Act} (h : a ≠ .cycle) :
    (m.act a).memory =
      (a.request.image?.elim m.memory fun image => m.memory.put Memory.programStart image) := by
  cases a with
  | cycle => exact absurd rfl h
  | load image =>
    rw [act_load, load, store, Memory.load, Act.request, Request.image?]
    split <;> rfl
  | loadFrom stream =>
    rw [act_loadFrom, loadFrom, store, Memory.loadFrom, Act.request, Request.image?]
    cases Chunk.gather stream with
    | error f => rfl
    | ok image =>
      show (Outcome.check m (m.memory.load image) _).machine.memory = _
      rw [Memory.load]
      dsimp only
      split <;> rfl
  | press | release | tick | setDelay | tickDelay | acknowledge =>
    show Part.memory.Same m (m.act _)
    refine m.act_same _ ?_
    simp [Act.touches]

end Machine
end ChipEight
