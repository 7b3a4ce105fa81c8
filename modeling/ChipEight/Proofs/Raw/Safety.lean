import ChipEight.Proofs.Raw.Cycles
import ChipEight.Proofs.Requests

/-!
Safety of the raw machine. A machine comes about as a whole or from bare parts; what is done to it
from then on is a list of requests. Along any such list the raw machine stays the machine it stands
for, written down in words, so it keeps to the ranges in that machine's types and never traps.
-/
namespace ChipEight

/-! ## Requests -/

/-- A request that asks for places there are, and for sizes a size can have. -/
def Request.InRange : Request → Prop
  | .cell x y => x < Frame.width ∧ y < Frame.height
  | .register x => x < 16
  | .readBlock address length => address.toNat + length < Raw.sizeLimit
  | _ => True

def BenchRequest.InRange : BenchRequest → Prop
  | .host request => request.InRange
  | .toggle x y => x < Frame.width ∧ y < Frame.height
  -- A block of bytes takes up at most half of what a size can count.
  | .write _ data => data.length < Raw.sizeLimit / 2
  | _ => True

namespace Raw

section
variable (m : Machine)

theorem fall_eq (c : Countdown) : fall c.value = c.tick.value := by
  by_cases hc : c.value = 0
  · simp [fall, less?, Countdown.tick, hc]
  · have hpos : 1 ≤ c.value.toNat := by
      rw [Nat.one_le_iff_ne_zero]
      exact fun hz => hc (UInt8.toNat_inj.mp hz)
    have hless := less?_eq hpos
    have htick := c.toNat_tick
    rw [fall, hless]
    apply UInt8.toNat_inj.mp
    rw [htick]
    have := c.value.toNat_lt
    simp only [UInt8.toNat_ofNat']
    omega

theorem tick_eq : (ofMachine m).tick = ofMachine m.tick := by
  simp [tick, ofMachine, Machine.tick, fall_eq]

theorem ticks_eq (times : Nat) :
    ticks times (ofMachine m) = ofMachine (Machine.ticks times m) := by
  induction times generalizing m with
  | zero => rfl
  | succ times ih => rw [ticks, tick_eq, ih, Machine.ticks]

theorem ticksDelay_eq (times : Nat) :
    ticksDelay times (ofMachine m) =
      ofMachine { m with delay := m.delay.ticks times } := by
  induction times generalizing m with
  | zero => rfl
  | succ times ih =>
    have htick : { ofMachine m with delay := fall (ofMachine m).delay } =
        ofMachine { m with delay := m.delay.tick } := by
      simp [ofMachine, fall_eq]
    rw [ticksDelay, htick, ih, Countdown.ticks]

theorem press?_eq (key : UInt8) : (ofMachine m).press? key = some (ofMachine (m.press key)) := by
  by_cases hkey : key.toNat < 16
  · have hput : put? (ofMachine m).keys key.toNat true = some (m.keys.set key.toNat true) :=
      put?_eq hkey true
    rw [press?, hput, Machine.press, dif_pos hkey]
    cases hw : m.awaiting with
    | none => simp [ofMachine, hw]
    | some x =>
      have hset := setV?_eq { m with keys := m.keys.set key.toNat true, awaiting := none } x key
      simp only [ofMachine, hw, Option.map_some] at hset ⊢
      exact hset
  · simp [press?, put?, hkey, Machine.press]

theorem release_eq (key : UInt8) : (ofMachine m).release key = ofMachine (m.release key) := by
  by_cases hkey : key.toNat < 16
  · have hput : put? (ofMachine m).keys key.toNat false = some (m.keys.set key.toNat false) :=
      put?_eq hkey false
    rw [release, hput, Machine.release, dif_pos hkey]
    rfl
  · simp [release, put?, hkey, Machine.release]

theorem strengths?_eq (cells : List Bool) :
    strengths? (cells.map Bool.toUInt8) = some (cells.flatMap Picture.cell) := by
  induction cells with
  | nil => rfl
  | cons on rest ih =>
    have hbit : on.toUInt8.toNat = on.toNat := by
      cases on <;> rfl
    have hstrength : within? UInt8.size (on.toNat * 255) = some (if on then 255 else 0) := by
      cases on <;> rfl
    have hbyte : UInt8.ofNat (if on then 255 else 0) = if on then 255 else 0 := by
      cases on <;> rfl
    rw [List.map_cons, strengths?, hbit, hstrength, ih]
    simp only [Option.bind_eq_bind, Option.bind_some, hbyte]
    rfl

theorem picture?_eq : (ofMachine m).picture? = some (Picture.ofFrame m.display.frame) := by
  have hcells : (ofCells m.display.frame).toList.flatMap Vector.toList =
      (m.display.frame.rows.toList.flatMap Vector.toList).map Bool.toUInt8 := by
    simp only [ofCells, Vector.toList_map, List.flatMap_map, List.map_flatMap]
  rw [picture?, show (ofMachine m).cells = ofCells m.display.frame from rfl, hcells,
    strengths?_eq, List.flatMap_assoc]
  rfl

/-- A raw machine after something was done to it is the machine it came to, in bare words. -/
def Reaches (found : Option Raw) (m : Machine) : Prop :=
  found = some (ofMachine m) ∧ m.StackFits

theorem Follows.reaches {found : Option (Raw × Option Fault)} {r : Run} (h : Follows found r) :
    Reaches (found.map Prod.fst) r.machine :=
  ⟨by rw [h.1]; rfl, h.2⟩

theorem reaches_store {m : Machine} (h : m.StackFits) {written : Except Fault Memory}
    {found : Option (Raw × Except Fault Unit)}
    (hfound : found = some (ofOutcome (m.store written) ())) :
    Reaches (found.map Prod.fst) (m.store written).machine := by
  have hsame : Part.calls.Same m (m.store written).machine := Outcome.check_same fun _ => rfl
  exact ⟨by rw [hfound]; rfl, h.of_same hsame⟩

theorem reaches_serve {m : Machine} (h : m.StackFits) {request : Request} (hr : request.InRange) :
    Reaches ((ofMachine m).serve? request) (m.serve request).machine := by
  cases request with
  | load image =>
    rw [Machine.serve, Answer.machine_ofOutcome]
    exact reaches_store h (load?_eq m image)
  | loadFrom stream =>
    rw [Machine.serve, Answer.machine_ofOutcome]
    exact reaches_store h (loadFrom?_eq m stream)
  | press key =>
    have hsame : Part.calls.Same m (m.press key) := by
      rw [m.press_eq]
      rfl
    exact ⟨press?_eq m key, h.of_same hsame⟩
  | release key =>
    have hsame : Part.calls.Same m (m.release key) := by
      rw [m.release_eq]
      rfl
    exact ⟨congrArg some (release_eq m key), h.of_same hsame⟩
  | tick times =>
    have hsame : Part.calls.Same m (Machine.ticks times m) := by
      rw [Machine.ticks_eq]
      rfl
    exact ⟨congrArg some (ticks_eq m times), h.of_same hsame⟩
  | tickDelay times => exact ⟨congrArg some (ticksDelay_eq m times), h⟩
  | setDelay | acknowledge => exact ⟨rfl, h⟩
  | readDelay | frame => exact ⟨rfl, h⟩
  | readByte address =>
    rw [Machine.serve, Answer.machine_look]
    exact ⟨rfl, h⟩
  | picture =>
    refine ⟨?_, h⟩
    rw [serve?, picture?_eq]
    split <;> rfl
  | readBlock address length =>
    have hend : Memory.HasEnd address length := hr
    rw [Machine.serve, dif_pos hend, Answer.machine_look, serve?, read?_eq m hend]
    exact ⟨rfl, h⟩
  | fetch address =>
    rw [Machine.serve, Answer.machine_look, serve?, fetch?_eq m address]
    exact ⟨rfl, h⟩
  | cell x y =>
    have hcell := cell?_eq m ⟨⟨x, hr.1⟩, ⟨y, hr.2⟩⟩
    dsimp only at hcell
    rw [serve?, hcell, Machine.serve]
    exact ⟨by split <;> rfl, by split <;> exact h⟩
  | register x =>
    have hget := v_get? m ⟨x, hr⟩
    dsimp only at hget
    rw [serve?, hget, Machine.serve]
    exact ⟨by split <;> rfl, by split <;> exact h⟩
  | step times =>
    exact (follows_cyclesUntil (fun _ => rfl) times (r := .start m) h rfl).reaches
  | run limit =>
    have hwaiting : ∀ m, (ofMachine m).waiting.isSome = m.isWaiting := by
      simp [ofMachine, Machine.isWaiting]
    have hrun : Follows (cyclesUntil? (·.waiting.isSome) limit (ofMachine m))
        ((Run.start m).cyclesUntil Machine.isWaiting limit) :=
      follows_cyclesUntil hwaiting limit (r := .start m) h rfl
    rw [Machine.machine_serve_run]
    exact hrun.reaches

theorem reaches_serveBench {m : Machine} (h : m.StackFits) {request : BenchRequest}
    (hr : request.InRange) :
    Reaches ((ofMachine m).serveBench? request) (m.serveBench request).machine := by
  cases request with
  | host request => exact reaches_serve h hr
  | execute code rounds =>
    exact (follows_executeRounds code rounds (r := .start m) h rfl).reaches
  | write address data =>
    have hend : Memory.HasEnd address data.length := hasEnd_of_lt _ hr
    rw [Machine.serveBench, dif_pos hend, Answer.machine_ofOutcome]
    exact reaches_store h (write?_eq m address data hend)
  | writeByte address value =>
    rw [Machine.serveBench, Answer.machine_ofOutcome]
    have hsame : Part.calls.Same m (m.store (m.memory.writeByte address value)).machine :=
      Outcome.check_same fun _ => rfl
    refine ⟨?_, h.of_same hsame⟩
    rw [serveBench?, writeByte_eq]
  | loadFont =>
    have hfits : ∀ memory, (m.withMemory memory).StackFits := fun _ => h
    rw [serveBench?, loadFont?_eq, Machine.serveBench, Answer.done]
    exact ⟨rfl, hfits _⟩
  | toggle x y =>
    have hpoint : Frame.point? x y = some ⟨⟨x, hr.1⟩, ⟨y, hr.2⟩⟩ := dif_pos hr
    have htoggle := toggle?_eq m ⟨⟨x, hr.1⟩, ⟨y, hr.2⟩⟩
    dsimp only at htoggle
    rw [serveBench?, htoggle, Machine.serveBench, hpoint]
    exact ⟨rfl, h⟩
  | clear =>
    refine ⟨?_, h⟩
    rw [serveBench?, ← ofCells_blank]
    rfl
  | markDirty => exact ⟨rfl, h⟩

theorem reaches_afterBench {m : Machine} (h : m.StackFits) {requests : List BenchRequest}
    (hr : ∀ request ∈ requests, request.InRange) :
    Reaches ((ofMachine m).afterBench? requests) (m.afterBench requests) := by
  induction requests generalizing m with
  | nil => exact ⟨rfl, h⟩
  | cons request rest ih =>
    obtain ⟨hserve, hfits⟩ := reaches_serveBench h (hr request (List.mem_cons_self ..))
    rw [afterBench?, hserve]
    exact ih hfits fun q hq => hr q (List.mem_cons_of_mem _ hq)

/-! ## Well-formed machines -/

theorem WellFormed.ofMachine {m : Machine} (h : m.StackFits) : (ofMachine m).WellFormed where
  sp_le := by
    rw [toNat_sp h]
    exact h
  waiting_lt := by
    intro k hk
    obtain ⟨x, -, rfl⟩ := Option.map_eq_some_iff.mp hk
    exact x.isLt
  cell_bit := by
    intro y x
    show (ofCells m.display.frame)[y][x] = 0 ∨ (ofCells m.display.frame)[y][x] = 1
    simp only [ofCells, Fin.getElem_fin, Vector.getElem_map]
    cases m.display.frame.rows[y.val][x.val]
    · exact .inl rfl
    · exact .inr rfl

/-- A well-formed raw machine is some machine in bare words. -/
theorem WellFormed.exists_machine {r : Raw} (h : r.WellFormed) :
    ∃ m : Machine, m.StackFits ∧ r = Raw.ofMachine m := by
  obtain ⟨waiting, hwaiting⟩ : ∃ x : Option Register, r.waiting = x.map Fin.val := by
    cases hw : r.waiting with
    | none => exact ⟨none, rfl⟩
    | some k => exact ⟨some ⟨k, h.waiting_lt k hw⟩, rfl⟩
  have hcells : r.cells = ofCells ⟨r.cells.map fun row => row.map (· == 1)⟩ := by
    apply Vector.ext
    intro y hy
    apply Vector.ext
    intro x hx
    have hbit := h.cell_bit ⟨y, hy⟩ ⟨x, hx⟩
    simp only [Fin.getElem_fin] at hbit
    simp only [ofCells, Vector.getElem_map]
    rcases hbit with hoff | hon
    · rw [hoff]
      rfl
    · rw [hon]
      rfl
  refine ⟨{
    config := r.config
    registers := r.v
    index := r.i
    pc := r.pc
    calls := ⟨r.stack, r.sp.toNat⟩
    delay := ⟨r.delay⟩
    sound := ⟨r.sound⟩
    keys := r.keys
    awaiting := waiting
    memory := ⟨r.bytes⟩
    display := ⟨⟨r.cells.map fun row => row.map (· == 1)⟩, r.dirty⟩
    random := r.random }, h.sp_le, ?_⟩
  simp only [Raw.ofMachine, ← hcells, ← hwaiting, UInt8.ofNat_toNat]

/-- No opcode, no cycle, no request and no picture of a raw machine traps. -/
structure Untrapped (r : Raw) : Prop where
  execute : ∀ op, (r.execute? op).isSome
  step : r.step?.isSome
  serve : ∀ request : BenchRequest, request.InRange → (r.serveBench? request).isSome
  picture : r.picture?.isSome

theorem WellFormed.untrapped {r : Raw} (h : r.WellFormed) : r.Untrapped := by
  obtain ⟨m, hfits, rfl⟩ := h.exists_machine
  constructor
  case execute =>
    intro op
    rw [execute?_eq hfits]
    rfl
  case step =>
    rw [step?_eq hfits]
    rfl
  case serve =>
    intro request hr
    rw [(reaches_serveBench hfits hr).1]
    rfl
  case picture =>
    rw [picture?_eq]
    rfl

-- One slot more in use than there are, and a return reads behind the last slot.
example : { bare {} (.ofList []) with sp := 17 }.leave? = none := rfl

end

/-! ## Whatever is asked of a machine -/

theorem reaches_bare (config : Config) (random : RandomBytes) :
    Reaches (some (bare config random)) (.bare config random) := by
  have hcells := ofCells_blank
  refine ⟨?_, Nat.zero_le _⟩
  simp [bare, Machine.bare, Raw.ofMachine, CallStack.empty, Memory.empty, Display.blank, hcells]

theorem reaches_create (config : Config) (random : RandomBytes) :
    Reaches (create? config random) (.create config random) := by
  obtain ⟨hbare, hfits⟩ := reaches_bare config random
  rw [create?, Option.some.inj hbare, Machine.create]
  cases config.preloadFont with
  | true =>
    have hfits : ∀ memory, ((Machine.bare config random).withMemory memory).StackFits :=
      fun _ => hfits
    exact ⟨loadFont?_eq _, hfits _⟩
  | false => exact ⟨rfl, hfits⟩

end Raw

/-- How a machine comes about: as a whole, ready for a program, or from bare parts. -/
inductive Assembly where
  | whole
  | parts

def Assembly.machine (config : Config) (random : RandomBytes) : Assembly → Machine
  | whole => .create config random
  | parts => .bare config random

def Assembly.raw? (config : Config) (random : RandomBytes) : Assembly → Option Raw
  | whole => Raw.create? config random
  | parts => some (Raw.bare config random)

/-- However a machine came about, and whatever was asked of it since: in bare words it is there, not
trapped, it is well formed, and nothing that can be asked of it next traps. -/
theorem Raw.never_traps (how : Assembly) (config : Config) (random : RandomBytes)
    (requests : List BenchRequest) (h : ∀ request ∈ requests, request.InRange) :
    ∃ r, (how.raw? config random).bind (·.afterBench? requests) = some r ∧
      r = Raw.ofMachine ((how.machine config random).afterBench requests) ∧
      r.WellFormed ∧ r.Untrapped := by
  have hstart : Raw.Reaches (how.raw? config random) (how.machine config random) := by
    cases how with
    | whole => exact Raw.reaches_create config random
    | parts => exact Raw.reaches_bare config random
  obtain ⟨hrequests, hfits⟩ := Raw.reaches_afterBench hstart.2 h
  have hwell := Raw.WellFormed.ofMachine hfits
  exact ⟨_, by rw [hstart.1, Option.bind_some, hrequests], rfl, hwell, hwell.untrapped⟩

/-- Seventeen calls in a row, the last of which fails, and then the cell in the far corner. -/
theorem Raw.never_traps_on_full_stack :
    (∀ request ∈ [BenchRequest.execute [⟨0x2200⟩] 17, .toggle 63 31], request.InRange) ∧
      ∃ r, (Assembly.parts.raw? {} (.ofList [])).bind
          (·.afterBench? [.execute [⟨0x2200⟩] 17, .toggle 63 31]) = some r ∧
        r.sp = 16 ∧ r.WellFormed ∧ r.Untrapped := by
  have h : ∀ request ∈ [BenchRequest.execute [⟨0x2200⟩] 17, .toggle 63 31], request.InRange := by
    simp [BenchRequest.InRange, Frame.width, Frame.height]
  obtain ⟨r, hr, hmachine, hwell, hsafe⟩ := Raw.never_traps .parts {} (.ofList []) _ h
  refine ⟨h, r, hr, ?_, hwell, hsafe⟩
  rw [hmachine]
  decide +kernel

end ChipEight
