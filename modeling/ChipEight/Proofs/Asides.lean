import ChipEight.Proofs.Simulation

/-!
Asides: what a machine has besides the state its program works on. These are its configuration, its
timers and the note that the frame is to be shown. A program reads them only here and there, so two
machines that are `Alike`, with nothing else different than some of the asides, stay alike through
every cycle that is `Indifferent` to the difference, and through all that a host does to both.
-/
namespace ChipEight

/-- A part of a machine that its program does not work on. -/
inductive Aside where
  | config
  | delay
  | sound
  /-- Whether the frame is to be shown. -/
  | dirty

/-- Two machines agree in an aside. -/
def Aside.Same : Aside → Machine → Machine → Prop
  | config, m, m' => m'.config = m.config
  | delay, m, m' => m'.delay = m.delay
  | sound, m, m' => m'.sound = m.sound
  | dirty, m, m' => m'.display.dirty = m.display.dirty

namespace Aside.Same

theorem refl (a : Aside) (m : Machine) : a.Same m m := by
  cases a <;> rfl

theorem symm {a : Aside} {m m' : Machine} (h : a.Same m m') : a.Same m' m := by
  cases a <;> exact Eq.symm h

theorem trans {a : Aside} {m m' m'' : Machine} (h : a.Same m m') (h' : a.Same m' m'') :
    a.Same m m'' := by
  cases a <;> exact Eq.trans h' h

end Aside.Same

namespace Machine

/-- Two machines differ at most in asides, and not in these. -/
structure Alike (asides : List Aside) (m m' : Machine) : Prop where
  registers : m'.registers = m.registers
  index : m'.index = m.index
  pc : m'.pc = m.pc
  calls : m'.calls = m.calls
  keys : m'.keys = m.keys
  awaiting : m'.awaiting = m.awaiting
  memory : m'.memory = m.memory
  frame : m'.display.frame = m.display.frame
  random : m'.random = m.random
  aside : ∀ a ∈ asides, a.Same m m'

/-- The same machine with other asides. -/
def withAsides (m : Machine) (config : Config) (delay sound : Countdown) (dirty : Bool) : Machine :=
  { m with config, delay, sound, display := ⟨m.display.frame, dirty⟩ }

namespace Alike
variable {asides : List Aside} {m m' : Machine}

theorem refl (m : Machine) : Alike asides m m :=
  ⟨rfl, rfl, rfl, rfl, rfl, rfl, rfl, rfl, rfl, fun a _ => .refl a m⟩

theorem symm (h : Alike asides m m') : Alike asides m' m where
  registers := h.registers.symm
  index := h.index.symm
  pc := h.pc.symm
  calls := h.calls.symm
  keys := h.keys.symm
  awaiting := h.awaiting.symm
  memory := h.memory.symm
  frame := h.frame.symm
  random := h.random.symm
  aside a ha := (h.aside a ha).symm

theorem trans {m'' : Machine} (h : Alike asides m m') (h' : Alike asides m' m'') :
    Alike asides m m'' where
  registers := h'.registers.trans h.registers
  index := h'.index.trans h.index
  pc := h'.pc.trans h.pc
  calls := h'.calls.trans h.calls
  keys := h'.keys.trans h.keys
  awaiting := h'.awaiting.trans h.awaiting
  memory := h'.memory.trans h.memory
  frame := h'.frame.trans h.frame
  random := h'.random.trans h.random
  aside a ha := (h.aside a ha).trans (h'.aside a ha)

theorem exists_withAsides (h : Alike asides m m') :
    ∃ config delay sound dirty, m' = m.withAsides config delay sound dirty := by
  refine ⟨m'.config, m'.delay, m'.sound, m'.display.dirty, ?_⟩
  rw [withAsides, ← h.registers, ← h.index, ← h.pc, ← h.calls, ← h.keys, ← h.awaiting, ← h.memory,
    ← h.frame, ← h.random]

/-- What is done to both machines leaves them alike if it comes to the same save for the asides,
and makes no difference between these. -/
theorem next (h : Alike asides m m') {n n' : Machine}
    (hn : n' = n.withAsides n'.config n'.delay n'.sound n'.display.dirty)
    (hsame : ∀ a : Aside, a.Same m m' → a.Same n n') : Alike asides n n' := by
  rw [hn]
  refine ⟨rfl, rfl, rfl, rfl, rfl, rfl, rfl, rfl, rfl, fun a ha => ?_⟩
  rw [← hn]
  exact hsame a (h.aside a ha)

theorem isWaiting (h : Alike asides m m') : m'.isWaiting = m.isWaiting := by
  rw [Machine.isWaiting, h.awaiting]
  rfl

theorem fetch (h : Alike asides m m') : m'.memory.fetch m'.pc = m.memory.fetch m.pc := by
  rw [h.memory, h.pc]

theorem due? (h : Alike asides m m') : m'.due? = m.due? := by
  rw [Machine.due?, h.isWaiting, h.fetch]
  rfl

theorem pending? (h : Alike asides m m') (hdirty : m'.display.dirty = m.display.dirty) :
    m'.display.pending? = m.display.pending? := by
  rw [Display.pending?, hdirty, h.frame]
  rfl

theorem setPc (h : Alike asides m m') (pc : UInt16) :
    Alike asides { m with pc } { m' with pc } := by
  obtain ⟨c, d, s, b, rfl⟩ := h.exists_withAsides
  refine h.next rfl fun a ha => ?_
  cases a <;> exact ha

end Alike
end Machine

/-! ## Instructions -/

open Machine (Alike)

namespace Instruction
variable {asides : List Aside} {m m' : Machine}

theorem next_alike (i : Instruction) (h : Alike asides m m') : i.next m' = i.next m := by
  obtain ⟨c, d, s, b, rfl⟩ := h.exists_withAsides
  cases i with
  | skip test => cases test <;> rfl
  | _ => rfl

theorem effect_alike (i : Instruction) (h : Alike asides m m')
    (hedges : ∀ x y rows sprite, i = .draw x y rows →
      m.memory.read m.index rows.val = .ok sprite →
        m'.config.edges.placeAll (m.register x).toNat (m.register y).toNat
            (Sprite.litCells sprite) =
          m.config.edges.placeAll (m.register x).toNat (m.register y).toNat
            (Sprite.litCells sprite))
    (hoverflow : ∀ x, i = .advance x → m'.config.overflow = m.config.overflow)
    (hdelay : ∀ x, i = .readDelay x → m'.delay = m.delay) :
    (i.effect m).Agree (Alike asides) (i.effect m') := by
  -- Written with other asides, the second machine computes to the first in every other part.
  obtain ⟨c, d, s, b, rfl⟩ := h.exists_withAsides
  cases i with
  | leave =>
    rw [effect, effect, h.calls]
    cases m.calls.pop? with
    | none => exact .failure h
    | some calls =>
      refine .success (h.next rfl fun a ha => ?_)
      cases a <;> exact ha
  | call target =>
    rw [effect, effect, h.calls, h.pc]
    cases m.calls.push? (m.pc + 2) with
    | none => exact .failure h
    | some calls =>
      refine .success (h.next rfl fun a ha => ?_)
      cases a <;> exact ha
  | jump | jumpBy | skip => exact .success h
  | combine how x y =>
    cases how <;> refine .success (h.next rfl fun a ha => ?_) <;> cases a <;> exact ha
  | draw x y rows =>
    refine .check rfl h fun sprite hr => ?_
    refine .check (hedges x y rows sprite rfl hr) h fun points _ => ?_
    -- Afterwards the frame is to be shown on both sides, whatever was noted before.
    refine .success (h.next rfl fun a ha => ?_)
    cases a <;> first | exact ha | rfl
  | readDelay x =>
    obtain rfl : d = m.delay := hdelay x rfl
    refine .success (h.next rfl fun a ha => ?_)
    cases a <;> exact ha
  | advance x =>
    simp only [effect, Machine.advanceIndex, hoverflow x rfl]
    cases m.config.overflow <;> refine .success (h.next rfl fun a ha => ?_) <;>
      cases a <;> exact ha
  | storeDecimal | save =>
    refine .check rfl h fun memory _ => .success (h.next rfl fun a ha => ?_)
    cases a <;> exact ha
  | restore last =>
    refine .check rfl h fun values _ => .success (h.next rfl fun a ha => ?_)
    cases a <;> simpa only [Aside.Same, Machine.setRegisters] using ha
  | clear | set | increase | point | random | awaitKey | setDelay | setSound | pointDigit =>
    refine .success (h.next rfl fun a ha => ?_)
    cases a <;> first | exact ha | rfl

theorem execute_alike (i : Instruction) (h : Alike asides m m')
    (heffect : (i.effect m).Agree (Alike asides) (i.effect m')) :
    (i.execute m).Agree (Alike asides) (i.execute m') := by
  rw [execute, execute, i.next_alike h]
  exact heffect.onSuccess fun n n' hn => hn.setPc _

end Instruction

/-! ## Cycles -/

namespace Machine

/-- Where the next cycle looks at asides of its machine, it would find the same in another. -/
structure Indifferent (m m' : Machine) : Prop where
  unknown {op : Opcode} : m.isWaiting = false → m.memory.fetch m.pc = .ok op →
    Instruction.decode? op = none → m'.config.unknown = m.config.unknown
  edges {x y : Register} {rows : Fin 16} {sprite : List UInt8} :
    m.due? = some (.draw x y rows) → m.memory.read m.index rows.val = .ok sprite →
      m'.config.edges.placeAll (m.register x).toNat (m.register y).toNat
          (Sprite.litCells sprite) =
        m.config.edges.placeAll (m.register x).toNat (m.register y).toNat
          (Sprite.litCells sprite)
  overflow {x : Register} : m.due? = some (.advance x) → m'.config.overflow = m.config.overflow
  delay {x : Register} : m.due? = some (.readDelay x) → m'.delay = m.delay

variable {asides : List Aside} {m m' : Machine}

theorem step_alike (h : Alike asides m m') (hi : m.Indifferent m') :
    m.step.Agree (Alike asides) m'.step := by
  cases m.stepCase with
  | waiting hw hs =>
    rw [hs, step_of_isWaiting (h.isWaiting.trans hw)]
    exact .success h
  | unfetched hw hf hs =>
    rw [hs, step_of_error (h.isWaiting.trans hw) (h.fetch.trans hf)]
    exact .failure h
  | leftOut hw hf hd hp hs =>
    have hp' : m'.config.unknown = .skip := (hi.unknown hw hf hd).trans hp
    rw [hs, step_of_ok (h.isWaiting.trans hw) (h.fetch.trans hf), execute_of_skip hd hp', h.pc]
    exact .success (h.setPc _)
  | refused hw hf hd hp hs =>
    have hp' : m'.config.unknown = .fail := (hi.unknown hw hf hd).trans hp
    rw [hs, step_of_ok (h.isWaiting.trans hw) (h.fetch.trans hf), execute_of_fail hd hp', h.pc]
    exact .failure h
  | @executed i hdue hs =>
    have heffect : (i.effect m).Agree (Alike asides) (i.effect m') := by
      refine i.effect_alike h ?_ ?_ ?_
      · rintro x y rows sprite rfl hr
        exact hi.edges hdue hr
      · rintro x rfl
        exact hi.overflow hdue
      · rintro x rfl
        exact hi.delay hdue
    rw [hs, step_of_due? (h.due?.trans hdue)]
    exact i.execute_alike h heffect

theorem stepLog_alike (h : Alike asides m m') (hi : m.Indifferent m') :
    m'.stepLog = m.stepLog := by
  rw [stepLog, stepLog, h.isWaiting, h.fetch]
  cases hw : m.isWaiting with
  | true => rfl
  | false =>
    cases hf : m.memory.fetch m.pc with
    | error f => rfl
    | ok op =>
      have hlog : m'.executeLog op = m.executeLog op := by
        rw [executeLog, executeLog, h.pc]
        by_cases hd : Instruction.decode? op = none
        · rw [hi.unknown hw hf hd]
        · simp [hd]
      simp only [h.registers, h.index, h.pc, hlog]

/-! ## What a host does -/

theorem store_alike (h : Alike asides m m') {found found' : Except Fault Memory}
    (hfound : found' = found) : (m.store found).Agree (Alike asides) (m'.store found') := by
  refine .check hfound h fun memory _ => ?_
  obtain ⟨c, d, s, b, rfl⟩ := h.exists_withAsides
  refine .success (h.next rfl fun a ha => ?_)
  cases a <;> exact ha

theorem press_alike (h : Alike asides m m') (key : UInt8) :
    Alike asides (m.press key) (m'.press key) := by
  by_cases hkey : key.toNat < 16
  · cases hnow : m.awaiting with
    | none =>
      rw [press_of_awaiting_none hnow hkey, press_of_awaiting_none (h.awaiting.trans hnow) hkey]
      obtain ⟨c, d, s, b, rfl⟩ := h.exists_withAsides
      refine h.next rfl fun a ha => ?_
      cases a <;> exact ha
    | some x =>
      rw [press_of_awaiting hnow hkey, press_of_awaiting (h.awaiting.trans hnow) hkey]
      obtain ⟨c, d, s, b, rfl⟩ := h.exists_withAsides
      refine h.next rfl fun a ha => ?_
      cases a <;> exact ha
  · rw [press_of_not_key hkey, press_of_not_key hkey]
    exact h

theorem release_alike (h : Alike asides m m') (key : UInt8) :
    Alike asides (m.release key) (m'.release key) := by
  obtain ⟨c, d, s, b, rfl⟩ := h.exists_withAsides
  rw [release, release]
  split
  · refine h.next rfl fun a ha => ?_
    cases a <;> exact ha
  · exact h

theorem ticks_alike (h : Alike asides m m') (times : Nat) :
    Alike asides (ticks times m) (ticks times m') := by
  rw [ticks_eq, ticks_eq m']
  obtain ⟨c, d, s, b, rfl⟩ := h.exists_withAsides
  refine h.next rfl fun a ha => ?_
  cases a with
  | delay => exact congrArg (Countdown.ticks times) ha
  | sound => exact congrArg (Countdown.ticks times) ha
  | config | dirty => exact ha

theorem serve_alike (h : Alike asides m m') {request : Request} (hgoes : request.goes = false)
    (hdelay : request = .readDelay → m'.delay = m.delay)
    (hdirty : request = .frame ∨ request = .picture → m'.display.dirty = m.display.dirty) :
    (m.serve request).Agree (Alike asides) (m'.serve request) := by
  cases request with
  | step | run => cases hgoes
  | load image =>
    refine .ofOutcome (store_alike h ?_) _
    rw [h.memory]
  | loadFrom stream =>
    refine .ofOutcome (store_alike h ?_) _
    rw [h.memory]
  | press key => exact .tell (press_alike h key) _
  | release key => exact .tell (release_alike h key) _
  | tick times => exact .tell (ticks_alike h times) _
  | readDelay =>
    rw [serve, serve, hdelay rfl]
    exact .tell h _
  | setDelay value =>
    obtain ⟨c, d, s, b, rfl⟩ := h.exists_withAsides
    refine .tell (h.next rfl fun a ha => ?_) _
    cases a <;> first | exact ha | rfl
  | tickDelay times =>
    obtain ⟨c, d, s, b, rfl⟩ := h.exists_withAsides
    refine .tell (h.next rfl fun a ha => ?_) _
    cases a with
    | delay => exact congrArg (Countdown.ticks times) ha
    | config | sound | dirty => exact ha
  | acknowledge =>
    obtain ⟨c, d, s, b, rfl⟩ := h.exists_withAsides
    refine .tell (h.next rfl fun a ha => ?_) _
    cases a <;> first | exact ha | rfl
  | frame =>
    rw [serve, serve, h.pending? (hdirty (.inl rfl))]
    exact .tell h _
  | picture =>
    rw [serve, serve, h.pending? (hdirty (.inr rfl))]
    exact .tell h _
  | readBlock =>
    simp only [serve, h.memory]
    split
    · exact .look h rfl _
    · exact .tell h _
  | readByte | fetch =>
    refine .look h ?_ _
    rw [h.memory]
  | cell x y =>
    rw [serve, serve, h.frame]
    cases Frame.point? x y <;> exact .tell h _
  | register x =>
    rw [serve, serve, h.registers]
    cases m.registers[x]? <;> exact .tell h _

end Machine
end ChipEight
