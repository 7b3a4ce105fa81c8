import ChipEight.Proofs.Asides

/-!
What the policies decide. Under another configuration a machine goes through the same states, with
the same results, until a cycle that is disputed between the two: an opcode that stands for no
instruction, a sprite with a lit cell outside the display, or an addition to the index register,
each only if the configurations differ in what they say about it (`Machine.policies_decide`). Inside
the display, all three edge policies place a cell alike.
-/
namespace ChipEight

/-! ## Sprites inside the display -/

namespace EdgePolicy

/-- A sprite that stays inside the display lands on the same points under every policy. -/
theorem placeAll_inside (policy policy' : EdgePolicy) {x y : Nat} {cells : List (Nat × Nat)}
    (h : ∀ cell ∈ cells, x + cell.1 < 64 ∧ y + cell.2 < 32) :
    policy.placeAll x y cells = policy'.placeAll x y cells := by
  have hnone : ∀ policy : EdgePolicy,
      cells.find? (fun cell => policy.refuses (x + cell.1) (y + cell.2)) = none := fun policy =>
    List.find?_eq_none.mpr fun cell hmem => by simp [policy.refuses_inside (h cell hmem)]
  rw [placeAll_eq, placeAll_eq, hnone policy, hnone policy']
  refine congrArg Except.ok (List.filterMap_congr fun cell hmem => ?_)
  rw [policy.landing?_inside (h cell hmem), policy'.landing?_inside (h cell hmem)]

/-- A sprite with a lit cell outside the display is refused under the policy that refuses it. -/
theorem placeAll_outside {x y : Nat} {cells : List (Nat × Nat)} {cell : Nat × Nat}
    (hmem : cell ∈ cells) (hout : ¬ (x + cell.1 < 64 ∧ y + cell.2 < 32)) :
    ∃ px py, fault.placeAll x y cells = .error (.spriteOutOfBounds px py) := by
  cases hplace : fault.placeAll x y cells with
  | error f =>
    obtain ⟨other, -, -, rfl⟩ := of_placeAll_error hplace
    exact ⟨_, _, rfl⟩
  | ok points =>
    have hkept := (of_placeAll_ok hplace).1 cell hmem
    rw [refuses, decide_eq_false_iff_not, not_and] at hkept
    refine absurd ?_ (hkept rfl)
    simp only [Frame.width, Frame.height]
    omega

end EdgePolicy

/-! ## Another configuration -/

namespace Machine

/-- The second machine is the first under another configuration. -/
structure Reconfigured (c c' : Config) (m m' : Machine) : Prop where
  config : m.config = c
  same : m' = { m with config := c' }

/-- The next cycle is one that two configurations disagree about. -/
inductive Disputed (c c' : Config) (m : Machine) : Prop
  /-- Its opcode stands for no instruction. -/
  | unknown {op : Opcode} (h : c.unknown ≠ c'.unknown) (hw : m.isWaiting = false)
      (hf : m.memory.fetch m.pc = .ok op) (hd : Instruction.decode? op = none)
  /-- It draws a sprite with a lit cell outside the display. -/
  | outside {x y : Register} {rows : Fin 16} {sprite : List UInt8} {cell : Nat × Nat}
      (h : c.edges ≠ c'.edges) (hi : m.due? = some (.draw x y rows))
      (hr : m.memory.read m.index rows.val = .ok sprite) (hlit : cell ∈ Sprite.litCells sprite)
      (hout : ¬ ((m.register x).toNat + cell.1 < 64 ∧ (m.register y).toNat + cell.2 < 32))
  /-- It adds to the index register. -/
  | advance {x : Register} (h : c.overflow ≠ c'.overflow) (hi : m.due? = some (.advance x))

theorem reconfigured_iff {c c' : Config} {m m' : Machine} :
    Reconfigured c c' m m' ↔
      m.config = c ∧ m'.config = c' ∧ Alike [.delay, .sound, .dirty] m m' := by
  constructor
  · rintro ⟨hconfig, rfl⟩
    refine ⟨hconfig, rfl, rfl, rfl, rfl, rfl, rfl, rfl, rfl, rfl, rfl, ?_⟩
    simp [Aside.Same]
  · rintro ⟨hconfig, hconfig', hm⟩
    obtain ⟨c₁, d, s, b, rfl⟩ := hm.exists_withAsides
    obtain rfl : c₁ = c' := hconfig'
    obtain rfl : d = m.delay := hm.aside .delay (by simp)
    obtain rfl : s = m.sound := hm.aside .sound (by simp)
    obtain rfl : b = m.display.dirty := hm.aside .dirty (by simp)
    exact ⟨hconfig, rfl⟩

theorem indifferent_of_not_disputed {c c' : Config} {m m' : Machine} (h : Reconfigured c c' m m')
    (hnot : ¬ Disputed c c' m) : m.Indifferent m' := by
  obtain ⟨rfl, rfl⟩ := h
  constructor
  · intro op hw hf hd
    by_contra hne
    exact hnot (.unknown (Ne.symm hne) hw hf hd)
  · intro x y rows sprite hi hr
    by_cases hedges : m.config.edges = c'.edges
    · rw [hedges]
    · refine EdgePolicy.placeAll_inside _ _ fun cell hlit => ?_
      by_contra hout
      exact hnot (.outside hedges hi hr hlit hout)
  · intro x hi
    by_contra hne
    exact hnot (.advance (Ne.symm hne) hi)
  · intros
    rfl

/-! ## Histories -/

theorem simulation_reconfigured (c c' : Config) :
    Simulation (Reconfigured c c') (Disputed c c') (fun _ => true) where
  goes _ := rfl
  isWaiting h := (reconfigured_iff.mp h).2.2.isWaiting
  step {m m'} h hnot := by
    obtain ⟨hconfig, hconfig', hm⟩ := reconfigured_iff.mp h
    have hi := indifferent_of_not_disputed h hnot
    obtain ⟨hstep, hfault⟩ := step_alike hm hi
    refine ⟨⟨reconfigured_iff.mpr ⟨?_, ?_, hstep⟩, hfault⟩, stepLog_alike hm hi⟩
    · rw [← act_cycle, config_act, hconfig]
    · rw [← act_cycle, config_act, hconfig']
  serve {m m' request} h _ hgoes := by
    obtain ⟨hconfig, hconfig', hm⟩ := reconfigured_iff.mp h
    obtain ⟨hserve, hreply, hlog⟩ := serve_alike hm hgoes (fun _ => hm.aside .delay (by simp))
      fun _ => hm.aside .dirty (by simp)
    refine ⟨reconfigured_iff.mpr ⟨?_, ?_, hserve⟩, hreply, hlog⟩
    · rw [config_serve, hconfig]
    · rw [config_serve, hconfig']
  unheard_left _ h := by cases h
  unheard_right _ h := by cases h

/-- Under the policies that report what they can, a cycle that other policies dispute is one that
fails. -/
theorem fault_of_disputed {c c' : Config} {m : Machine} (hconfig : m.config = c)
    (hunknown : c.unknown = .fail) (hedges : c.edges = .fault)
    (hoverflow : c'.overflow = c.overflow) (h : Disputed c c' m) :
    (∃ op pc, m.step.fault = some (.unknownOpcode op pc)) ∨
      ∃ x y, m.step.fault = some (.spriteOutOfBounds x y) := by
  subst hconfig
  cases h with
  | unknown h hw hf hd =>
    rw [step_of_ok hw hf, execute_of_fail hd hunknown]
    exact .inl ⟨_, _, rfl⟩
  | @outside x y rows sprite cell h hi hr hlit hout =>
    obtain ⟨px, py, hplace⟩ := EdgePolicy.placeAll_outside hlit hout
    have heffect : (Instruction.draw x y rows).effect m = .failure m (.spriteOutOfBounds px py) := by
      rw [Instruction.effect, hr, Outcome.check_ok, hedges, hplace, Outcome.check_error]
    rw [step_of_due? hi, Instruction.execute_of_failure heffect]
    exact .inr ⟨px, py, rfl⟩
  | advance h hi => exact absurd hoverflow.symm h

/-- **Policies only matter where they are meant to.** Two machines that are built alike but for
their policies, and asked for the same, have the same history up to the first cycle the two
configurations disagree about. So what goes on without a fault under the policies that report an
unknown opcode or a cell outside the display, goes on the same way under all others. -/
theorem policies_decide (c c' : Config) (hfont : c'.preloadFont = c.preloadFont)
    (random : RandomBytes) (requests : List Request) :
    let m := create c random
    let m' := create c' random
    AgreeUpTo (Moment.Part (Reconfigured c c') (Disputed c c')) (Moment.Agree (Reconfigured c c'))
        (Reconfigured c c' (m.after requests) (m'.after requests))
        (m.history requests) (m'.history requests) ∧
      (c.unknown = .fail → c.edges = .fault → c'.overflow = c.overflow →
        (∀ moment ∈ m.history requests,
          (∀ op pc, moment.fault? ≠ some (.unknownOpcode op pc)) ∧
            ∀ x y, moment.fault? ≠ some (.spriteOutOfBounds x y)) →
        List.Forall₂ (Moment.Agree (Reconfigured c c')) (m.history requests)
            (m'.history requests) ∧
          Reconfigured c c' (m.after requests) (m'.after requests)) := by
  intro m m'
  have hstart : Reconfigured c c' m m' := by
    refine ⟨rfl, ?_⟩
    show create c' random = _
    rw [create, hfont]
    rfl
  have hheard : requests.filter (fun _ => true) = requests.filter (fun _ => true) := rfl
  have hagree := (simulation_reconfigured c c').history hstart hheard
  rw [heardHistory_of_all, heardHistory_of_all] at hagree
  refine ⟨hagree, fun hunknown hedges hoverflow hfine => hagree.toEnd ?_⟩
  -- A disputed cycle would have met one of the two faults.
  rintro moment hmem other ⟨hrelated, hdisputed⟩
  obtain ⟨hnounknown, hinside⟩ := hfine _ hmem
  rcases fault_of_disputed hrelated.config hunknown hedges hoverflow hdisputed with
    ⟨op, pc, hfault⟩ | ⟨x, y, hfault⟩
  · exact hnounknown op pc hfault
  · exact hinside x y hfault

/-- A cell drawn in the last corner, whose sprite has its unlit cells outside the display: where a
cell outside would be refused, the frame is the same as where it would be wrapped around. -/
theorem policies_decide_in_corner :
    let c : Config := { unknown := .fail, edges := .fault, preloadFont := false }
    let c' : Config := { preloadFont := false }
    let requests :=
      [Request.load [0x60, 0x3F, 0x61, 0x1F, 0xA2, 0x08, 0xD0, 0x11, 0x80], .step 4, .frame]
    let m := create c (.ofList [])
    let m' := create c' (.ofList [])
    c'.preloadFont = c.preloadFont ∧ (∀ moment ∈ m.history requests, moment.fault? = none) ∧
      m'.after requests = { m.after requests with config := c' } := by
  intro c c' requests m m'
  have hfine : (m.history requests).all (fun moment => moment.fault?.isNone) = true := by
    decide +kernel
  have hnone : ∀ moment ∈ m.history requests, moment.fault? = none := by
    simpa only [List.all_eq_true, Option.isNone_iff_eq_none] using hfine
  obtain ⟨-, hsame⟩ := policies_decide c c' rfl (.ofList []) requests
  refine ⟨rfl, hnone, (hsame rfl rfl rfl fun moment hmem => ?_).2.same⟩
  simp [hnone moment hmem]

end Machine
end ChipEight
