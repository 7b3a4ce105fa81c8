import ChipEight.Proofs.History
import Mathlib.Data.List.DropRight

/-!
Drawing. A cycle draws if it executes one of the two drawing instructions and succeeds;
`Machine.drawn?` is the frame it leaves. Nothing else changes the frame, so the display is known
from what has been drawn and what has been acknowledged (`Machine.display_after`).
-/
namespace ChipEight

/-! ## Cycles that draw -/

/-- The instructions that draw. -/
def Instruction.draws : Instruction → Bool
  | clear | draw .. => true
  | _ => false

theorem Instruction.draws_of_touches {i : Instruction} (h : Part.display ∈ i.touches) :
    i.draws = true := by
  cases i <;> simp_all [touches, draws]

/-- A sprite that is drawn turns cells over. -/
theorem Instruction.exists_effect_draw {m : Machine} {x y : Register} {rows : Fin 16}
    (hok : ((draw x y rows).effect m).fault = none) :
    ∃ points, (draw x y rows).effect m = .success (m.drawPoints points) := by
  rw [effect] at hok ⊢
  cases hread : m.memory.read m.index rows.val with
  | error f =>
    rw [hread] at hok
    cases hok
  | ok sprite =>
    rw [hread, Outcome.check_ok] at hok
    cases hplace : m.config.edges.placeAll (m.register x).toNat (m.register y).toNat
        (Sprite.litCells sprite) with
    | error f =>
      rw [hplace] at hok
      cases hok
    | ok points => exact ⟨points, by rw [Outcome.check_ok, hplace, Outcome.check_ok]⟩

theorem Instruction.dirty_of_draws {i : Instruction} {m : Machine} (hi : i.draws = true)
    (hok : (i.execute m).fault = none) : (i.execute m).machine.display.dirty = true := by
  cases i with
  | clear => rfl
  | draw x y rows =>
    rw [execute, Outcome.fault_onSuccess] at hok
    obtain ⟨points, heffect⟩ := exists_effect_draw hok
    rw [execute_of_success heffect]
    rfl
  | _ => cases hi

namespace Machine

/-- The frame the next cycle leaves, if it executes a drawing instruction and succeeds. -/
def drawn? (m : Machine) : Option Frame :=
  match m.due? with
  | some i =>
      if i.draws = true ∧ m.step.fault = none then some m.step.machine.display.frame else none
  | none => none

/-- A cycle that draws leaves a frame to be shown, any other leaves the display alone. -/
theorem display_step (m : Machine) :
    m.step.machine.display = (m.drawn?.map fun f => ⟨f, true⟩).getD m.display := by
  by_cases hd : ∃ i, m.due? = some i ∧ i.draws = true
  · obtain ⟨i, hi, hdraws⟩ := hd
    cases hf : m.step.fault with
    | some f => simp [drawn?, hi, hf, (m.step_failsCleanly f hf).1]
    | none =>
      have hdirty : m.step.machine.display.dirty = true := by
        rw [step_of_due? hi] at hf ⊢
        exact Instruction.dirty_of_draws hdraws hf
      simp [drawn?, hi, hdraws, hf, ← hdirty]
  · have hsame : Part.display.Same m m.step.machine :=
      m.step_same (fun i hi ht => hd ⟨i, hi, Instruction.draws_of_touches ht⟩) (by decide)
    have hnone : m.drawn? = none := by
      unfold drawn?
      split
      · rename_i i hi
        rw [if_neg fun h => hd ⟨i, hi, h.1⟩]
      · rfl
    rw [hnone]
    exact hsame

end Machine

/-! ## Histories -/

namespace Moment

/-- Whether a moment is a cycle that executes a drawing instruction and succeeds. -/
def draws (x : Moment) : Bool :=
  x.executed?.any Instruction.draws && x.fault?.isNone

/-- The frame that a host says it has shown, if it says so at that moment. -/
def shown? : Moment → Option Frame
  | .answer .acknowledge a => some a.machine.display.frame
  | _ => none

end Moment

/-- What a moment does to the display. -/
def Display.note (d : Display) (x : Moment) : Display :=
  match x with
  | .cycle _ outcome _ => if x.draws then ⟨outcome.machine.display.frame, true⟩ else d
  | .answer .acknowledge a => ⟨a.machine.display.frame, false⟩
  | .answer .. => d

namespace Machine

theorem draws_nextCycle (m : Machine) : m.nextCycle.draws = m.drawn?.isSome := by
  rw [Moment.draws]
  show (m.due?.any Instruction.draws && m.step.fault.isNone) = _
  rw [drawn?]
  cases m.due? with
  | none => rfl
  | some i => cases hi : i.draws <;> cases hf : m.step.fault <;> simp [hi]

theorem exists_of_draws {m : Machine} (h : m.nextCycle.draws = true) :
    ∃ i, m.due? = some i ∧ i.draws = true ∧ m.step.fault = none := by
  rw [Moment.draws, Bool.and_eq_true, Option.any_eq_true, Option.isNone_iff_eq_none] at h
  obtain ⟨⟨i, hdue, hi⟩, hok⟩ := h
  exact ⟨i, hdue, hi, hok⟩

/-- A cycle that does not draw leaves the frame alone. -/
theorem frame_step_of_not_draws {m : Machine} (h : m.nextCycle.draws = false) :
    m.step.machine.display.frame = m.display.frame := by
  rw [draws_nextCycle, Option.isSome_eq_false_iff, Option.isNone_iff_eq_none] at h
  rw [display_step, h]
  rfl

theorem display_serve {request : Request} (h : request.goes = false)
    (hne : request ≠ .acknowledge) (m : Machine) :
    (m.serve request).machine.display = m.display := by
  show Part.display.Same m (m.serve request).machine
  refine serve_same h ?_ m
  cases request with
  | acknowledge => exact absurd rfl hne
  | _ => simp [Request.touches]

/-- Without a cycle nothing is drawn. -/
theorem frame_serve {request : Request} (h : request.goes = false) (m : Machine) :
    (m.serve request).machine.display.frame = m.display.frame := by
  by_cases hne : request = .acknowledge
  · rw [hne]
    rfl
  · rw [display_serve h hne]

theorem frame_after_of_not_draws {m : Machine} {requests : List Request}
    (h : ∀ x ∈ m.history requests, x.draws = false) :
    (m.after requests).display.frame = m.display.frame := by
  refine invariant_after (I := fun n => n.display.frame = m.display.frame) (fun ha hframe => ?_)
    (fun hframe hdraws => (frame_step_of_not_draws hdraws).trans hframe) rfl h
  exact (frame_serve (Act.goes_request ha) _).trans hframe

theorem tells_display : Tells display Display.note where
  cycle m := by
    show _ = if m.nextCycle.draws then (⟨m.step.machine.display.frame, true⟩ : Display) else m.display
    rw [draws_nextCycle, m.display_step]
    cases m.drawn? <;> rfl
  served m request h := by
    cases request with
    | acknowledge => rfl
    | step | run => cases h
    | _ => exact display_serve h (by simp) m
  summed d request h a := by
    cases request with
    | step | run => rfl
    | _ => cases h

end Machine

/-! ## What is still to be shown -/

/-- The frame that was shown last, if one of these moments says so. -/
def Moment.lastShown? (past : List Moment) : Option Frame :=
  (past.filterMap shown?).getLast?

/-- The moments since a frame was shown last. -/
def Moment.sinceShown (past : List Moment) : List Moment :=
  past.rtakeWhile fun x => x.shown?.isNone

namespace Display

theorem isSome_pending? (d : Display) : d.pending?.isSome = d.dirty := by
  rw [pending?]
  cases d.dirty <;> rfl

theorem pending?_eq_none_iff {d : Display} : d.pending? = none ↔ d.dirty = false := by
  rw [pending?]
  cases d.dirty <;> simp

theorem note_of_shown {x : Moment} {f : Frame} (h : x.shown? = some f) (d : Display) :
    d.note x = ⟨f, false⟩ := by
  cases x with
  | cycle => cases h
  | answer request a =>
    cases request with
    | acknowledge =>
      obtain rfl : a.machine.display.frame = f := Option.some.inj h
      rfl
    | _ => cases h

theorem note_of_not_shown {x : Moment} (h : x.shown? = none) (d : Display) :
    (d.note x).dirty = (d.dirty || x.draws) ∧ (x.draws = false → d.note x = d) := by
  cases x with
  | cycle start outcome log =>
    cases hdraws : (Moment.cycle start outcome log).draws <;> simp [note, hdraws]
  | answer request a =>
    have hno : (Moment.answer request a).draws = false := rfl
    cases request with
    | acknowledge => cases h
    | _ => simp [note, hno]

/-- A display that was clean is dirty again once it is drawn to, up to the next time it is shown;
and while it is clean its frame is the one that was shown last. -/
theorem foldl_note {d : Display} (hclean : d.dirty = false) (past : List Moment) :
    (past.foldl note d).dirty = (Moment.sinceShown past).any Moment.draws ∧
      ((past.foldl note d).dirty = false →
        (past.foldl note d).frame = (Moment.lastShown? past).getD d.frame) := by
  induction past using List.reverseRecOn with
  | nil => exact ⟨hclean, fun _ => rfl⟩
  | append_singleton past x ih =>
    obtain ⟨hdirty, hframe⟩ := ih
    rw [List.foldl_append, List.foldl_cons, List.foldl_nil, Moment.sinceShown, Moment.lastShown?,
      List.filterMap_append]
    cases hx : x.shown? with
    | some f =>
      rw [note_of_shown hx, List.rtakeWhile_concat_neg _ _ _ (by simp [hx])]
      simp [hx]
    | none =>
      obtain ⟨hnote, hsame⟩ := note_of_not_shown hx (past.foldl note d)
      rw [List.rtakeWhile_concat_pos _ _ _ (by simp [hx]), List.any_append, List.filterMap_cons_none hx,
        List.filterMap_nil, List.append_nil, hnote, hdirty]
      refine ⟨by simp [Moment.sinceShown], fun hstill => ?_⟩
      obtain ⟨hstill, hno⟩ := Bool.or_eq_false_iff.mp hstill
      rw [hsame hno]
      exact hframe (hdirty.trans hstill)

end Display

/-! ## Renderers -/

/-- A renderer: the machine it looks at, and what it has drawn last. -/
structure Renderer where
  machine : Machine
  canvas : Frame

namespace Renderer

/-- Draws the frame if there is one to be shown, and says so. -/
def refresh (r : Renderer) : Renderer :=
  match r.machine.display.pending? with
  | some frame => ⟨(r.machine.serve .acknowledge).machine, frame⟩
  | none => r

/-- Lets the machine go on for a while, and looks at it then. -/
def follow (r : Renderer) (requests : List Request) : Renderer :=
  refresh ⟨r.machine.after requests, r.canvas⟩

/-- A renderer with a blank canvas, after it has looked behind each of some lists of requests. -/
def watch (m : Machine) (looks : List (List Request)) : Renderer :=
  looks.foldl follow ⟨m, .blank⟩

/-- A renderer that has just looked has the frame, and has said so. -/
def UpToDate (r : Renderer) : Prop :=
  r.canvas = r.machine.display.frame ∧ r.machine.display.dirty = false

theorem shown_of_no_acknowledge {m : Machine} {requests : List Request}
    (h : .acknowledge ∉ requests) : (m.history requests).filterMap Moment.shown? = [] := by
  rw [List.filterMap_eq_nil_iff]
  intro x hx
  rcases Machine.exists_of_mem_history hx with ⟨n, rfl⟩ | ⟨request, hmem, n, rfl⟩
  · rfl
  · cases request with
    | acknowledge => exact absurd hmem h
    | _ => rfl

theorem UpToDate.follow {r : Renderer} (h : r.UpToDate) {requests : List Request}
    (hacknowledge : .acknowledge ∉ requests) : (r.follow requests).UpToDate := by
  obtain ⟨hcanvas, hclean⟩ := h
  have hdisplay := Machine.tells_display.after r.machine requests
  obtain ⟨-, hframe⟩ := Display.foldl_note hclean (r.machine.history requests)
  rw [← hdisplay, Moment.lastShown?, shown_of_no_acknowledge hacknowledge] at hframe
  rw [Renderer.follow, refresh, Display.pending?]
  cases hdirty : (r.machine.after requests).display.dirty with
  | true => exact ⟨rfl, rfl⟩
  | false => exact ⟨hcanvas.trans (hframe hdirty).symm, hdirty⟩

end Renderer

namespace Machine

/-- **No update of the display is lost.** In every state a machine comes to, there is a frame to be
shown if and only if something has been drawn since a frame was shown last; and if there is none,
the frame is the one that was shown then, or the blank one if none was. So a renderer that looks at
the machine every now and then, draws the frame if there is one to be shown and says so, has after
each look the frame that the display has. -/
theorem pending_since_shown (config : Config) (random : RandomBytes) (requests : List Request) :
    let m := create config random
    let past := m.history requests
    let now := m.after requests
    (now.display.pending?.isSome = true ↔
        ∃ x ∈ Moment.sinceShown past, x.draws = true) ∧
      (now.display.pending? = none →
        now.display.frame = (Moment.lastShown? past).getD .blank) ∧
      ∀ looks : List (List Request), (∀ requests ∈ looks, .acknowledge ∉ requests) →
        (Renderer.watch m looks).canvas = (Renderer.watch m looks).machine.display.frame := by
  intro m past now
  have hdisplay : now.display = past.foldl Display.note m.display :=
    tells_display.after m requests
  obtain ⟨hdirty, hframe⟩ := Display.foldl_note (d := m.display) rfl past
  rw [← hdisplay] at hdirty hframe
  refine ⟨?_, fun hnone => ?_, fun looks hlooks => ?_⟩
  · rw [Display.isSome_pending?, hdirty, List.any_eq_true]
  · exact hframe (Display.pending?_eq_none_iff.mp hnone)
  · suffices hall : ∀ r : Renderer, r.UpToDate → (looks.foldl Renderer.follow r).UpToDate from
      (hall ⟨m, .blank⟩ ⟨rfl, rfl⟩).1
    induction looks with
    | nil => exact fun r hr => hr
    | cons look rest ih =>
      rw [List.forall_mem_cons] at hlooks
      exact fun r hr => ih hlooks.2 _ (hr.follow hlooks.1)

/-- A row is drawn before the first look, and nothing between the first and the second, after which
it is still there. -/
theorem pending_since_shown_across_looks :
    let looks := [[Request.load [0xA2, 0x00, 0xD0, 0x11, 0x12, 0x04], .step 2], [.step 3, .tick 1]]
    let r := Renderer.watch (create { preloadFont := false } (.ofList [])) looks
    ((∀ requests ∈ looks, .acknowledge ∉ requests) ∧ r.canvas.lit ⟨2, 0⟩ = true) ∧
      r.canvas = r.machine.display.frame := by
  intro looks r
  have hlooks : ∀ requests ∈ looks, .acknowledge ∉ requests := by simp [looks]
  have hlit : r.canvas.lit ⟨2, 0⟩ = true := by decide +kernel
  obtain ⟨-, -, hcanvas⟩ := pending_since_shown { preloadFont := false } (.ofList []) []
  have hr : r.canvas = r.machine.display.frame := by
    rw [show r = Renderer.watch _ looks from rfl, hcanvas looks hlooks]
  exact ⟨⟨hlooks, hlit⟩, hr⟩

end Machine
end ChipEight
