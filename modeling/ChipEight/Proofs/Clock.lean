import ChipEight.Proofs.Asides

/-!
The clock and the renderer. A host drives a machine when it loads an image, moves a key or lets it
go through cycles; it keeps the machine's clock when it sets a timer or lets it fall. The program
sees the clock only through the one instruction that reads the delay timer, and it never sees what
is looked at or shown (`Machine.clock_unseen`).
-/
namespace ChipEight

namespace Request

/-- Whether a request drives the program. -/
def drives : Request → Bool
  | load _ | loadFrom _ | press _ | release _ | step _ | run _ => true
  | _ => false

/-- Whether a request keeps the clock. -/
def clocks : Request → Bool
  | tick _ | setDelay _ | tickDelay _ => true
  | _ => false

/-- Whether a request drives the program or keeps its clock. -/
def drivesOrClocks (request : Request) : Bool :=
  request.drives || request.clocks

theorem drives_of_goes {request : Request} (h : request.goes = true) : request.drives = true := by
  cases request with
  | step | run => rfl
  | _ => cases h

end Request

namespace Machine

/-- The next cycle reads the delay timer. -/
def ReadsDelay (m : Machine) : Prop :=
  ∃ x, m.due? = some (.readDelay x)

/-- Under the same configuration, only the delay timer can be read differently. -/
theorem indifferent_of_alike {asides : List Aside} (hconfig : .config ∈ asides) {m m' : Machine}
    (h : Alike asides m m') (hdelay : m.ReadsDelay → m'.delay = m.delay) : m.Indifferent m' := by
  have hsame : m'.config = m.config := h.aside .config hconfig
  constructor
  · intros
    rw [hsame]
  · intros
    rw [hsame]
  · intros
    rw [hsame]
  · intro x hx
    exact hdelay ⟨x, hx⟩

/-- A host that does not drive a machine reaches only its asides. -/
theorem alike_serve {asides : List Aside} (hdirty : .dirty ∉ asides) (m : Machine)
    {request : Request} (h : request.drives = false)
    (hclock : request.clocks = true → .delay ∉ asides ∧ .sound ∉ asides) :
    Alike asides m (m.serve request).machine := by
  cases request with
  | load | loadFrom | press | release | step | run => cases h
  | tick times =>
    obtain ⟨hdelay, hsound⟩ := hclock rfl
    show Alike asides m (ticks times m)
    rw [ticks_eq]
    refine ⟨rfl, rfl, rfl, rfl, rfl, rfl, rfl, rfl, rfl, fun a ha => ?_⟩
    cases a with
    | delay => exact absurd ha hdelay
    | sound => exact absurd ha hsound
    | config | dirty => rfl
  | setDelay | tickDelay =>
    refine ⟨rfl, rfl, rfl, rfl, rfl, rfl, rfl, rfl, rfl, fun a ha => ?_⟩
    cases a with
    | delay => exact absurd ha (hclock rfl).1
    | config | sound | dirty => rfl
  | acknowledge =>
    refine ⟨rfl, rfl, rfl, rfl, rfl, rfl, rfl, rfl, rfl, fun a ha => ?_⟩
    cases a with
    | dirty => exact absurd ha hdirty
    | config | delay | sound => rfl
  | _ =>
    rw [machine_serve]
    exact .refl m

theorem simulation_untimed : Simulation (Alike [.config]) ReadsDelay Request.drives where
  goes := Request.drives_of_goes
  isWaiting h := h.isWaiting
  step h hreads := by
    have hi := indifferent_of_alike (by simp) h fun hreads' => absurd hreads' hreads
    exact ⟨step_alike h hi, stepLog_alike h hi⟩
  serve {m m' request} h hheard hgoes := by
    refine serve_alike h hgoes ?_ ?_
    · rintro rfl
      cases hheard
    · rintro (rfl | rfl) <;> cases hheard
  unheard_left h hrequest := (alike_serve (by simp) _ hrequest (by simp)).symm.trans h
  unheard_right h hrequest := h.trans (alike_serve (by simp) _ hrequest (by simp))

theorem simulation_unshown :
    Simulation (Alike [.config, .delay, .sound]) (fun _ => False) Request.drivesOrClocks where
  goes {request} hgoes := by
    rw [Request.drivesOrClocks, Request.drives_of_goes hgoes, Bool.true_or]
  isWaiting h := h.isWaiting
  step h _ := by
    have hi := indifferent_of_alike (by simp) h fun _ => h.aside .delay (by simp)
    exact ⟨step_alike h hi, stepLog_alike h hi⟩
  serve {m m' request} h hheard hgoes := by
    refine serve_alike h hgoes (fun _ => h.aside .delay (by simp)) ?_
    rintro (rfl | rfl) <;> cases hheard
  unheard_left {m m' request} h hrequest := by
    obtain ⟨hdrives, hclocks⟩ := Bool.or_eq_false_iff.mp hrequest
    exact (alike_serve (by simp) m hdrives (by simp [hclocks])).symm.trans h
  unheard_right {m m' request} h hrequest := by
    obtain ⟨hdrives, hclocks⟩ := Bool.or_eq_false_iff.mp hrequest
    exact h.trans (alike_serve (by simp) m' hdrives (by simp [hclocks]))

/-- **Only one instruction sees the clock, and none sees the renderer.** However two hosts keep the
clock of a machine they drive alike, and whatever they look at meanwhile, nothing comes out
differently before the delay timer is read. If they keep its clock alike as well, nothing does at
all, and the timers agree too. -/
theorem clock_unseen (m : Machine) (one other : List Request) :
    (one.filter Request.drives = other.filter Request.drives →
      AgreeUpTo (Moment.Part (Alike [.config]) ReadsDelay) (Moment.Agree (Alike [.config]))
        (Alike [.config] (m.after one) (m.after other))
        (m.heardHistory Request.drives one) (m.heardHistory Request.drives other)) ∧
      (one.filter Request.drivesOrClocks = other.filter Request.drivesOrClocks →
        List.Forall₂ (Moment.Agree (Alike [.config, .delay, .sound]))
            (m.heardHistory Request.drivesOrClocks one)
            (m.heardHistory Request.drivesOrClocks other) ∧
          Alike [.config, .delay, .sound] (m.after one) (m.after other)) := by
  constructor
  · intro hdrives
    exact simulation_untimed.history (.refl m) hdrives
  · intro hheard
    refine (simulation_unshown.history (.refl m) hheard).toEnd ?_
    rintro _ _ _ ⟨_, hnever⟩
    exact hnever

/-- A program that sets the delay timer, clears the display and reads the timer. Up to that last
instruction it does not matter that another host sets the timer anew; and the instruction itself
does not care what is looked at. -/
theorem clock_unseen_until_read :
    let m := bare {} (.ofList [])
    let begin := [Request.load [0x60, 0x05, 0xF0, 0x15, 0x00, 0xE0, 0xF1, 0x07], .step 2, .tick 3]
    let one := begin ++ [.step 1]
    let other := .acknowledge :: begin ++ [.setDelay 9, .readByte 0x200, .step 1]
    let looked := begin ++ [.step 1, .frame, .acknowledge, .readDelay, .step 1]
    one.filter Request.drives = other.filter Request.drives ∧
      (∀ moment ∈ m.heardHistory Request.drives one, ∀ x,
        moment.executed? ≠ some (.readDelay x)) ∧
      Alike [.config] (m.after one) (m.after other) ∧
      Alike [.config, .delay, .sound] (m.after (begin ++ [.step 1, .step 1])) (m.after looked) := by
  intro m begin one other looked
  have hdrives : one.filter Request.drives = other.filter Request.drives := by decide
  have hunread : ∀ moment ∈ m.heardHistory Request.drives one, ∀ x,
      moment.executed? ≠ some (.readDelay x) := by decide +kernel
  refine ⟨hdrives, hunread, ?_, ?_⟩
  · refine (((clock_unseen m one other).1 hdrives).toEnd ?_).2
    rintro _ hmem _ ⟨_, x, hx⟩
    exact hunread _ hmem x hx
  · exact ((clock_unseen m _ looked).2 (by decide)).2

end Machine
end ChipEight
