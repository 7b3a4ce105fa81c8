import ChipEight.Proofs.History

/-!
The keypad. A host says that keys go down and up, and a key is where the last word about it has
left it (`Machine.keys_after`), whatever the program and the host do meanwhile. Of the numbers that
a host may give, those that are no key change nothing; a program names a key by the low nibble of a
register, so there is a key for every value (`Machine.execute_key_tests`).
-/
namespace ChipEight

namespace Request

/-- What a request says about a key: that it has gone down, or that it has gone up. -/
def keyEvent? (k : Fin 16) : Request → Option Bool
  | press key => if key.toNat = k.val then some true else none
  | release key => if key.toNat = k.val then some false else none
  | _ => none

/-- Whether the last of the events of a key has put it down. A key is up at first. -/
def leaveDown (requests : List Request) (k : Fin 16) : Bool :=
  (requests.filterMap (keyEvent? k)).getLast?.getD false

end Request

namespace Machine

theorem keys_press (m : Machine) (key : UInt8) (k : Fin 16) :
    (m.press key).keys.get k = if key.toNat = k.val then true else m.keys.get k := by
  by_cases hkey : key.toNat < 16
  · have hset : (m.press key).keys = m.keys.set key.toNat true := by
      cases hw : m.awaiting with
      | none => rw [press_of_awaiting_none hw hkey]
      | some x => rw [press_of_awaiting hw hkey]
    rw [hset]
    exact Vector.getElem_set hkey k.isLt
  · rw [press_of_not_key hkey, if_neg (by omega)]

theorem keys_release (m : Machine) (key : UInt8) (k : Fin 16) :
    (m.release key).keys.get k = if key.toNat = k.val then false else m.keys.get k := by
  by_cases hkey : key.toNat < 16
  · rw [release, dif_pos hkey]
    exact Vector.getElem_set hkey k.isLt
  · rw [release, dif_neg hkey, if_neg (by omega)]

theorem keys_serve (m : Machine) (request : Request) (k : Fin 16) :
    (m.serve request).machine.keys.get k = (request.keyEvent? k).getD (m.keys.get k) := by
  have hsame : Part.keys.Same m (m.serve request).machine →
      (m.serve request).machine.keys.get k = m.keys.get k := fun h => by rw [h]
  cases request with
  | press key =>
    show (m.press key).keys.get k = _
    rw [keys_press, Request.keyEvent?]
    split <;> rfl
  | release key =>
    show (m.release key).keys.get k = _
    rw [keys_release, Request.keyEvent?]
    split <;> rfl
  | step | run =>
    refine hsame ?_
    rw [machine_serve]
    refine perform_same (fun a ha n => ?_) m
    obtain rfl := List.eq_of_mem_replicate ha
    refine Act.not_mem_touches_cycle (by simp) (fun i => ?_) n
    cases i <;> simp [Instruction.touches]
  | _ => exact hsame (serve_same rfl (by simp [Request.touches]) m)

/-- A key is where its last event has put it. -/
theorem keys_after (m : Machine) (requests : List Request) (k : Fin 16) :
    (m.after requests).keys.get k =
      (requests.filterMap (·.keyEvent? k)).getLast?.getD (m.keys.get k) := by
  rw [← foldl_getD_eq_getLast?]
  induction requests generalizing m with
  | nil => rfl
  | cons request rest ih =>
    rw [List.foldl_cons, ← keys_serve]
    exact ih _

/-! ## Skips -/

theorem decode?_pressed (x : Register) :
    Instruction.decode? (.ofNibbles 0xE x 0x9 0xE) = some (.skip (.pressed x)) := by
  revert x
  decide

theorem decode?_released (x : Register) :
    Instruction.decode? (.ofNibbles 0xE x 0xA 0x1) = some (.skip (.released x)) := by
  revert x
  decide

/-- The two instructions that test a key never fail, and just one of them skips. -/
theorem execute_key_tests (m : Machine) (x : Register) :
    let down := m.keys.get (Fin.ofNat 16 (m.register x).toNat)
    m.execute (.ofNibbles 0xE x 0x9 0xE) =
        .success { m with pc := if down then m.pc + 4 else m.pc + 2 } ∧
      m.execute (.ofNibbles 0xE x 0xA 0x1) =
        .success { m with pc := if down then m.pc + 2 else m.pc + 4 } := by
  intro down
  rw [execute, execute, decode?_pressed, decode?_released]
  have hdown : m.keyDown (m.register x) = down := rfl
  constructor
  · show Outcome.success { m with pc := if m.keyDown (m.register x) then _ else _ } = _
    rw [hdown]
  · show Outcome.success { m with pc := if !m.keyDown (m.register x) then _ else _ } = _
    rw [hdown]
    cases down <;> rfl

/-- A number that is no key changes nothing. -/
theorem serve_of_not_key (m : Machine) {key : UInt8} (h : 16 ≤ key.toNat) :
    m.serve (.press key) = .done m ∧ m.serve (.release key) = .done m := by
  have hkey : ¬ key.toNat < 16 := Nat.not_lt.mpr h
  refine ⟨congrArg Answer.done (press_of_not_key hkey), congrArg Answer.done ?_⟩
  rw [release, dif_neg hkey]

/-- **Each key is where its last event has put it.** In every state a machine comes to, a key is
down if and only if the last event of exactly that key was that it went down. The numbers that are
no key change nothing at all. And of the two instructions that test the key in the low nibble of a
register, whatever the register holds, one skips if the key is down and the other one if it is not;
neither of them fails. -/
theorem keys_follow_last_event (config : Config) (random : RandomBytes) (requests : List Request) :
    let now := (create config random).after requests
    (∀ k : Fin 16, now.keys.get k = Request.leaveDown requests k) ∧
      (∀ key : UInt8, 16 ≤ key.toNat →
        now.serve (.press key) = .done now ∧ now.serve (.release key) = .done now) ∧
      ∀ x : Register,
        let down := Request.leaveDown requests (Fin.ofNat 16 (now.register x).toNat)
        now.execute (.ofNibbles 0xE x 0x9 0xE) =
            .success { now with pc := if down then now.pc + 4 else now.pc + 2 } ∧
          now.execute (.ofNibbles 0xE x 0xA 0x1) =
            .success { now with pc := if down then now.pc + 2 else now.pc + 4 } := by
  intro now
  have hkeys : ∀ k : Fin 16, now.keys.get k = Request.leaveDown requests k := fun k => by
    have hup : (create config random).keys.get k = false := Vector.getElem_replicate ..
    rw [Request.leaveDown, ← hup]
    exact keys_after _ requests k
  refine ⟨hkeys, fun key h => now.serve_of_not_key h, fun x => ?_⟩
  rw [← hkeys]
  exact now.execute_key_tests x

/-- A register holds A3, key 3 is down, and the numbers 13 and 14 are no keys: the release of the
one does not put key 3 up, and the press of the other does not put key 4 down. -/
theorem keys_follow_last_event_past_aliases :
    let now := (create { preloadFont := false } (.ofList [])).after
      [.load [0x60, 0xA3], .press 3, .step 1, .release 0x13, .press 0x14]
    (now.keys.get 3 = true ∧ now.keys.get 4 = false) ∧
      now.serve (.release 0x13) = .done now ∧
      now.execute (.ofNibbles 0xE 0 0x9 0xE) = .success { now with pc := 0x206 } ∧
      now.execute (.ofNibbles 0xE 0 0xA 0x1) = .success { now with pc := 0x204 } := by
  intro now
  obtain ⟨hkeys, hno, htests⟩ := keys_follow_last_event { preloadFont := false } (.ofList [])
    [.load [0x60, 0xA3], .press 3, .step 1, .release 0x13, .press 0x14]
  have hpc : now.pc = 0x202 := by decide +kernel
  have hregister : now.register 0 = 0xA3 := by decide +kernel
  have hdown : Request.leaveDown [.load [0x60, 0xA3], .press 3, .step 1, .release 0x13, .press 0x14]
      (Fin.ofNat 16 (now.register 0).toNat) = true := by rw [hregister]; decide
  obtain ⟨hpressed, hreleased⟩ := htests 0
  refine ⟨⟨hkeys 3, hkeys 4⟩, (hno 0x13 (by decide)).2, ?_, ?_⟩
  · rw [hpressed, hdown, if_pos rfl]
    exact congrArg (fun pc => Outcome.success { now with pc := pc + 4 }) hpc
  · rw [hreleased, hdown, if_pos rfl]
    exact congrArg (fun pc => Outcome.success { now with pc := pc + 2 }) hpc

end Machine
end ChipEight
