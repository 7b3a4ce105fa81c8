import ChipEight.Machine.Request
import Mathlib.Algebra.GroupWithZero.Nat
import Mathlib.Data.List.Basic

/-!
Streams. What a machine loads from a stream depends only on the bytes that come before its end, and
on whether a read fails before it (`Chunk.gather_eq`). A reader gets hold of them read by read, with
room for some number of bytes each time; however the bytes are divided up, it ends with what
`Chunk.gather` says (`Chunk.readToEnd_eq`).
-/
namespace ChipEight

namespace Chunk

/-- The bytes a chunk delivers. -/
def bytes : Chunk → List UInt8
  | data bytes => bytes
  | interrupted | broken _ => []

/-- Why a chunk breaks a stream off, if it does. -/
def cause? : Chunk → Option String
  | broken cause => some cause
  | data _ | interrupted => none

/-- The chunks before the end of a stream. -/
def beforeEnd (stream : List Chunk) : List Chunk :=
  stream.takeWhile (· ≠ .data [])

/-- The first failure before the end of a stream. -/
def failure? (stream : List Chunk) : Option String :=
  (beforeEnd stream).findSome? cause?

/-- All bytes before the end of a stream. -/
def delivered (stream : List Chunk) : List UInt8 :=
  (beforeEnd stream).flatMap bytes

theorem beforeEnd_cons_of_ne {c : Chunk} (h : c ≠ .data []) (rest : List Chunk) :
    beforeEnd (c :: rest) = c :: beforeEnd rest :=
  List.takeWhile_cons_of_pos (by simpa using h)

theorem gather_data {bytes : List UInt8} (h : bytes ≠ []) (rest : List Chunk) :
    gather (.data bytes :: rest) = (gather rest).map (bytes ++ ·) := by
  cases bytes with
  | nil => exact absurd rfl h
  | cons => rfl

/-- A stream gives all that it delivers, unless a read fails first. -/
theorem gather_eq (stream : List Chunk) :
    gather stream =
      match failure? stream with
      | some cause => .error (.io cause)
      | none => .ok (delivered stream) := by
  induction stream with
  | nil => rfl
  | cons c rest ih =>
    rw [failure?, delivered] at ih ⊢
    cases c with
    | broken cause => rfl
    | interrupted =>
      rw [beforeEnd_cons_of_ne (by simp)]
      exact ih
    | data bytes =>
      by_cases hend : bytes = []
      · subst hend
        rfl
      · rw [beforeEnd_cons_of_ne (by simp [hend]), gather_data hend, ih, List.findSome?_cons,
          List.flatMap_cons]
        cases hfailure : (beforeEnd rest).findSome? cause? with
        | some cause => rfl
        | none => rfl

/-! ## Reads -/

/-- What a single read comes to. -/
inductive Reading where
  /-- Bytes, none at the end of the stream. -/
  | bytes (bytes : List UInt8)
  | interrupted
  | failed (cause : String)

/-- One read of a stream, by a reader that has room for some number of bytes, and what is left to
be read. -/
def read (room : Nat) : List Chunk → Reading × List Chunk
  | [] => (.bytes [], [])
  | .data bytes :: rest =>
      if bytes.length ≤ room then (.bytes bytes, rest)
      else (.bytes (bytes.take room), .data (bytes.drop room) :: rest)
  | .interrupted :: rest => (.interrupted, rest)
  | .broken cause :: rest => (.failed cause, rest)

/-- Reads a stream to its end, with room for so many bytes in each of its reads. A read that is
interrupted is tried again, no bytes are the end, and a failure is passed on. There is no result if
more reads are needed. -/
def readToEnd : List Nat → List Chunk → List UInt8 → Option (Except Fault (List UInt8))
  | [], _, _ => none
  | room :: rooms, stream, gathered =>
      match read room stream with
      | (.bytes bytes, rest) =>
          if bytes = [] then some (.ok gathered) else readToEnd rooms rest (gathered ++ bytes)
      | (.interrupted, rest) => readToEnd rooms rest gathered
      | (.failed cause, _) => some (.error (.io cause))

/-- No stream takes more reads than it has chunks and bytes, and one to find the end. -/
def readsNeeded (stream : List Chunk) : Nat :=
  (stream.map fun c => c.bytes.length + 1).sum + 1

theorem readsNeeded_cons (c : Chunk) (rest : List Chunk) :
    readsNeeded (c :: rest) = c.bytes.length + 1 + readsNeeded rest := by
  rw [readsNeeded, readsNeeded, List.map_cons, List.sum_cons]
  omega

/-- Bytes that come in two parts are the same bytes. -/
theorem gather_cut {a b : List UInt8} (ha : a ≠ []) (hb : b ≠ []) (rest : List Chunk) :
    gather (.data (a ++ b) :: rest) = gather (.data a :: .data b :: rest) := by
  rw [gather_data (by simp [ha]), gather_data ha, gather_data hb]
  cases gather rest with
  | error f => rfl
  | ok image => simp [Except.map]

/-- What one read with room in it can come to: the end or the failure that the stream comes to, or
a stream that comes to the same behind the bytes that were read. -/
inductive ReadCase (room : Nat) (stream : List Chunk) : Prop where
  | ended {rest : List Chunk} (h : read room stream = (.bytes [], rest))
      (hgather : gather stream = .ok [])
  | delivered {bytes : List UInt8} {rest : List Chunk} (h : read room stream = (.bytes bytes, rest))
      (hbytes : bytes ≠ []) (hgather : gather stream = (gather rest).map (bytes ++ ·))
      (hless : readsNeeded rest < readsNeeded stream)
  | interrupted {rest : List Chunk} (h : read room stream = (.interrupted, rest))
      (hgather : gather stream = gather rest) (hless : readsNeeded rest < readsNeeded stream)
  | failed {cause : String} {rest : List Chunk} (h : read room stream = (.failed cause, rest))
      (hgather : gather stream = .error (.io cause))

theorem readCase {room : Nat} (hroom : 0 < room) (stream : List Chunk) : ReadCase room stream := by
  cases stream with
  | nil => exact .ended rfl rfl
  | cons c rest =>
    have hless : readsNeeded rest < readsNeeded (c :: rest) := by
      rw [readsNeeded_cons]
      omega
    cases c with
    | broken cause => exact .failed rfl rfl
    | interrupted => exact .interrupted rfl rfl hless
    | data bytes =>
      by_cases hend : bytes = []
      · subst hend
        exact .ended rfl rfl
      · by_cases hfits : bytes.length ≤ room
        · exact .delivered (if_pos hfits) hend (gather_data hend rest) hless
        · have htake : bytes.take room ≠ [] := by
            intro h
            rcases List.take_eq_nil_iff.mp h with hzero | hnil
            · omega
            · exact hend hnil
          have hdrop : bytes.drop room ≠ [] := by
            rw [Ne, List.drop_eq_nil_iff]
            omega
          refine .delivered (if_neg hfits) htake ?_ ?_
          · rw [← gather_data htake, ← gather_cut htake hdrop, List.take_append_drop]
          · have hlength : (bytes.drop room).length < bytes.length := by
              rw [List.length_drop]
              omega
            rw [readsNeeded_cons, readsNeeded_cons]
            show (bytes.drop room).length + 1 + _ < bytes.length + 1 + _
            omega

/-- However a stream is read, its reader ends with what the stream comes to. -/
theorem readToEnd_eq {rooms : List Nat} (hrooms : ∀ room ∈ rooms, 0 < room) {stream : List Chunk}
    (henough : readsNeeded stream ≤ rooms.length) (gathered : List UInt8) :
    readToEnd rooms stream gathered = some ((gather stream).map (gathered ++ ·)) := by
  induction rooms generalizing stream gathered with
  | nil => simp [readsNeeded] at henough
  | cons room rooms ih =>
    obtain ⟨hroom, hrooms⟩ := List.forall_mem_cons.mp hrooms
    rw [List.length_cons] at henough
    rw [readToEnd]
    cases readCase hroom stream with
    | ended h hgather =>
      rw [h, hgather]
      simp [Except.map]
    | delivered h hbytes hgather hless =>
      simp only [h, if_neg hbytes]
      rw [ih hrooms (by omega), hgather]
      cases gather _ with
      | error f => rfl
      | ok image => simp [Except.map]
    | interrupted h hgather hless =>
      simp only [h]
      rw [ih hrooms (by omega), hgather]
    | failed h hgather =>
      rw [h, hgather]
      rfl

/-! ## Streams that deliver the same -/

/-- Two streams differ only in how their bytes are divided up, and in reads that are tried again. -/
inductive Reshaped : List Chunk → List Chunk → Prop where
  | refl (stream : List Chunk) : Reshaped stream stream
  | symm {s t : List Chunk} (h : Reshaped s t) : Reshaped t s
  | trans {s t u : List Chunk} (hst : Reshaped s t) (htu : Reshaped t u) : Reshaped s u
  /-- Bytes come in two parts. -/
  | cut (before behind : List Chunk) {a b : List UInt8} (ha : a ≠ []) (hb : b ≠ []) :
      Reshaped (before ++ .data (a ++ b) :: behind) (before ++ .data a :: .data b :: behind)
  /-- A read is interrupted. -/
  | interrupt (before behind : List Chunk) :
      Reshaped (before ++ behind) (before ++ .interrupted :: behind)

/-- What comes first does not tell apart what comes to the same. -/
theorem gather_append_congr (before : List Chunk) {s t : List Chunk} (h : gather s = gather t) :
    gather (before ++ s) = gather (before ++ t) := by
  induction before with
  | nil => exact h
  | cons c rest ih =>
    rw [List.cons_append, List.cons_append]
    cases c with
    | broken cause => rfl
    | interrupted => exact ih
    | data bytes =>
      by_cases hend : bytes = []
      · subst hend
        rfl
      · rw [gather_data hend, gather_data hend, ih]

theorem Reshaped.gather_eq {s t : List Chunk} (h : Reshaped s t) : gather t = gather s := by
  induction h with
  | refl => rfl
  | symm _ ih => exact ih.symm
  | trans _ _ ihst ihtu => exact ihtu.trans ihst
  | cut before behind ha hb => exact gather_append_congr before (gather_cut ha hb behind).symm
  | interrupt before behind => exact gather_append_congr before rfl

end Chunk

namespace Machine

theorem serve_loadFrom_congr (m : Machine) {s t : List Chunk}
    (h : Chunk.gather t = Chunk.gather s) : m.serve (.loadFrom t) = m.serve (.loadFrom s) := by
  simp only [serve, loadFrom, Memory.loadFrom, Chunk.total, h]

/-- **Loading depends only on the bytes delivered.** Whatever a stream is made of: if a read fails
before its end, that failure is the answer, however much was delivered already, and nothing changes;
otherwise a machine answers as it does to the image of all bytes before the end. So it does not
matter how the bytes are divided up nor where reads are interrupted; and whatever room each of its
reads has, a reader that goes on to the end has those bytes or that failure. -/
theorem load_depends_on_delivered (m : Machine) (stream : List Chunk) :
    (∀ cause, Chunk.failure? stream = some cause →
        m.serve (.loadFrom stream) = .tell m (.failed (.io cause))) ∧
      (Chunk.failure? stream = none →
        m.serve (.loadFrom stream) = m.serve (.load (Chunk.delivered stream))) ∧
      (∀ other, Chunk.Reshaped stream other →
        m.serve (.loadFrom other) = m.serve (.loadFrom stream)) ∧
      ∀ rooms : List Nat, (∀ room ∈ rooms, 0 < room) → Chunk.readsNeeded stream ≤ rooms.length →
        Chunk.readToEnd rooms stream [] = some (Chunk.gather stream) := by
  have hgather := Chunk.gather_eq stream
  refine ⟨fun cause hfailure => ?_, fun hfailure => ?_, fun other hother => ?_,
    fun rooms hrooms henough => ?_⟩
  · rw [hfailure] at hgather
    simp only [serve, loadFrom, Memory.loadFrom, hgather]
    rfl
  · rw [hfailure] at hgather
    simp only [serve, loadFrom, Memory.loadFrom, Chunk.total, hgather]
    rfl
  · exact m.serve_loadFrom_congr hother.gather_eq
  · rw [Chunk.readToEnd_eq hrooms henough]
    cases Chunk.gather stream <;> rfl

/-- More bytes than fit are delivered before a read fails; a small image comes in three parts, and
its stream breaks off only behind the end. -/
theorem load_depends_on_delivered_in_parts :
    let m := bare {} (.ofList [])
    let failing := [Chunk.data (.replicate 4000 0xFF), .interrupted, .broken "gone", .data []]
    let whole := [Chunk.data [1, 2, 3], .data [], .broken "gone"]
    let parts := [Chunk.data [1], .interrupted, .data [2], .data [3], .data [], .broken "gone"]
    m.serve (.loadFrom failing) = .tell m (.failed (.io "gone")) ∧
      m.serve (.loadFrom parts) = m.serve (.loadFrom whole) ∧
      m.serve (.loadFrom whole) = m.serve (.load [1, 2, 3]) ∧
      Chunk.readToEnd [2, 1, 5, 5, 5, 5, 5, 5, 5] whole [] = some (Chunk.gather whole) := by
  intro m failing whole parts
  obtain ⟨hfails, -⟩ := m.load_depends_on_delivered failing
  obtain ⟨-, hloads, hreshaped, hread⟩ := m.load_depends_on_delivered whole
  have hparts : Chunk.Reshaped whole parts := by
    have hfirst := Chunk.Reshaped.cut [] [.data [], .broken "gone"] (a := [1]) (b := [2, 3])
      (by simp) (by simp)
    have hsecond := Chunk.Reshaped.cut [.data [1]] [.data [], .broken "gone"] (a := [2]) (b := [3])
      (by simp) (by simp)
    exact (hfirst.trans hsecond).trans
      (.interrupt [.data [1]] [.data [2], .data [3], .data [], .broken "gone"])
  exact ⟨hfails "gone" rfl, hreshaped parts hparts, hloads rfl,
    hread _ (by decide) (by decide)⟩

end Machine
end ChipEight
