import Mathlib.Data.List.Basic
import Tangible.Bundle.Basic

/-!
# Framed bundles

`checkOutput` counts frames and alive lists and looks at the two ends of a bundle. It accepts
exactly the bundles that are a frame, messages of other kinds, and an alive list
(`Bundle.checkOutput_eq_ok_iff`). A bundle that still has no alive list is open (`Bundle.Open`).
-/

namespace Tangible

namespace Message

variable {m : Message}

theorem isFrame_iff : m.isFrame ↔ ∃ frame, m = .frame frame := by
  cases m <;> simp [isFrame, kind]

theorem isAlive_iff : m.isAlive ↔ ∃ ids, m = .alive ids := by
  cases m <;> simp [isAlive, kind]

end Message

namespace Bundle

variable {b : Bundle}

/-- A frame, messages of other kinds, and an alive list. -/
def Framed (b : Bundle) : Prop :=
  ∃ frame body ids, b.messages = .frame frame :: body ++ [.alive ids] ∧
    ∀ m ∈ body, m.isFrame = false ∧ m.isAlive = false

theorem frame?_eq_some_iff {frame : Frame} :
    b.frame? = some frame ↔ ∃ rest, b.messages = .frame frame :: rest := by
  rw [frame?]
  cases b.messages with
  | nil => simp
  | cons m rest => cases m <;> simp

theorem alive?_eq_some_iff {ids : List UInt32} :
    b.alive? = some ids ↔ ∃ before, b.messages = before ++ [.alive ids] := by
  rw [alive?]
  rcases List.eq_nil_or_concat b.messages with empty | ⟨before, m, last⟩
  · simp [empty]
  · rw [last, List.concat_eq_append, List.getLast?_concat]
    cases m <;> simp

/-- The counts of frames and alive lists in a bundle with a frame and an alive list at its ends. -/
theorem countP_framed (frame : Frame) (body : List Message) (ids : List UInt32) :
    (.frame frame :: body ++ [Message.alive ids]).countP Message.isFrame =
        body.countP Message.isFrame + 1 ∧
      (.frame frame :: body ++ [Message.alive ids]).countP Message.isAlive =
        body.countP Message.isAlive + 1 := by
  simp [Message.isFrame, Message.isAlive, Message.kind]

theorem checkOutput_eq_ok_iff : b.checkOutput = .ok () ↔ b.Framed := by
  have plain (body : List Message) : (∀ m ∈ body, m.isFrame = false ∧ m.isAlive = false) ↔
      body.countP Message.isFrame = 0 ∧ body.countP Message.isAlive = 0 := by
    simp [List.countP_eq_zero, forall_and]
  constructor
  · intro checked
    simp only [checkOutput] at checked
    split_ifs at checked with noFrame noAlive counted
    obtain ⟨frame, opens⟩ := Option.ne_none_iff_exists'.mp (mt Option.isNone_iff_eq_none.mpr noFrame)
    obtain ⟨ids, closes⟩ := Option.ne_none_iff_exists'.mp (mt Option.isNone_iff_eq_none.mpr noAlive)
    obtain ⟨rest, first⟩ := frame?_eq_some_iff.mp opens
    obtain ⟨before, last⟩ := alive?_eq_some_iff.mp closes
    -- a frame is not an alive list, so there are two ends
    obtain ⟨body, rfl⟩ : ∃ body, before = .frame frame :: body := by
      cases before with
      | nil => simp [first] at last
      | cons m body =>
        rw [first, List.cons_append, List.cons.injEq] at last
        exact ⟨body, by rw [last.1]⟩
    obtain ⟨frames, alives⟩ := countP_framed frame body ids
    rw [last, frames, alives] at counted
    exact ⟨frame, body, ids, last, (plain body).mpr (by omega)⟩
  · rintro ⟨frame, body, ids, whole, between⟩
    obtain ⟨frames, alives⟩ := countP_framed frame body ids
    have opens : b.frame? = some frame := frame?_eq_some_iff.mpr ⟨_, whole⟩
    have closes : b.alive? = some ids := alive?_eq_some_iff.mpr ⟨_, whole⟩
    have none := (plain body).mp between
    simp only [checkOutput, opens, closes, whole, frames, alives, none]
    rfl

/-- A frame and messages of other kinds, and no alive list. -/
def Open (b : Bundle) : Prop :=
  ∃ frame body, b.messages = .frame frame :: body ∧
    ∀ m ∈ body, m.isFrame = false ∧ m.isAlive = false

theorem open_of_isFrame {m : Message} (opens : m.isFrame) : Open ⟨[m]⟩ := by
  obtain ⟨frame, rfl⟩ := Message.isFrame_iff.mp opens
  exact ⟨frame, [], rfl, List.forall_mem_nil _⟩

theorem Open.push (opened : b.Open) {m : Message}
    (plain : m.isFrame = false ∧ m.isAlive = false) : (b.push m).Open := by
  obtain ⟨frame, body, first, between⟩ := opened
  refine ⟨frame, body ++ [m], by simp [Bundle.push, first], ?_⟩
  exact List.forall_mem_append.mpr ⟨between, List.forall_mem_singleton.mpr plain⟩

theorem Open.close (opened : b.Open) {m : Message} (alive : m.isAlive) : (b.push m).Framed := by
  obtain ⟨frame, body, first, between⟩ := opened
  obtain ⟨ids, rfl⟩ := Message.isAlive_iff.mp alive
  exact ⟨frame, body, ids, by simp [Bundle.push, first], between⟩

end Bundle

end Tangible
