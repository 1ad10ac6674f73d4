/-!
# Arenas

An arena keeps values in numbered slots. A handle names a slot and its generation; removing a value
raises the generation of its slot, so an old handle finds nothing even when the slot is used again.
Freed slots are used again before new ones are made, the last freed first. `order` lists the live
handles in the order of their insertion.

The number of a slot is kept in 32 bits (`Handle.index`). It stands as a whole here: before `2 ^ 32`
insertions nothing of it is lost.
-/

namespace Tangible

structure Handle where
  slot : Nat
  generation : UInt32
deriving DecidableEq, Repr

/-- The 32 bits that are kept of the number of the slot. -/
def Handle.index (h : Handle) : UInt32 :=
  .ofNat h.slot

structure Slot (α : Type) where
  generation : UInt32
  content : Option α
deriving Repr

structure Arena (α : Type) where
  slots : List (Slot α) := []
  free : List Nat := []
  order : List Handle := []

namespace Arena

variable {α : Type}

def empty : Arena α := {}

def size (a : Arena α) : Nat := a.order.length

def get? (a : Arena α) (h : Handle) : Option α :=
  match a.slots[h.slot]? with
  | some slot => if slot.generation = h.generation then slot.content else none
  | none => none

/-- The handle that the next insertion returns. -/
def nextHandle (a : Arena α) : Handle :=
  match a.free with
  | [] => ⟨a.slots.length, 0⟩
  | slot :: _ => ⟨slot, (a.slots[slot]?.map Slot.generation).getD 0⟩

def insert (a : Arena α) (value : α) : Handle × Arena α :=
  let handle := a.nextHandle
  let slot : Slot α := ⟨handle.generation, some value⟩
  let slots := match a.free with
    | [] => a.slots ++ [slot]
    | _ :: _ => a.slots.set handle.slot slot
  (handle, ⟨slots, a.free.tail, a.order ++ [handle]⟩)

/-- The generation of the slot is raised, so that the handle and its copies become stale. -/
def erase (a : Arena α) (h : Handle) : Arena α :=
  match a.get? h with
  | none => a
  | some _ =>
    ⟨a.slots.set h.slot ⟨h.generation + 1, none⟩, h.slot :: a.free, a.order.filter (· ≠ h)⟩

def modify (a : Arena α) (h : Handle) (f : α → α) : Arena α :=
  match a.get? h with
  | none => a
  | some value => { a with slots := a.slots.set h.slot ⟨h.generation, some (f value)⟩ }

/-- The live handles with their values in the order of insertion. -/
def entries (a : Arena α) : List (Handle × α) :=
  a.order.filterMap fun h => (a.get? h).map (h, ·)

/-- Changes every value, slot by slot. -/
def map (a : Arena α) (f : α → α) : Arena α :=
  { a with slots := a.slots.map fun slot => ⟨slot.generation, slot.content.map f⟩ }

/-- Combines the values with the given list in the order of the slots, as far as the list goes. -/
def zipSlots {β : Type} (f : β → α → α) : List (Slot α) → List β → List (Slot α)
  | slots, [] => slots
  | [], _ => []
  | ⟨generation, none⟩ :: slots, bs => ⟨generation, none⟩ :: zipSlots f slots bs
  | ⟨generation, some a⟩ :: slots, b :: bs => ⟨generation, some (f b a)⟩ :: zipSlots f slots bs

end Arena

end Tangible
