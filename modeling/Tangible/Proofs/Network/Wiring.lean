import Tangible.Network.Chain

/-!
# Who is told

Notifications change the stacks of adaptors and what recorders have written down, and never who
listens to whom (`Chain.wiring`). A listener that is told tells those behind it, so a row of
listeners is left alone by everybody who does not lead into it (`Chain.notifyWithin_kept`), also
where the program stops. If it does not stop, a source that tells one listener of a row comes to
that listener's notification, up to what leaves the row alone (`Chain.tellEach_once`).
-/

namespace Tangible

/-- The adaptor before it was shown anything. -/
def Adaptor.unloaded (a : Adaptor) : Adaptor := { a with stack := [] }

/-- An adaptor that does not write in place writes into new cells. -/
theorem Adaptor.transform_grows {a : Adaptor} (copying : a.inPlace = false) (s : Store)
    (stack : List Cell) : s.bundles <+: (a.transform s stack).2.bundles := by
  induction stack generalizing s with
  | nil => exact List.prefix_rfl
  | cons input rest ih =>
    have written : ∃ b, ((s.add {}).2.process a.processor input (s.add {}).1).2.bundles =
        s.bundles ++ [b] := by
      simp [Store.add, Store.process, Store.write]
    obtain ⟨b, written⟩ := written
    have later : (a.transform s (input :: rest)).2 =
        (a.transform ((s.add {}).2.process a.processor input (s.add {}).1).2 rest).2 := by
      simp only [transform, copying]
      split <;> rfl
    rw [later]
    refine List.IsPrefix.trans ?_ (ih _)
    rw [written]
    exact List.prefix_append ..

namespace Chain

variable {c c' d : Chain} {row : List Listener} {place : Nat} {a : Adaptor}

/-- No adaptor writes in place. -/
def Copying (c : Chain) : Prop := ∀ a ∈ c.adaptors, a.inPlace = false

/-- The adaptors apart from what they were shown. -/
def wiring (c : Chain) : List Adaptor := c.adaptors.map Adaptor.unloaded

theorem exists_of_wiring (same : c'.wiring = c.wiring) (found : c.adaptors[place]? = some a) :
    ∃ a', c'.adaptors[place]? = some a' ∧ a'.unloaded = a.unloaded := by
  have here := congrArg (·[place]?) same
  simpa only [wiring, List.getElem?_map, found, Option.map_some, Option.map_eq_some_iff] using here

theorem length_of_wiring (same : c'.wiring = c.wiring) :
    c'.adaptors.length = c.adaptors.length := by
  simpa only [wiring, List.length_map] using congrArg List.length same

theorem copying_iff_wiring : c.Copying ↔ ∀ a ∈ c.wiring, a.inPlace = false := by
  rw [wiring, List.forall_mem_map]
  rfl

theorem wiring_modifyAdaptor (c : Chain) (place : Nat) (made : List Cell) :
    (c.modifyAdaptor place ({ · with stack := made })).wiring = c.wiring := by
  refine List.ext_getElem? fun i => ?_
  simp only [wiring, modifyAdaptor, List.getElem?_map, List.getElem?_modify]
  cases c.adaptors[i]? with
  | none => rfl
  | some a =>
    simp only [Option.map_some]
    split
    · rfl
    · rfl

/-- Adaptors outside the row tell nobody in it. -/
def Apart (c : Chain) (row : List Listener) : Prop :=
  ∀ place a, c.adaptors[place]? = some a → .adaptor place ∉ row →
    ∀ l ∈ a.listeners.members, l ∉ row

theorem apart_nil (c : Chain) : c.Apart [] := fun _ _ _ _ _ _ => List.not_mem_nil

theorem Apart.of_wiring (apart : c.Apart row) (same : c'.wiring = c.wiring) : c'.Apart row := by
  intro place a' found outside l mem
  obtain ⟨a, found, alike⟩ := exists_of_wiring same.symm found
  refine apart place a found outside l ?_
  have listeners : a.listeners = a'.listeners := congrArg (·.listeners) alike
  rwa [listeners]

/-- What notifications do that do not lead into the row. -/
structure Kept (row : List Listener) (c c' : Chain) : Prop where
  wiring : c'.wiring = c.wiring
  store : c.store.bundles <+: c'.store.bundles
  adaptor : ∀ place, .adaptor place ∈ row → c'.adaptors[place]? = c.adaptors[place]?
  recorder : ∀ place, .recorder place ∈ row → c'.recorders[place]? = c.recorders[place]?

namespace Kept

theorem refl (row : List Listener) (c : Chain) : Kept row c c :=
  ⟨rfl, List.prefix_rfl, fun _ _ => rfl, fun _ _ => rfl⟩

theorem trans (first : Kept row c c') (second : Kept row c' d) : Kept row c d where
  wiring := second.wiring.trans first.wiring
  store := first.store.trans second.store
  adaptor place mem := (second.adaptor place mem).trans (first.adaptor place mem)
  recorder place mem := (second.recorder place mem).trans (first.recorder place mem)

theorem copying (kept : Kept row c c') (copying : c.Copying) : c'.Copying := by
  rw [copying_iff_wiring, kept.wiring, ← copying_iff_wiring]
  exact copying

end Kept

/-! ## Telling -/

section

variable {tell : Listener → Chain → Except Reentry Unit × Chain} {l : Listener}
  {ls : List Listener}

theorem tellEach_cons_ok (returned : (tellEach tell (l :: ls) c).1 = .ok ()) :
    (tell l c).1 = .ok () ∧ tellEach tell (l :: ls) c = tellEach tell ls (tell l c).2 := by
  rw [tellEach] at returned ⊢
  split at returned
  · next told =>
    rw [told]
    exact ⟨rfl, rfl⟩
  · cases returned

theorem tellEach_append (front back : List Listener) (c : Chain) :
    tellEach tell (front ++ back) c =
      match tellEach tell front c with
      | (.ok (), c) => tellEach tell back c
      | (.error e, c) => (.error e, c) := by
  induction front generalizing c with
  | nil => rfl
  | cons l front ih =>
    simp only [List.cons_append, tellEach]
    split
    · exact ih _
    · rfl

theorem tellEach_append_ok {front back : List Listener}
    (returned : (tellEach tell (front ++ back) c).1 = .ok ()) :
    tellEach tell (front ++ back) c = tellEach tell back (tellEach tell front c).2 := by
  rw [tellEach_append] at returned ⊢
  split at returned
  · next told => rw [told]
  · cases returned

/-- What is kept by everybody who is told is kept also where somebody stops the program. -/
theorem tellEach_kept
    (kept : ∀ l (c : Chain), c.Copying → c.Apart row → l ∉ row → c.Kept row (tell l c).2)
    (copying : c.Copying) (apart : c.Apart row) (outside : ∀ l ∈ ls, l ∉ row) :
    c.Kept row (tellEach tell ls c).2 := by
  induction ls generalizing c with
  | nil => exact .refl row c
  | cons l ls ih =>
    obtain ⟨here, outside⟩ := List.forall_mem_cons.mp outside
    have first := kept l c copying apart here
    rw [tellEach]
    split
    · next told =>
      rw [told] at first
      exact first.trans (ih (first.copying copying) (apart.of_wiring first.wiring) outside)
    · next stopped =>
      rw [stopped] at first
      exact first

end

theorem notifyWithin_recorder (depth : Nat) (busy : List Nat) (stack : List Cell) (place : Nat)
    (c : Chain) :
    notifyWithin depth busy stack (.recorder place) c =
      (.ok (), c.modifyRecorder place (·.record (c.bundles stack))) := by
  cases depth <;> rfl

/-- The adaptor at a place has been shown a stack: what it made of it, and the chain in which nobody
is told of that yet. -/
def shown (c : Chain) (place : Nat) (a : Adaptor) (stack : List Cell) : List Cell × Chain :=
  let (made, store) := a.transform c.store stack
  (made, { c with store }.modifyAdaptor place ({ · with stack := made }))

theorem notifyWithin_adaptor (found : c.adaptors[place]? = some a) {busy : List Nat}
    (idle : place ∉ busy) (depth : Nat) (stack : List Cell) :
    notifyWithin (depth + 1) busy stack (.adaptor place) c =
      let (made, c) := c.shown place a stack
      if made.isEmpty then (.ok (), c)
      else tellEach (notifyWithin depth (place :: busy) made) a.listeners.members c := by
  rw [notifyWithin, if_neg idle, found]
  rfl

/-- An adaptor whose notification comes back was not being told. -/
theorem notifyWithin_returned (found : c.adaptors[place]? = some a) {depth : Nat} {busy : List Nat}
    {stack : List Cell}
    (returned : (notifyWithin depth busy stack (.adaptor place) c).1 = .ok ()) :
    ∃ depth' busy', notifyWithin depth busy stack (.adaptor place) c =
      let (made, c) := c.shown place a stack
      if made.isEmpty then (.ok (), c)
      else tellEach (notifyWithin depth' busy' made) a.listeners.members c := by
  cases depth with
  | zero => cases returned
  | succ depth =>
    by_cases told : place ∈ busy
    · rw [notifyWithin, if_pos told] at returned
      cases returned
    · exact ⟨depth, place :: busy, notifyWithin_adaptor found told depth stack⟩

theorem recorder_kept (outside : .recorder place ∉ row) (stack : List Cell) :
    c.Kept row (c.modifyRecorder place (·.record (c.bundles stack))) where
  wiring := rfl
  store := List.prefix_rfl
  adaptor _ _ := rfl
  recorder other mem := by
    have differ : place ≠ other := fun same => outside (same ▸ mem)
    simp [modifyRecorder, differ]

theorem shown_kept (found : c.adaptors[place]? = some a) (copying : c.Copying)
    (outside : .adaptor place ∉ row) (stack : List Cell) :
    c.Kept row (c.shown place a stack).2 where
  wiring := wiring_modifyAdaptor { c with store := (a.transform c.store stack).2 } place _
  store := a.transform_grows (copying a (List.mem_of_getElem? found)) c.store stack
  adaptor other mem := by
    have differ : place ≠ other := fun same => outside (same ▸ mem)
    simp [shown, modifyAdaptor, differ]
  recorder _ _ := rfl

theorem notifyWithin_kept (depth : Nat) (busy : List Nat) (stack : List Cell) (l : Listener)
    (copying : c.Copying) (apart : c.Apart row) (outside : l ∉ row) :
    c.Kept row (notifyWithin depth busy stack l c).2 := by
  induction depth generalizing c busy stack l with
  | zero =>
    cases l with
    | recorder place => exact recorder_kept outside stack
    | adaptor place => exact .refl row c
  | succ depth ih =>
    cases l with
    | recorder place => exact recorder_kept outside stack
    | adaptor place =>
      by_cases told : place ∈ busy
      · rw [notifyWithin, if_pos told]
        exact .refl row c
      · cases found : c.adaptors[place]? with
        | none =>
          rw [notifyWithin, if_neg told, found]
          exact .refl row c
        | some a =>
          -- whom the adaptor tells is outside the row again, also when it shows other bundles
          rw [notifyWithin_adaptor found told]
          have first := shown_kept found copying outside stack
          dsimp only
          split
          · exact first
          · exact first.trans (tellEach_kept (fun l _ => ih _ _ l) (first.copying copying)
              (apart.of_wiring first.wiring) (apart place a found outside))

theorem notifyAll_kept (copying : c.Copying) (apart : c.Apart row) (stack : List Cell)
    {ls : Listeners} (outside : ∀ l ∈ ls.members, l ∉ row) :
    c.Kept row (c.notifyAll stack ls).2 :=
  tellEach_kept (fun l _ => notifyWithin_kept _ _ stack l) copying apart outside

/-- Nobody changes who listens to whom. -/
theorem notifyAll_wiring (copying : c.Copying) (stack : List Cell) (ls : Listeners) :
    (c.notifyAll stack ls).2.wiring = c.wiring :=
  (notifyAll_kept copying c.apart_nil stack fun _ _ => List.not_mem_nil).wiring

/-- Among those that are told, one is in the row. What the others do leaves the row alone. -/
theorem tellEach_once {ls : List Listener} {l : Listener} (once : ls.filter (· ∈ row) = [l])
    (copying : c.Copying) (apart : c.Apart row) {depth : Nat} {busy : List Nat} {stack : List Cell}
    (returned : (tellEach (notifyWithin depth busy stack) ls c).1 = .ok ()) :
    ∃ before, c.Kept row before ∧ (notifyWithin depth busy stack l before).1 = .ok () ∧
      Kept row (notifyWithin depth busy stack l before).2
        (tellEach (notifyWithin depth busy stack) ls c).2 := by
  obtain ⟨front, back, rfl, notFront, -, none⟩ := List.filter_eq_cons_iff.mp once
  have notBack := List.filter_eq_nil_iff.mp none
  simp only [decide_eq_true_iff] at notFront notBack
  have kept (l : Listener) (c : Chain) (copying : c.Copying) (apart : c.Apart row)
      (outside : l ∉ row) : c.Kept row (notifyWithin depth busy stack l c).2 :=
    notifyWithin_kept depth busy stack l copying apart outside
  have first := tellEach_kept kept copying apart notFront
  have behind := tellEach_append_ok returned
  rw [behind] at returned ⊢
  generalize (tellEach (notifyWithin depth busy stack) front c).2 = before at *
  obtain ⟨here, next⟩ := tellEach_cons_ok returned
  have copying := first.copying copying
  have same := (notifyWithin_kept depth busy stack l copying before.apart_nil
    List.not_mem_nil).wiring
  refine ⟨before, first, here, ?_⟩
  rw [next]
  refine tellEach_kept kept ?_ ((apart.of_wiring first.wiring).of_wiring same) notBack
  rw [copying_iff_wiring, same, ← copying_iff_wiring]
  exact copying

end Chain

end Tangible
