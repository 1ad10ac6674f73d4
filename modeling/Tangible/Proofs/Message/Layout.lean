import Mathlib.Data.List.OfFn
import Tangible.Proofs.Message.RoundTrip

/-!
# Layouts

The layout of a flat kind says which rows of type tags its arguments may have: one of some words,
or a head and any number of items behind it. The reader of the kind accepts exactly the arguments
whose tags have the layout, the writer gives these arguments back, and what it writes is read as it
was (`Kind.reads_exactly`). Only a frame that describes a blank source is written in another way,
without the description (`Frame.shortened`).

Inner contours and the kinds that carry graphs have no layout here. What the tags say of them is
not enough: one empty contour is written like none, and the rows of a graph have to grow a tree.
-/

namespace Tangible

open Osc (Arg tags)

inductive Layout where
  | oneOf (words : List String)
  | run (head item : String)

def Layout.Admits : Layout → String → Prop
  | oneOf words, row => row ∈ words
  | run head item, row => ∃ count, row = head ++ String.join (List.replicate count item)

def floatTags (count : Nat) : String := String.join (List.replicate count "f")

/-- The layouts of the flat kinds. -/
def Kind.layout? : Kind → Option Layout
  | .frame => some (.oneOf ["it", "itsiii"])
  | .alive | .aliveAssociation => some (.run "" "i")
  | .pointer => some (.oneOf ["iii" ++ floatTags 6, "iii" ++ floatTags 11])
  | .token => some (.oneOf ["iii" ++ floatTags 3, "iii" ++ floatTags 8])
  | .bounds => some (.oneOf ["i" ++ floatTags 6, "i" ++ floatTags 11])
  | .symbol => some (.oneOf ["iiiss"])
  | .pointer3 | .token3 => some (.oneOf ["iii" ++ floatTags 7, "iii" ++ floatTags 13])
  | .bounds3 => some (.oneOf ["i" ++ floatTags 11, "i" ++ floatTags 17])
  | .control | .skeletonVolume => some (.run "i" "f")
  | .data => some (.oneOf ["iss", "isb"])
  | .signal | .container => some (.run "ii" "i")
  | .raw => some (.oneOf ["ifb"])
  | .convexHull | .outerContour => some (.run "i" "ff")
  | .area => some (.run "i" "fff")
  | .innerContour | .skeleton2 | .skeleton3 | .linkStar | .linkChain | .linkTree | .generic => none

example : (Kind.catalog.filter (·.layout?.isSome)).length = 19 := by decide

/-! ## Words of tags -/

section Words

variable {α β : Type} {word word' : String} {write : α → List Arg} {write' : β → List Arg}

/-- The rows of arguments with the tags of a word are those that `write` makes. -/
def Spells (word : String) (write : α → List Arg) : Prop :=
  ∀ args, tags args = word ↔ ∃ a, write a = args

theorem tags_append (args args' : List Arg) : tags (args ++ args') = tags args ++ tags args' := by
  rw [tags, tags, tags, List.map_append, String.ofList_append]

theorem tags_eq_iff {args : List Arg} : tags args = word ↔ args.map Arg.tag = word.toList := by
  rw [tags, String.ofList_eq]

theorem tags_eq_empty_iff {args : List Arg} : tags args = "" ↔ args = [] := by
  rw [tags_eq_iff]
  exact List.map_eq_nil_iff

theorem spells_one {make : α → Arg} {tag : Char} (tag_make : ∀ a, (make a).tag = tag)
    (told : ∀ arg : Arg, arg.tag = tag → ∃ a, make a = arg) :
    Spells (String.ofList [tag]) fun a => [make a] := by
  intro args
  rw [tags_eq_iff, String.toList_ofList, List.map_eq_singleton_iff]
  constructor
  · rintro ⟨arg, rfl, same⟩
    obtain ⟨a, rfl⟩ := told arg same
    exact ⟨a, rfl⟩
  · rintro ⟨a, rfl⟩
    exact ⟨make a, rfl, tag_make a⟩

theorem Spells.append (first : Spells word write) (second : Spells word' write') :
    Spells (word ++ word') fun p : α × β => write p.1 ++ write' p.2 := by
  intro args
  constructor
  · intro row
    rw [tags_eq_iff, String.toList_append, List.map_eq_append_iff] at row
    obtain ⟨before, behind, rfl, row, row'⟩ := row
    obtain ⟨a, rfl⟩ := (first before).mp (tags_eq_iff.mpr row)
    obtain ⟨b, rfl⟩ := (second behind).mp (tags_eq_iff.mpr row')
    exact ⟨(a, b), rfl⟩
  · rintro ⟨⟨a, b⟩, rfl⟩
    rw [tags_append, (first _).mpr ⟨a, rfl⟩, (second _).mpr ⟨b, rfl⟩]

theorem Spells.replicate (spells : Spells word write) (count : Nat) :
    Spells (String.join (List.replicate count word)) fun v : Fin count → α =>
      (List.ofFn v).flatMap write := by
  induction count with
  | zero =>
    intro args
    constructor
    · intro row
      exact ⟨Fin.elim0, (tags_eq_empty_iff.mp row).symm⟩
    · rintro ⟨v, rfl⟩
      rfl
  | succ count ih =>
    intro args
    rw [List.replicate_succ, String.join_cons, spells.append ih args]
    constructor
    · rintro ⟨⟨a, v⟩, rfl⟩
      refine ⟨Fin.cons a v, ?_⟩
      show (List.ofFn (Fin.cons a v : Fin (count + 1) → α)).flatMap write = _
      rw [List.ofFn_cons, List.flatMap_cons]
    · rintro ⟨v, rfl⟩
      refine ⟨(v 0, Fin.tail v), ?_⟩
      show _ = (List.ofFn v).flatMap write
      rw [List.ofFn_succ, List.flatMap_cons]
      rfl

theorem Spells.run (first : Spells word write) (item : Spells word' write')
    (args : List Arg) : (Layout.run word word').Admits (tags args) ↔
      ∃ a, ∃ l : List β, write a ++ l.flatMap write' = args := by
  constructor
  · rintro ⟨count, row⟩
    obtain ⟨⟨a, v⟩, rfl⟩ := (first.append (item.replicate count) args).mp row
    exact ⟨a, List.ofFn v, rfl⟩
  · rintro ⟨a, l, rfl⟩
    refine ⟨l.length, (first.append (item.replicate l.length) _).mpr ⟨(a, l.get), ?_⟩⟩
    show write a ++ (List.ofFn l.get).flatMap write' = _
    rw [List.ofFn_get]

/-- The tags that the layouts use tell the types of the arguments. -/
theorem told_by_tag (arg : Arg) :
    (arg.tag = 'i' → ∃ id, .ofId id = arg) ∧ (arg.tag = 'f' → ∃ x, .float x = arg) ∧
      (arg.tag = 's' → ∃ text, .string text = arg) ∧ (arg.tag = 'b' → ∃ bytes, .blob bytes = arg) ∧
      (arg.tag = 't' → ∃ time, .time time = arg) := by
  cases arg with
  | int value => simpa [Arg.tag] using ⟨value.toUInt32, Arg.ofId_toUInt32 value⟩
  | bool value => cases value <;> simp [Arg.tag]
  | _ => simp [Arg.tag]

theorem spells_int : Spells "i" fun id => [Arg.ofId id] :=
  spells_one (fun _ => rfl) fun arg => (told_by_tag arg).1

theorem spells_float : Spells "f" fun x => [Arg.float x] :=
  spells_one (fun _ => rfl) fun arg => (told_by_tag arg).2.1

theorem spells_string : Spells "s" fun text => [Arg.string text] :=
  spells_one (fun _ => rfl) fun arg => (told_by_tag arg).2.2.1

theorem spells_blob : Spells "b" fun bytes => [Arg.blob bytes] :=
  spells_one (fun _ => rfl) fun arg => (told_by_tag arg).2.2.2.1

theorem spells_time : Spells "t" fun time => [Arg.time time] :=
  spells_one (fun _ => rfl) fun arg => (told_by_tag arg).2.2.2.2

end Words

/-! ## Kinds -/

section Kinds

variable {α β : Type} {read? : List Arg → Option α} {write : α → List Arg} {args : List Arg}

/-- A reader accepts exactly the rows of a layout if it accepts all of them and what it accepts is
written again with the layout. -/
theorem isSome_iff_admits {layout : Layout} (sound : ∀ a, read? args = some a → write a = args)
    (shown : ∀ a, layout.Admits (tags (write a)))
    (accepts : layout.Admits (tags args) → (read? args).isSome) :
    (read? args).isSome ↔ layout.Admits (tags args) := by
  refine ⟨fun read => ?_, accepts⟩
  obtain ⟨a, read⟩ := Option.isSome_iff_exists.mp read
  exact sound a read ▸ shown a

theorem toList_join_replicate (tag : Char) (count : Nat) :
    (String.join (List.replicate count (String.ofList [tag]))).toList =
      List.replicate count tag := by
  rw [String.toList_join, List.flatMap_replicate, String.toList_ofList,
    List.flatten_replicate_singleton]

/-- Components have identifiers and floats, with or without those of their motion. -/
theorem isSome_iff_rows (ints : Nat) {head : String} {few many : Nat}
    (ids : head = String.join (List.replicate ints "i"))
    (sound : ∀ a, read? args = some a → write a = args)
    (shown : ∀ a, ∃ count, (count = few ∨ count = many) ∧
      (write a).map Arg.tag = List.replicate ints 'i' ++ List.replicate count 'f')
    (accepts : ∀ (v : Fin ints → UInt32) (count : Nat) (w : Fin count → Single),
      count = few ∨ count = many →
        (read? ((List.ofFn v).flatMap ([.ofId ·]) ++ (List.ofFn w).flatMap ([.float ·]))).isSome) :
    (read? args).isSome ↔
      (Layout.oneOf [head ++ floatTags few, head ++ floatTags many]).Admits (tags args) := by
  subst ids
  have spelled (count : Nat) := (spells_int.replicate ints).append (spells_float.replicate count)
  refine isSome_iff_admits sound (fun a => List.mem_pair.mpr ?_) fun row => ?_
  · obtain ⟨count, number, row⟩ := shown a
    have word : tags (write a) = String.join (List.replicate ints "i") ++ floatTags count := by
      rw [tags_eq_iff, row, String.toList_append, floatTags]
      exact congrArg₂ _ (toList_join_replicate 'i' ints).symm
        (toList_join_replicate 'f' count).symm
    rcases number with rfl | rfl
    · exact .inl word
    · exact .inr word
  · rcases List.mem_pair.mp row with row | row
    · obtain ⟨⟨v, w⟩, rfl⟩ := (spelled few args).mp row
      exact accepts v few w (.inl rfl)
    · obtain ⟨⟨v, w⟩, rfl⟩ := (spelled many args).mp row
      exact accepts v many w (.inr rfl)

theorem Pointer.isSome_iff : (Pointer.ofArgs? args).isSome ↔
    (Layout.oneOf ["iii" ++ floatTags 6, "iii" ++ floatTags 11]).Admits (tags args) := by
  refine isSome_iff_rows 3 rfl (fun _ => args_of_ofArgs?) (fun p => ?_) ?_
  · rcases p with ⟨_, _, _, _, _, _, _ | motion⟩
    · exact ⟨6, .inl rfl, rfl⟩
    · exact ⟨11, .inr rfl, rfl⟩
  · rintro v _ w (rfl | rfl) <;> rfl

theorem Token.isSome_iff : (Token.ofArgs? args).isSome ↔
    (Layout.oneOf ["iii" ++ floatTags 3, "iii" ++ floatTags 8]).Admits (tags args) := by
  refine isSome_iff_rows 3 rfl (fun _ => args_of_ofArgs?) (fun t => ?_) ?_
  · rcases t with ⟨_, _, _, _ | motion⟩
    · exact ⟨3, .inl rfl, rfl⟩
    · exact ⟨8, .inr rfl, rfl⟩
  · rintro v _ w (rfl | rfl) <;> rfl

theorem Bounds.isSome_iff : (Bounds.ofArgs? args).isSome ↔
    (Layout.oneOf ["i" ++ floatTags 6, "i" ++ floatTags 11]).Admits (tags args) := by
  refine isSome_iff_rows 1 rfl (fun _ => args_of_ofArgs?) (fun b => ?_) ?_
  · rcases b with ⟨_, _, _, _, _, _, _ | motion⟩
    · exact ⟨6, .inl rfl, rfl⟩
    · exact ⟨11, .inr rfl, rfl⟩
  · rintro v _ w (rfl | rfl) <;> rfl

theorem Pointer3.isSome_iff : (Pointer3.ofArgs? args).isSome ↔
    (Layout.oneOf ["iii" ++ floatTags 7, "iii" ++ floatTags 13]).Admits (tags args) := by
  refine isSome_iff_rows 3 rfl (fun _ => args_of_ofArgs?) (fun p => ?_) ?_
  · rcases p with ⟨_, _, _, _, _ | motion⟩
    · exact ⟨7, .inl rfl, rfl⟩
    · exact ⟨13, .inr rfl, rfl⟩
  · rintro v _ w (rfl | rfl) <;> rfl

theorem Token3.isSome_iff : (Token3.ofArgs? args).isSome ↔
    (Layout.oneOf ["iii" ++ floatTags 7, "iii" ++ floatTags 13]).Admits (tags args) := by
  refine isSome_iff_rows 3 rfl (fun _ => args_of_ofArgs?) (fun t => ?_) ?_
  · rcases t with ⟨_, _, _, _, _ | motion⟩
    · exact ⟨7, .inl rfl, rfl⟩
    · exact ⟨13, .inr rfl, rfl⟩
  · rintro v _ w (rfl | rfl) <;> rfl

theorem Bounds3.isSome_iff : (Bounds3.ofArgs? args).isSome ↔
    (Layout.oneOf ["i" ++ floatTags 11, "i" ++ floatTags 17]).Admits (tags args) := by
  refine isSome_iff_rows 1 rfl (fun _ => args_of_ofArgs?) (fun b => ?_) ?_
  · rcases b with ⟨_, _, _, _, _, _, _, _, _ | motion⟩
    · exact ⟨11, .inl rfl, rfl⟩
    · exact ⟨17, .inr rfl, rfl⟩
  · rintro v _ w (rfl | rfl) <;> rfl

/-! The other fixed rows. -/

theorem Symbol.isSome_iff :
    (Symbol.ofArgs? args).isSome ↔ (Layout.oneOf ["iiiss"]).Admits (tags args) := by
  have word : Spells "iiiss" _ := (spells_int.replicate 3).append (spells_string.replicate 2)
  refine isSome_iff_admits (fun _ => args_of_ofArgs?) (fun s => ?_) fun row => ?_
  · exact List.mem_singleton.mpr rfl
  · obtain ⟨⟨v, w⟩, rfl⟩ := (word args).mp (List.mem_singleton.mp row)
    rfl

theorem Data.isSome_iff :
    (Data.ofArgs? args).isSome ↔ (Layout.oneOf ["iss", "isb"]).Admits (tags args) := by
  have plain : Spells "iss" _ := spells_int.append (spells_string.append spells_string)
  have binary : Spells "isb" _ := spells_int.append (spells_string.append spells_blob)
  refine isSome_iff_admits (fun _ => args_of_ofArgs?) (fun d => ?_) fun row => ?_
  · rcases d with ⟨_, _, text | bytes⟩
    · exact List.mem_pair.mpr (.inl rfl)
    · exact List.mem_pair.mpr (.inr rfl)
  · rcases List.mem_pair.mp row with row | row
    · obtain ⟨⟨session, mime, text⟩, rfl⟩ := (plain args).mp row
      rfl
    · obtain ⟨⟨session, mime, bytes⟩, rfl⟩ := (binary args).mp row
      rfl

theorem RawSamples.isSome_iff :
    (RawSamples.ofArgs? args).isSome ↔ (Layout.oneOf ["ifb"]).Admits (tags args) := by
  have word : Spells "ifb" _ := spells_int.append (spells_float.append spells_blob)
  refine isSome_iff_admits (fun _ => args_of_ofArgs?) (fun r => ?_) fun row => ?_
  · exact List.mem_singleton.mpr rfl
  · obtain ⟨⟨session, spacing, samples⟩, rfl⟩ := (word args).mp (List.mem_singleton.mp row)
    rfl

/-- A frame may be written in another way than it was read, but with one of its two rows. -/
theorem Frame.isSome_iff :
    (Frame.ofArgs? args).isSome ↔ (Layout.oneOf ["it", "itsiii"]).Admits (tags args) := by
  have short : Spells "it" _ := spells_int.append spells_time
  have long : Spells "itsiii" _ := short.append (spells_string.append (spells_int.replicate 3))
  constructor
  · intro read
    unfold ofArgs? at read
    split at read
    · exact List.mem_pair.mpr (.inl rfl)
    · exact List.mem_pair.mpr (.inr rfl)
    · simp at read
  · intro row
    rcases List.mem_pair.mp row with row | row
    · obtain ⟨⟨id, time⟩, rfl⟩ := (short args).mp row
      rfl
    · obtain ⟨⟨⟨id, time⟩, application, v⟩, rfl⟩ := (long args).mp row
      rfl

/-! Runs of items behind identifiers. -/

/-- Messages made of identifiers and a list of items. -/
theorem isSome_iff_run (ints : Nat) (make : (Fin ints → UInt32) → List β → α)
    {head item : String} {one : β → List Arg} (ids : head = String.join (List.replicate ints "i"))
    (items : Spells item one) (sound : ∀ a, read? args = some a → write a = args)
    (read?_write : ∀ a, read? (write a) = some a) (made : ∀ a, ∃ v l, make v l = a)
    (written : ∀ v l, write (make v l) = (List.ofFn v).flatMap ([.ofId ·]) ++ l.flatMap one) :
    (read? args).isSome ↔ (Layout.run head item).Admits (tags args) := by
  subst ids
  have admits := (spells_int.replicate ints).run items
  refine isSome_iff_admits sound (fun a => ?_) fun row => ?_
  · obtain ⟨v, l, rfl⟩ := made a
    exact (admits _).mpr ⟨v, l, (written v l).symm⟩
  · obtain ⟨v, l, rfl⟩ := (admits args).mp row
    rw [← written, read?_write]
    rfl

theorem ids?_isSome_iff : (Run.ids? args).isSome ↔ (Layout.run "" "i").Admits (tags args) := by
  refine isSome_iff_run 0 (fun _ ids => ids) rfl spells_int
    (fun _ => Run.ofIds_of_ids?) Run.ids?_ofIds (fun ids => ?_) fun _ _ => ?_
  · exact ⟨Fin.elim0, ids, rfl⟩
  · exact List.map_eq_flatMap

theorem Control.isSome_iff :
    (Control.ofArgs? args).isSome ↔ (Layout.run "i" "f").Admits (tags args) := by
  refine isSome_iff_run 1 (fun v values => ⟨v 0, values⟩) rfl spells_float
    (fun _ => args_of_ofArgs?) ofArgs?_args (fun c => ?_) fun v _ => ?_
  · exact ⟨fun _ => c.sessionId, c.values, rfl⟩
  · exact congrArg (Arg.ofId (v 0) :: ·) List.map_eq_flatMap

theorem Radii.isSome_iff :
    (Radii.ofArgs? args).isSome ↔ (Layout.run "i" "f").Admits (tags args) := by
  refine isSome_iff_run 1 (fun v radii => ⟨v 0, radii⟩) rfl spells_float
    (fun _ => args_of_ofArgs?) ofArgs?_args (fun r => ?_) fun v _ => ?_
  · exact ⟨fun _ => r.sessionId, r.radii, rfl⟩
  · exact congrArg (Arg.ofId (v 0) :: ·) List.map_eq_flatMap

theorem spells_point : Spells "ff" Run.ofPoint2 := by
  have pair : Spells "ff" _ := spells_float.append spells_float
  intro args
  rw [pair args]
  constructor
  · rintro ⟨⟨x, y⟩, rfl⟩
    exact ⟨⟨x, y⟩, rfl⟩
  · rintro ⟨⟨x, y⟩, rfl⟩
    exact ⟨(x, y), rfl⟩

theorem Outline.isSome_iff :
    (Outline.ofArgs? args).isSome ↔ (Layout.run "i" "ff").Admits (tags args) := by
  refine isSome_iff_run 1 (fun v points => ⟨v 0, points⟩) rfl spells_point
    (fun _ => args_of_ofArgs?) ofArgs?_args (fun o => ?_) fun _ _ => rfl
  exact ⟨fun _ => o.sessionId, o.points, rfl⟩

theorem spells_span :
    Spells "fff" fun s : Span => [Arg.float s.x, Arg.float s.y, Arg.float s.width] := by
  have triple : Spells "fff" _ := spells_float.append (spells_float.append spells_float)
  intro args
  rw [triple args]
  constructor
  · rintro ⟨⟨x, y, width⟩, rfl⟩
    exact ⟨⟨x, y, width⟩, rfl⟩
  · rintro ⟨⟨x, y, width⟩, rfl⟩
    exact ⟨(x, y, width), rfl⟩

theorem Area.isSome_iff :
    (Area.ofArgs? args).isSome ↔ (Layout.run "i" "fff").Admits (tags args) := by
  refine isSome_iff_run 1 (fun v spans => ⟨v 0, spans⟩) rfl spells_span
    (fun _ => args_of_ofArgs?) ofArgs?_args (fun a => ?_) fun _ _ => rfl
  exact ⟨fun _ => a.sessionId, a.spans, rfl⟩

theorem Signal.isSome_iff :
    (Signal.ofArgs? args).isSome ↔ (Layout.run "ii" "i").Admits (tags args) := by
  refine isSome_iff_run 2 (fun v targets => ⟨v 0, v 1, targets⟩) rfl spells_int
    (fun _ => args_of_ofArgs?) ofArgs?_args (fun s => ?_) fun v _ => ?_
  · exact ⟨Fin.cons s.sessionId fun _ => s.componentId, s.targets, rfl⟩
  · exact congrArg ([Arg.ofId (v 0), Arg.ofId (v 1)] ++ ·) List.map_eq_flatMap

theorem Container.isSome_iff :
    (Container.ofArgs? args).isSome ↔ (Layout.run "ii" "i").Admits (tags args) := by
  refine isSome_iff_run 2 (fun v contained => ⟨v 0, v 1, contained⟩) rfl
    spells_int (fun _ => args_of_ofArgs?) ofArgs?_args (fun c => ?_) fun v _ => ?_
  · exact ⟨Fin.cons c.sessionId fun _ => c.slot, c.contained, rfl⟩
  · exact congrArg ([Arg.ofId (v 0), Arg.ofId (v 1)] ++ ·) List.map_eq_flatMap

end Kinds

/-! ## All flat kinds -/

namespace Kind

variable {kind : Kind} {layout : Layout} {args : List Arg}

theorem isSome_map_iff {α : Type} {f : α → Message} {x : Option α} {p : Prop}
    (accepted : x.isSome ↔ p) : (x.map f).isSome ↔ p := by
  rwa [Option.isSome_map]

theorem read?_isSome_iff : ∀ {kind : Kind}, kind.layout? = some layout →
    ((kind.read? args).isSome ↔ layout.Admits (tags args))
  | .pointer, rfl => isSome_map_iff Pointer.isSome_iff
  | .token, rfl => isSome_map_iff Token.isSome_iff
  | .bounds, rfl => isSome_map_iff Bounds.isSome_iff
  | .symbol, rfl => isSome_map_iff Symbol.isSome_iff
  | .pointer3, rfl => isSome_map_iff Pointer3.isSome_iff
  | .token3, rfl => isSome_map_iff Token3.isSome_iff
  | .bounds3, rfl => isSome_map_iff Bounds3.isSome_iff
  | .control, rfl => isSome_map_iff Control.isSome_iff
  | .data, rfl => isSome_map_iff Data.isSome_iff
  | .signal, rfl => isSome_map_iff Signal.isSome_iff
  | .raw, rfl => isSome_map_iff RawSamples.isSome_iff
  | .convexHull, rfl => isSome_map_iff Outline.isSome_iff
  | .outerContour, rfl => isSome_map_iff Outline.isSome_iff
  | .skeletonVolume, rfl => isSome_map_iff Radii.isSome_iff
  | .area, rfl => isSome_map_iff Area.isSome_iff
  | .container, rfl => isSome_map_iff Container.isSome_iff
  | .frame, rfl => isSome_map_iff Frame.isSome_iff
  | .alive, rfl => isSome_map_iff ids?_isSome_iff
  | .aliveAssociation, rfl => isSome_map_iff ids?_isSome_iff

theorem read?_args_of_flat {m : Message} (flat : m.kind.layout? = some layout) :
    m.kind.read? m.args = some m := by
  cases m with
  | innerContour | skeleton2 | skeleton3 | linkStar | linkChain | linkTree | generic =>
    simp [Message.kind, layout?] at flat
  | _ => simp [Message.kind, Message.args, read?]

/-- What the writer makes of arguments that were read. -/
def rewritten : Kind → List Arg → List Arg
  | .frame, args => Frame.shortened args
  | _, args => args

theorem args_of_map {α : Type} {f : α → Message} {x : Option α} {m : Message}
    (read : x.map f = some m) (sound : ∀ a, x = some a → (f a).args = args) : m.args = args := by
  obtain ⟨a, found, rfl⟩ := Option.map_eq_some_iff.mp read
  exact sound a found

theorem args_of_read? {m : Message} : ∀ {kind : Kind}, kind.layout? = some layout →
    kind.read? args = some m → m.args = kind.rewritten args
  | .pointer, rfl, read => args_of_map read fun _ => Pointer.args_of_ofArgs?
  | .token, rfl, read => args_of_map read fun _ => Token.args_of_ofArgs?
  | .bounds, rfl, read => args_of_map read fun _ => Bounds.args_of_ofArgs?
  | .symbol, rfl, read => args_of_map read fun _ => Symbol.args_of_ofArgs?
  | .pointer3, rfl, read => args_of_map read fun _ => Pointer3.args_of_ofArgs?
  | .token3, rfl, read => args_of_map read fun _ => Token3.args_of_ofArgs?
  | .bounds3, rfl, read => args_of_map read fun _ => Bounds3.args_of_ofArgs?
  | .control, rfl, read => args_of_map read fun _ => Control.args_of_ofArgs?
  | .data, rfl, read => args_of_map read fun _ => Data.args_of_ofArgs?
  | .signal, rfl, read => args_of_map read fun _ => Signal.args_of_ofArgs?
  | .raw, rfl, read => args_of_map read fun _ => RawSamples.args_of_ofArgs?
  | .convexHull, rfl, read => args_of_map read fun _ => Outline.args_of_ofArgs?
  | .outerContour, rfl, read => args_of_map read fun _ => Outline.args_of_ofArgs?
  | .skeletonVolume, rfl, read => args_of_map read fun _ => Radii.args_of_ofArgs?
  | .area, rfl, read => args_of_map read fun _ => Area.args_of_ofArgs?
  | .container, rfl, read => args_of_map read fun _ => Container.args_of_ofArgs?
  | .frame, rfl, read => args_of_map read fun _ => Frame.args_of_ofArgs?
  | .alive, rfl, read => args_of_map read fun _ => Run.ofIds_of_ids?
  | .aliveAssociation, rfl, read => args_of_map read fun _ => Run.ofIds_of_ids?

/-- Writing and reading a flat kind undo each other, and every row of arguments that has the layout
is read. -/
theorem reads_exactly (flat : kind.layout? = some layout) :
    (∀ m : Message, m.kind = kind → kind.read? m.args = some m) ∧
      ∀ args, ((kind.read? args).isSome ↔ layout.Admits (tags args)) ∧
        ∀ m, kind.read? args = some m → m.kind = kind ∧ m.args = kind.rewritten args := by
  refine ⟨?_, fun args => ⟨read?_isSome_iff flat, fun m read => ?_⟩⟩
  · rintro m rfl
    exact read?_args_of_flat flat
  · exact ⟨Message.kind_of_read? read, args_of_read? flat read⟩

/-- A frame whose source is blank. -/
theorem reads_exactly_blank_frame :
    layout? .frame = some (.oneOf ["it", "itsiii"]) ∧
      (read? .frame [.int 7, .time ⟨1, 2⟩, .string "", .int 0, .int 0, .int 0]).isSome ∧
      ∀ m, read? .frame [.int 7, .time ⟨1, 2⟩, .string "", .int 0, .int 0, .int 0] = some m →
        m.args = [.int 7, .time ⟨1, 2⟩] := by
  have flat : layout? .frame = some (.oneOf ["it", "itsiii"]) := rfl
  obtain ⟨accepted, again⟩ :=
    (reads_exactly flat).2 [.int 7, .time ⟨1, 2⟩, .string "", .int 0, .int 0, .int 0]
  refine ⟨flat, accepted.mpr ?_, fun m read => (again m read).2.trans rfl⟩
  exact List.mem_pair.mpr (.inr rfl)

end Kind

end Tangible
