import Tangible.Message.Run

/-!
# Outlines

The shape of a session: a polygon, which serves as convex hull and as outer contour, the inner
contours of its holes, the covered area as spans, and the radii of the joints of a skeleton.
-/

namespace Tangible

open Osc (Arg)

/-! ## Polygons -/

structure Outline where
  sessionId : UInt32 := 0
  points : List Point2 := []
deriving BEq, DecidableEq

namespace Outline

def args (o : Outline) : List Arg :=
  .ofId o.sessionId :: Run.ofPoints o.points

def ofArgs? : List Arg → Option Outline
  | .int session :: rest => (Run.points? rest).map (⟨session.toUInt32, ·⟩)
  | _ => none

def text (o : Outline) : String :=
  s!"s_id={o.sessionId} " ++ pointsText o.points

end Outline

/-! ## Inner contours -/

structure InnerContours where
  sessionId : UInt32 := 0
  contours : List (List Point2) := []
deriving BEq, DecidableEq

namespace InnerContours

def args (i : InnerContours) : List Arg :=
  .ofId i.sessionId :: Run.ofContours i.contours

def ofArgs? : List Arg → Option InnerContours
  | .int session :: rest => (Run.contours? rest).map (⟨session.toUInt32, ·⟩)
  | _ => none

def text (i : InnerContours) : String :=
  s!"s_id={i.sessionId}" ++ String.join (i.contours.map fun contour => " " ++ pointsText contour)

end InnerContours

/-! ## Areas -/

structure Area where
  sessionId : UInt32 := 0
  spans : List Span := []
deriving BEq, DecidableEq

namespace Area

def args (a : Area) : List Arg :=
  .ofId a.sessionId :: Run.ofSpans a.spans

def ofArgs? : List Arg → Option Area
  | .int session :: rest => (Run.spans? rest).map (⟨session.toUInt32, ·⟩)
  | _ => none

def text (a : Area) : String :=
  s!"s_id={a.sessionId} spans[{a.spans.length}]"

end Area

/-! ## Radii of joints -/

structure Radii where
  sessionId : UInt32 := 0
  radii : List Single := []
deriving BEq, DecidableEq

namespace Radii

def args (r : Radii) : List Arg :=
  .ofId r.sessionId :: Run.ofFloats r.radii

def ofArgs? : List Arg → Option Radii
  | .int session :: rest => (Run.floats? rest).map (⟨session.toUInt32, ·⟩)
  | _ => none

def text (r : Radii) : String :=
  s!"s_id={r.sessionId} " ++ floatsText r.radii

end Radii

end Tangible
