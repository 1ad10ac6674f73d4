/-!
# Kinds of messages

The kinds of the catalog and their addresses. Messages of every other address are generic and kept
as they are.
-/

namespace Tangible

inductive Kind where
  | pointer
  | token
  | bounds
  | symbol
  | pointer3
  | token3
  | bounds3
  | control
  | data
  | signal
  | raw
  | convexHull
  | outerContour
  | innerContour
  | skeleton2
  | skeleton3
  | skeletonVolume
  | area
  | container
  | linkStar
  | linkChain
  | linkTree
  | frame
  | alive
  | aliveAssociation
  | generic
deriving DecidableEq, Repr

namespace Kind

/-- The kinds with an address of their own. -/
def catalog : List Kind :=
  [.pointer, .token, .bounds, .symbol, .pointer3, .token3, .bounds3, .control, .data, .signal,
    .raw, .convexHull, .outerContour, .innerContour, .skeleton2, .skeleton3, .skeletonVolume,
    .area, .container, .linkStar, .linkChain, .linkTree, .frame, .alive, .aliveAssociation]

def name : Kind → String
  | .pointer => "Pointer"
  | .token => "Token"
  | .bounds => "Bounds"
  | .symbol => "Symbol"
  | .pointer3 => "Pointer3d"
  | .token3 => "Token3d"
  | .bounds3 => "Bounds3d"
  | .control => "Control"
  | .data => "Data"
  | .signal => "Signal"
  | .raw => "Raw"
  | .convexHull => "ConvexHull"
  | .outerContour => "OuterContour"
  | .innerContour => "InnerContour"
  | .skeleton2 => "Skeleton"
  | .skeleton3 => "Skeleton3d"
  | .skeletonVolume => "SkeletonVolume"
  | .area => "Area"
  | .container => "ContainerAssociation"
  | .linkStar => "LinkAssociation"
  | .linkChain => "LinkedListAssociation"
  | .linkTree => "LinkedTreeAssociation"
  | .frame => "Frame"
  | .alive => "Alive"
  | .aliveAssociation => "AliveAssociation"
  | .generic => "Generic"

def address? : Kind → Option String
  | .pointer => some "/tuio2/ptr"
  | .token => some "/tuio2/tok"
  | .bounds => some "/tuio2/bnd"
  | .symbol => some "/tuio2/sym"
  | .pointer3 => some "/tuio2/p3d"
  | .token3 => some "/tuio2/t3d"
  | .bounds3 => some "/tuio2/b3d"
  | .control => some "/tuio2/ctl"
  | .data => some "/tuio2/dat"
  | .signal => some "/tuio2/sig"
  | .raw => some "/tuio2/raw"
  | .convexHull => some "/tuio2/chg"
  | .outerContour => some "/tuio2/ocg"
  | .innerContour => some "/tuio2/icg"
  | .skeleton2 => some "/tuio2/skg"
  | .skeleton3 => some "/tuio2/s3d"
  | .skeletonVolume => some "/tuio2/svg"
  | .area => some "/tuio2/arg"
  | .container => some "/tuio2/coa"
  | .linkStar => some "/tuio2/lia"
  | .linkChain => some "/tuio2/lla"
  | .linkTree => some "/tuio2/lta"
  | .frame => some "/tuio2/frm"
  | .alive => some "/tuio2/alv"
  | .aliveAssociation => some "/tuio2/ala"
  | .generic => none

end Kind

end Tangible
