import HazardReach.Sphere.Box

/-!
Frames of longitudes, cut open at one meridian.

Sites are indexed in a frame of one full turn, and a box is asked for in the same frame: unwrapped,
so that its west edge is not above its east edge, and cut in two where it passes the east end of
the frame.
-/
namespace HazardReach

inductive Frame where
  /-- From -180 to 180, cut at the date line. -/
  | signed
  /-- From 0 to 360, cut at the zero meridian. -/
  | positive
  deriving DecidableEq, Repr

namespace Frame

variable {α : Type} [Scalar α]

def west : Frame → α
  | signed => -180
  | positive => 0

def east : Frame → α
  | signed => 180
  | positive => 360

/-- Edges of a box in the frame, the east one past the end of the frame if need be. A box that does
not wrap spans its longitudes however wide it is; one of a full turn or more is the whole frame. -/
def unwrap (frame : Frame) (b : Box α) : α × α :=
  if !b.wraps && decide (360 ≤ b.east - b.west) then (frame.west, frame.east)
  else match frame with
    | signed => (b.west, if b.wraps then b.east + 360 else b.east)
    | positive =>
      let west := Longitude.positive b.west
      let east := Longitude.positive b.east
      (west, if east < west then east + 360 else east)

def place (frame : Frame) (b : Box α) : Box α :=
  let (west, east) := frame.unwrap b
  { b with west, east }

/-- The rectangles inside the frame that make up an unwrapped box. -/
def split (frame : Frame) (b : Box α) : List (Box α) :=
  if b.east ≤ frame.east then [b]
  else [{ b with east := frame.east }, { b with west := frame.east - 360, east := b.east - 360 }]

end Frame

end HazardReach
