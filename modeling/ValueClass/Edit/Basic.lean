import ValueClass.Text.Basic

/-! # Line edits

An edit replaces a range of lines by a text. Several edits are applied from
the bottom of the buffer up, so that the lines above keep their numbers.
-/

namespace ValueClass

/-- Replace the lines from `start` up to `stop`, which is not included, by the
    lines of `text`. Lines are counted from zero, negative ones from the end. -/
structure LineEdit where
  /-- The first line that gives way. -/
  start : Int
  /-- The first line that stays. -/
  stop : Int
  /-- What takes their place. -/
  text : Text
  deriving Repr, DecidableEq

namespace LineEdit

def isInsertion (e : LineEdit) : Bool :=
  e.start == e.stop

/-- The line that an index means among `count` lines: a negative index counts
    from the end, and an index outside is moved to the nearest end. -/
def clampIndex (count : Nat) (index : Int) : Nat :=
  if index < 0 then (index + count).toNat else min index.toNat count

/-- Apply one edit to some lines. A range that ends before it starts holds no
    line. -/
def applyTo (e : LineEdit) (lines : List Text) : List Text :=
  let first := clampIndex lines.length e.start
  let last := max first (clampIndex lines.length e.stop)
  lines.take first ++ e.text.lines ++ lines.drop last

/-- Whether an edit lies above another: it starts earlier, or at the same line
    and ends earlier. -/
def isAbove (a b : LineEdit) : Bool :=
  a.start < b.start || (a.start == b.start && a.stop < b.stop)

/-- Put an edit behind all edits of an ordered list that it does not lie
    below. -/
def insertOrdered (e : LineEdit) : List LineEdit → List LineEdit
  | [] => [e]
  | x :: rest => if x.isAbove e then e :: x :: rest else x :: insertOrdered e rest

/-- The edits from the bottom up; edits of the same range keep their order. -/
def bottomUp (edits : List LineEdit) : List LineEdit :=
  edits.foldl (fun ordered e => insertOrdered e ordered) []

def applyAll (edits : List LineEdit) (text : Text) : Text :=
  Text.unlines ((bottomUp edits).foldl (fun lines e => e.applyTo lines) text.lines)

end LineEdit

end ValueClass
