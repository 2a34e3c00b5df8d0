import Libjadx.Spec.SearchMatches

/-!
# Lines and columns

What the points of `SourceCoordinates` are to be: a line terminator is a line feed, a carriage
return, or the two in that order, counted once. An offset is a natural number here; the code refuses
a negative one like one behind the end.
-/

namespace Libjadx

/-- `source.substring(start, end)`. -/
def substring (source : JString) (start stop : ℕ) : JString := (source.take stop).drop start

namespace SourceCoordinates

variable (source : JString)

/-- `point`, with its check. -/
def checkedPoint (offset : ℕ) : Except Throwable Point :=
  if isBoundary source offset then .ok (point source offset)
  else .error (.illegalArgument "Invalid UTF-16 source boundary")

/-- `range`, with its check. -/
def checkedRange (start stop : ℕ) (sourceSnapshotId : JString) : Except Throwable SourceRange :=
  if stop < start || !isBoundary source start || !isBoundary source stop then
    .error (.illegalArgument "Invalid half-open source range")
  else .ok (range source start stop sourceSnapshotId)

/-- A line terminator ends here: a line feed, or a carriage return that none follows. -/
def terminatorEnd (e : ℕ) : Bool :=
  decide (0 < e) && (source[e - 1]? == some 10 || source[e - 1]? == some 13 && source[e]? != some 10)

/-- One more than the terminators that end at or before the offset. -/
def lineOf (offset : ℕ) : ℕ := (List.range' 1 offset).countP (terminatorEnd source) + 1

/-- Where the line of the offset starts: where the last terminator ends, if there is one. -/
def startOf (offset : ℕ) : ℕ := Nat.findGreatest (fun e => terminatorEnd source e = true) offset

/-- The code points from there to the offset; a lone surrogate is one. -/
def columnOf (offset : ℕ) : ℕ := codePointCount source (startOf source offset) offset

end SourceCoordinates

end Libjadx
