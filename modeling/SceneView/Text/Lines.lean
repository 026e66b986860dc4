/-!
# Line numbers

Elements and faults are reported by line. A line counter answers for any offset of a text the number
of the line it lies on, starting from the last answer instead of from the top.
-/

namespace SceneView.Text

def lineFeeds (bytes : List UInt8) : Nat :=
  bytes.count 10

/-- A text in bytes together with the offset last asked for and its line. -/
structure LineCounter where
  source : List UInt8
  offset : Nat
  line : Nat

namespace LineCounter

def ofBytes (source : List UInt8) : LineCounter :=
  { source, offset := 0, line := 1 }

/-- The line of an offset, counted from the last offset asked for, in either direction. Offsets past
the end lie on the last line. -/
def lineAt (counter : LineCounter) (offset : Nat) : Nat × LineCounter :=
  let offset := min offset counter.source.length
  let line :=
    if counter.offset ≤ offset then
      counter.line +
        lineFeeds ((counter.source.drop counter.offset).take (offset - counter.offset))
    else
      counter.line - lineFeeds ((counter.source.drop offset).take (counter.offset - offset))
  (line, { counter with offset, line })

end LineCounter

end SceneView.Text
