import DocHarvest.Cause

/-!
# Writers

Where a stream of writes goes: what has been written so far, and how many more writes succeed.
-/

namespace DocHarvest

/-- A destination of writes: those that succeeded, the latest first. With a limit, that many more
writes succeed, and every later one fails for the given cause. -/
structure Writer where
  writes : List Bytes := []
  limit? : Option (Nat × Cause) := none
  deriving DecidableEq, Repr

namespace Writer

/-- The bytes written so far. -/
def written (writer : Writer) : Bytes :=
  writer.writes.reverse.flatten

/-- One write. -/
def write (text : Bytes) (writer : Writer) : Except Cause Unit × Writer :=
  match writer.limit? with
  | none => (.ok (), { writer with writes := text :: writer.writes })
  | some (0, cause) => (.error cause, writer)
  | some (n + 1, cause) =>
    (.ok (), { writes := text :: writer.writes, limit? := some (n, cause) })

end Writer

end DocHarvest
