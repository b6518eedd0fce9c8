import Sharding.Cursor.Source

/-!
# Scripted sources

A world that consists of numbered sources whose behaviour is laid down in advance.  It remembers
which sources have been closed, and a source may answer every close with an error.
-/

namespace Sharding

/-- Which of the scripted sources are closed, and what closing them answers. -/
structure ScriptedSources where
  closed : List Bool
  failures : List (Option Error)

/-- Marks a source as closed.  A scripted failure comes every time. -/
def ScriptedSources.closer : Closer ScriptedSources := fun n w =>
  let w' := { w with closed := w.closed.set n true }
  match w.failures[n]?.join with
  | some e => (.error e, w')
  | none => (.ok (), w')

end Sharding
