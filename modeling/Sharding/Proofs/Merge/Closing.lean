import Sharding.Execute.Group
import Sharding.Merge.Result

/-!
# What closing keeps

Closing a result set, a stream or a source does nothing to the world but close cursors.  So what
the closing of a cursor keeps is kept by all of them, and by draining a source as well.  In the same
way, what the closing of a statement keeps is kept by closing those of groups.
-/

namespace Sharding

variable {W : Type} {closer : Closer W} {P : W → Prop} {w : W}

/-- Closing a cursor or a statement keeps `P`, whatever it answers. -/
def Closer.Keeps (closer : Closer W) (P : W → Prop) : Prop :=
  ∀ n w, P w → P (closer n w).2

namespace Closer.Keeps

theorem source (hc : closer.Keeps P) (s : Source) (h : P w) : P (s.close closer w).2.2 := by
  unfold Source.close
  cases s.handle with
  | none => exact h
  | some n => exact hc n w h

theorem drain (hc : closer.Keeps P) (s : Source) (h : P w) : P (s.drain closer w).2 :=
  hc.source s.readAll.2 h

theorem closeAll (hc : closer.Keeps P) (sources : List Source) (h : P w) :
    P (Source.closeAll closer sources w).2.2 := by
  induction sources generalizing w with
  | nil => exact h
  | cons s sources ih => exact ih (hc.source s h)

theorem stream (hc : closer.Keeps P) (s : Stream) (h : P w) : P (s.close closer w).2.2 := by
  cases s with
  | single s => exact hc.source s h
  | concat c => exact hc.closeAll _ h
  | ordered o => exact hc.closeAll _ h

theorem resultSet (hc : closer.Keeps P) (r : ResultSet) (h : P w) :
    P (r.close closer w).2.2 := by
  unfold ResultSet.close
  split
  · exact h
  · exact hc.stream r.reader.stream h

theorem closeUnits {p : Provider W} (hc : p.close.Keeps P) (units : List PreparedUnit) (h : P w) :
    P (closeUnits p units w) := by
  induction units generalizing w with
  | nil => exact h
  | cons u units ih => exact ih (hc u.statement w h)

theorem closeGroups {p : Provider W} (hc : p.close.Keeps P) (groups : List ExecutionGroup)
    (h : P w) : P (closeGroups p groups w) := by
  induction groups generalizing w with
  | nil => exact h
  | cons g groups ih => exact ih (hc.closeUnits g.units h)

end Closer.Keeps

end Sharding
