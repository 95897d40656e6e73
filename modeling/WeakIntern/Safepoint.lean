/-!
# Safepoints

Maintenance never holds up a global pause. Whoever wants the world to stop requests a pause; a
maintenance context that comes to a pause point then arrives there and stays until the pause is
released.
-/

namespace WeakIntern

inductive PauseState where
  | none
  | requested
  | reached
  deriving DecidableEq, Repr, Inhabited

def PauseState.code : PauseState → Nat
  | .none => 0
  | .requested => 1
  | .reached => 2

/-- The state of a global pause. -/
structure Safepoint where
  state : PauseState := .none
  /-- Contexts that are held at a pause point. -/
  arrived : Nat := 0
  /-- How often a pause point has held a context. -/
  pausesTaken : Nat := 0
  deriving DecidableEq, Repr, Inhabited

namespace Safepoint

/-- Ask for a pause. -/
def request (p : Safepoint) : Safepoint := { p with state := .requested }

def isRequested (p : Safepoint) : Bool := p.state ≠ .none

/-- A context comes to a pause point: it is held there if a pause was asked for, and goes on
otherwise. -/
def enter (p : Safepoint) : Safepoint :=
  if p.isRequested then
    { state := .reached, arrived := p.arrived + 1, pausesTaken := p.pausesTaken + 1 }
  else p

/-- End the pause; every context that is held goes on. -/
def release (p : Safepoint) : Safepoint := { p with state := .none, arrived := 0 }

/-- A context passes a pause point. If it is held there, it goes on when the pause is ended. -/
def pass (p : Safepoint) : Safepoint := if p.isRequested then p.enter.release else p

theorem pass_of_not_requested {p : Safepoint} (h : p.isRequested = false) : p.pass = p := by
  rw [pass, h]
  rfl

theorem pass_of_requested {p : Safepoint} (h : p.isRequested = true) :
    p.pass = { state := .none, arrived := 0, pausesTaken := p.pausesTaken + 1 } := by
  rw [pass, if_pos h, enter, if_pos h]
  rfl

end Safepoint

end WeakIntern
