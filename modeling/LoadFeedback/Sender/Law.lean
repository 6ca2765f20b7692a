/-!
The vocabulary of the senders: which law turns feedback into a window, what an acknowledgment did to
the window, and how far the hold-down after a decrease has come.
-/

namespace LoadFeedback

/-- The law by which a sender sets its window. -/
inductive ControlLaw where
  /-- Links publish one of three codes. Each acknowledgment increases the window multiplicatively
  or additively or decreases it, and a hold-down follows every decrease. -/
  | coded
  /-- Links publish the load factor. Each acknowledgment changes the window by one multiplicative
  and one additive term, and there is no hold-down. -/
  | raw
  deriving DecidableEq, Repr

namespace ControlLaw

def name : ControlLaw → String
  | .coded => "Coded"
  | .raw => "Raw"

/-- The law of a name, in capital or small letters of the basic alphabet. -/
def ofName? (name : String) : Option ControlLaw :=
  let letters := name.toList.map Char.toLower
  if letters = "coded".toList then some .coded
  else if letters = "raw".toList then some .raw
  else none

end ControlLaw

/-- What the latest acknowledgment did to the window. -/
inductive Action where
  | increase
  | add
  | decrease
  /-- Nothing, for the window is frozen. -/
  | freeze
  deriving DecidableEq, Repr

def Action.name : Action → String
  | .increase => "MI"
  | .add => "AI"
  | .decrease => "MD"
  | .freeze => "FRZ"

/-- The hold-down that follows a decrease of the window. -/
inductive HoldDownPhase where
  | none
  /-- The window is frozen until the links have measured it. -/
  | first
  /-- The window only grows additively, for about one round trip. -/
  | second
  deriving DecidableEq, Repr

def HoldDownPhase.name : HoldDownPhase → String
  | .none => "None"
  | .first => "First"
  | .second => "Second"

/-- What a sender counts about its window. -/
structure Tally where
  /-- Acknowledgments that were turned into an action. -/
  acks : Nat := 0
  increases : Nat := 0
  additions : Nat := 0
  decreases : Nat := 0
  /-- Acknowledgments met by a frozen window. -/
  freezes : Nat := 0
  cuts : Nat := 0
  holdDownTimeouts : Nat := 0
  pacedPackets : Nat := 0
  deriving DecidableEq, Repr

def Tally.count (t : Tally) (action : Action) : Tally :=
  let t := { t with acks := t.acks + 1 }
  match action with
  | .increase => { t with increases := t.increases + 1 }
  | .add => { t with additions := t.additions + 1 }
  | .decrease => { t with decreases := t.decreases + 1 }
  | .freeze => { t with freezes := t.freezes + 1 }

end LoadFeedback
