import LoadFeedback.Scalar

/-!
What a link tells the senders about its load: one of three codes, or the load factor itself in
hundredths of a percent. Both travel in one field of sixteen bits, and the larger value is the more
severe one.
-/

namespace LoadFeedback

/-- A load factor in three steps. -/
inductive LoadCode where
  /-- Below the low threshold. -/
  | low
  /-- Between the two thresholds. -/
  | high
  /-- At the high threshold or above. -/
  | over
  deriving DecidableEq, Repr

namespace LoadCode

/-- The load factor in percent from which the load is no longer low. -/
def lowThreshold : Nat := 80

/-- The load factor in percent from which the link is overloaded. -/
def highThreshold : Nat := 100

/-- The two bits of a code. Zero stands for no code. -/
def bits : LoadCode → Nat
  | .low => 1
  | .high => 2
  | .over => 3

/-- The code of two bits. -/
def ofBits? : Nat → Option LoadCode
  | 1 => some .low
  | 2 => some .high
  | 3 => some .over
  | _ => none

/-- The code of a load factor in percent. An undefined load factor counts as overload. -/
def ofLoadFactor {α : Type} [Scalar α] (loadFactor : α) : LoadCode :=
  if loadFactor < Scalar.ofNat lowThreshold then .low
  else if loadFactor < Scalar.ofNat highThreshold then .high
  else .over

def name : LoadCode → String
  | .low => "Low"
  | .high => "High"
  | .over => "Over"

end LoadCode

/-- The feedback field of a packet. -/
structure FeedbackField where
  value : UInt16
  deriving DecidableEq, Repr

namespace FeedbackField

instance : LE FeedbackField := ⟨fun a b => a.value ≤ b.value⟩

instance : LT FeedbackField := ⟨fun a b => a.value < b.value⟩

instance (a b : FeedbackField) : Decidable (a ≤ b) :=
  inferInstanceAs (Decidable (a.value ≤ b.value))

instance (a b : FeedbackField) : Decidable (a < b) :=
  inferInstanceAs (Decidable (a.value < b.value))

def ofCode (code : LoadCode) : FeedbackField :=
  ⟨UInt16.ofNat code.bits⟩

/-- What a sender writes before the packet meets a link. -/
def initial : FeedbackField := ofCode .low

instance : Inhabited FeedbackField := ⟨initial⟩

/-- A load factor in percent, carried in hundredths of a percent up to the largest value of the
field. -/
def ofLoadFactor {α : Type} [Scalar α] (loadFactor : α) : FeedbackField :=
  ⟨UInt16.ofNat (min 65535 (Scalar.nearest (loadFactor * 100.0)))⟩

/-- The code that the field carries, if it is one. -/
def code? (f : FeedbackField) : Option LoadCode :=
  LoadCode.ofBits? f.value.toNat

/-- The more severe of two fields. -/
def severest (current proposed : FeedbackField) : FeedbackField :=
  if current < proposed then proposed else current

/-- The name of the code, or the value. -/
def text (f : FeedbackField) : String :=
  match f.code? with
  | some code => code.name
  | none => "raw(" ++ toString f.value.toNat ++ ")"

end FeedbackField

end LoadFeedback
