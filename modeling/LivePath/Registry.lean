/-!
# Registries of listeners

A registry keeps listeners in the order of their registration, each under a key and with a tag that
tells which announcements it wants. A key is a slot and the slot's generation. Slots are used again,
most recently freed first, each time in a new generation, so that within one registry a key never
comes back.
-/

namespace LivePath

/-- Names one registration within its registry. -/
structure Key where
  slot : Nat
  generation : Nat
  deriving DecidableEq, Repr

/-- The key that a freed slot is handed out under next. -/
def Key.renewed (k : Key) : Key :=
  { k with generation := k.generation + 1 }

structure Registration (τ α : Type) where
  key : Key
  tag : τ
  listener : α
  deriving DecidableEq, Repr

/-- Listeners in the order of registration, and the keys of freed slots in the order of their next
use. -/
structure Registry (τ α : Type) where
  entries : List (Registration τ α) := []
  freed : List Key := []
  slots : Nat := 0
  deriving Repr

namespace Registry
variable {τ α : Type}

instance : Inhabited (Registry τ α) := ⟨{}⟩

def contains (r : Registry τ α) (k : Key) : Bool :=
  r.entries.any (·.key = k)

def size (r : Registry τ α) : Nat :=
  r.entries.length

def countTagged (r : Registry τ α) (p : τ → Bool) : Nat :=
  r.entries.countP (p ·.tag)

def nextKey (r : Registry τ α) : Key :=
  r.freed.headD ⟨r.slots, 0⟩

/-- Registers a listener behind all others, under `nextKey`. -/
def insert (r : Registry τ α) (tag : τ) (listener : α) : Registry τ α where
  entries := r.entries ++ [⟨r.nextKey, tag, listener⟩]
  freed := r.freed.tail
  slots := if r.freed = [] then r.slots + 1 else r.slots

/-- Takes a registration out; a key without one changes nothing. -/
def erase (r : Registry τ α) (k : Key) : Registry τ α :=
  if r.contains k then
    { r with entries := r.entries.filter (·.key ≠ k), freed := k.renewed :: r.freed }
  else r

/-- Takes all registrations out, slot by slot upwards. -/
def clear (r : Registry τ α) : Registry τ α :=
  let keys := (r.entries.map (·.key)).mergeSort fun a b => a.slot ≤ b.slot
  { r with entries := [], freed := (keys.map Key.renewed).reverse ++ r.freed }

/-- The registrations that an announcement to the tags satisfying `p` is delivered to. -/
def select (r : Registry τ α) (p : τ → Bool) : List (Registration τ α) :=
  r.entries.filter (p ·.tag)

end Registry

end LivePath
