import RenderGraph.Fault
import RenderGraph.Numeric.Number

/-!
# Caches of recent values

A cache holds at most as many values as its capacity says. Looking a value up makes it the most recent
one; when a new value does not fit, the least recent one is given up. A cache also counts how often it
was asked in vain.

## Main definitions

* `Cache`, `Cache.lookup`, `Cache.store`, `Cache.invalidate`, `Cache.clear`
* `Cache.hitRate`
-/

namespace RenderGraph

/-- Values under distinct keys, the least recent first. -/
structure Cache (α : Type) where
  capacity : Number
  entries : List (String × α) := []
  hits : Nat := 0
  misses : Nat := 0

namespace Cache

variable {α : Type} (c : Cache α)

/-- The value under a key. -/
def get? (key : String) : Option α :=
  (c.entries.find? (·.1 == key)).map (·.2)

/-- The entries without a key. -/
def others (key : String) : List (String × α) :=
  c.entries.filter (·.1 != key)

/-- The number of values. -/
def size : Nat :=
  c.entries.length

/-- Looks a value up, which makes it the most recent one. -/
def lookup (key : String) : Option α × Cache α :=
  match c.get? key with
  | some a => (some a, { c with entries := c.others key ++ [(key, a)], hits := c.hits + 1 })
  | none => (none, { c with misses := c.misses + 1 })

/-- Stores a value as the most recent one. A full cache gives up its least recent value; it fails when
it has none. -/
def store (key : String) (a : α) : Except Fault (Cache α) :=
  if (c.get? key).isSome then .ok { c with entries := c.others key ++ [(key, a)] }
  else if c.capacity.atMost c.size then
    match c.entries with
    | [] => .error .emptyCache
    | _ :: rest => .ok { c with entries := rest ++ [(key, a)] }
  else .ok { c with entries := c.entries ++ [(key, a)] }

/-- Drops a key; tells whether it was there. -/
def invalidate (key : String) : Bool × Cache α :=
  ((c.get? key).isSome, { c with entries := c.others key })

/-- Drops everything, the counts too. -/
def clear : Cache α :=
  { capacity := c.capacity }

/-- How many of the requests were answered, in percent. -/
def hitRate : Number :=
  let total := c.hits + c.misses
  if total = 0 then .int 0 else .float (Double.percentage c.hits total)

end Cache

end RenderGraph
