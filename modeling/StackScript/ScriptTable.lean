import StackScript.Script

/-!
# Script tables

A store keeps scripts under their hashes. A cache in front of it remembers the scripts of the last
lookups that had to reach the store and found one, up to its capacity. What came in first goes out
first; a hit does not refresh an entry, and a lookup that finds nothing is not remembered. The
cache is not told of changes in the store.
-/

namespace StackScript

/-- Scripts under their hashes, each hash once. -/
structure ScriptStore where
  /-- The entries. -/
  entries : List (ScriptHash × Script) := []

namespace ScriptStore

/-- A store without scripts. -/
def empty : ScriptStore := {}

/-- The script under a hash. -/
def find? (store : ScriptStore) (hash : ScriptHash) : Option Script := store.entries.lookup hash

/-- The store without the script under a hash. -/
def erase (store : ScriptStore) (hash : ScriptHash) : ScriptStore :=
  ⟨store.entries.filter fun entry => entry.1 != hash⟩

/-- The store with a script put under a hash, in place of any other. -/
def insert (store : ScriptStore) (hash : ScriptHash) (script : Script) : ScriptStore :=
  ⟨(hash, script) :: (store.erase hash).entries⟩

/-- The number of scripts. -/
def size (store : ScriptStore) : Nat := store.entries.length

end ScriptStore

/-- The scripts remembered, and the order in which they came. -/
structure ScriptCache where
  /-- How many scripts are remembered at most. -/
  capacity : Nat
  /-- The scripts. -/
  scripts : ScriptStore := {}
  /-- Their hashes, the oldest first. -/
  order : List ScriptHash := []

namespace ScriptCache

/-- The script remembered under a hash. -/
def find? (cache : ScriptCache) (hash : ScriptHash) : Option Script := cache.scripts.find? hash

/-- Whether a script is remembered under a hash. -/
def contains (cache : ScriptCache) (hash : ScriptHash) : Bool := (cache.find? hash).isSome

/-- The number of scripts remembered. -/
def size (cache : ScriptCache) : Nat := cache.scripts.size

/-- The cache of some scripts after the oldest ones are forgotten, until there is room for one
more. -/
def makeRoom (capacity : Nat) (scripts : ScriptStore) : (order : List ScriptHash) → ScriptCache
  | [] => { capacity, scripts }
  | oldest :: rest =>
      if capacity ≤ rest.length + 1 then makeRoom capacity (scripts.erase oldest) rest
      else { capacity, scripts, order := oldest :: rest }

/-- Remembers a script, and forgets the oldest ones that there is no room for. -/
def remember (cache : ScriptCache) (hash : ScriptHash) (script : Script) : ScriptCache :=
  if cache.capacity = 0 then cache
  else
    let room := makeRoom cache.capacity cache.scripts cache.order
    { room with scripts := room.scripts.insert hash script, order := room.order ++ [hash] }

end ScriptCache

/-- A store, a cache in front of it if there is one, and a count of the lookups that reached the
store. -/
structure ScriptTable where
  /-- The store. -/
  store : ScriptStore := {}
  /-- The cache. -/
  cache : Option ScriptCache := none
  /-- How many lookups reached the store. -/
  lookups : Nat := 0

namespace ScriptTable

/-- A lookup in the store. -/
def consult (table : ScriptTable) (hash : ScriptHash) : Option Script × ScriptTable :=
  (table.store.find? hash, { table with lookups := table.lookups + 1 })

/-- The script under a hash. -/
def get (table : ScriptTable) (hash : ScriptHash) : Option Script × ScriptTable :=
  match table.cache with
  | none => table.consult hash
  | some cache =>
    match cache.find? hash with
    | some script => (some script, table)
    | none =>
      match table.consult hash with
      | (none, table) => (none, table)
      | (some script, table) =>
          (some script, { table with cache := some (cache.remember hash script) })

end ScriptTable

end StackScript
