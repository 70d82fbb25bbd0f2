import StackScript.ScriptTable
import Mathlib.Data.List.DropRight
import Mathlib.Data.List.Nodup
import Mathlib.Data.List.Perm.Basic

/-!
# What a cached script table remembers

A cache keeps a queue of hashes and, beside it, the scripts under these hashes, and changes the two
one after the other. They always fit: `ScriptCache.Holds` says that the cache holds certain scripts,
each once, in the order of the queue. Which ones these are is known from the lookups alone. A lookup
that reaches the store and finds a script is a miss, and the cache holds the last misses, as many as
there is room for. A hash that was forgotten can be missed again, and comes back at the end.

Main statement: `ScriptTable.cache_holds_last_misses`, for every sequence of lookups in the table
and changes of the store behind it.
-/

namespace StackScript

/-- In a list with every key once, looking up finds exactly the entries. -/
theorem lookup_eq_some_iff_mem {entries : List (ScriptHash × Script)}
    (hnodup : (entries.map Prod.fst).Nodup) (hash : ScriptHash) (script : Script) :
    entries.lookup hash = some script ↔ (hash, script) ∈ entries := by
  induction entries with
  | nil => simp
  | cons entry rest ih =>
    obtain ⟨key, value⟩ := entry
    rw [List.map_cons, List.nodup_cons] at hnodup
    rw [List.lookup_cons, List.mem_cons]
    by_cases hkey : hash = key
    · subst hkey
      have hrest : (hash, script) ∉ rest := by
        intro hmem
        apply hnodup.1
        exact List.mem_map.mpr ⟨_, hmem, rfl⟩
      simp [hrest, eq_comm]
    · have hne : (hash == key) = false := by simpa using hkey
      simp [hne, hkey, ih hnodup.2]

/-- Taking out a hash that is not there changes nothing. -/
theorem filter_ne_eq_self {entries : List (ScriptHash × Script)} {hash : ScriptHash}
    (h : hash ∉ entries.map Prod.fst) : entries.filter (fun entry => entry.1 != hash) = entries := by
  rw [List.filter_eq_self]
  intro entry hentry
  have hne : entry.1 ≠ hash := fun heq => h (heq ▸ List.mem_map_of_mem hentry)
  simpa using hne

namespace ScriptStore

/-- Taking out the script under a hash takes out one entry. -/
theorem erase_perm {store : ScriptStore} {hash : ScriptHash} {script : Script}
    {others : List (ScriptHash × Script)} (h : store.entries.Perm ((hash, script) :: others))
    (hothers : hash ∉ others.map Prod.fst) : (store.erase hash).entries.Perm others := by
  have hfilter := h.filter fun entry => entry.1 != hash
  rwa [List.filter_cons_of_neg (by simp), filter_ne_eq_self hothers] at hfilter

/-- Putting a script under a new hash adds one entry. -/
theorem insert_perm {store : ScriptStore} {hash : ScriptHash} (script : Script)
    {held : List (ScriptHash × Script)} (h : store.entries.Perm held)
    (hhash : hash ∉ held.map Prod.fst) :
    (store.insert hash script).entries.Perm (held ++ [(hash, script)]) := by
  have hfilter := h.filter fun entry => entry.1 != hash
  rw [filter_ne_eq_self hhash] at hfilter
  exact (hfilter.cons _).trans (List.perm_append_singleton _ _).symm

end ScriptStore

namespace ScriptCache

/-! ### The queue and the scripts -/

/-- The cache holds these scripts, each under its own hash, and the queue is in their order. -/
structure Holds (cache : ScriptCache) (held : List (ScriptHash × Script)) : Prop where
  order : cache.order = held.map Prod.fst
  nodup : cache.order.Nodup
  scripts : cache.scripts.entries.Perm held

variable {cache : ScriptCache} {held : List (ScriptHash × Script)}

theorem Holds.find?_eq_some_iff (h : cache.Holds held) (hash : ScriptHash) (script : Script) :
    cache.find? hash = some script ↔ (hash, script) ∈ held := by
  have hkeys : (cache.scripts.entries.map Prod.fst).Nodup := by
    rw [(h.scripts.map Prod.fst).nodup_iff, ← h.order]
    exact h.nodup
  rw [find?, ScriptStore.find?, lookup_eq_some_iff_mem hkeys, h.scripts.mem_iff]

/-- The queue has the hashes of the scripts, and no others. -/
theorem Holds.mem_order_iff (h : cache.Holds held) (hash : ScriptHash) :
    hash ∈ cache.order ↔ cache.contains hash = true := by
  rw [contains, Option.isSome_iff_exists, h.order, List.mem_map]
  constructor
  · rintro ⟨⟨key, script⟩, hmem, rfl⟩
    exact ⟨script, (h.find?_eq_some_iff key script).mpr hmem⟩
  · rintro ⟨script, hfind⟩
    exact ⟨(hash, script), (h.find?_eq_some_iff hash script).mp hfind, rfl⟩

theorem Holds.find?_eq_none (h : cache.Holds held) {hash : ScriptHash} (hhash : hash ∉ cache.order) :
    cache.find? hash = none := by
  rw [h.mem_order_iff, contains, Bool.not_eq_true, Option.isSome_eq_false_iff] at hhash
  exact Option.isNone_iff_eq_none.mp hhash

theorem Holds.size_eq (h : cache.Holds held) : cache.size = cache.order.length := by
  rw [size, ScriptStore.size, h.scripts.length_eq, h.order, List.length_map]

/-! ### Remembering -/

/-- What is left when there is room for one more are the last scripts. -/
theorem holds_makeRoom {scripts : ScriptStore} (hscripts : scripts.entries.Perm held)
    (hnodup : (held.map Prod.fst).Nodup) (room : Nat) :
    (makeRoom (room + 1) scripts (held.map Prod.fst)).Holds (held.rtake room) := by
  induction held generalizing scripts with
  | nil => exact ⟨by simp [makeRoom], by simp [makeRoom], by simpa [makeRoom] using hscripts⟩
  | cons oldest rest ih =>
    rw [List.map_cons] at hnodup
    rw [List.map_cons, makeRoom, List.length_map]
    by_cases hfull : room + 1 ≤ rest.length + 1
    · have hrtake : (oldest :: rest).rtake room = rest.rtake room := by
        have hlength : (oldest :: rest).length - room = rest.length - room + 1 := by
          rw [List.length_cons]
          omega
        rw [List.rtake, List.rtake, hlength, List.drop_succ_cons]
      rw [if_pos hfull, hrtake]
      have hrest := List.nodup_cons.mp hnodup
      exact ih (ScriptStore.erase_perm hscripts hrest.1) hrest.2
    · have hrtake : (oldest :: rest).rtake room = oldest :: rest := by
        have hlength : (oldest :: rest).length - room = 0 := by
          rw [List.length_cons]
          omega
        rw [List.rtake, hlength, List.drop_zero]
      rw [if_neg hfull, hrtake]
      exact ⟨rfl, hnodup, hscripts⟩

theorem capacity_makeRoom (capacity : Nat) (scripts : ScriptStore) (order : List ScriptHash) :
    (makeRoom capacity scripts order).capacity = capacity := by
  induction order generalizing scripts with
  | nil => rfl
  | cons oldest rest ih =>
    rw [makeRoom]
    split
    · exact ih (scripts.erase oldest)
    · rfl

theorem capacity_remember (cache : ScriptCache) (hash : ScriptHash) (script : Script) :
    (cache.remember hash script).capacity = cache.capacity := by
  unfold remember
  split
  · rfl
  · exact capacity_makeRoom ..

/-- **A cache of the last misses holds the last misses after one more.** -/
theorem Holds.remember {misses : List (ScriptHash × Script)}
    (h : cache.Holds (misses.rtake cache.capacity)) {hash : ScriptHash} (hhash : hash ∉ cache.order)
    (script : Script) :
    (cache.remember hash script).Holds ((misses ++ [(hash, script)]).rtake cache.capacity) := by
  cases hcapacity : cache.capacity with
  | zero =>
    -- Nothing is held, before and after.
    rw [hcapacity, List.rtake_zero] at h
    rw [ScriptCache.remember, if_pos hcapacity, List.rtake_zero]
    exact h
  | succ room =>
    rw [hcapacity] at h
    have hroom := holds_makeRoom h.scripts (h.order ▸ h.nodup) room
    rw [← h.order] at hroom
    have hkept : (misses.rtake (room + 1)).rtake room = misses.rtake room := by
      rw [List.rtake_eq_reverse_take_reverse, List.rtake_eq_reverse_take_reverse,
        List.reverse_reverse, List.take_take, Nat.min_eq_left (Nat.le_succ room),
        ← List.rtake_eq_reverse_take_reverse]
    rw [hkept] at hroom
    have hnew : hash ∉ (misses.rtake room).map Prod.fst := by
      intro hmem
      apply hhash
      rw [h.order]
      rw [← hkept] at hmem
      exact List.map_subset _ (List.drop_subset _ _) hmem
    rw [ScriptCache.remember, if_neg (by omega), hcapacity, List.rtake_concat_succ]
    refine ⟨?_, ?_, ?_⟩
    · simp [hroom.order]
    · rw [List.nodup_append_comm, List.singleton_append, List.nodup_cons, hroom.order]
      exact ⟨hnew, hroom.order ▸ hroom.nodup⟩
    · exact ScriptStore.insert_perm script hroom.scripts hnew

end ScriptCache

/-! ### Lookups and changes of the store -/

/-- What can be done with a table: a lookup, or a change of the store behind the cache. -/
inductive TableCall where
  | get (hash : ScriptHash)
  | insert (hash : ScriptHash) (script : Script)
  | erase (hash : ScriptHash)

namespace TableCall

/-- The table after a call. -/
def run (table : ScriptTable) : TableCall → ScriptTable
  | .get hash => (table.get hash).2
  | .insert hash script => { table with store := table.store.insert hash script }
  | .erase hash => { table with store := table.store.erase hash }

/-- The script that a call finds in the store, if it is a lookup that reaches the store. -/
def miss? (table : ScriptTable) : TableCall → Option (ScriptHash × Script)
  | .get hash =>
      if (table.get hash).2.lookups = table.lookups then none
      else (table.store.find? hash).map fun script => (hash, script)
  | .insert .. | .erase _ => none

end TableCall

namespace ScriptTable

/-- A table with an empty cache in front of a store. -/
def cached (store : ScriptStore) (capacity : Nat) : ScriptTable :=
  { store, cache := some { capacity } }

/-- The table after calls in turn. -/
def after (table : ScriptTable) (calls : List TableCall) : ScriptTable :=
  calls.foldl TableCall.run table

/-- The lookups among some calls that reach the store and find a script, with the script, in
turn. -/
def misses : ScriptTable → List TableCall → List (ScriptHash × Script)
  | _, [] => []
  | table, call :: rest => (call.miss? table).toList ++ (call.run table).misses rest

variable {table : ScriptTable} {cache : ScriptCache} {hash : ScriptHash}

theorem get_of_held (hcache : table.cache = some cache) {script : Script}
    (hfind : cache.find? hash = some script) : table.get hash = (some script, table) := by
  simp [get, hcache, hfind]

theorem get_of_missing (hcache : table.cache = some cache) (hfind : cache.find? hash = none) :
    table.get hash = match table.store.find? hash with
      | some script => (some script, { table with
          lookups := table.lookups + 1, cache := some (cache.remember hash script) })
      | none => (none, { table with lookups := table.lookups + 1 }) := by
  simp only [get, hcache, hfind, consult]
  cases hstore : table.store.find? hash with
  | some script => simp
  | none => simp

/-- The table has a cache of this capacity, which holds the last of these misses. -/
def Remembers (table : ScriptTable) (capacity : Nat) (misses : List (ScriptHash × Script)) : Prop :=
  ∃ cache, table.cache = some cache ∧ cache.capacity = capacity ∧ cache.Holds (misses.rtake capacity)

variable {capacity : Nat} {past : List (ScriptHash × Script)}

/-- A lookup leaves the cache alone, unless it is a miss. -/
theorem Remembers.get (h : table.Remembers capacity past) (hash : ScriptHash) :
    (table.get hash).2.Remembers capacity (past ++ (TableCall.miss? table (.get hash)).toList) := by
  obtain ⟨cache, hcache, rfl, hholds⟩ := h
  rw [TableCall.miss?]
  by_cases hmem : hash ∈ cache.order
  · rw [hholds.mem_order_iff, ScriptCache.contains, Option.isSome_iff_exists] at hmem
    obtain ⟨script, hfind⟩ := hmem
    rw [get_of_held hcache hfind]
    refine ⟨cache, hcache, rfl, ?_⟩
    simpa using hholds
  · have hget := get_of_missing hcache (hholds.find?_eq_none hmem)
    cases hstore : table.store.find? hash with
    | none =>
      rw [hstore] at hget
      rw [hget]
      refine ⟨cache, hcache, rfl, ?_⟩
      simpa using hholds
    | some script =>
      rw [hstore] at hget
      rw [hget]
      refine ⟨_, rfl, cache.capacity_remember hash script, ?_⟩
      simpa using hholds.remember hmem script

/-- **A call keeps what is known of the cache.** -/
theorem Remembers.run (h : table.Remembers capacity past) (call : TableCall) :
    (call.run table).Remembers capacity (past ++ (call.miss? table).toList) := by
  cases call with
  | get hash => exact h.get hash
  | insert | erase =>
    -- The cache is not told.
    rw [TableCall.miss?, Option.toList_none, List.append_nil]
    exact h

theorem Remembers.after (h : table.Remembers capacity past) (calls : List TableCall) :
    (table.after calls).Remembers capacity (past ++ table.misses calls) := by
  induction calls generalizing table past with
  | nil =>
    rw [misses, List.append_nil]
    exact h
  | cons call rest ih =>
    rw [misses, ← List.append_assoc]
    exact ih (h.run call)

theorem remembers_cached (store : ScriptStore) (capacity : Nat) :
    (cached store capacity).Remembers capacity [] :=
  ⟨_, rfl, rfl, by simp, by simp, by simp⟩

/-- What was missed was in the store at that time. -/
theorem exists_before_of_mem_misses {calls : List TableCall} {script : Script}
    (h : (hash, script) ∈ table.misses calls) :
    ∃ before later, calls = before ++ later ∧
      (table.after before).store.find? hash = some script := by
  induction calls generalizing table with
  | nil => simp [misses] at h
  | cons call rest ih =>
    rw [misses, List.mem_append] at h
    rcases h with hnow | hrest
    · refine ⟨[], call :: rest, rfl, ?_⟩
      cases call with
      | get asked =>
        rw [TableCall.miss?] at hnow
        split at hnow
        · simp at hnow
        · simp only [Option.mem_toList, Option.map_eq_some_iff, Prod.mk.injEq] at hnow
          obtain ⟨found, hfound, rfl, rfl⟩ := hnow
          exact hfound
      | insert | erase => simp [TableCall.miss?] at hnow
    · obtain ⟨before, later, rfl, hfind⟩ := ih hrest
      exact ⟨call :: before, later, rfl, hfind⟩

/-! ### The main statement -/

/-- Whether a lookup reaches the store. -/
theorem lookups_get (hcache : table.cache = some cache) (hash : ScriptHash) :
    (table.get hash).2.lookups =
      if cache.contains hash then table.lookups else table.lookups + 1 := by
  rw [ScriptCache.contains]
  cases hfind : cache.find? hash with
  | some script => simp [get_of_held hcache hfind]
  | none =>
    rw [get_of_missing hcache hfind]
    cases table.store.find? hash <;> simp

/-- **The cache holds the last misses.** Take a table with an empty cache in front of a store, and
any lookups in it and changes of the store. Then the queue has no hash twice, its hashes are those
of the scripts in the cache, and there are as many as there were misses, but not more than the
capacity. They are the hashes of the last misses, the oldest first, each with the script that the
store had at that miss. The next lookup reaches the store if and only if its hash is not in the
cache. And if the store has answered the same all the time, then so does the table. -/
theorem cache_holds_last_misses (store : ScriptStore) (capacity : Nat) (calls : List TableCall) :
    ∃ cache, ((cached store capacity).after calls).cache = some cache ∧
      cache.order.Nodup ∧ (∀ hash, hash ∈ cache.order ↔ cache.contains hash = true) ∧
      cache.size = cache.order.length ∧
      cache.order.length = min capacity ((cached store capacity).misses calls).length ∧
      cache.order = (((cached store capacity).misses calls).rtake capacity).map Prod.fst ∧
      (∀ hash script, cache.find? hash = some script ↔
        (hash, script) ∈ ((cached store capacity).misses calls).rtake capacity) ∧
      (∀ hash, (((cached store capacity).after calls).get hash).2.lookups =
        ((cached store capacity).after calls).lookups + if hash ∈ cache.order then 0 else 1) ∧
      ((∀ before later, calls = before ++ later → ∀ hash,
          ((cached store capacity).after before).store.find? hash = store.find? hash) →
        ∀ hash, (((cached store capacity).after calls).get hash).1 = store.find? hash) := by
  obtain ⟨cache, hcache, -, hholds⟩ := (remembers_cached store capacity).after calls
  rw [List.nil_append] at hholds
  refine ⟨cache, hcache, hholds.nodup, hholds.mem_order_iff, hholds.size_eq, ?_, hholds.order,
    hholds.find?_eq_some_iff, ?_, ?_⟩
  · rw [hholds.order, List.length_map, List.rtake, List.length_drop]
    omega
  · intro hash
    simp only [lookups_get hcache hash, ← hholds.mem_order_iff hash]
    split
    · rfl
    · rfl
  · intro hsame hash
    cases hfind : cache.find? hash with
    | some script =>
      rw [get_of_held hcache hfind]
      have hmem := (hholds.find?_eq_some_iff hash script).mp hfind
      obtain ⟨before, later, hcalls, hstore⟩ :=
        exists_before_of_mem_misses (List.drop_subset _ _ hmem)
      rw [← hsame before later hcalls hash, hstore]
    | none =>
      rw [get_of_missing hcache hfind, ← hsame calls [] (List.append_nil calls).symm hash]
      cases ((cached store capacity).after calls).store.find? hash <;> rfl

end ScriptTable

end StackScript
