import Mathlib.Logic.Function.Basic
import PolymarketBt.Machine.Transition
import PolymarketBt.ToMathlib.KeyedList

/-! # The cache of episode tapes

A call of the cache looks its condition up and, where it is missing, loads the tape and inserts it.
The lookup and the insertion hold the lock, the load between them does not; a refresh of the episode
index clears the cache under the lock. Each section and each load is one step, and the steps of
different calls and of refreshes interleave. Tapes and calls carry the number of clears before their
load and their lookup, which the code does not keep.
-/

namespace PolymarketBt

open KeyedList

/-- A loaded tape, by the lengths of its columns. -/
structure LoadedTape where
  conditionId : String
  rows : ℕ
  trades : ℕ
  /-- The clears before the load. -/
  loadedAt : ℕ
deriving DecidableEq, Repr

/-- Eight bytes for each of eight scalar columns, and three columns of trades. -/
def LoadedTape.residentBytes (tape : LoadedTape) : ℤ := 8 * 8 * tape.rows + 24 * tape.trades + 4096

/-- Where a call of `get` is, with its condition and the clears before its lookup. -/
inductive GetCall where
  | idle
  | missed (conditionId : String) (startedAt : ℕ)
  | loaded (conditionId : String) (startedAt : ℕ) (tape : LoadedTape)
  | returned (conditionId : String) (startedAt : ℕ) (tape : LoadedTape)
  | raised
deriving DecidableEq, Repr

inductive CacheAction (Call : Type*) where
  | lookup (call : Call) (conditionId : String)
  | load (call : Call) (rows trades : ℕ)
  | loadFails (call : Call)
  | insert (call : Call)
  /-- A request for the episodes; the index has no time if it cannot be found. -/
  | episodes (mtime : Option ℤ) (readable : Bool)
deriving DecidableEq, Repr

/-- The entries, least recently used first, and the rest of the service that calls and refreshes
change. -/
structure TapeCache (Call : Type*) where
  entries : List (String × LoadedTape)
  bytes : ℤ
  hits : ℕ
  misses : ℕ
  indexMtime : Option ℤ
  clears : ℕ
  calls : Call → GetCall

namespace TapeCache

def init (Call : Type*) : TapeCache Call := ⟨[], 0, 0, 0, none, 0, fun _ => .idle⟩

variable {Call : Type*} [DecidableEq Call] (budgetBytes : ℕ) (cache : TapeCache Call) (call : Call)

def goTo (phase : GetCall) : TapeCache Call :=
  { cache with calls := Function.update cache.calls call phase }

/-- The lookup section: a hit becomes the most recently used. -/
def lookup (conditionId : String) : TapeCache Call :=
  match cache.entries.lookup conditionId with
  | some tape =>
    { cache with
      entries := without Prod.fst conditionId cache.entries ++ [(conditionId, tape)]
      hits := cache.hits + 1 }.goTo call (.returned conditionId cache.clears tape)
  | none => cache.goTo call (.missed conditionId cache.clears)

/-- The oldest entries leave while the budget is exceeded, down to a single one. -/
def evict (budgetBytes : ℕ) : List (String × LoadedTape) → ℤ → List (String × LoadedTape) × ℤ
  | oldest :: next :: rest, bytes =>
    if budgetBytes < bytes then evict budgetBytes (next :: rest) (bytes - oldest.2.residentBytes)
    else (oldest :: next :: rest, bytes)
  | entries, bytes => (entries, bytes)

/-- The insert section: a condition that has been inserted meanwhile keeps its entry. -/
def insert (conditionId : String) (startedAt : ℕ) (tape : LoadedTape) : TapeCache Call :=
  if (cache.entries.lookup conditionId).isSome then
    { cache with misses := cache.misses + 1 }.goTo call (.returned conditionId startedAt tape)
  else
    let kept := evict budgetBytes (cache.entries ++ [(conditionId, tape)])
      (cache.bytes + tape.residentBytes)
    { cache with
      entries := kept.1
      bytes := kept.2
      misses := cache.misses + 1 }.goTo call (.returned conditionId startedAt tape)

def clear : TapeCache Call := { cache with entries := [], bytes := 0, clears := cache.clears + 1 }

/-- The index is read again when its time has changed; a failed read raises before the clear. -/
def episodes (mtime : Option ℤ) (readable : Bool) : TapeCache Call :=
  match mtime with
  | none => cache
  | some time =>
    if some time ≠ cache.indexMtime ∧ readable then
      { cache.clear with indexMtime := some time }
    else cache

def step (cache : TapeCache Call) : CacheAction Call → Option (TapeCache Call)
  | .lookup call conditionId =>
    match cache.calls call with
    | .idle => some (cache.lookup call conditionId)
    | _ => none
  | .load call rows trades =>
    match cache.calls call with
    | .missed conditionId startedAt =>
      some (cache.goTo call (.loaded conditionId startedAt ⟨conditionId, rows, trades, cache.clears⟩))
    | _ => none
  | .loadFails call =>
    match cache.calls call with
    | .missed _ _ => some (cache.goTo call .raised)
    | _ => none
  | .insert call =>
    match cache.calls call with
    | .loaded conditionId startedAt tape =>
      some (cache.insert budgetBytes call conditionId startedAt tape)
    | _ => none
  | .episodes mtime readable => some (cache.episodes mtime readable)

end TapeCache

end PolymarketBt
