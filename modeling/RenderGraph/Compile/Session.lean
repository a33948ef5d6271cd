import RenderGraph.Compile.Cache
import RenderGraph.Compile.Fingerprint

/-!
# Compilation with a cache

A session keeps the results of successful compilations under their fingerprints. When only values were
edited, the kept programs are used again and just their uniforms get new values.

## Main definitions

* `Compile.Session`, `Compile.SessionM`
* `Compile.Session.compile`, `Compile.Session.invalidate`
-/

namespace RenderGraph.Compile

/-- The kept results, and what went to the journal. -/
structure Session where
  config : Config
  cache : Cache Result
  journal : List Journal.Record := []

/-- A computation of a session; what was done stays done when it fails. -/
abbrev SessionM :=
  ExceptT Fault (StateM Session)

namespace Session

/-- A session without results. -/
def new (config : Config) : Session :=
  { config, cache := { capacity := config.cacheCapacity } }

/-- A kept result with the present values of a graph. -/
def reuse (scene : Scene) (kept : Result) : Except Fault Result := do
  let news ← Shader.overrides scene
  pure { kept with
    passes := refreshPasses news kept.passes, stats := { kept.stats with cacheHit := true } }

/-- Compiles a graph, unless a result for its fingerprint is kept. -/
def compile (graph : Graph) (target : Target) : SessionM Result := do
  let scene : Scene := { graph, config := (← get).config }
  let key ← (fingerprint scene target : Except Fault _)
  let (kept, cache) := (← get).cache.lookup key
  modify fun s => { s with cache }
  match kept with
  | some result => (reuse scene result : Except Fault _)
  | none =>
    let (outcome, journal) := Compile.compile scene target
    modify fun s => { s with journal := s.journal ++ journal }
    let result ← (outcome : Except Fault _)
    if result.ok then
      let cache ← ((← get).cache.store key result : Except Fault _)
      modify fun s => { s with cache }
    pure result

/-- Drops the result that is kept for a request; tells whether there was one. -/
def invalidate (graph : Graph) (target : Target) : SessionM Bool := do
  let scene : Scene := { graph, config := (← get).config }
  let key ← (fingerprint scene target : Except Fault _)
  let (present, cache) := (← get).cache.invalidate key
  modify fun s => { s with cache }
  pure present

/-- Drops all kept results. -/
def clear : SessionM Unit :=
  modify fun s => { s with cache := s.cache.clear }

end Session

end RenderGraph.Compile
