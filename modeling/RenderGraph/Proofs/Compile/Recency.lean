import Mathlib.Data.Finset.Card
import RenderGraph.Compile.Session
import RenderGraph.Proofs.Compile.Record
import RenderGraph.Proofs.Compile.Run

/-!
# What a session keeps

A session is asked to compile graphs, to drop what it keeps for a request, or to drop everything. Each
call finds, keeps or drops at most one result, and a call that cannot be given a fingerprint does
nothing. The entries of the cache stand in the order of their last use, so that only the least recent
one is ever given up.

## Main definitions

* `Compile.Session.Call`, `Compile.Session.Call.after`, `Compile.Session.run`: calls of a session
* `Compile.Session.Call.use?`, `Compile.Session.uses`: the keys that are found or kept
* `Compile.Session.Call.Effect`: what a call may do
* `Compile.Session.KeptSince`: a result was kept by a call and stayed as it was

## Main results

* `Compile.Session.Call.effect_after`: what a call does
* `Compile.Session.keeps_recent_results`: capacity, contents, counts and order of the cache after any calls
-/

namespace RenderGraph

namespace Cache

variable {α : Type} {c : Cache α} {key k : String} {a : α}

/-- The entries are the keys with their values. -/
theorem mem_entries_iff (h : (c.entries.map (·.1)).Nodup) :
    (key, a) ∈ c.entries ↔ c.get? key = some a :=
  Keyed.mem_entries_iff (m := ⟨c.entries, h⟩)

theorem get?_eq_none_iff : c.get? key = none ↔ key ∉ c.entries.map (·.1) := by
  rw [get?, Option.map_eq_none_iff, List.find?_eq_none, List.mem_map]
  constructor
  · rintro h ⟨e, he, rfl⟩
    exact h e he (by simp)
  · intro h e he hk
    exact h ⟨e, he, by simpa using hk⟩

theorem nodup_others_append (h : (c.entries.map (·.1)).Nodup) (key : String) (a : α) :
    ((c.others key ++ [(key, a)]).map (·.1)).Nodup := by
  rw [List.map_append, List.map_singleton, List.nodup_append]
  refine ⟨h.sublist (List.filter_sublist.map _), by simp, ?_⟩
  intro k hk k' hk'
  obtain ⟨e, he, rfl⟩ := List.mem_map.1 hk
  rw [List.mem_singleton] at hk'
  simpa [hk'] using (List.mem_filter.1 he).2

/-- A key that is present occurs once, so that the others are one less. -/
theorem length_others (h : (c.entries.map (·.1)).Nodup) (hk : c.get? key = some a) :
    (c.others key).length + 1 = c.size := by
  have hmem : key ∈ c.entries.map (·.1) := by
    by_contra hne
    rw [get?_eq_none_iff.2 hne] at hk
    cases hk
  have hcount : c.entries.countP (·.1 == key) = 1 := by
    rw [← List.count_eq_one_of_mem h hmem, List.count, List.countP_map]
    rfl
  have hsplit := List.length_eq_countP_add_countP (fun e : String × α => e.1 == key) (l := c.entries)
  have hothers : (c.others key).length = c.entries.countP (fun e => ¬ (e.1 == key)) := by
    rw [others, ← List.countP_eq_length_filter]
    congr 1
    funext e
    by_cases he : e.1 = key <;> simp [he]
  unfold size
  omega

end Cache

namespace Compile.Session

/-! ### Calls -/

/-- What may be asked of a session. -/
inductive Call
  | compile (graph : Graph) (target : Target)
  | invalidate (graph : Graph) (target : Target)
  | clear

namespace Call

/-- The session after a call. -/
def after (s : Session) : Call → Session
  | compile graph target => ((Session.compile graph target).run s).2
  | invalidate graph target => ((Session.invalidate graph target).run s).2
  | clear => (Session.clear.run s).2

/-- The fingerprint of what is asked for. -/
def key? (config : Config) : Call → Option String
  | compile graph target | invalidate graph target =>
    (fingerprint { graph, config } target).toOption
  | clear => none

def isClear : Call → Bool
  | clear => true
  | _ => false

/-- The call asks for a compilation, under a fingerprint. -/
def isCompilation (config : Config) (c : Call) : Bool :=
  match c with
  | compile .. => (c.key? config).isSome
  | _ => false

/-- The call drops what is kept under a key. -/
def drops (config : Config) (key : String) (c : Call) : Bool :=
  match c with
  | compile .. => false
  | invalidate .. => c.key? config == some key
  | clear => true

/-- The key under which a result is found or kept by the call. -/
def use? (s : Session) (c : Call) : Option String :=
  match c with
  | compile graph target =>
    (c.key? s.config).filter fun key =>
      (s.cache.get? key).isSome || (Compile.compile { graph, config := s.config } target).1.toOption.any
        (·.ok)
  | _ => none

variable {graph : Graph} {target : Target} {key : String}

theorem key?_compile {config : Config} (hk : fingerprint { graph, config } target = .ok key) :
    (compile graph target).key? config = some key := by
  simp [key?, hk, Except.toOption]

theorem key?_invalidate {config : Config} (hk : fingerprint { graph, config } target = .ok key) :
    (invalidate graph target).key? config = some key := by
  simp [key?, hk, Except.toOption]

theorem use?_compile {s : Session} (hk : fingerprint { graph, config := s.config } target = .ok key) :
    (compile graph target).use? s =
      if (s.cache.get? key).isSome ||
        (Compile.compile { graph, config := s.config } target).1.toOption.any (·.ok) then some key
      else none := by
  simp only [use?, key?_compile hk, Option.filter_some]

end Call

/-- The session after some calls. -/
def run (s : Session) (calls : List Call) : Session :=
  calls.foldl Call.after s

/-- The keys under which results are found or kept by some calls, in order. -/
def uses (s : Session) : List Call → List String
  | [] => []
  | c :: calls => (c.use? s).toList ++ uses (c.after s) calls

/-- How many compilations were asked for since everything was dropped. -/
def compilations (config : Config) (calls : List Call) : Nat :=
  (calls.reverse.takeWhile (!·.isClear)).countP (Call.isCompilation config)

theorem run_append (s : Session) (calls : List Call) (c : Call) :
    run s (calls ++ [c]) = c.after (run s calls) :=
  List.foldl_append

/-! ### What a call does -/

/-- What a call may do to the cache of a session. -/
inductive Call.Effect (s : Session) : Call → Cache Result → Prop
  /-- There is no fingerprint, and nothing is done. -/
  | none {c : Call} (hk : c.key? s.config = .none) (hc : c.isClear = false) : Effect s c s.cache
  /-- A result is found and becomes the most recent one. -/
  | hit {graph : Graph} {target : Target} {key : String} {r : Result}
      (hk : fingerprint { graph, config := s.config } target = .ok key)
      (hr : s.cache.get? key = some r) :
      Effect s (.compile graph target)
        { s.cache with entries := s.cache.others key ++ [(key, r)], hits := s.cache.hits + 1 }
  /-- Nothing is found, and the compilation fails. -/
  | miss {graph : Graph} {target : Target} {key : String}
      (hk : fingerprint { graph, config := s.config } target = .ok key)
      (hn : s.cache.get? key = .none)
      (hr : (Compile.compile { graph, config := s.config } target).1.toOption.any (·.ok) = false) :
      Effect s (.compile graph target) { s.cache with misses := s.cache.misses + 1 }
  /-- Nothing is found, and the result of the compilation is kept as the most recent one. The least
  recent entries are given up if there is no room. -/
  | store {graph : Graph} {target : Target} {key : String} {r : Result}
      {entries : List (String × Result)}
      (hk : fingerprint { graph, config := s.config } target = .ok key)
      (hn : s.cache.get? key = .none)
      (hr : (Compile.compile { graph, config := s.config } target).1 = .ok r) (hf : r.failure = .none)
      (he : entries = s.cache.entries ∧ s.cache.capacity.atMost s.cache.size = false ∨
        s.cache.capacity.atMost s.cache.size = true ∧ ∃ e, s.cache.entries = e :: entries) :
      Effect s (.compile graph target)
        { s.cache with entries := entries ++ [(key, r)], misses := s.cache.misses + 1 }
  /-- What is kept under a key is dropped. -/
  | drop {graph : Graph} {target : Target} {key : String}
      (hk : fingerprint { graph, config := s.config } target = .ok key) :
      Effect s (.invalidate graph target) { s.cache with entries := s.cache.others key }
  /-- Everything is dropped. -/
  | clear : Effect s .clear s.cache.clear

private theorem run_eq_of_ends {σ α : Type} {x : ExceptT Fault (StateM σ) α} {s : σ}
    {y : Except Fault α × σ}
    (h : Ends x (fun a t => y = (.ok a, t)) (fun f t => y = (.error f, t)) s) : x.run s = y := by
  rcases hr : x.run s with ⟨_ | _, t⟩
  · exact (h.of_run_error hr).symm
  · exact (h.of_run_ok hr).symm

/-- How a request to compile is answered. -/
theorem run_compile (s : Session) (graph : Graph) (target : Target) :
    (Session.compile graph target).run s =
      match fingerprint { graph, config := s.config } target with
      | .error f => (.error f, s)
      | .ok key =>
        match s.cache.get? key with
        | some r =>
          (reuse { graph, config := s.config } r,
            { s with cache := { s.cache with
                entries := s.cache.others key ++ [(key, r)], hits := s.cache.hits + 1 } })
        | none =>
          let cache := { s.cache with misses := s.cache.misses + 1 }
          let journal := s.journal ++ (Compile.compile { graph, config := s.config } target).2
          match (Compile.compile { graph, config := s.config } target).1 with
          | .error f => (.error f, { s with cache, journal })
          | .ok r =>
            if r.ok then
              match cache.store key r with
              | .ok cache => (.ok r, { s with cache, journal })
              | .error f => (.error f, { s with cache, journal })
            else (.ok r, { s with cache, journal }) := by
  refine run_eq_of_ends ?_
  unfold Session.compile Cache.lookup
  rw [ends_bind, ends_get, ends_bind, ends_lift]
  cases fingerprint { graph, config := s.config } target with
  | error f => exact rfl
  | ok key =>
    rw [yields_ok, ends_bind, ends_get]
    cases hc : s.cache.get? key with
    | some r =>
      simp only [hc]
      rw [ends_bind, ends_modify, ends_lift, yields_iff]
      exact ⟨fun a ha => by rw [ha], fun f hf => by rw [hf]⟩
    | none =>
      simp only [hc]
      rw [ends_bind, ends_modify, ends_bind, ends_modify, ends_bind, ends_lift]
      cases (Compile.compile { graph, config := s.config } target).1 with
      | error f => exact rfl
      | ok r =>
        rw [yields_ok]
        dsimp only
        split
        · rw [ends_bind, ends_get, ends_bind, ends_lift, yields_iff]
          refine ⟨fun cache hc => ?_, fun f hf => ?_⟩
          · rw [ends_bind, ends_modify, ends_pure, hc]
          · rw [hf]
        · exact rfl

/-- How a request to drop a result is answered. -/
theorem run_invalidate (s : Session) (graph : Graph) (target : Target) :
    (Session.invalidate graph target).run s =
      match fingerprint { graph, config := s.config } target with
      | .error f => (.error f, s)
      | .ok key =>
        (.ok (s.cache.get? key).isSome,
          { s with cache := { s.cache with entries := s.cache.others key } }) := by
  refine run_eq_of_ends ?_
  unfold Session.invalidate Cache.invalidate
  rw [ends_bind, ends_get, ends_bind, ends_lift]
  cases fingerprint { graph, config := s.config } target with
  | error f => exact rfl
  | ok key => exact rfl

/-- A cache with room for one entry keeps what it is given. -/
theorem store_eq {c : Cache Result} {key : String} {r : Result} (hcap : c.capacity.atMost 0 = false)
    (hn : c.get? key = none) :
    ∃ entries, (entries = c.entries ∧ c.capacity.atMost c.size = false ∨
        c.capacity.atMost c.size = true ∧ ∃ e, c.entries = e :: entries) ∧
      c.store key r = .ok { c with entries := entries ++ [(key, r)] } := by
  unfold Cache.store
  rw [hn]
  simp only [Option.isSome_none, Bool.false_eq_true, if_false]
  cases hfull : c.capacity.atMost c.size with
  | false => exact ⟨c.entries, Or.inl ⟨rfl, rfl⟩, by simp⟩
  | true =>
    cases he : c.entries with
    | nil =>
      rw [Cache.size, he, List.length_nil, hcap] at hfull
      cases hfull
    | cons e rest => exact ⟨rest, Or.inr ⟨rfl, e, rfl⟩, by simp⟩

/-- A call has one of the effects, and leaves the configuration as it is. -/
theorem Call.effect_after {s : Session} (hcap : s.cache.capacity.atMost 0 = false) (c : Call) :
    Call.Effect s c (c.after s).cache ∧ (c.after s).config = s.config := by
  cases c with
  | clear => exact ⟨.clear, rfl⟩
  | invalidate graph target =>
    simp only [Call.after, run_invalidate]
    cases hk : fingerprint { graph, config := s.config } target with
    | error f => exact ⟨.none (by simp [Call.key?, hk, Except.toOption]) rfl, rfl⟩
    | ok key => exact ⟨.drop hk, rfl⟩
  | compile graph target =>
    simp only [Call.after, run_compile]
    cases hk : fingerprint { graph, config := s.config } target with
    | error f => exact ⟨.none (by simp [Call.key?, hk, Except.toOption]) rfl, rfl⟩
    | ok key =>
      dsimp only
      cases hc : s.cache.get? key with
      | some r => exact ⟨.hit hk hc, rfl⟩
      | none =>
        dsimp only
        cases hr : (Compile.compile { graph, config := s.config } target).1 with
        | error f => exact ⟨.miss hk hc (by rw [hr]; rfl), rfl⟩
        | ok r =>
          cases hok : r.ok with
          | false =>
            simp only [hok, Bool.false_eq_true, if_false]
            exact ⟨.miss hk hc (by rw [hr]; exact hok), trivial⟩
          | true =>
            obtain ⟨entries, he, hstore⟩ := store_eq (r := r)
              (c := { s.cache with misses := s.cache.misses + 1 }) hcap hc
            simp only [hok, hstore, if_true]
            exact ⟨.store hk hc hr (Option.isNone_iff_eq_none.1 hok) he, trivial⟩

/-! ### Contents and counts -/

/-- A result was kept by a call that did not find one, and it has stayed as it was. -/
def KeptSince (config : Config) (calls : List Call) (key : String) (r : Result) : Prop :=
  ∃ before graph target since, calls = before ++ .compile graph target :: since ∧
    fingerprint { graph, config } target = .ok key ∧
    (Compile.compile { graph, config } target).1 = .ok r ∧ r.failure = none ∧
    (run (new config) before).cache.get? key = none ∧
    ∀ mid, mid <+: since →
      (run (new config) (before ++ .compile graph target :: mid)).cache.get? key = some r

/-- A result that stays is still kept after one more call. -/
theorem KeptSince.append {config : Config} {calls : List Call} {key : String} {r : Result}
    (h : KeptSince config calls key r) (c : Call)
    (hc : (run (new config) (calls ++ [c])).cache.get? key = some r) :
    KeptSince config (calls ++ [c]) key r := by
  obtain ⟨before, graph, target, since, rfl, hk, hr, hf, hn, hsince⟩ := h
  refine ⟨before, graph, target, since ++ [c], by simp, hk, hr, hf, hn, fun mid hmid => ?_⟩
  rcases List.prefix_concat_iff.1 hmid with rfl | hmid
  · simpa using hc
  · exact hsince mid hmid

/-- What holds of a session after some calls. -/
structure Invariant (config : Config) (n : Nat) (calls : List Call) (s : Session) : Prop where
  config_eq : s.config = config
  capacity_eq : s.cache.capacity = .int n
  nodup : (s.cache.entries.map (·.1)).Nodup
  size_le : s.cache.size ≤ n
  count : s.cache.hits + s.cache.misses = compilations config calls
  kept : ∀ {key : String} {r : Result}, s.cache.get? key = some r → KeptSince config calls key r

variable {config : Config} {n : Nat} {calls : List Call} {s : Session} {c : Call}
  {cache : Cache Result}

theorem atMost_eq_false (hn : 1 ≤ n) : (Number.int n).atMost 0 = false := by
  simp [Number.atMost]
  omega

theorem atMost_iff {k : Nat} : (Number.int n).atMost k = true ↔ n ≤ k := by
  simp [Number.atMost]

namespace Call.Effect

/-- A call keeps the keys apart and within the capacity. -/
theorem bounded (h : Call.Effect s c cache) (hcap : s.cache.capacity = .int n)
    (hnodup : (s.cache.entries.map (·.1)).Nodup) (hsize : s.cache.size ≤ n) :
    cache.capacity = .int n ∧ (cache.entries.map (·.1)).Nodup ∧ cache.size ≤ n := by
  cases h with
  | none => exact ⟨hcap, hnodup, hsize⟩
  | miss => exact ⟨hcap, hnodup, hsize⟩
  | clear => exact ⟨hcap, List.nodup_nil, Nat.zero_le n⟩
  | @hit graph target key r _ hr =>
    refine ⟨hcap, Cache.nodup_others_append hnodup key r, ?_⟩
    have hlength := Cache.length_others hnodup hr
    simp only [Cache.size, List.length_append, List.length_singleton] at hlength hsize ⊢
    omega
  | drop =>
    refine ⟨hcap, hnodup.sublist (List.filter_sublist.map _), ?_⟩
    exact (List.length_filter_le _ _).trans hsize
  | @store graph target key r entries _ hnone _ _ he =>
    have hsub : entries.Sublist s.cache.entries := by
      rcases he with ⟨rfl, -⟩ | ⟨-, e, he⟩
      · exact List.Sublist.refl _
      · exact he ▸ List.sublist_cons_self e entries
    have hlength : entries.length + 1 ≤ n := by
      rcases he with ⟨rfl, hroom⟩ | ⟨-, e, he⟩
      · rw [hcap, Bool.eq_false_iff, ne_eq, atMost_iff] at hroom
        unfold Cache.size at hroom
        omega
      · rw [Cache.size, he, List.length_cons] at hsize
        exact hsize
    refine ⟨hcap, ?_, by simpa [Cache.size] using hlength⟩
    rw [List.map_append, List.map_singleton, List.nodup_append]
    refine ⟨hnodup.sublist (hsub.map _), by simp, ?_⟩
    rintro k hk k' hk' rfl
    obtain rfl : k = key := List.mem_singleton.1 hk'
    exact Cache.get?_eq_none_iff.1 hnone ((hsub.map _).subset hk)

/-- A compilation is found or not; nothing else is counted. -/
theorem count (h : Call.Effect s c cache)
    (hs : s.cache.hits + s.cache.misses = compilations s.config calls) :
    cache.hits + cache.misses = compilations s.config (calls ++ [c]) := by
  have hsnoc (hc : c.isClear = false) : compilations s.config (calls ++ [c]) =
      compilations s.config calls + if c.isCompilation s.config then 1 else 0 := by
    simp [compilations, hc, List.countP_cons]
  cases h with
  | none hk hc =>
    rw [hsnoc hc, hs]
    cases c <;> simp [Call.isCompilation, hk]
  | hit hk =>
    rw [hsnoc rfl]
    simp only [Call.isCompilation, Call.key?_compile hk, Option.isSome_some, if_true]
    omega
  | miss hk =>
    rw [hsnoc rfl]
    simp only [Call.isCompilation, Call.key?_compile hk, Option.isSome_some, if_true]
    omega
  | store hk =>
    rw [hsnoc rfl]
    simp only [Call.isCompilation, Call.key?_compile hk, Option.isSome_some, if_true]
    omega
  | drop hk =>
    rw [hsnoc rfl]
    simpa [Call.isCompilation] using hs
  | clear => simp [compilations, Cache.clear, Call.isClear]

/-- What is kept after a call was kept before, or it is the result of the call. -/
theorem get?_eq_some (h : Call.Effect s c cache) (hnodup : (s.cache.entries.map (·.1)).Nodup)
    (hnodup' : (cache.entries.map (·.1)).Nodup) {key : String} {r : Result}
    (hr : cache.get? key = some r) :
    s.cache.get? key = some r ∨ s.cache.get? key = Option.none ∧ ∃ graph target,
      c = .compile graph target ∧ fingerprint { graph, config := s.config } target = .ok key ∧
      (Compile.compile { graph, config := s.config } target).1 = .ok r ∧ r.failure = Option.none := by
  have hmem := (Cache.mem_entries_iff hnodup').2 hr
  rw [← Cache.mem_entries_iff hnodup]
  cases h with
  | none => exact Or.inl hmem
  | miss => exact Or.inl hmem
  | clear => simp [Cache.clear] at hmem
  | drop => exact Or.inl (List.mem_of_mem_filter hmem)
  | hit _ hget =>
    rcases List.mem_append.1 hmem with hmem | hmem
    · exact Or.inl (List.mem_of_mem_filter hmem)
    · cases List.mem_singleton.1 hmem
      exact Or.inl ((Cache.mem_entries_iff hnodup).2 hget)
  | store hk hnone hres hf he =>
    rcases List.mem_append.1 hmem with hmem | hmem
    · rcases he with ⟨rfl, -⟩ | ⟨-, e, he⟩
      · exact Or.inl hmem
      · exact Or.inl (he ▸ List.mem_cons_of_mem e hmem)
    · cases List.mem_singleton.1 hmem
      exact Or.inr ⟨hnone, _, _, rfl, hk, hres, hf⟩

end Call.Effect

/-- What holds after any calls. -/
theorem invariant_run (hcap : config.cacheCapacity = .int n) (hn : 1 ≤ n) (calls : List Call) :
    Invariant config n calls (run (new config) calls) := by
  induction calls using List.reverseRecOn with
  | nil =>
    exact {
      config_eq := rfl
      capacity_eq := hcap
      nodup := List.nodup_nil
      size_le := Nat.zero_le n
      count := rfl
      kept := fun h => by cases h }
  | append_singleton calls c ih =>
    have hroom : (run (new config) calls).cache.capacity.atMost 0 = false := by
      rw [ih.capacity_eq]
      exact atMost_eq_false hn
    obtain ⟨heffect, hconfig⟩ := Call.effect_after hroom c
    obtain ⟨hcapacity, hnodup, hsize⟩ := heffect.bounded ih.capacity_eq ih.nodup ih.size_le
    have hcount' : (run (new config) calls).cache.hits + (run (new config) calls).cache.misses =
        compilations (run (new config) calls).config calls := by
      rw [ih.config_eq]
      exact ih.count
    have hcount := heffect.count hcount'
    rw [ih.config_eq] at hcount hconfig
    have hkept {key : String} {r : Result}
        (hr : (run (new config) (calls ++ [c])).cache.get? key = some r) :
        KeptSince config (calls ++ [c]) key r := by
      have hr' := hr
      rw [run_append] at hr'
      rcases heffect.get?_eq_some ih.nodup hnodup hr' with hold | ⟨hnone, graph, target, rfl, h⟩
      · exact (ih.kept hold).append c hr
      · rw [ih.config_eq] at h
        refine ⟨calls, graph, target, [], rfl, h.1, h.2.1, h.2.2, hnone, fun mid hmid => ?_⟩
        rw [List.prefix_nil.1 hmid]
        exact hr
    rw [run_append] at hkept ⊢
    exact ⟨hconfig, hcapacity, hnodup, hsize, hcount, hkept⟩

/-! ### Order -/

/-- A key is kept, and the entries behind it were used since. -/
def KeptBefore (key : String) (used : List String) (c : Cache Result) : Prop :=
  ∃ older newer r, c.entries = older ++ (key, r) :: newer ∧ ∀ e ∈ newer, e.1 ∈ used

/-- Only keys in use stand behind a key, so that there are no more of them than were used. -/
theorem length_newer_le {used : List String} {key : String} {older newer : List (String × Result)}
    {r : Result} (hnodup : ((older ++ (key, r) :: newer).map (·.1)).Nodup)
    (hused : ∀ e ∈ newer, e.1 ∈ used) : newer.length ≤ (used.toFinset.erase key).card := by
  rw [List.map_append, List.map_cons, List.nodup_append, List.nodup_cons] at hnodup
  obtain ⟨-, ⟨hkey, hnewer⟩, -⟩ := hnodup
  rw [← List.length_map (f := (·.1)), ← List.toFinset_card_of_nodup hnewer]
  refine Finset.card_le_card fun k hk => ?_
  rw [List.mem_toFinset] at hk
  refine Finset.mem_erase.2 ⟨?_, ?_⟩
  · rintro rfl
    exact hkey hk
  · obtain ⟨e, he, rfl⟩ := List.mem_map.1 hk
    exact List.mem_toFinset.2 (hused e he)

namespace Call.Effect

/-- A key that a call uses is the most recent one. -/
theorem keptBefore_of_use (h : Call.Effect s c cache) {key : String} (hu : c.use? s = some key) :
    KeptBefore key [] cache := by
  cases h with
  | none hk =>
    cases c with
    | compile => simp [Call.use?, hk] at hu
    | _ => simp [Call.use?] at hu
  | clear => simp [Call.use?] at hu
  | drop => simp [Call.use?] at hu
  | miss hk hn hr => simp [Call.use?_compile hk, hn, hr] at hu
  | @hit graph target k r hk hr =>
    obtain rfl : k = key := by simpa [Call.use?_compile hk, hr] using hu
    exact ⟨s.cache.others k, [], r, rfl, by simp⟩
  | @store graph target k r entries hk hn hr hf =>
    obtain rfl : k = key := by
      simpa [Call.use?_compile hk, hn, hr, Except.toOption, Result.ok, hf] using hu
    exact ⟨entries, [], r, rfl, by simp⟩

/-- A key stays as long as fewer others are in use than there is room for. -/
theorem keptBefore (h : Call.Effect s c cache) (hcap : s.cache.capacity = .int n)
    (hnodup : (s.cache.entries.map (·.1)).Nodup) (hnodup' : (cache.entries.map (·.1)).Nodup)
    {key : String} (hd : c.drops s.config key = false) {used : List String}
    (hs : KeptBefore key used s.cache)
    (hlt : ((used ++ (c.use? s).toList).toFinset.erase key).card < n) :
    KeptBefore key (used ++ (c.use? s).toList) cache := by
  obtain ⟨older, newer, r, hentries, hused⟩ := hs
  have hold : ∀ e ∈ newer, e.1 ∈ used ++ (c.use? s).toList :=
    fun e he => List.mem_append_left _ (hused e he)
  cases h with
  | none => exact ⟨older, newer, r, hentries, hold⟩
  | miss => exact ⟨older, newer, r, hentries, hold⟩
  | clear => cases hd
  | @drop graph target k hk =>
    have hne : k ≠ key := by
      rintro rfl
      simp [Call.drops, Call.key?_invalidate hk] at hd
    refine ⟨older.filter (·.1 != k), newer.filter (·.1 != k), r, ?_,
      fun e he => hold e (List.mem_of_mem_filter he)⟩
    simp [Cache.others, hentries, Ne.symm hne]
  | @hit graph target k r' hk hr =>
    have huse : Call.use? s (.compile graph target) = some k := by
      simp [Call.use?_compile hk, hr]
    by_cases hkey : k = key
    · subst hkey
      exact ⟨s.cache.others k, [], r', rfl, by simp⟩
    · refine ⟨older.filter (·.1 != k), newer.filter (·.1 != k) ++ [(k, r')], r, ?_, ?_⟩
      · simp [Cache.others, hentries, Ne.symm hkey]
      · intro e he
        rcases List.mem_append.1 he with he | he
        · exact hold e (List.mem_of_mem_filter he)
        · rw [List.mem_singleton.1 he, huse]
          simp
  | @store graph target k r' entries hk hn hr hf he =>
    have huse : Call.use? s (.compile graph target) = some k := by
      simp [Call.use?_compile hk, hr, Except.toOption, Result.ok, hf]
    have hnewer : ∀ e ∈ newer ++ [(k, r')],
        e.1 ∈ used ++ (Call.use? s (.compile graph target)).toList := by
      intro e he
      rcases List.mem_append.1 he with he | he
      · exact hold e he
      · rw [List.mem_singleton.1 he, huse]
        simp
    rcases he with ⟨rfl, -⟩ | ⟨hfull, e, he⟩
    · exact ⟨older, newer ++ [(k, r')], r, by simp [hentries], hnewer⟩
    · cases older with
      | cons e' older =>
        rw [he, List.cons_append, List.cons.injEq] at hentries
        exact ⟨older, newer ++ [(k, r')], r, by simp [hentries.2], hnewer⟩
      | nil =>
        -- The key itself would be given up, but then there are too many others behind it.
        rw [he, List.nil_append, List.cons.injEq] at hentries
        obtain ⟨rfl, rfl⟩ := hentries
        rw [hcap, atMost_iff, Cache.size, he, List.length_cons] at hfull
        have hkeys : ((([] : List (String × Result)) ++ (key, r) :: (entries ++ [(k, r')])).map
            (·.1)).Nodup := by
          have hne : key ∉ (entries ++ [(k, r')]).map (·.1) := by
            rw [he, List.map_cons, List.nodup_cons] at hnodup
            rw [Cache.get?_eq_none_iff, he, List.map_cons, List.mem_cons, not_or] at hn
            simpa [Ne.symm hn.1] using hnodup.1
          exact List.nodup_cons.2 ⟨hne, hnodup'⟩
        have hlength := length_newer_le hkeys hnewer
        rw [List.length_append, List.length_singleton] at hlength
        omega

end Call.Effect

theorem keptBefore_run (hn : 1 ≤ n) {key : String} {since : List Call} {s : Session}
    (hconfig : s.config = config) (hcap : s.cache.capacity = .int n)
    (hnodup : (s.cache.entries.map (·.1)).Nodup) (hsize : s.cache.size ≤ n)
    (hd : ∀ d ∈ since, d.drops config key = false) {used : List String}
    (hs : KeptBefore key used s.cache)
    (hlt : ((used ++ uses s since).toFinset.erase key).card < n) :
    KeptBefore key (used ++ uses s since) (run s since).cache := by
  induction since generalizing s used with
  | nil => simpa [uses, run] using hs
  | cons c since ih =>
    have hroom : s.cache.capacity.atMost 0 = false := by
      rw [hcap]
      exact atMost_eq_false hn
    obtain ⟨heffect, hconfig'⟩ := Call.effect_after hroom c
    obtain ⟨hcap', hnodup', hsize'⟩ := heffect.bounded hcap hnodup hsize
    have hmono : ((used ++ (c.use? s).toList).toFinset.erase key).card < n := by
      refine lt_of_le_of_lt (Finset.card_le_card (Finset.erase_subset_erase key ?_)) hlt
      intro k hk
      rw [List.mem_toFinset] at hk ⊢
      rw [uses, ← List.append_assoc]
      exact List.mem_append_left _ hk
    have hstep := heffect.keptBefore hcap hnodup hnodup'
      (by rw [hconfig]; exact hd c List.mem_cons_self) hs hmono
    rw [uses, ← List.append_assoc] at hlt ⊢
    exact ih (hconfig'.trans hconfig) hcap' hnodup' hsize'
      (fun d hd' => hd d (List.mem_cons_of_mem c hd')) hstep hlt

/-- A key that was used and not dropped is found, if since then fewer others were used than there is
room for. -/
theorem exists_get?_of_use (hcap : config.cacheCapacity = .int n) (hn : 1 ≤ n)
    {before since : List Call} {c : Call} {key : String}
    (hu : c.use? (run (new config) before) = some key)
    (hd : ∀ d ∈ since, d.drops config key = false)
    (hlt : ((uses (run (new config) (before ++ [c])) since).toFinset.erase key).card < n) :
    ∃ r, (run (new config) (before ++ c :: since)).cache.get? key = some r := by
  have hbefore := invariant_run hcap hn before
  have hafter := invariant_run hcap hn (before ++ [c])
  have hroom : (run (new config) before).cache.capacity.atMost 0 = false := by
    rw [hbefore.capacity_eq]
    exact atMost_eq_false hn
  have hrecent : KeptBefore key [] (run (new config) (before ++ [c])).cache := by
    rw [run_append]
    exact (Call.effect_after hroom c).1.keptBefore_of_use hu
  obtain ⟨older, newer, r, he, -⟩ := keptBefore_run hn hafter.config_eq hafter.capacity_eq
    hafter.nodup hafter.size_le hd hrecent (by simpa using hlt)
  have hrun : run (run (new config) (before ++ [c])) since =
      run (new config) (before ++ c :: since) := by
    simp [run]
  rw [hrun] at he
  have hend := invariant_run hcap hn (before ++ c :: since)
  exact ⟨r, (Cache.mem_entries_iff hend.nodup).1 (he ▸ by simp)⟩

/-- A kept result with new values has no failure either. -/
theorem failure_reuse {scene : Scene} {kept r : Result} (h : reuse scene kept = .ok r) :
    r.failure = kept.failure := by
  obtain ⟨news, -, h⟩ := Fault.bind_eq_ok_iff.1 h
  cases h
  rfl

/-- A compilation that fails moves no entry, unless a result was found whose new values cannot be
packed: that result has become the most recent one. -/
theorem entries_of_failed (hcap : config.cacheCapacity = .int n) (hn : 1 ≤ n) {graph : Graph}
    {target : Target} (hs : s = run (new config) calls)
    (hf : ∀ r, ((Session.compile graph target).run s).1 = .ok r → r.failure ≠ none) :
    (Call.after s (.compile graph target)).cache.entries = s.cache.entries ∨
      ∃ key kept f, fingerprint { graph, config } target = .ok key ∧ s.cache.get? key = some kept ∧
        reuse { graph, config } kept = .error f ∧
        ((Session.compile graph target).run s).1 = .error f ∧
        (Call.after s (.compile graph target)).cache.entries =
          s.cache.others key ++ [(key, kept)] := by
  have hinv := invariant_run hcap hn calls
  rw [← hs] at hinv
  rw [← hinv.config_eq]
  simp only [Call.after, run_compile] at hf ⊢
  cases hk : fingerprint { graph, config := s.config } target with
  | error f => exact Or.inl rfl
  | ok key =>
    simp only [hk] at hf ⊢
    cases hget : s.cache.get? key with
    | some kept =>
      simp only [hget] at hf ⊢
      cases hreuse : reuse { graph, config := s.config } kept with
      | error f => exact Or.inr ⟨key, kept, f, rfl, hget, hreuse, rfl, rfl⟩
      | ok r =>
        obtain ⟨_, _, _, _, -, -, -, hfailure, -⟩ := hinv.kept hget
        exact absurd ((failure_reuse hreuse).trans hfailure) (hf r hreuse)
    | none =>
      simp only [hget] at hf ⊢
      left
      cases hr : (Compile.compile { graph, config := s.config } target).1 with
      | error f => exact rfl
      | ok r =>
        simp only [hr] at hf ⊢
        cases hok : r.ok with
        | false => exact rfl
        | true =>
          simp only [hok, if_true] at hf ⊢
          cases hstore : Cache.store { s.cache with misses := s.cache.misses + 1 } key r with
          | error f => exact rfl
          | ok cache =>
            simp only [hstore] at hf
            exact absurd (Option.isNone_iff_eq_none.1 hok) (hf r rfl)

/-- After any calls, a session keeps no more results than it has room for. Each of them is what the
compilation that first asked for it gave; a compilation that fails moves none of them, unless it finds
one and cannot pack its new values; every compilation is counted as found or not; and what was used is
found again while fewer other keys were used than there is room for. -/
theorem keeps_recent_results (config : Config) {n : Nat} (hcap : config.cacheCapacity = .int n)
    (hn : 1 ≤ n) (calls : List Call) {s : Session} (hs : s = run (new config) calls) :
    s.cache.size ≤ n ∧ (s.cache.entries.map (·.1)).Nodup ∧
      (∀ key r, (key, r) ∈ s.cache.entries → KeptSince config calls key r) ∧
      (∀ graph target,
        (∀ r, ((Session.compile graph target).run s).1 = .ok r → r.failure ≠ none) →
        (Call.after s (.compile graph target)).cache.entries = s.cache.entries ∨
          ∃ key kept f, fingerprint { graph, config } target = .ok key ∧
            s.cache.get? key = some kept ∧ reuse { graph, config } kept = .error f ∧
            ((Session.compile graph target).run s).1 = .error f ∧
            (Call.after s (.compile graph target)).cache.entries =
              s.cache.others key ++ [(key, kept)]) ∧
      s.cache.hits + s.cache.misses = compilations config calls ∧
      ∀ before c since key, calls = before ++ c :: since →
        c.use? (run (new config) before) = some key → (∀ d ∈ since, d.drops config key = false) →
        ((uses (run (new config) (before ++ [c])) since).toFinset.erase key).card < n →
        ∀ graph target, fingerprint { graph, config } target = .ok key →
          ∃ kept, s.cache.get? key = some kept ∧
            ((Session.compile graph target).run s).1 = reuse { graph, config } kept ∧
            (Call.after s (.compile graph target)).cache.hits = s.cache.hits + 1 := by
  have hinv := invariant_run hcap hn calls
  rw [← hs] at hinv
  refine ⟨hinv.size_le, hinv.nodup, fun key r h => hinv.kept ((Cache.mem_entries_iff hinv.nodup).1 h),
    fun graph target hf => entries_of_failed hcap hn hs hf, hinv.count, ?_⟩
  intro before c since key hcalls hu hd hlt graph target hk
  obtain ⟨kept, hkept⟩ := exists_get?_of_use hcap hn hu hd hlt
  rw [← hcalls, ← hs] at hkept
  rw [← hinv.config_eq] at hk ⊢
  refine ⟨kept, hkept, ?_, ?_⟩
  · simp only [run_compile, hk, hkept]
  · simp only [Call.after, run_compile, hk, hkept]

/-! ### A result that is found and cannot be given its values -/

/-- Room for two results. -/
def roomForTwo : Config :=
  { cacheCapacity := .int 2 }

/-- A graph of one global array with one element. -/
def arrayGraph (element : Int) : Graph :=
  .ofLists [{ id := "a", kind := .globalVar, outputType := .array .int,
              globalValue := .list [.int element] }] []

/-- A graph of one node. -/
def nodeGraph : Graph :=
  .ofLists [{ id := "b" }] []

/-- The array and the node have different fingerprints, and the element of the array has no part in
them. -/
private theorem exists_keys : ∃ a b, a ≠ b ∧
    fingerprint { graph := arrayGraph 1, config := roomForTwo } { node := some "a" } = .ok a ∧
    fingerprint { graph := arrayGraph 3000000000, config := roomForTwo } { node := some "a" } = .ok a ∧
    fingerprint { graph := nodeGraph, config := roomForTwo } { node := some "b" } = .ok b := by
  refine ⟨Sha256.hexDigest "target:a:node:a:GLOBAL_VAR:int[]scope::global:src:g:1",
    Sha256.hexDigest "target:b:node:b:STANDARD:vec4scope::global:src:", by decide +kernel, ?_, ?_, ?_⟩
  · exact fingerprint_of_record
      (record_eq_of_toOption (by rw [record_of_sorted (by decide) (by decide)]; decide +kernel))
  · exact fingerprint_of_record
      (record_eq_of_toOption (by rw [record_of_sorted (by decide) (by decide)]; decide +kernel))
  · exact fingerprint_of_record
      (record_eq_of_toOption (by rw [record_of_sorted (by decide) (by decide)]; decide +kernel))

/-- A compilation that succeeds is kept as the most recent one if there is room. -/
theorem after_compile_of_miss {graph : Graph} {target : Target} {key : String} {r : Result}
    (hk : fingerprint { graph, config := s.config } target = .ok key) (hn : s.cache.get? key = none)
    (hr : (Compile.compile { graph, config := s.config } target).1 = .ok r) (hf : r.failure = none)
    (hroom : s.cache.capacity.atMost s.cache.size = false) :
    (Call.after s (.compile graph target)).cache =
        { s.cache with entries := s.cache.entries ++ [(key, r)], misses := s.cache.misses + 1 } ∧
      (Call.after s (.compile graph target)).config = s.config := by
  have hok : r.ok = true := Option.isNone_iff_eq_none.2 hf
  have hstore : Cache.store { s.cache with misses := s.cache.misses + 1 } key r =
      .ok { s.cache with entries := s.cache.entries ++ [(key, r)], misses := s.cache.misses + 1 } := by
    unfold Cache.store
    have hn' : Cache.get? { s.cache with misses := s.cache.misses + 1 } key = none := hn
    rw [hn', if_neg (by simp), if_neg (by simpa [Cache.size] using hroom)]
  simp only [Call.after, run_compile, hk, hn, hr, hok, hstore, if_true, and_self]

private theorem arrayGraph_succeeds :
    succeedsWith { graph := arrayGraph 1, config := roomForTwo } { node := some "a" }
      (fun _ => true) = true := by
  decide +kernel

private theorem nodeGraph_succeeds :
    succeedsWith { graph := nodeGraph, config := roomForTwo } { node := some "b" }
      (fun _ => true) = true := by
  decide +kernel

/-- The global array and the node are compiled one after the other. -/
def bothCompiled : Session :=
  run (new roomForTwo) [.compile (arrayGraph 1) { node := some "a" }, .compile nodeGraph { node := some "b" }]

private theorem exists_bothCompiled {a b : String} (hne : a ≠ b)
    (ha : fingerprint { graph := arrayGraph 1, config := roomForTwo } { node := some "a" } = .ok a)
    (hb : fingerprint { graph := nodeGraph, config := roomForTwo } { node := some "b" } = .ok b) :
    ∃ s ra rb, bothCompiled = s ∧ s.config = roomForTwo ∧ s.cache.entries = [(a, ra), (b, rb)] := by
  obtain ⟨ra, _, hra, hfa, -⟩ := exists_of_succeedsWith arrayGraph_succeeds
  obtain ⟨rb, _, hrb, hfb, -⟩ := exists_of_succeedsWith nodeGraph_succeeds
  obtain ⟨hcache₁, hconfig₁⟩ := after_compile_of_miss (s := new roomForTwo) ha rfl
    (congrArg Prod.fst hra) hfa rfl
  refine ⟨bothCompiled, ra, rb, rfl, ?_⟩
  rw [bothCompiled, run, List.foldl_cons, List.foldl_cons, List.foldl_nil]
  generalize Call.after (new roomForTwo) (.compile (arrayGraph 1) { node := some "a" }) = s
    at hcache₁ hconfig₁ ⊢
  have hconfig : s.config = roomForTwo := hconfig₁
  have hfresh : s.cache.get? b = none := by
    rw [hcache₁, Cache.get?_eq_none_iff]
    simp [new, Ne.symm hne]
  obtain ⟨hcache₂, hconfig₂⟩ := after_compile_of_miss (by rw [hconfig]; exact hb) hfresh
    (by rw [hconfig, hrb]) hfb (by rw [hcache₁]; rfl)
  rw [hcache₂, hcache₁, hconfig₂]
  exact ⟨hconfig, by simp [new]⟩

/-- A compilation that fails may move an entry: the result for the array is found, an element that does
not fit cannot be packed, and the result has become the most recent one. -/
theorem failed_refresh_moves_entry : ∃ a b, a ≠ b ∧
    bothCompiled.cache.entries.map (·.1) = [a, b] ∧
    ((Session.compile (arrayGraph 3000000000) { node := some "a" }).run bothCompiled).1 =
      .error .outOfRange ∧
    (Call.after bothCompiled
      (.compile (arrayGraph 3000000000) { node := some "a" })).cache.entries.map (·.1) = [b, a] := by
  obtain ⟨a, b, hne, ha, ha', hb⟩ := exists_keys
  obtain ⟨s, ra, rb, hs, hconfig, hentries⟩ := exists_bothCompiled hne ha hb
  rw [hs]
  have hget : s.cache.get? a = some ra := by
    simp [Cache.get?, hentries]
  have hothers : s.cache.others a = [(b, rb)] := by
    simp [Cache.others, hentries, Ne.symm hne]
  have hreuse : reuse { graph := arrayGraph 3000000000, config := roomForTwo } ra =
      .error .outOfRange := rfl
  refine ⟨a, b, hne, by simp [hentries], ?_, ?_⟩
  · simp only [run_compile, hconfig, ha', hget, hreuse]
  · simp only [Call.after, run_compile, hconfig, ha', hget, hothers]
    simp

/-- Both results are kept, and a new request for the first of them finds it. -/
theorem keeps_recent_results_both :
    roomForTwo.cacheCapacity = .int 2 ∧ bothCompiled.cache.size ≤ 2 ∧
      bothCompiled.cache.hits + bothCompiled.cache.misses = compilations roomForTwo
        [.compile (arrayGraph 1) { node := some "a" }, .compile nodeGraph { node := some "b" }] ∧
      ∃ key kept, fingerprint { graph := arrayGraph 1, config := roomForTwo } { node := some "a" } =
          .ok key ∧ bothCompiled.cache.get? key = some kept ∧
        ((Session.compile (arrayGraph 1) { node := some "a" }).run bothCompiled).1 =
          reuse { graph := arrayGraph 1, config := roomForTwo } kept := by
  obtain ⟨a, b, hne, ha, -, hb⟩ := exists_keys
  obtain ⟨hsize, -, -, -, hcount, hfound⟩ := keeps_recent_results roomForTwo (n := 2) rfl (by decide)
    [.compile (arrayGraph 1) { node := some "a" }, .compile nodeGraph { node := some "b" }]
    (s := bothCompiled) rfl
  have huse : Call.use? (new roomForTwo) (.compile (arrayGraph 1) { node := some "a" }) = some a := by
    obtain ⟨r, _, hr, hf, -⟩ := exists_of_succeedsWith arrayGraph_succeeds
    have hok : (Compile.compile { graph := arrayGraph 1, config := (new roomForTwo).config }
        { node := some "a" }).1.toOption.any (·.ok) = true := by
      rw [show (new roomForTwo).config = roomForTwo from rfl, hr]
      simp [Except.toOption, Result.ok, hf]
    rw [Call.use?_compile (s := new roomForTwo) ha, hok, Bool.or_true, if_pos rfl]
  have hfew (s : Session) (c : Call) : ((uses s [c]).toFinset.erase a).card < 2 := by
    have hlength : (uses s [c]).length ≤ 1 := by
      simp only [uses, List.append_nil]
      cases c.use? s <;> simp
    have hcard := (Finset.card_erase_le (s := (uses s [c]).toFinset) (a := a)).trans
      (List.toFinset_card_le (uses s [c]))
    omega
  obtain ⟨kept, hkept, hreuse, -⟩ := hfound [] _ [_] a rfl huse
    (fun d hd => by rw [List.mem_singleton.1 hd]; rfl) (hfew _ _) _ _ ha
  exact ⟨rfl, hsize, hcount, a, kept, ha, hkept, hreuse⟩

end Compile.Session

end RenderGraph
