import Tahini.Policy.Build
import Mathlib.Data.List.Sort
import Mathlib.Data.List.Dedup
import Mathlib.Data.String.Basic

/-!
# Pruning the dependencies and reading their summaries

Before `dump_local_to_file` hashes a crate, `attest_crate` runs two readers
over `./policy_hashes/` (`policy_signing/src/utils/dependency.rs`):

* `prune_deps` keeps the used crates that are lines of the hash index. It
  collects both sides into `HashSet`s, iterates their intersection and sorts
  the result (`Crate.pruneDeps`).
* `get_leaves` reads the first line of each kept dependency's policy-hash
  file, stops at the first one that is missing or empty, and sorts the pairs
  by crate name (`Crate.getLeaves`, over the loop `collectDepHashes`).

The intersection iterates in the order the set's random hasher picks, which
the model takes as an input (`HashOrder`, as for the maps of
`dump_local_to_file`). Unlike there, the order never reaches the output: the
sort after it makes `prune_deps` a function of the two sets
(`pruneDeps_order_independent`). `pruneDeps_some` says what that function is,
and `getLeaves_of_sorted` with `collectDepHashes_eq_ok` what `get_leaves`
then records: the sort it performs leaves already sorted names in place.
`pruneDeps_getLeaves_absent_index_blank_line` shows two edge cases. A
missing index is an error, not an empty index. A first line that is blank is
read as the empty hash, not refused.

Mirroring notes vs the source:
- `lines().map_while(Result::ok)` stops at the first line that is not UTF-8,
  and `get_leaves` fails on a first line that is not; the model's text is
  characters, so neither happens.
- On a missing index `prune_deps` clears the dependency list before it
  returns the error. `attest_crate` returns that error at once and the cleared
  list is never read, so the model returns the error alone.
- `format_file_name` turns a crate into `./policy_hashes/<crate>_policy_hashes.json`;
  the model keys the files by crate name (`BuildFs.files`).
-/

namespace Tahini.Policy

open Tahini.Core

/-- The derived `Ord` of `CrateName`, which is its name's: Rust compares the
UTF-8 bytes, which orders strings as their characters do. -/
instance : LinearOrder CrateName :=
  LinearOrder.lift' CrateName.name fun a b h => by cases a; cases b; cases h; rfl

/-! ## `prune_deps` -/

/-- `prune_deps`, the intersection of the two sets iterating as `setOrder` says. -/
def Crate.pruneDeps (k : Crate) (setOrder : HashOrder CrateName) (index : Option (List Char)) :
    Except IoError Crate :=
  match index with
  | none => .error ⟨.notFound, "No such file or directory"⟩
  | some text =>
    let alreadyHashed := (readLines text).map fun l => CrateName.mk ⟨l⟩
    let myDepsVec := setOrder.arrange (k.dependenciesNames.dedup.filter alreadyHashed.contains)
    .ok { k with dependenciesNames := myDepsVec.insertionSort (· ≤ ·) }

/-- The set intersection's order does not reach the pruned list. -/
theorem pruneDeps_order_independent (k : Crate) (o₁ o₂ : HashOrder CrateName)
    (index : Option (List Char)) : k.pruneDeps o₁ index = k.pruneDeps o₂ index := by
  cases index with
  | none => rfl
  | some text =>
    simp only [Crate.pruneDeps, Except.ok.injEq, Crate.mk.injEq, and_true, true_and]
    exact List.eq_of_perm_of_sorted
      (((List.perm_insertionSort _ _).trans (o₁.perm _)).trans
        ((o₂.perm _).symm.trans (List.perm_insertionSort _ _).symm))
      (List.sorted_insertionSort _ _) (List.sorted_insertionSort _ _)

/-- With an index, `prune_deps` keeps exactly the used crates that are index
lines, each once, in strictly increasing order, and changes nothing else. -/
theorem pruneDeps_some (k : Crate) (o : HashOrder CrateName) (text : List Char) :
    ∃ ds, k.pruneDeps o (some text) = .ok { k with dependenciesNames := ds } ∧
      ds.Sorted (· < ·) ∧ ∀ c, c ∈ ds ↔ c ∈ k.dependenciesNames ∧ c.name.data ∈ readLines text := by
  let kept :=
    k.dependenciesNames.dedup.filter ((readLines text).map fun l => CrateName.mk ⟨l⟩).contains
  have hperm : ((o.arrange kept).insertionSort (· ≤ ·)).Perm kept :=
    (List.perm_insertionSort _ _).trans (o.perm _)
  refine ⟨_, rfl, (List.sorted_insertionSort _ _).lt_of_le
    (hperm.nodup_iff.2 ((List.nodup_dedup _).filter _)), fun c => ?_⟩
  simp only [hperm.mem_iff, kept, List.mem_filter, List.mem_dedup, List.elem_iff, List.mem_map,
    List.contains]
  exact and_congr_right fun _ => ⟨fun ⟨_, ha, he⟩ => he ▸ ha, fun h => ⟨_, h, rfl⟩⟩

/-! ## `get_leaves` -/

/-- The loop of `get_leaves`: each dependency with its file's first line, in
order; the first dependency that cannot be read ends it with that error. -/
def collectDepHashes (fs : BuildFs) : List CrateName → Except IoError (List (CrateName × List Char))
  | [] => .ok []
  | dep :: deps => do
    let depHash ← readDepHash fs dep.name
    let rest ← collectDepHashes fs deps
    pure ((dep, depHash) :: rest)

/-- `get_leaves`: the pairs sorted by crate name (`sort_by_key` is stable, as
insertion sort is), their hashes recorded in that order. -/
def Crate.getLeaves (k : Crate) (fs : BuildFs) : Except IoError Crate := do
  let depHashes ← collectDepHashes fs k.dependenciesNames
  let sorted := depHashes.insertionSort fun a b => a.1 ≤ b.1
  pure { k with dependenciesHashes := sorted.map fun x => ⟨x.2⟩ }

theorem collectDepHashes_cons_error {fs : BuildFs} {d : CrateName} {e : IoError}
    (hd : readDepHash fs d.name = .error e) (ds : List CrateName) :
    collectDepHashes fs (d :: ds) = .error e := by
  simp [collectDepHashes, hd, bind, Except.bind]

theorem collectDepHashes_cons_ok {fs : BuildFs} {d : CrateName} {h : List Char}
    (hd : readDepHash fs d.name = .ok h) (ds : List CrateName) :
    collectDepHashes fs (d :: ds) = (collectDepHashes fs ds).map ((d, h) :: ·) := by
  simp only [collectDepHashes, hd, bind, Except.bind]
  cases collectDepHashes fs ds <;> rfl

/-- The loop succeeds exactly when every dependency's first line reads, and
then pairs each dependency with it. -/
theorem collectDepHashes_eq_ok {fs : BuildFs} {deps : List CrateName}
    {ps : List (CrateName × List Char)} :
    collectDepHashes fs deps = .ok ps ↔
      List.Forall₂ (fun d p => p.1 = d ∧ readDepHash fs d.name = .ok p.2) deps ps := by
  constructor
  · intro h
    induction deps generalizing ps with
    | nil => cases h; exact .nil
    | cons d ds ih =>
      rcases hd : readDepHash fs d.name with e | h'
      · rw [collectDepHashes_cons_error hd] at h
        cases h
      · rw [collectDepHashes_cons_ok hd] at h
        rcases hr : collectDepHashes fs ds with e | rs <;> rw [hr] at h <;> cases h
        exact .cons ⟨rfl, hd⟩ (ih hr)
  · intro h
    induction h with
    | nil => rfl
    | cons hp _ ih =>
      obtain ⟨rfl, hd⟩ := hp
      rw [collectDepHashes_cons_ok hd, ih]
      rfl

/-- The loop fails exactly at the first dependency whose file cannot be read,
with that dependency's error. -/
theorem collectDepHashes_eq_error {fs : BuildFs} {deps : List CrateName} {e : IoError} :
    collectDepHashes fs deps = .error e ↔
      ∃ pre d post, deps = pre ++ d :: post ∧ (∀ d' ∈ pre, ∃ h, readDepHash fs d'.name = .ok h) ∧
        readDepHash fs d.name = .error e := by
  constructor
  · intro h
    induction deps with
    | nil => cases h
    | cons d ds ih =>
      rcases hd : readDepHash fs d.name with e' | h'
      · rw [collectDepHashes_cons_error hd] at h
        cases h
        exact ⟨[], d, ds, rfl, by simp, hd⟩
      · rw [collectDepHashes_cons_ok hd] at h
        rcases hr : collectDepHashes fs ds with e'' | rs <;> rw [hr] at h <;> cases h
        obtain ⟨pre, d', post, rfl, hpre, he⟩ := ih hr
        exact ⟨d :: pre, d', post, rfl, List.forall_mem_cons.2 ⟨⟨h', hd⟩, hpre⟩, he⟩
  · rintro ⟨pre, d, post, rfl, hpre, he⟩
    induction pre with
    | nil => exact collectDepHashes_cons_error he post
    | cons d' pre ih =>
      obtain ⟨h, hh⟩ := hpre d' (List.mem_cons_self _ _)
      rw [List.cons_append, collectDepHashes_cons_ok hh,
        ih fun x hx => hpre x (List.mem_cons_of_mem _ hx)]
      rfl

theorem map_fst_collectDepHashes {fs : BuildFs} {deps : List CrateName}
    {ps : List (CrateName × List Char)} (h : collectDepHashes fs deps = .ok ps) :
    ps.map Prod.fst = deps := by
  have hf := collectDepHashes_eq_ok.1 h
  clear h
  induction hf with
  | nil => rfl
  | cons hp _ ih => simp [hp.1, ih]

/-- On dependencies in increasing order, as `prune_deps` leaves them, the sort
of `get_leaves` changes nothing: the hashes are recorded in dependency order. -/
theorem getLeaves_of_sorted {k : Crate} (hs : k.dependenciesNames.Sorted (· < ·))
    (fs : BuildFs) :
    k.getLeaves fs = (collectDepHashes fs k.dependenciesNames).map
      fun ps => { k with dependenciesHashes := ps.map fun x => ⟨x.2⟩ } := by
  rcases hc : collectDepHashes fs k.dependenciesNames with e | ps
  · simp [Crate.getLeaves, hc, bind, Except.bind, Except.map]
  · have hsorted : ps.Sorted fun a b => a.1 ≤ b.1 := by
      rw [← map_fst_collectDepHashes hc, List.Sorted, List.pairwise_map] at hs
      exact hs.imp le_of_lt
    simp [Crate.getLeaves, hc, bind, Except.bind, Except.map, pure, Except.pure,
      hsorted.insertionSort_eq]

/-- Where the two readers part from what they were written to do: a missing
index is an error and not an empty index, and a dependency file whose first
line is blank is read as the empty hash. Here a crate depends on `dep`, and
`dep`'s file starts with an empty line. -/
theorem pruneDeps_getLeaves_absent_index_blank_line (o : HashOrder CrateName) :
    (Crate.mk "svc" [] [⟨"dep"⟩] []).pruneDeps o none = .error ⟨.notFound, "No such file or directory"⟩ ∧
      ((Crate.mk "svc" [] [⟨"dep"⟩] []).pruneDeps o (some "dep\n".data) >>= fun k =>
        k.getLeaves ⟨some "dep\n".data, fun n => if n = "dep" then some "\nabc".data else none⟩) =
        .ok (Crate.mk "svc" [] [⟨"dep"⟩] [""]) := by
  simp only [pruneDeps_order_independent _ o .insertion]
  exact ⟨rfl, rfl⟩

/-! ## `attest_crate` -/

/-- `attest_crate` up to its dump: prune against the index as `pruneFs` holds
it, read the leaves from `leavesFs` (other compilations may write in
between), and the calls `dump_local_to_file` then issues, given how its two
maps iterate. -/
def attestCrate (k : Crate) (setOrder : HashOrder CrateName) (pruneFs leavesFs : BuildFs)
    (depsOrder implsOrder : HashOrder (String × String)) : Except IoError (List FsCall) := do
  let k ← k.pruneDeps setOrder pruneFs.index
  let k ← k.getLeaves leavesFs
  pure (dumpLocalToFileCalls k.myCrateName (k.dumpLocalToFile depsOrder implsOrder))

/-- What a successful `attest_crate` dumps: the crate with its own name and
fingerprints, its dependencies pruned against the index it found, in strictly
increasing order, and beside each the first line of that dependency's file. -/
theorem attestCrate_ok {k : Crate} {setOrder : HashOrder CrateName} {pruneFs leavesFs : BuildFs}
    {depsOrder implsOrder : HashOrder (String × String)} {calls : List FsCall}
    (h : attestCrate k setOrder pruneFs leavesFs depsOrder implsOrder = .ok calls) :
    ∃ (text : List Char) (k' : Crate), pruneFs.index = some text ∧
      calls = dumpLocalToFileCalls k.myCrateName (k'.dumpLocalToFile depsOrder implsOrder) ∧
      k'.myCrateName = k.myCrateName ∧
      k'.localImplementationsStableHashes = k.localImplementationsStableHashes ∧
      k'.dependenciesNames.Sorted (· < ·) ∧
      (∀ c, c ∈ k'.dependenciesNames ↔ c ∈ k.dependenciesNames ∧ c.name.data ∈ readLines text) ∧
      List.Forall₂ (fun d h => readDepHash leavesFs d.name = .ok h.data)
        k'.dependenciesNames k'.dependenciesHashes := by
  rcases hidx : pruneFs.index with _ | text
  · simp [attestCrate, hidx, Crate.pruneDeps, bind, Except.bind] at h
  obtain ⟨ds, hp, hsorted, hmem⟩ := pruneDeps_some k setOrder text
  simp only [attestCrate, hidx, hp, bind, Except.bind] at h
  rw [getLeaves_of_sorted hsorted] at h
  rcases hc : collectDepHashes leavesFs ds with e | ps <;>
    simp only [hc, Except.map, pure, Except.pure, Except.ok.injEq, reduceCtorEq] at h
  refine ⟨text, _, rfl, h.symm, rfl, rfl, hsorted, hmem, ?_⟩
  exact List.forall₂_map_right_iff.2 ((collectDepHashes_eq_ok.1 hc).imp fun _ _ hp => hp.2)

end Tahini.Policy
