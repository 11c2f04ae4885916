import Tahini.Core.Sha256
import Tahini.Core.Types

/-!
# The crate summary hash (`policy_signing/src/utils/dependency.rs`)

`Crate::dump_local_to_file` folds a crate's policy fingerprints and its
dependencies' summaries into one line:

  `total = sha256::digest(sha256::digest(to_vec(deps)) ++ sha256::digest(to_vec(impls)))`

Both maps are `HashMap<String, String>` with `RandomState`, and
`serde_json::to_vec` writes a `HashMap` in the order it iterates, which the
hasher's per-instance random keys choose. The model makes that choice an
input, `HashOrder`: an arrangement of the entries that is a permutation of
them. `dumpLocalToFile_summary` states what the code computes for every
choice; `dumpLocalToFile_order_dependent` evaluates it, with the real
SHA-256, at two orders of one two-entry map and finds two different files.
The sorting `prune_deps` and `get_leaves` perform before the map is built
does not survive `HashMap::from_iter`.
-/

namespace Tahini.Policy

open Tahini.Core

/-- The order in which one `HashMap` or `HashSet` instance iterates its entries. -/
structure HashOrder (α : Type) where
  arrange : List α → List α
  perm : ∀ l, (arrange l).Perm l

/-- `CrateName(pub String)`, ordered as its string. -/
structure CrateName where
  name : String
  deriving DecidableEq, Repr

/-- `Crate`: the policy fingerprints (as `hash_impls_of_trait` inserted
them) and the pruned dependencies with their summary hashes. -/
structure Crate where
  myCrateName : String
  localImplementationsStableHashes : List (String × String)
  dependenciesNames : List CrateName
  dependenciesHashes : List String

/-- `serde_json::to_vec` of a `HashMap<String, String>` iterating as `entries`. -/
def writeStringMap (entries : List (String × String)) : List Char :=
  '{' :: [','].intercalate (entries.map fun e => jsonString e.1 ++ ':' :: jsonString e.2) ++ ['}']

/-- `serde_json::to_writer_pretty` of a `HashMap<String, String>` at nesting `depth`. -/
def writePrettyMap (depth : Nat) : List (String × String) → List Char
  | [] => ['{', '}']
  | es => '{' :: '\n' :: [',', '\n'].intercalate (es.map fun e =>
      List.replicate (2 * (depth + 1)) ' ' ++ jsonString e.1 ++ ':' :: ' ' :: jsonString e.2) ++
      '\n' :: List.replicate (2 * depth) ' ' ++ ['}']

/-- `JsonDumpStruct`, with both maps in their iteration order. -/
structure JsonDumpStruct where
  dependencyHashes : List (String × String)
  localSummaryHash : List Char
  localImplsHashes : List (String × String)

/-- `serde_json::to_writer_pretty(file, &expanded)`. -/
def JsonDumpStruct.writePretty (d : JsonDumpStruct) : List Char :=
  "\x7b\n  ".data ++ jsonString "dependency_hashes" ++ ": ".data ++ writePrettyMap 1 d.dependencyHashes ++
  ",\n  ".data ++ jsonString "local_summary_hash" ++ ": ".data ++ jsonString ⟨d.localSummaryHash⟩ ++
  ",\n  ".data ++ jsonString "local_impls_hashes" ++ ": ".data ++ writePrettyMap 1 d.localImplsHashes ++
  "\n\x7d".data

/-- What `dump_local_to_file` computes: the summary line and the dump. -/
structure PolicyHashFile where
  totalHash : List Char
  expanded : JsonDumpStruct

/-- The text of the policy-hash file: the summary line, then the dump. -/
def PolicyHashFile.text (f : PolicyHashFile) : List Char :=
  f.totalHash ++ '\n' :: f.expanded.writePretty

/-- The dependency map `HashMap::from_iter(names.zip(hashes))` is built from. -/
def Crate.depEntries (k : Crate) : List (String × String) :=
  (k.dependenciesNames.map (·.name)).zip k.dependenciesHashes

/-- The hashing half of `dump_local_to_file`, given how its two maps iterate. -/
def Crate.dumpLocalToFile (k : Crate) (depsOrder implsOrder : HashOrder (String × String)) :
    PolicyHashFile :=
  let depsHashesMap := depsOrder.arrange k.depEntries
  let localImpls := implsOrder.arrange k.localImplementationsStableHashes
  let depTreeHash := sha256Digest (utf8 (writeStringMap depsHashesMap))
  let localHash := sha256Digest (utf8 (writeStringMap localImpls))
  { totalHash := sha256Digest (utf8 (depTreeHash ++ localHash))
    expanded := ⟨depsHashesMap, localHash, localImpls⟩ }

/-- For every iteration order: the summary line hashes the hex digests of the
two maps serialized in that order, and the dump records the second digest. -/
theorem dumpLocalToFile_summary (k : Crate) (depsOrder implsOrder : HashOrder (String × String)) :
    (k.dumpLocalToFile depsOrder implsOrder).totalHash =
      sha256Digest (utf8 (sha256Digest (utf8 (writeStringMap (depsOrder.arrange k.depEntries))) ++
        sha256Digest (utf8 (writeStringMap (implsOrder.arrange k.localImplementationsStableHashes))))) ∧
    (k.dumpLocalToFile depsOrder implsOrder).expanded.localSummaryHash =
      sha256Digest (utf8 (writeStringMap (implsOrder.arrange k.localImplementationsStableHashes))) := by
  simp only [Crate.dumpLocalToFile, and_self]

/-- The order a map iterates in when it happens to follow insertion order. -/
def HashOrder.insertion {α : Type} : HashOrder α := ⟨id, fun _ => List.Perm.refl _⟩

/-- The order a map iterates in when it happens to reverse insertion order. -/
def HashOrder.reversed {α : Type} : HashOrder α := ⟨List.reverse, List.reverse_perm⟩

/-- A crate with two policy implementations `a` and `b` and no dependencies. -/
def twoPolicyCrate : Crate := ⟨"svc_a", [("a", "1"), ("b", "2")], [], []⟩

set_option maxRecDepth 20000 in
theorem localSummaryHash_insertion :
    (twoPolicyCrate.dumpLocalToFile .insertion .insertion).expanded.localSummaryHash =
      "21f76dfbfe6dfe21f762080ef484112cf2952974cef30741fd1931e1c6d92112".data := by
  decide

set_option maxRecDepth 20000 in
theorem localSummaryHash_reversed :
    (twoPolicyCrate.dumpLocalToFile .insertion .reversed).expanded.localSummaryHash =
      "d85b5388397bc0bb7fb156ecba06dd0df8a2bc4c7376276ae6045f1fd3493c2b".data := by
  decide

/-- Two runs over the same crate whose fingerprint map iterates in two
different orders write different `local_summary_hash`es; the insertion-order
run hashes the key-sorted JSON `{"a":"1","b":"2"}`, the other does not. -/
theorem dumpLocalToFile_order_dependent :
    (twoPolicyCrate.dumpLocalToFile .insertion .reversed).expanded.localSummaryHash ≠
      (twoPolicyCrate.dumpLocalToFile .insertion .insertion).expanded.localSummaryHash := by
  rw [localSummaryHash_insertion, localSummaryHash_reversed]
  decide

end Tahini.Policy
