import Tahini.Policy.Leaves

/-!
# A sequential build and the ledger of summaries

When `cargo attest` compiles the crates of a workspace one after another,
each compilation runs `attest_crate` on `./policy_hashes/` as the previous
ones left it (`Compilation.runAlone`, `seqBuild`). What that directory is
for is a ledger: the list of dumps so far, in compilation order (`Ledger`).
Each dump commits a crate to the summaries of the crates it uses. It
records those of them that were dumped before, each once and in name order,
with the summary line of each one's latest dump (`Ledger.attested`,
`mem_depsOf`, `depsOf_sorted`).

`Ledger.toFs` is the directory a ledger stands for: the index lists the
dumped crates in order, and each crate's file holds its latest dump. The
refinement is `runAlone_toFs`: one compilation on the directory of a ledger
leaves the directory of the ledger with its dump appended. In particular its
`prune_deps` and `get_leaves` succeed, and they read exactly the ledger's
summaries. `seqBuild_refines` carries this over a whole build that starts
from the empty index `cargo attest` creates. The files of an earlier run stay
in the directory, but none of them is ever read: a crate is read only once
it is in the index, and by then its file has been rewritten.

Crate names are Rust identifiers, so they hold no line break; the model
keeps that as a field of `Compilation` and of `Dump`. Without it a name
could split into two index lines. The concurrent build of `Policy.Build` has
no such ledger: there the registrations interleave
(`registerToIndex_merged`).
-/

namespace Tahini.Policy

open Tahini.Core

/-! ## The code: compilations one after another -/

/-- A compilation of the policy hasher: the crate `from_compiler` and
`fetch_dependencies` build, how its process's hash set and maps iterate, and
the fact that the crate's name, an identifier, holds no line break. -/
structure Compilation where
  crate : Crate
  setOrder : HashOrder CrateName
  depsOrder : HashOrder (String × String)
  implsOrder : HashOrder (String × String)
  name_newline : '\n' ∉ crate.myCrateName.data
  name_cr : '\r' ∉ crate.myCrateName.data

/-- A compilation with the directory to itself: `attest_crate` reads the
directory as it stands, and then its process makes its calls one after
another. A failed attestation makes none. -/
def Compilation.runAlone (c : Compilation) (fs : BuildFs) : BuildFs :=
  match attestCrate c.crate c.setOrder fs fs c.depsOrder c.implsOrder with
  | .error _ => fs
  | .ok calls => (Build.run ⟨fs, [⟨calls, 0⟩]⟩ (List.replicate calls.length 0)).fs

/-- A sequential build: the compilations in order. -/
def seqBuild (fs : BuildFs) (cs : List Compilation) : BuildFs :=
  cs.foldl (fun fs c => c.runAlone fs) fs

/-! ## The ledger -/

/-- One dump: the crate's name and the file it wrote. The name holds no line
break, and the summary line is a hex digest. -/
structure Dump where
  name : String
  file : PolicyHashFile
  name_newline : '\n' ∉ name.data
  name_cr : '\r' ∉ name.data
  hash_newline : '\n' ∉ file.totalHash
  hash_cr : '\r' ∉ file.totalHash

/-- The dumps so far, in the order the compilations made them. -/
structure Ledger where
  dumps : List Dump

/-- No dump yet. -/
def Ledger.empty : Ledger := ⟨[]⟩

/-- The dumped crates, in order. -/
def Ledger.names (l : Ledger) : List String := l.dumps.map (·.name)

/-- A crate's latest dump. -/
def Ledger.latest (l : Ledger) (name : String) : Option PolicyHashFile :=
  (l.dumps.reverse.find? (·.name = name)).map (·.file)

/-- The directory the ledger stands for, over the policy-hash files an
earlier run left (`old`): the index lists the dumped crates in order, a
dumped crate's file holds its latest dump, and every other file is as the
earlier run left it. -/
def Ledger.toFs (l : Ledger) (old : String → Option (List Char)) : BuildFs :=
  ⟨some (l.dumps.flatMap fun d => d.name.data ++ ['\n']),
    fun n => ((l.latest n).map PolicyHashFile.text).or (old n)⟩

/-- The summary line of a crate's latest dump. -/
def Ledger.summaryOf (l : Ledger) (name : String) : String :=
  ⟨((l.latest name).map (·.totalHash)).getD []⟩

/-- The dependencies a crate records after the dumps of `l`: the crates it
uses that were dumped, each once, in name order. -/
def Ledger.depsOf (l : Ledger) (k : Crate) : List CrateName :=
  (k.dependenciesNames.dedup.filter fun d => d.name ∈ l.names).insertionSort (· ≤ ·)

/-- The crate as its dump records it after the dumps of `l`. -/
def Ledger.attested (l : Ledger) (k : Crate) : Crate :=
  { k with
    dependenciesNames := l.depsOf k
    dependenciesHashes := (l.depsOf k).map fun d => l.summaryOf d.name }

/-- A compilation appends its dump. -/
def Ledger.step (l : Ledger) (c : Compilation) : Ledger :=
  ⟨l.dumps ++ [⟨c.crate.myCrateName, (l.attested c.crate).dumpLocalToFile c.depsOrder c.implsOrder,
    c.name_newline, c.name_cr, (totalHash_hex _ _ _).1, (totalHash_hex _ _ _).2⟩]⟩

theorem depsOf_sorted (l : Ledger) (k : Crate) : (l.depsOf k).Sorted (· < ·) :=
  (List.sorted_insertionSort _ _).lt_of_le
    ((List.perm_insertionSort _ _).nodup_iff.2 ((List.nodup_dedup _).filter _))

theorem mem_depsOf (l : Ledger) (k : Crate) (d : CrateName) :
    d ∈ l.depsOf k ↔ d ∈ k.dependenciesNames ∧ d.name ∈ l.names := by
  simp [Ledger.depsOf, (List.perm_insertionSort _ _).mem_iff]

theorem latest_append (l : Ledger) (d : Dump) :
    (⟨l.dumps ++ [d]⟩ : Ledger).latest = Function.update l.latest d.name (some d.file) := by
  funext n
  by_cases hn : n = d.name
  · subst hn; simp [Ledger.latest]
  · simp [Ledger.latest, Function.update_noteq hn, Ne.symm hn]

/-- A dumped crate's latest dump is one of its dumps. -/
theorem latest_of_mem {l : Ledger} {n : String} (h : n ∈ l.names) :
    ∃ d ∈ l.dumps, d.name = n ∧ l.latest n = some d.file := by
  obtain ⟨d₀, hd₀, rfl⟩ := List.mem_map.1 h
  obtain ⟨d, hd⟩ := Option.isSome_iff_exists.1
    (List.find?_isSome.2 ⟨d₀, List.mem_reverse.2 hd₀, by simp⟩ :
      (l.dumps.reverse.find? (·.name = d₀.name)).isSome)
  exact ⟨d, List.mem_reverse.1 (List.mem_of_find?_eq_some hd), by simpa using List.find?_some hd,
    by simp [Ledger.latest, hd]⟩

/-! ## Reading the ledger's directory -/

/-- `BufRead::lines` over a text that starts with a line. -/
theorem readLines_append_newline {a : List Char} (ha : '\n' ∉ a) (rest : List Char) :
    readLines (a ++ '\n' :: rest) = stripCr a :: readLines rest := by
  have hs : (a ++ '\n' :: rest).splitOn '\n' = a :: rest.splitOn '\n' :=
    List.splitOnP_first (· == '\n') a (fun x hx he => ha (beq_iff_eq.1 he ▸ hx)) '\n' rfl rest
  have hne : rest.splitOn '\n' ≠ [] := List.splitOnP_ne_nil _ rest
  simp only [readLines, hs, List.dropLast_cons_of_ne_nil hne, List.map_cons, List.cons_append,
    List.getLast?_cons, Option.getD_eq_iff]
  cases h : (rest.splitOn '\n').getLast? with
  | none => exact absurd (List.getLast?_eq_none_iff.1 h) hne
  | some x => rfl

/-- The index of a ledger reads back as its names. -/
theorem readLines_index (ds : List Dump) :
    readLines (ds.flatMap fun d => d.name.data ++ ['\n']) = ds.map (·.name.data) := by
  induction ds with
  | nil => rfl
  | cons d ds ih =>
    rw [List.flatMap_cons, List.append_assoc, List.singleton_append,
      readLines_append_newline d.name_newline, stripCr_of_not_mem d.name_cr, ih]
    rfl

/-- `get_leaves` reads a dumped crate's summary line. -/
theorem readDepHash_toFs {l : Ledger} {n : String} (h : n ∈ l.names) (old : String → Option (List Char)) :
    readDepHash (l.toFs old) n = .ok (l.summaryOf n).data := by
  obtain ⟨d, -, -, hd⟩ := latest_of_mem h
  simp [readDepHash, Ledger.toFs, Ledger.summaryOf, hd, PolicyHashFile.text,
    firstLine_append d.hash_newline, stripCr_of_not_mem d.hash_cr]

/-- On the ledger's directory, `attest_crate` succeeds and dumps the crate
as the ledger records it. -/
theorem attestCrate_toFs (l : Ledger) (old : String → Option (List Char)) (c : Compilation) :
    attestCrate c.crate c.setOrder (l.toFs old) (l.toFs old) c.depsOrder c.implsOrder =
      .ok (dumpLocalToFileCalls c.crate.myCrateName
        ((l.attested c.crate).dumpLocalToFile c.depsOrder c.implsOrder)) := by
  obtain ⟨ds, hp, hsorted, hmem⟩ :=
    pruneDeps_some c.crate c.setOrder (l.dumps.flatMap fun d => d.name.data ++ ['\n'])
  have hmem' : ∀ d, d ∈ ds ↔ d ∈ c.crate.dependenciesNames ∧ d.name ∈ l.names := fun d => by
    rw [hmem, readLines_index, Ledger.names, List.mem_map, List.mem_map]
    exact and_congr_right fun _ => ⟨fun ⟨a, ha, he⟩ => ⟨a, ha, String.ext he⟩, fun ⟨a, ha, he⟩ => ⟨a, ha, he ▸ rfl⟩⟩
  -- `prune_deps` keeps what the ledger says: two sorted lists with the same members
  have hds : ds = l.depsOf c.crate :=
    List.eq_of_perm_of_sorted ((List.perm_ext_iff_of_nodup hsorted.nodup
      (depsOf_sorted l c.crate).nodup).2 fun d => by rw [hmem', mem_depsOf])
      hsorted.le_of_lt (depsOf_sorted l c.crate).le_of_lt
  have hc : collectDepHashes (l.toFs old) ds = .ok (ds.map fun d => (d, (l.summaryOf d.name).data)) :=
    collectDepHashes_eq_ok.2 (List.forall₂_map_right_iff.2 (List.forall₂_same.2 fun d hd =>
      ⟨rfl, readDepHash_toFs ((hmem' d).1 hd).2 old⟩))
  have hidx : (l.toFs old).index = some (l.dumps.flatMap fun d => d.name.data ++ ['\n']) := rfl
  simp only [attestCrate, hidx, hp, bind, Except.bind]
  rw [getLeaves_of_sorted hsorted, hc, hds]
  simp [Except.map, pure, Except.pure, Ledger.attested, Function.comp_def]

/-! ## The refinement -/

/-- A process alone, taking a turn per call: its calls run one after another. -/
theorem Build.run_solo (calls : List FsCall) : ∀ (fs : BuildFs) (off : Nat),
    (Build.run ⟨fs, [⟨calls, off⟩]⟩ (List.replicate calls.length 0)).fs =
      (calls.foldl (fun st c => c.apply st) (fs, off)).1 := by
  induction calls with
  | nil => intro fs off; rfl
  | cons c cs ih =>
    intro fs off
    have hstep : Build.step ⟨fs, [⟨c :: cs, off⟩]⟩ 0 =
        ⟨(c.apply (fs, off)).1, [⟨cs, (c.apply (fs, off)).2⟩]⟩ := rfl
    rw [List.length_cons, List.replicate_succ, Build.run, List.foldl_cons, hstep, List.foldl_cons]
    exact ih _ _

/-- A dump run alone: the index gains the name's line, and the file holds the dump. -/
theorem foldl_apply_dumpLocalToFileCalls (name : String) (f : PolicyHashFile) (fs : BuildFs) (off : Nat) :
    ((dumpLocalToFileCalls name f).foldl (fun st c => c.apply st) (fs, off)).1 =
      ⟨some (fs.index.getD [] ++ name.data ++ ['\n']), Function.update fs.files name (some f.text)⟩ := by
  simp [dumpLocalToFileCalls, registerToIndex, FsCall.apply, writeAt_of_length, PolicyHashFile.text]

/-- One compilation on the directory of a ledger leaves the directory of the
ledger with its dump appended. -/
theorem runAlone_toFs (l : Ledger) (old : String → Option (List Char)) (c : Compilation) :
    c.runAlone (l.toFs old) = (l.step c).toFs old := by
  rw [Compilation.runAlone, attestCrate_toFs]
  dsimp only
  rw [Build.run_solo, foldl_apply_dumpLocalToFileCalls]
  simp only [Ledger.toFs, Ledger.step, latest_append, Option.getD_some, List.flatMap_append,
    List.flatMap_singleton, List.append_assoc, BuildFs.mk.injEq, true_and]
  funext n
  by_cases hn : n = c.crate.myCrateName
  · subst hn; simp
  · simp [Function.update_noteq hn]

theorem seqBuild_toFs (cs : List Compilation) (old : String → Option (List Char)) :
    ∀ l : Ledger, seqBuild (l.toFs old) cs = (cs.foldl Ledger.step l).toFs old := by
  induction cs with
  | nil => intro l; rfl
  | cons c cs ih =>
    intro l
    rw [seqBuild, List.foldl_cons, runAlone_toFs]
    exact ih _

/-- A sequential build from the empty index that `cargo attest` starts with,
whatever policy-hash files an earlier run left, leaves the directory of the
ledger of its dumps over them. Every compilation's
`attest_crate` succeeds, and its dump records the crate as the ledger says:
the crates it uses that were compiled before it, each once and in name
order, each with the summary line of its latest dump. -/
theorem seqBuild_refines (cs : List Compilation) (old : String → Option (List Char)) :
    seqBuild ⟨some [], old⟩ cs = (cs.foldl Ledger.step Ledger.empty).toFs old ∧
      ∀ pre c post, cs = pre ++ c :: post →
        attestCrate c.crate c.setOrder (seqBuild ⟨some [], old⟩ pre) (seqBuild ⟨some [], old⟩ pre)
            c.depsOrder c.implsOrder =
          .ok (dumpLocalToFileCalls c.crate.myCrateName
            (((pre.foldl Ledger.step Ledger.empty).attested c.crate).dumpLocalToFile c.depsOrder c.implsOrder)) := by
  have hempty : Ledger.empty.toFs old = ⟨some [], old⟩ := rfl
  refine ⟨hempty ▸ seqBuild_toFs cs old Ledger.empty, fun pre c post _ => ?_⟩
  rw [← hempty, seqBuild_toFs]
  exact attestCrate_toFs _ old c

end Tahini.Policy
