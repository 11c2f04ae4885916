import Tahini.Policy.Summary

/-!
# Concurrent crate compilations and the hash index

Cargo runs the policy hasher in one `rustc` process per crate, several at a
time. Their only shared state is `./policy_hashes/`: the append-only
`hash_index` and one `<crate>_policy_hashes.json` per crate. This file
models that directory (`BuildFs`), each compilation as the list of system
calls it issues (`Proc`), and a build as any interleaving of those calls
(`Build.run` over a schedule of process indices). One `write(2)` is one
atomic step; an `O_APPEND` write lands whole at the end of the index.

What the processes issue comes from the source:
- `register_to_index` is `write!(index_file, "{}\n", name)`. `fmt::write`
  hands the argument and the literal `"\n"` to `write_all` separately, so a
  registration is two appends (`registerToIndex`).
- `dump_local_to_file` creates (truncates) its file, registers the crate,
  then writes the summary line (again two writes) and the pretty dump
  (`dumpLocalToFileCalls`). serde_json's pretty writer issues many small
  writes; only the first line is ever read back, so they are folded into one.
- A call that fails ends its process (`attest_crate` returns the error and
  `rustc` stops), which a schedule expresses by never running the process
  again.

Readers: `prune_deps` reads the index's lines and `get_leaves` the first
line of each retained dependency's file (`readLines`, `firstLine`).

`registerToIndex_merged` runs two registrations interleaved and reads back
one merged name and one empty line. `dumpLocalToFile_indexed_before_written`
stops a dump after its registration and finds the indexed crate's file empty,
so a dependent's `get_leaves` fails.
-/

namespace Tahini.Policy

open Tahini.Core

/-- `./policy_hashes/`: the index (if created) and the policy-hash files. -/
structure BuildFs where
  index : Option (List Char)
  files : String → Option (List Char)

/-- One system call on `./policy_hashes/`. -/
inductive FsCall where
  /-- `File::create`: create or truncate a crate's policy-hash file. -/
  | createFile (crate : String)
  /-- One `write(2)` on the index opened with `append(true).create(true)`. -/
  | appendIndex (text : List Char)
  /-- One `write(2)` on a crate's open policy-hash file, at the handle's offset. -/
  | writeFile (crate : String) (text : List Char)

/-- A compilation: its pending calls and the offset of its file handle. -/
structure Proc where
  calls : List FsCall
  offset : Nat

/-- `text` written over `content` at `offset`; a gap reads as NUL bytes. -/
def writeAt (content : List Char) (offset : Nat) (text : List Char) : List Char :=
  content.take offset ++ List.replicate (offset - content.length) '\x00' ++ text ++
    content.drop (offset + text.length)

/-- The effect of one call on the directory and on the caller's offset. -/
def FsCall.apply : FsCall → BuildFs × Nat → BuildFs × Nat
  | .createFile c, (fs, _) => ({ fs with files := Function.update fs.files c (some []) }, 0)
  | .appendIndex t, (fs, off) => ({ fs with index := some (fs.index.getD [] ++ t) }, off)
  | .writeFile c t, (fs, off) =>
    ({ fs with files := Function.update fs.files c (some (writeAt ((fs.files c).getD []) off t)) },
      off + t.length)

/-- A build in progress: the directory and the compilations. -/
structure Build where
  fs : BuildFs
  procs : List Proc

/-- Let process `i` issue its next call (nothing if it has none left). -/
def Build.step (b : Build) (i : Nat) : Build :=
  match b.procs[i]? with
  | some ⟨call :: rest, off⟩ =>
    let r := call.apply (b.fs, off)
    { fs := r.1, procs := b.procs.set i ⟨rest, r.2⟩ }
  | _ => b

/-- The build after the processes took turns as `schedule` says. -/
def Build.run (b : Build) (schedule : List Nat) : Build := schedule.foldl Build.step b

/-- `register_to_index`: the name, then the newline, as two appends. -/
def registerToIndex (name : String) : List FsCall := [.appendIndex name.data, .appendIndex ['\n']]

/-- The calls `dump_local_to_file` issues for a crate whose dump is `f`. -/
def dumpLocalToFileCalls (name : String) (f : PolicyHashFile) : List FsCall :=
  .createFile name :: registerToIndex name ++
    [.writeFile name f.totalHash, .writeFile name ['\n'], .writeFile name f.expanded.writePretty]

/-- A line `BufRead::lines` read up to a newline, without the `\r` of a `\r\n`. -/
def stripCr (l : List Char) : List Char := if l.getLast? = some '\r' then l.dropLast else l

/-- `BufRead::lines`: the text split at newlines. A line ended by a newline
loses a `\r` before it; the text after the last newline is a line only if it
is not empty. -/
def readLines (text : List Char) : List (List Char) :=
  let ls := text.splitOn '\n'
  ls.dropLast.map stripCr ++ (ls.getLast?.filter (!·.isEmpty)).toList

/-- `BufReader::new(file).lines().next()`: the first line, if the file has one. -/
def firstLine (content : List Char) : Option (List Char) := (readLines content).head?

theorem stripCr_of_not_mem {l : List Char} (h : '\r' ∉ l) : stripCr l = l :=
  if_neg fun h' => h (List.mem_of_getLast?_eq_some h')

/-- The first line of a text with a newline is what stands before the first one. -/
theorem firstLine_append {l : List Char} (hl : '\n' ∉ l) (rest : List Char) :
    firstLine (l ++ '\n' :: rest) = some (stripCr l) := by
  have hs : (l ++ '\n' :: rest).splitOn '\n' = l :: rest.splitOn '\n' :=
    List.splitOnP_first (· == '\n') l (fun x hx he => hl (beq_iff_eq.1 he ▸ hx)) '\n' rfl rest
  have hne : rest.splitOn '\n' ≠ [] := List.splitOnP_ne_nil _ rest
  simp only [firstLine, readLines, hs, List.dropLast_cons_of_ne_nil hne, List.map_cons,
    List.cons_append, List.head?_cons]

/-- `get_leaves`' read of one dependency: its file's first line, or the
error it reports. -/
def readDepHash (fs : BuildFs) (dep : String) : Except IoError (List Char) :=
  match fs.files dep with
  | none => .error ⟨.notFound, "No such file or directory"⟩
  | some content =>
    match firstLine content with
    | none => .error ⟨.invalidData, "Hash file for dependency " ++ dep ++ " does not contain data"⟩
    | some line => .ok line

/-- The directory as `cargo attest` leaves it at build start: an empty index. -/
def BuildFs.fresh : BuildFs := ⟨some [], fun _ => none⟩

/-- Crates `a` and `b` registering at once, their two appends alternating:
the index reads back as the merged name `ab` and an empty line, so neither
`a` nor `b` is a line `prune_deps` can match. -/
theorem registerToIndex_merged :
    (((Build.mk .fresh [⟨registerToIndex "a", 0⟩, ⟨registerToIndex "b", 0⟩]).run
      [0, 1, 0, 1]).fs.index.map readLines) = some ["ab".data, []] := by
  decide

/-- A compilation of `dep` that has issued the first three calls of
`dump_local_to_file` (create, then both halves of the registration), whatever
its summary: `dep` is a line of the index while its policy-hash file is
empty, and a dependent's `get_leaves` read of it fails. The same state is
final when the summary write fails. -/
theorem dumpLocalToFile_indexed_before_written (f : PolicyHashFile) :
    let b := (Build.mk .fresh [⟨dumpLocalToFileCalls "dep" f, 0⟩]).run [0, 0, 0]
    (b.fs.index.map readLines) = some ["dep".data] ∧ b.fs.files "dep" = some [] ∧
      readDepHash b.fs "dep" =
        .error ⟨.invalidData, "Hash file for dependency dep does not contain data"⟩ := by
  have hfs : ((Build.mk .fresh [⟨dumpLocalToFileCalls "dep" f, 0⟩]).run [0, 0, 0]).fs =
      ⟨some "dep\n".data, Function.update (fun _ => none) "dep" (some [])⟩ := rfl
  simp only [hfs]
  exact ⟨by decide, by simp, rfl⟩

/-! ## One crate's file across any interleaving -/

/-- Whether a call writes crate `d`'s policy-hash file. -/
def FsCall.touches (d : String) : FsCall → Bool
  | .createFile c => c == d
  | .appendIndex _ => false
  | .writeFile c _ => c == d

/-- A call's effect on crate `d`'s file and on the caller's offset. -/
def FsCall.onFile (d : String) : FsCall → Option (List Char) × Nat → Option (List Char) × Nat
  | .createFile c, (x, _) => (if d = c then some [] else x, 0)
  | .appendIndex _, p => p
  | .writeFile c t, (x, off) =>
    (if d = c then some (writeAt (x.getD []) off t) else x, off + t.length)

/-- What a call does to crate `d`'s file and to the offset depends on that file alone. -/
theorem FsCall.apply_onFile (d : String) (c : FsCall) (fs : BuildFs) (off : Nat) :
    ((c.apply (fs, off)).1.files d, (c.apply (fs, off)).2) = c.onFile d (fs.files d, off) := by
  cases c with
  | writeFile c t => by_cases h : d = c <;> simp [FsCall.apply, FsCall.onFile, Function.update_apply, h]
  | _ => simp [FsCall.apply, FsCall.onFile, Function.update_apply]

theorem FsCall.apply_files_of_touches {d : String} {c : FsCall} (h : c.touches d = false)
    (fs : BuildFs) (off : Nat) : (c.apply (fs, off)).1.files d = fs.files d := by
  cases c with
  | appendIndex t => rfl
  | createFile c | writeFile c _ =>
    have hc : d ≠ c := fun e => by simp [FsCall.touches, e] at h
    simp [FsCall.apply, Function.update_apply, hc]

/-- Crate `d`'s file and process `i`, the part of a build the owner of `d` sees. -/
def Build.view (b : Build) (i : Nat) (d : String) : Option (List Char) × Option Proc :=
  (b.fs.files d, b.procs[i]?)

/-- The owner of crate `d`'s file taking one turn on its own. -/
def soloStep (d : String) : Option (List Char) × Option Proc → Option (List Char) × Option Proc
  | (x, some ⟨c :: rest, off⟩) => ((c.onFile d (x, off)).1, some ⟨rest, (c.onFile d (x, off)).2⟩)
  | v => v

/-- Crate `d`'s file and the offset as the remaining calls of `p` leave them. -/
def Proc.finalFile (d : String) (p : Proc) (x : Option (List Char)) : Option (List Char) × Nat :=
  p.calls.foldl (fun s c => c.onFile d s) (x, p.offset)

/-- No process other than `i` has a pending call that writes crate `d`'s file. -/
def Build.Untouched (b : Build) (i : Nat) (d : String) : Prop :=
  ∀ j p, j ≠ i → b.procs[j]? = some p → ∀ c ∈ p.calls, c.touches d = false

/-- A turn of process `j` consumes its next call and no other process's. -/
theorem Build.calls_step (b : Build) (j k : Nat) :
    ((b.step j).procs[k]?).map (·.calls) =
      (b.procs[k]?).map fun p => if j = k then p.calls.tail else p.calls := by
  unfold Build.step
  split
  · rename_i call rest off hj
    by_cases hjk : j = k
    · subst hjk
      simp [hj, (List.getElem?_eq_some_iff.1 hj).1]
    · simp [hjk]
  · rename_i hj
    by_cases hjk : j = k
    · subst hjk
      rcases hp : b.procs[j]? with _ | ⟨_ | ⟨c, r⟩, off⟩
      · rfl
      · simp
      · exact absurd hp (hj _ _ _)
    · simp [hjk]

theorem Build.Untouched.step {b : Build} {i : Nat} {d : String} (h : b.Untouched i d) (j : Nat) :
    (b.step j).Untouched i d := by
  intro k p' hk hp' c hc
  have hcalls := b.calls_step j k
  rcases hp : b.procs[k]? with _ | p
  · simp [hp, hp'] at hcalls
  · simp only [hp, hp', Option.map_some', Option.some.injEq] at hcalls
    refine h k p hk hp c ?_
    split at hcalls
    · exact List.mem_of_mem_tail (hcalls ▸ hc)
    · exact hcalls ▸ hc

/-- One turn, seen by the owner of crate `d`: its own turns act as if it ran alone,
and the others' turns change nothing it sees. -/
theorem Build.view_step {b : Build} {i : Nat} {d : String} (h : b.Untouched i d) (j : Nat) :
    (b.step j).view i d = if j = i then soloStep d (b.view i d) else b.view i d := by
  unfold Build.step Build.view
  split
  · rename_i call rest off hj
    by_cases hji : j = i
    · subst hji
      simp [hj, soloStep, ← FsCall.apply_onFile, (List.getElem?_eq_some_iff.1 hj).1]
    · simp [hji, FsCall.apply_files_of_touches (h j _ hji hj call (List.mem_cons_self _ _))]
  · rename_i hj
    split_ifs with hji
    · subst hji
      rcases hp : b.procs[j]? with _ | ⟨_ | ⟨c, r⟩, off⟩
      · rfl
      · rfl
      · exact absurd hp (hj _ _ _)
    · rfl

/-- A whole build, seen by the owner of crate `d`, is its own turns run alone. -/
theorem Build.view_run {b : Build} {i : Nat} {d : String} (h : b.Untouched i d)
    (schedule : List Nat) :
    (b.run schedule).view i d = (soloStep d)^[schedule.count i] (b.view i d) := by
  induction schedule generalizing b with
  | nil => rfl
  | cons j js ih =>
    show ((b.step j).run js).view i d = _
    rw [ih (h.step j), Build.view_step h j]
    by_cases hji : j = i
    · subst hji
      simp [List.count_cons, Function.iterate_succ_apply]
    · simp [hji, List.count_cons]

/-- Given a turn per call, the owner ends with every call issued. -/
theorem soloStep_iterate (d : String) (p : Proc) (x : Option (List Char)) {n : Nat}
    (hn : p.calls.length ≤ n) :
    (soloStep d)^[n] (x, some p) = ((p.finalFile d x).1, some ⟨[], (p.finalFile d x).2⟩) := by
  rcases p with ⟨calls, off⟩
  induction calls generalizing x off n with
  | nil => exact Function.iterate_fixed rfl n
  | cons c rest ih =>
    obtain ⟨n, rfl⟩ : ∃ m, n = m + 1 := ⟨n - 1, by simp at hn; omega⟩
    rw [Function.iterate_succ_apply]
    exact ih _ _ (by simpa using hn)

theorem writeAt_of_length {content : List Char} {offset : Nat} (h : content.length = offset)
    (text : List Char) : writeAt content offset text = content ++ text := by
  subst h
  simp [writeAt]

/-- `dump_local_to_file` on its own leaves its file holding the summary line and the dump. -/
theorem finalFile_dumpLocalToFileCalls (name : String) (f : PolicyHashFile) (off : Nat)
    (x : Option (List Char)) :
    (Proc.finalFile name ⟨dumpLocalToFileCalls name f, off⟩ x).1 = some f.text := by
  simp [Proc.finalFile, dumpLocalToFileCalls, registerToIndex, FsCall.onFile, writeAt_of_length,
    PolicyHashFile.text]

/-- The summary line is a hex digest: no newline, no carriage return. -/
theorem totalHash_hex (k : Crate) (depsOrder implsOrder : HashOrder (String × String)) :
    '\n' ∉ (k.dumpLocalToFile depsOrder implsOrder).totalHash ∧
      '\r' ∉ (k.dumpLocalToFile depsOrder implsOrder).totalHash := by
  simp only [Crate.dumpLocalToFile, sha256Digest]
  exact ⟨not_mem_hexEncode (by decide) _, not_mem_hexEncode (by decide) _⟩

/-- Under every schedule that gives a compilation a turn per call of its
`dump_local_to_file`, and in which no other compilation writes its file, the
file ends holding the summary line and the dump, and a dependent's
`get_leaves` reads the summary hash from it. The index is not covered: there
the registrations of concurrent compilations interleave. -/
theorem run_dumpLocalToFile_complete (b : Build) (schedule : List Nat) (i off : Nat) (k : Crate)
    (depsOrder implsOrder : HashOrder (String × String))
    (hi : b.procs[i]? =
      some ⟨dumpLocalToFileCalls k.myCrateName (k.dumpLocalToFile depsOrder implsOrder), off⟩)
    (hu : b.Untouched i k.myCrateName) (hturns : 6 ≤ schedule.count i) :
    (b.run schedule).fs.files k.myCrateName = some (k.dumpLocalToFile depsOrder implsOrder).text ∧
      readDepHash (b.run schedule).fs k.myCrateName =
        .ok (k.dumpLocalToFile depsOrder implsOrder).totalHash := by
  have hfile : (b.run schedule).fs.files k.myCrateName =
      some (k.dumpLocalToFile depsOrder implsOrder).text := by
    have hv := congrArg Prod.fst (Build.view_run hu schedule)
    simp only [Build.view] at hv
    rwa [hi, soloStep_iterate _ _ _ (by simpa [dumpLocalToFileCalls] using hturns),
      finalFile_dumpLocalToFileCalls] at hv
  obtain ⟨hn, hr⟩ := totalHash_hex k depsOrder implsOrder
  refine ⟨hfile, ?_⟩
  simp [readDepHash, hfile, PolicyHashFile.text, firstLine_append hn, stripCr_of_not_mem hr]

/-- Crate `svc_a` dumping its summary while crate `b` dumps its own. -/
def twoDumpBuild : Build :=
  ⟨.fresh, [⟨dumpLocalToFileCalls "svc_a" (twoPolicyCrate.dumpLocalToFile .insertion .insertion), 0⟩,
    ⟨dumpLocalToFileCalls "b" ⟨[], ⟨[], [], []⟩⟩, 0⟩]⟩

theorem twoDumpBuild_untouched : twoDumpBuild.Untouched 0 "svc_a" := by
  intro j p hj hp c hc
  rcases j with _ | _ | j
  · exact absurd rfl hj
  · cases hp
    revert c
    decide
  · simp [twoDumpBuild] at hp

theorem run_dumpLocalToFile_complete_interleaved :
    (twoDumpBuild.run [1, 0, 1, 0, 1, 0, 0, 1, 0, 1, 0]).fs.files "svc_a" =
        some (twoPolicyCrate.dumpLocalToFile .insertion .insertion).text ∧
      readDepHash (twoDumpBuild.run [1, 0, 1, 0, 1, 0, 0, 1, 0, 1, 0]).fs "svc_a" =
        .ok (twoPolicyCrate.dumpLocalToFile .insertion .insertion).totalHash :=
  run_dumpLocalToFile_complete twoDumpBuild _ 0 0 twoPolicyCrate .insertion .insertion rfl
    twoDumpBuild_untouched (by decide)

end Tahini.Policy
