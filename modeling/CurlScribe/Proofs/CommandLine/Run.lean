import CurlScribe.CommandLine.Run
import CurlScribe.CommandLine.World
import CurlScribe.Proofs.CommandLine.Batch
import CurlScribe.Proofs.CommandLine.Reader
import CurlScribe.Proofs.Files.Tree
import CurlScribe.Proofs.Outcome

/-!
# Runs of several files into a directory

A run reads all its inputs before it makes the directory and writes the outputs one after another.
What it leaves behind are the files of the outputs in the directory, later ones over earlier ones
(`Batch.run_eq`). So an output is kept just if no later one has its stem.
-/

namespace CurlScribe
namespace CommandLine

open Files

/-! ## Steps in a world -/

namespace World

/-- What an action gives in a world, and the world that it leaves. -/
def run {α : Type} (w : World) (action : StateM World α) : α × World := action w

theorem run_bind {α β : Type} (w : World) (action : StateM World α) (next : α → StateM World β) :
    w.run (action >>= next) = (w.run action).2.run (next (w.run action).1) := rfl

/-- The world with this on standard error. -/
def withErr (w : World) (err : Text) : World := { w with err := err }

/-- The world with these files. -/
def withTree (w : World) (tree : Tree) : World := { w with tree := tree }

theorem run_write (w : World) (logging : Logging) (notes : List Note) :
    w.run (logging.write notes) = ((), w.withErr (w.err ++ notes.flatMap logging.shown)) := rfl

/-! ## Configuration -/

/-- The directory of the configuration. -/
def configDirectory (w : World) : Text := (w.run CommandLine.configDirectory).1

/-- What is read as the configuration. -/
def loaded (w : World) : Except ConfigFault Config :=
  configOf (w.tree.read w.current (Path.join w.configDirectory "config.toml".toList))

/-- The configuration that counts. -/
def config (w : World) : Config := w.loaded.toOption.getD Config.empty

theorem run_configDirectory (w : World) :
    w.run CommandLine.configDirectory = (w.configDirectory, w) := by
  refine Prod.ext rfl ?_
  unfold CommandLine.configDirectory
  rw [run_bind]
  cases (w.run (Host.lookup? "CURLGEN_CONFIG_DIR".toList)).1 with
  | some directory => rfl
  | none =>
    simp only [run_bind]
    generalize userConfigDirectory? _ _ = found
    cases found with
    | some directory => rfl
    | none => rfl

theorem run_loadConfig (w : World) :
    w.run (loadConfig w.configDirectory) = (w.loaded, w) := by
  unfold loadConfig
  rw [run_bind]
  rfl

/-- Arguments that can be read are obeyed. -/
theorem run_eq_obey {w : World} {arguments : List Text} {args : Args}
    (h : Args.parse (withDefaults w.config.options arguments) = .ok args) :
    w.run (CommandLine.run arguments) = w.run (obey args w.configDirectory w.loaded w.config) := by
  unfold CommandLine.run
  rw [run_bind, run_configDirectory, run_bind, run_loadConfig]
  dsimp only
  rw [← config, h]

/-- How a run with these arguments logs. -/
def logging (w : World) (args : Args) : Logging :=
  loggingFor (w.run (Host.lookup? "CURLGEN_LOG".toList)).1 args w.config

/-- What a run with these arguments has to say before it converts anything. -/
def openingNotes (w : World) (args : Args) : List Note :=
  configNotes w.configDirectory w.loaded ++ [styleNote (chosenStyle args w.config)]

/-- Unless the styles are asked for, a run logs and then converts. -/
theorem run_obey {args : Args} (h : args.listStyles = false) (w : World) :
    w.run (obey args w.configDirectory w.loaded w.config) =
      (w.withErr (w.err ++ (w.openingNotes args).flatMap (w.logging args).shown)).run
        (convertInputs (w.logging args) args (chosenStyle args w.config)) := by
  have hlogging : loggingFor (w.run (Host.lookup? "CURLGEN_LOG".toList)).1 args w.config =
      w.logging args := rfl
  have hsame : (w.run (Host.lookup? "CURLGEN_LOG".toList)).2 = w := rfl
  unfold obey openingNotes
  simp only [run_bind, h, Bool.false_eq_true, if_false, run_write, hlogging, hsame,
    List.flatMap_append, ← List.append_assoc]
  rfl

/-! ## Inputs -/

/-- The inputs in files. -/
def inputs (w : World) (files : List Text) : List Input :=
  files.map fun name => ⟨name, textOf (w.tree.read w.current name)⟩

theorem run_readInputs (w : World) (files : List Text) :
    w.run (readInputs files) = (w.inputs files, w) := by
  induction files with
  | nil => rfl
  | cons name rest ih =>
    unfold readInputs
    rw [run_bind, run_bind]
    show (_ :: (w.run (readInputs rest)).1, (w.run (readInputs rest)).2) = _
    rw [ih]
    rfl

end World

/-- A command and files exclude each other. -/
theorem command_eq_none {arguments : List Text} {args : Args} (h : Args.parse arguments = .ok args)
    (hfiles : args.files ≠ []) : args.command = none := by
  rw [Reader.parse_start] at h
  obtain ⟨-, -, -, -, -, hexclude⟩ := Reader.parse_eq_ok h
  exact hexclude hfiles

namespace World

theorem run_gatherInputs (w : World) {args : Args} (hcommand : args.command = none)
    (hfiles : args.files ≠ []) : w.run (gatherInputs args) = (.ok (w.inputs args.files), w) := by
  unfold gatherInputs
  rw [hcommand]
  cases h : args.files with
  | nil => exact absurd h hfiles
  | cons name rest =>
    rw [run_bind, run_readInputs]
    rfl

/-! ## Outputs -/

/-- Files are written one after another, each to the place where its path has led from the start. -/
theorem run_writeFiles {α : Type} (logging : Logging) {path text : α → Text} {place : α → Place}
    {items : List α} {w : World}
    (h : ∀ a ∈ items, w.tree.LeadsTo w.current (path a) (place a)) :
    ∃ err, w.run (writeFiles logging (items.map fun a => (path a, text a))) =
      (.ok (), (w.withTree (w.tree.setFiles
        (items.map fun a => (place a, Utf8.encode (text a))))).withErr err) := by
  induction items generalizing w with
  | nil => exact ⟨w.err, rfl⟩
  | cons a rest ih =>
    obtain ⟨ha, hrest⟩ := List.forall_mem_cons.1 h
    let next := w.tree.set (place a) (.file (Utf8.encode (text a)))
    have hwrite : w.run (Host.writeFile (path a) (text a)) = (.ok (), w.withTree next) :=
      congrArg w.attempt (Tree.write_eq_ok_iff.2 ⟨place a, ha, rfl⟩)
    rw [List.map_cons, writeFiles, run_bind, hwrite]
    simp only [run_bind, run_write]
    exact ih fun b hb => (hrest b hb).set_file ha.vacant _

/-- The outputs of several inputs are written once their directory is made. -/
theorem run_writeOutputs {w : World} (logging : Logging) {args : Args} {style : Style}
    {directory : Text} {made : Tree} {outputs : List Output} {place : Output → Place}
    (hinto : args.output = some directory)
    (hmakes : w.tree.makeDirectories w.current directory = .ok made)
    (h : ∀ o ∈ outputs, made.LeadsTo w.current (o.path directory style args.deps) (place o)) :
    ∃ err, w.run (writeOutputs logging args style true outputs) =
      (.ok (), (w.withTree (made.setFiles
        (outputs.map fun o => (place o, Utf8.encode (o.text args.deps))))).withErr err) := by
  have hmade : w.run (Host.makeDirectories directory) = (.ok (), w.withTree made) :=
    congrArg w.attempt hmakes
  unfold writeOutputs
  rw [hinto]
  simp only [if_true]
  rw [run_bind, hmade]
  exact run_writeFiles (w := w.withTree made) logging h

/-- Several inputs are read before anything is written, and each of them that is not converted is a
failure. -/
theorem run_convertInputs {w : World} (logging : Logging) {args : Args} {style : Style}
    {directory : Text} {made : Tree} {place : Output → Place} (hcommand : args.command = none)
    (hseveral : 1 < args.files.length) (hinto : args.output = some directory)
    (hmakes : w.tree.makeDirectories w.current directory = .ok made)
    (h : ∀ o ∈ (w.inputs args.files).filterMap (Input.output? style),
      made.LeadsTo w.current (o.path directory style args.deps) (place o)) :
    ∃ err, w.run (convertInputs logging args style) =
      (.ofFailures ((w.inputs args.files).countP fun i => (i.output? style).isNone),
        (w.withTree (made.setFiles (((w.inputs args.files).filterMap (Input.output? style)).map
          fun o => (place o, Utf8.encode (o.text args.deps))))).withErr err) := by
  have hfiles := List.ne_nil_of_length_pos (Nat.lt_of_succ_lt hseveral)
  have hbatch : isBatch (w.inputs args.files) = true := by
    simpa [isBatch, inputs] using hseveral
  unfold convertInputs
  rw [run_bind, run_gatherInputs w hcommand hfiles]
  simp only [run_bind, run_write, hbatch, outputs_reportAll, failures_reportAll]
  generalize w.err ++ _ = told
  obtain ⟨err, hwrite⟩ := run_writeOutputs (w := w.withErr told) logging hinto hmakes h
  rw [hwrite]
  exact ⟨err, rfl⟩

end World

/-! ## Batches -/

/-- Several files that are converted into a directory: the world at first, what the arguments ask
for, and the tree once the directory is made. -/
structure Batch where
  world : World
  args : Args
  directory : Text
  made : Tree

namespace Batch

section Parts

variable (b : Batch)

def inputs : List Input := b.world.inputs b.args.files

def style : Style := chosenStyle b.args b.world.config

/-- The outputs of inputs, as far as these can be converted. -/
def outputsOf (inputs : List Input) : List Output := inputs.filterMap (Input.output? b.style)

def outputs : List Output := b.outputsOf b.inputs

/-- How many inputs cannot be converted. -/
def failures : Nat := b.inputs.countP fun i => (i.output? b.style).isNone

def path (o : Output) : Text := o.path b.directory b.style b.args.deps

def content (o : Output) : Bytes := Utf8.encode (o.text b.args.deps)

/-- An output is written to this place. -/
def GoesTo (o : Output) (place : Place) : Prop := b.made.LeadsTo b.world.current (b.path o) place

/-- Arguments ask for the batch, its directory can be made, and in that the files for its outputs
can be written. -/
structure IsAskedBy (arguments : List Text) : Prop where
  parsed : Args.parse (withDefaults b.world.config.options arguments) = .ok b.args
  converts : b.args.listStyles = false
  several : 1 < b.args.files.length
  into : b.args.output = some b.directory
  makes : b.world.tree.makeDirectories b.world.current b.directory = .ok b.made
  writable : ∀ o ∈ b.outputs, ∃ s, b.made.write b.world.current (b.path o) (b.content o) = .ok s

/-- The entry of an output in the directory at a place. -/
def entry (around : Place) (o : Output) : Place := around ++ [o.fileName b.style b.args.deps]

/-- The tree with all outputs in the directory at a place. -/
def written (around : Place) : Tree :=
  b.made.setFiles (b.outputs.map fun o => (b.entry around o, b.content o))

end Parts

/-! ## What a batch leaves behind -/

section Written

variable {b : Batch} {around : Place} (haround : ∀ o ∈ b.outputs, b.GoesTo o (b.entry around o))

theorem entry_eq_iff {o other : Output} :
    b.entry around other = b.entry around o ↔ Path.stem other.name = Path.stem o.name := by
  unfold entry
  rw [List.append_right_inj, List.singleton_inj, Output.fileName_eq_iff]

include haround

theorem vacant_entries : ∀ f ∈ b.outputs.map fun o => (b.entry around o, b.content o),
    b.made.get? f.1 ≠ some .directory := by
  intro f hf
  obtain ⟨o, ho, rfl⟩ := List.mem_map.1 hf
  exact (haround o ho).vacant

/-- Of the outputs with one stem, the last one is found in their file. -/
theorem read_written {front back : List Output} {o : Output}
    (houtputs : b.outputs = front ++ o :: back)
    (hback : ∀ other ∈ back, Path.stem other.name ≠ Path.stem o.name) :
    (b.written around).read b.world.current (b.path o) = .ok (b.content o) := by
  have hvacant := vacant_entries haround
  have ho : o ∈ b.outputs := by
    rw [houtputs]
    exact List.mem_append_right _ List.mem_cons_self
  refine ((haround o ho).setFiles hvacant).read ?_
  rw [houtputs, List.map_append, List.map_cons] at hvacant ⊢
  refine Tree.get?_setFiles_of_last (fun f hf => Tree.ne_nil_of_get? (hvacant f hf)) ?_
  intro f hf hsame
  obtain ⟨other, hother, rfl⟩ := List.mem_map.1 hf
  exact hback other hother (entry_eq_iff.1 hsame)

/-- Where no output goes, the tree is left as it is. -/
theorem get?_written {place : Place} (h : ∀ o ∈ b.outputs, ¬b.GoesTo o place) :
    (b.written around).get? place = b.made.get? place := by
  refine Tree.get?_setFiles_of_not_mem
    (fun f hf => Tree.ne_nil_of_get? (vacant_entries haround f hf)) ?_
  intro f hf hsame
  obtain ⟨o, ho, rfl⟩ := List.mem_map.1 hf
  exact h o ho (hsame ▸ haround o ho)

/-- An output has a file for itself just if no other output has its stem. -/
theorem alone_iff {front back : List Input} {i : Input} {o : Output}
    (hinputs : b.inputs = front ++ i :: back) (hi : i.output? b.style = some o) :
    (∃ place, b.GoesTo o place ∧
        (b.written around).read b.world.current (b.path o) = .ok (b.content o) ∧
        ∀ other ∈ b.outputsOf (front ++ back), ¬b.GoesTo other place) ↔
      ∀ other ∈ b.outputsOf (front ++ back), Path.stem other.name ≠ Path.stem o.name := by
  have houtputs : b.outputs = b.outputsOf front ++ o :: b.outputsOf back := by
    unfold outputs outputsOf
    rw [hinputs, List.filterMap_append, List.filterMap_cons_some hi]
  have hothers : b.outputsOf (front ++ back) = b.outputsOf front ++ b.outputsOf back :=
    List.filterMap_append
  have hmem : ∀ other ∈ b.outputsOf (front ++ back), other ∈ b.outputs := by
    intro other hother
    rw [hothers, List.mem_append] at hother
    rw [houtputs, List.mem_append, List.mem_cons]
    exact hother.imp_right .inr
  -- each output goes to the entry that its stem names
  have ho : b.GoesTo o (b.entry around o) := by
    refine haround o ?_
    rw [houtputs]
    exact List.mem_append_right _ List.mem_cons_self
  constructor
  · rintro ⟨place, hplace, -, hfree⟩ other hother hstem
    obtain rfl := hplace.unique ho
    refine hfree other hother ?_
    rw [← entry_eq_iff.2 hstem]
    exact haround other (hmem other hother)
  · intro hstems
    refine ⟨b.entry around o, ho, read_written haround houtputs ?_, ?_⟩
    · intro other hother
      refine hstems other ?_
      rw [hothers]
      exact List.mem_append_right _ hother
    · intro other hother hgoes
      exact hstems other hother (entry_eq_iff.1 ((haround other (hmem other hother)).unique hgoes))

end Written

/-! ## Runs -/

section Run

variable {b : Batch} {arguments : List Text} (h : b.IsAskedBy arguments)

include h

/-- Each output goes to the directory, under the name of its file. -/
theorem goesTo_entry {o : Output} (ho : o ∈ b.outputs) :
    ∃ around, b.made.follow (Tree.origin b.world.current b.directory) (Path.names b.directory) =
      .ok around ∧ b.GoesTo o (b.entry around o) := by
  obtain ⟨s, hs⟩ := h.writable o ho
  obtain ⟨place, hplace, -⟩ := Tree.write_eq_ok_iff.1 hs
  obtain ⟨around, haround, rfl⟩ := hplace.eq_of_join (o.isEntryName_fileName b.style b.args.deps)
  exact ⟨around, haround, hplace⟩

/-- All outputs go to one directory. -/
theorem exists_around : ∃ around, ∀ o ∈ b.outputs, b.GoesTo o (b.entry around o) := by
  cases houtputs : b.outputs with
  | nil => exact ⟨[], nofun⟩
  | cons first rest =>
    obtain ⟨around, haround, -⟩ := goesTo_entry h (o := first) (by simp [houtputs])
    refine ⟨around, fun o ho => ?_⟩
    obtain ⟨around', haround', hgoes⟩ := goesTo_entry h (houtputs ▸ ho)
    obtain rfl := Except.ok.inj (haround.symm.trans haround')
    exact hgoes

/-- The run puts the outputs into the directory, and fails if an input does. -/
theorem run_eq {around : Place} (haround : ∀ o ∈ b.outputs, b.GoesTo o (b.entry around o)) :
    ∃ err, b.world.run (run arguments) =
      (.ofFailures b.failures, (b.world.withTree (b.written around)).withErr err) := by
  have hfiles := List.ne_nil_of_length_pos (Nat.lt_of_succ_lt h.several)
  rw [World.run_eq_obey h.parsed, World.run_obey h.converts]
  generalize b.world.err ++ _ = told
  exact World.run_convertInputs (w := b.world.withErr told) (b.world.logging b.args)
    (command_eq_none h.parsed hfiles) h.several h.into h.makes haround

/-- After the run, an output has a file for itself just if no other output has its stem; of several
outputs with one stem the last one is kept. Nothing else changes, but for the directories that are
made, and the run fails just if an input does. -/
theorem kept_alone_iff :
    ∃ after, b.world.run (run arguments) = (.ofFailures b.failures, after) ∧
      (∀ front i back o, b.inputs = front ++ i :: back → i.output? b.style = some o →
        ((∃ place, b.GoesTo o place ∧
            after.tree.read b.world.current (b.path o) = .ok (b.content o) ∧
            ∀ other ∈ b.outputsOf (front ++ back), ¬b.GoesTo other place) ↔
          ∀ other ∈ b.outputsOf (front ++ back), Path.stem other.name ≠ Path.stem o.name)) ∧
      (∀ front o back, b.outputs = front ++ o :: back →
        (∀ other ∈ back, Path.stem other.name ≠ Path.stem o.name) →
        after.tree.read b.world.current (b.path o) = .ok (b.content o)) ∧
      ∀ place, (∀ o ∈ b.outputs, ¬b.GoesTo o place) →
        after.tree.get? place = b.world.tree.get? place ∨
          b.world.tree.get? place = none ∧ after.tree.get? place = some .directory := by
  obtain ⟨around, haround⟩ := b.exists_around h
  obtain ⟨err, hrun⟩ := b.run_eq h haround
  refine ⟨_, hrun, ?_, ?_, ?_⟩
  · intro front i back o hinputs hi
    exact alone_iff haround hinputs hi
  · intro front o back houtputs hback
    exact read_written haround houtputs hback
  · intro place hplace
    show (b.written around).get? place = _ ∨ _ ∧ (b.written around).get? place = _
    rw [get?_written haround hplace]
    exact Tree.growsTo_makeDirectories h.makes place

omit h in
/-- What asks for a batch can be found out by running its parts. -/
theorem isAskedBy_of_toOption
    (parsed : (Args.parse (withDefaults b.world.config.options arguments)).toOption = some b.args)
    (converts : b.args.listStyles = false) (several : 1 < b.args.files.length)
    (into : b.args.output = some b.directory)
    (makes : (b.world.tree.makeDirectories b.world.current b.directory).toOption = some b.made)
    (writable : ∀ o ∈ b.outputs,
      (b.made.write b.world.current (b.path o) (b.content o)).toOption.isSome = true) :
    b.IsAskedBy arguments where
  parsed := Except.eq_ok_of_toOption parsed
  converts := converts
  several := several
  into := into
  makes := Except.eq_ok_of_toOption makes
  writable := by
    intro o ho
    obtain ⟨s, hs⟩ := Option.isSome_iff_exists.1 (writable o ho)
    exact ⟨s, Except.eq_ok_of_toOption hs⟩

end Run

/-- Two files whose names have different stems, and one that cannot be converted. -/
theorem kept_alone_two_stems :
    let source (host : String) := Utf8.encode
      ("import requests\n\nresponse = requests.get('http://" ++ host
        ++ "/')\n\nprint(response.text)\n").toList
    let tree := ((Tree.empty.withFile ["a".toList, "get.sh".toList]
      (Utf8.encode "curl http://a/".toList)).withFile ["b".toList, "post.sh".toList]
      (Utf8.encode "curl http://b/".toList)).withFile ["get.txt".toList] (Utf8.encode "curl".toList)
    let world : World := ⟨[], tree, [], [], [], []⟩
    let arguments := ["-o", "out", "a/get.sh", "b/post.sh", "get.txt"].map String.toList
    ∃ after, world.run (run arguments) = (.failure, after) ∧
      after.tree.read [] "out/get.py".toList = .ok (source "a") := by
  intro source tree world arguments
  let b : Batch := {
    world := world
    args := ⟨["a/get.sh".toList, "b/post.sh".toList, "get.txt".toList], none, none,
      some "out".toList, false, false, 0, false, none⟩
    directory := "out".toList
    made := tree.set ["out".toList] .directory }
  have hask : b.IsAskedBy arguments := isAskedBy_of_toOption (by decide +kernel) rfl (by decide) rfl
    (by decide +kernel) (by decide +kernel)
  obtain ⟨after, hrun, -, hlast, -⟩ := kept_alone_iff hask
  have hmap : b.outputs.map (fun o => (o.name, b.content o)) =
      [("a/get.sh".toList, source "a"), ("b/post.sh".toList, source "b")] := by
    decide +kernel
  obtain ⟨o, rest, houtputs, ho, hrest⟩ := List.map_eq_cons_iff.1 hmap
  obtain ⟨hname, hcontent⟩ := Prod.mk.inj ho
  have hpath : b.path o = "out/get.py".toList := by
    unfold path Output.path
    rw [hname]
    decide +kernel
  have hstems : ∀ other ∈ rest, Path.stem other.name ≠ Path.stem o.name := by
    intro other hother
    have hmem := List.mem_map_of_mem (f := fun o : Output => (o.name, b.content o)) hother
    rw [hrest, List.mem_singleton] at hmem
    rw [(Prod.mk.inj hmem).1, hname]
    decide
  have hread := hlast [] o rest houtputs hstems
  rw [hpath, hcontent] at hread
  have hfailures : b.failures = 1 := by decide +kernel
  rw [hfailures] at hrun
  exact ⟨after, hrun, hread⟩

/-- Two files whose names have one stem: the run succeeds, and what the first one is converted into
is in no file. -/
theorem lost_one_stem :
    let source (host : String) := Utf8.encode
      ("import requests\n\nresponse = requests.get('http://" ++ host
        ++ "/')\n\nprint(response.text)\n").toList
    let tree := (Tree.empty.withFile ["a".toList, "get.sh".toList]
      (Utf8.encode "curl http://a/".toList)).withFile ["b".toList, "get.sh".toList]
      (Utf8.encode "curl http://b/".toList)
    let world : World := ⟨[], tree, [], [], [], []⟩
    let arguments := ["-o", "out", "a/get.sh", "b/get.sh"].map String.toList
    let outputs := (world.inputs ["a/get.sh".toList]).filterMap (Input.output? .python)
    ∃ after, world.run (run arguments) = (.success, after) ∧
      (outputs.map fun o => Utf8.encode (o.text false)) = [source "a"] ∧
      ∀ e ∈ after.tree.entries, e.2 ≠ .file (source "a") := by
  intro source tree world arguments outputs
  let b : Batch := {
    world := world
    args := ⟨["a/get.sh".toList, "b/get.sh".toList], none, none, some "out".toList, false, false, 0,
      false, none⟩
    directory := "out".toList
    made := tree.set ["out".toList] .directory }
  have hask : b.IsAskedBy arguments := isAskedBy_of_toOption (by decide +kernel) rfl (by decide) rfl
    (by decide +kernel) (by decide +kernel)
  have haround : ∀ o ∈ b.outputs, b.GoesTo o (b.entry ["out".toList] o) := by
    have hout : b.made.follow (Tree.origin b.world.current b.directory) (Path.names b.directory) =
        .ok ["out".toList] := by rfl
    intro o ho
    obtain ⟨around, hfollow, hgoes⟩ := goesTo_entry hask ho
    obtain rfl := Except.ok.inj (hout.symm.trans hfollow)
    exact hgoes
  obtain ⟨err, hrun⟩ := run_eq hask haround
  have hfailures : b.failures = 0 := by decide +kernel
  have hmap : b.outputs.map (fun o => (b.entry ["out".toList] o, b.content o)) =
      [(["out".toList, "get.py".toList], source "a"),
        (["out".toList, "get.py".toList], source "b")] := by
    decide +kernel
  rw [hfailures] at hrun
  refine ⟨_, hrun, by decide +kernel, ?_⟩
  show ∀ e ∈ (b.written ["out".toList]).entries, e.2 ≠ .file (source "a")
  unfold written
  rw [hmap]
  decide +kernel

end Batch

end CommandLine
end CurlScribe
