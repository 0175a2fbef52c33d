import CurlScribe.Proofs.CommandLine.Run

/-!
# Runs of several files to standard output

Without a place for its outputs, a run writes the sources that it makes to standard output. What an
input adds to that, and what it adds to standard error, is known from the input alone
(`Input.converted`, `Input.told`): a run of several inputs is a row of conversions that do not know
of each other (`Stream.streamed_one_by_one`).
-/

namespace CurlScribe
namespace CommandLine

open Files

/-! ## Log lines -/

/-- The event of a log line; complaints have none. -/
def Note.event? : Note → Option Log.Event
  | .event e => some e
  | .complaint _ => none

/-- The log lines of events, as far as these are logged. -/
def Logging.lines (l : Logging) (events : List Log.Event) : Text :=
  (events.filter fun e => l.filter.allows e.level).flatMap fun e => e.line l.format

theorem Logging.lines_cons (l : Logging) (e : Log.Event) (events : List Log.Event) :
    l.lines (e :: events) = l.shown (.event e) ++ l.lines events := by
  show l.lines (e :: events) =
    (if l.filter.allows e.level then e.line l.format else []) ++ l.lines events
  unfold lines
  rw [List.filter_cons]
  cases l.filter.allows e.level with
  | true => rfl
  | false => rfl

/-- Notes without a complaint are log lines. -/
theorem Logging.flatMap_shown (l : Logging) {notes : List Note}
    (h : ∀ n ∈ notes, ∃ e, n = .event e) :
    notes.flatMap l.shown = l.lines (notes.filterMap Note.event?) := by
  induction notes with
  | nil => rfl
  | cons n rest ih =>
    obtain ⟨⟨e, rfl⟩, hrest⟩ := List.forall_mem_cons.1 h
    rw [List.flatMap_cons, ih hrest,
      List.filterMap_cons_some (show (Note.event e).event? = some e from rfl), l.lines_cons]

/-! ## What an input contributes -/

namespace Input

/-- What an input is converted into on its own, or why it is not. -/
def converted (style : Style) (i : Input) : Except Error Conversion :=
  match i.content with
  | .error fault => .error (.file fault)
  | .ok command => (Conversion.ofCommand style command).result

/-- The source that an input contributes, if it is converted. -/
def source? (style : Style) (i : Input) : Option Text :=
  (i.converted style).toOption.map fun c => c.source.text

/-- The events of the conversion of an input: its warnings, and that it is converted. -/
def events (style : Style) (i : Input) : List Log.Event :=
  (i.report style false).notes.filterMap Note.event?

/-- What is written to standard error about an input: log lines if it is converted, and otherwise
the error in a line of its own, behind the name of the program and, where `named` says so, that of
the input. -/
def told (l : Logging) (style : Style) (named : Bool) (i : Input) : Text :=
  match i.converted style with
  | .ok _ => l.lines (i.events style)
  | .error e =>
    "curlgen: ".toList ++ (if named then i.name ++ ": ".toList else []) ++ e.message ++ ['\n']

theorem output?_eq (style : Style) (i : Input) :
    i.output? style = (i.converted style).toOption.map fun c => ⟨i.name, c⟩ := by
  unfold output? converted
  cases i.content with
  | error fault => rfl
  | ok command =>
    show ((Conversion.ofCommand style command).result.toOption.bind fun c =>
      some (Output.mk i.name c)) = (Conversion.ofCommand style command).result.toOption.map _
    cases (Conversion.ofCommand style command).result with
    | error e => rfl
    | ok c => rfl

/-- The outputs of inputs, as sources. -/
theorem map_text_outputs (style : Style) (inputs : List Input) :
    (inputs.filterMap (output? style)).map (Output.text false) =
      inputs.filterMap (source? style) := by
  rw [List.map_filterMap]
  refine congrFun (congrArg List.filterMap (funext fun i => ?_)) inputs
  rw [output?_eq, Option.map_map]
  rfl

theorem isNone_output?_eq_false_iff {style : Style} {i : Input} :
    (i.output? style).isNone = false ↔ ∃ c, i.converted style = .ok c := by
  rw [output?_eq]
  cases i.converted style with
  | error e => exact ⟨nofun, nofun⟩
  | ok c => exact ⟨fun _ => ⟨c, rfl⟩, fun _ => rfl⟩

theorem converted_of_content {style : Style} {i : Input} {command : Text}
    (h : i.content = .ok command) :
    i.converted style = (Conversion.ofCommand style command).result := by
  rw [converted, h]

/-- The notes on an input that is converted are its events, whatever stands beside it. -/
theorem shown_report_of_ok (l : Logging) {style : Style} (amongSeveral : Bool) {i : Input}
    {c : Conversion} (h : i.converted style = .ok c) :
    (i.report style amongSeveral).notes.flatMap l.shown = l.lines (i.events style) := by
  cases hcontent : i.content with
  | error fault =>
    rw [converted, hcontent] at h
    cases h
  | ok command =>
    rw [converted_of_content hcontent] at h
    have hreport (several : Bool) : (i.report style several).notes =
        (Conversion.ofCommand style command).warnings.map (warningNote i.name) ++
          [convertedNote i.name c] := by
      simp only [report, hcontent, h]
    unfold events
    rw [hreport, hreport]
    apply l.flatMap_shown
    intro n hn
    rcases List.mem_append.1 hn with hn | hn
    · obtain ⟨w, -, rfl⟩ := List.mem_map.1 hn
      exact ⟨_, rfl⟩
    · exact ⟨_, List.mem_singleton.1 hn⟩

/-- The note on an input that is not converted is its error, behind its name unless the error is in
the command of the only input that there is. -/
theorem notes_report_of_error {style : Style} (amongSeveral : Bool) {i : Input} {e : Error}
    (h : i.converted style = .error e) :
    (i.report style amongSeveral).notes = [.complaint ((if amongSeveral || !i.content.isOk then
      i.name ++ ": ".toList else []) ++ e.message)] := by
  cases hcontent : i.content with
  | error fault =>
    rw [converted, hcontent] at h
    cases h
    rw [Except.isOk, Except.toBool, Bool.not_false, Bool.or_true]
    simp only [report, hcontent]
    rfl
  | ok command =>
    rw [converted_of_content hcontent] at h
    rw [Except.isOk, Except.toBool, Bool.not_true, Bool.or_false]
    simp only [report, hcontent, h]
    cases amongSeveral with
    | true => rfl
    | false => rfl

/-- What is written about an input. -/
theorem shown_report (l : Logging) (style : Style) (amongSeveral : Bool) (i : Input) :
    (i.report style amongSeveral).notes.flatMap l.shown =
      i.told l style (amongSeveral || !i.content.isOk) := by
  cases h : i.converted style with
  | ok c =>
    have htold (named : Bool) : i.told l style named = l.lines (i.events style) := by
      unfold told
      rw [h]
    rw [shown_report_of_ok l amongSeveral h, htold]
  | error e =>
    have htold (named : Bool) : i.told l style named = "curlgen: ".toList ++
        (if named then i.name ++ ": ".toList else []) ++ e.message ++ ['\n'] := by
      unfold told
      rw [h]
    rw [notes_report_of_error amongSeveral h, List.flatMap_singleton, htold,
      List.append_assoc "curlgen: ".toList]
    rfl

end Input

/-- What is said about inputs is what is said about each of them, in order. -/
theorem shown_reportAll (l : Logging) (style : Style) (amongSeveral : Bool) (inputs : List Input) :
    (reportAll style amongSeveral inputs).notes.flatMap l.shown =
      inputs.flatMap fun i => i.told l style (amongSeveral || !i.content.isOk) := by
  induction inputs with
  | nil => rfl
  | cons i rest ih =>
    rw [reportAll, Report.append, List.flatMap_append, ih, i.shown_report, List.flatMap_cons]

theorem ExitStatus.code_ofFailures_eq_zero_iff {count : Nat} :
    (ExitStatus.ofFailures count).code = 0 ↔ count = 0 := by
  unfold ofFailures
  split
  next h => exact ⟨fun _ => h, fun _ => rfl⟩
  next h => exact ⟨nofun, fun h' => absurd h' h⟩

theorem ExitStatus.code_eq_one_of_ne_zero {status : ExitStatus} (h : status.code ≠ 0) :
    status.code = 1 := by
  cases status with
  | success => exact absurd rfl h
  | failure => rfl

/-- No input is left over just if all of them are converted. -/
theorem countP_isNone_eq_zero_iff {style : Style} {inputs : List Input} :
    (inputs.countP fun i => (i.output? style).isNone) = 0 ↔
      ∀ i ∈ inputs, ∃ c, i.converted style = .ok c := by
  rw [List.countP_eq_zero]
  refine forall₂_congr fun i _ => ?_
  rw [Bool.not_eq_true, Input.isNone_output?_eq_false_iff]

/-! ## Runs -/

/-- The events before inputs are looked at. -/
def World.openingEvents (w : World) (args : Args) : List Log.Event :=
  (w.openingNotes args).filterMap Note.event?

/-- There are no complaints before inputs are looked at. -/
theorem World.shown_openingNotes (w : World) (args : Args) (l : Logging) :
    (w.openingNotes args).flatMap l.shown = l.lines (w.openingEvents args) := by
  have hconfig : ∀ n ∈ configNotes w.configDirectory w.loaded, ∃ e, n = .event e := by
    unfold configNotes
    intro n hn
    split at hn
    · exact ⟨_, List.mem_singleton.1 hn⟩
    · split at hn
      · cases hn
      · exact ⟨_, List.mem_singleton.1 hn⟩
  apply l.flatMap_shown
  intro n hn
  rcases List.mem_append.1 hn with hn | hn
  · exact hconfig n hn
  · exact ⟨_, List.mem_singleton.1 hn⟩

/-- The world with more on its two streams. -/
def World.withMore (w : World) (out err : Text) : World :=
  { w with out := w.out ++ out, err := w.err ++ err }

/-- Sources of files are written to standard output all at once, when everything about the files has
been said. -/
theorem World.run_convertInputs_stream (w : World) (logging : Logging) {args : Args} {style : Style}
    (hcommand : args.command = none) (hfiles : args.files ≠ []) (hto : args.output = none)
    (hsources : args.deps = false) :
    let inputs := w.inputs args.files
    w.run (convertInputs logging args style) =
      (.ofFailures (inputs.countP fun i => (i.output? style).isNone),
        w.withMore (Text.join ['\n'] (inputs.filterMap (Input.source? style)))
          (inputs.flatMap fun i => i.told logging style (isBatch inputs || !i.content.isOk))) := by
  have hwrite (v : World) (amongSeveral : Bool) (outputs : List Output) :
      v.run (writeOutputs logging args style amongSeveral outputs) =
        (.ok (), v.withMore (Text.join ['\n'] (outputs.map (Output.text false))) []) := by
    unfold writeOutputs joinOutputs withMore
    rw [hto, hsources, List.append_nil]
    rfl
  unfold convertInputs
  rw [run_bind, run_gatherInputs w hcommand hfiles]
  simp only [run_bind, run_write, hwrite, outputs_reportAll, failures_reportAll,
    Input.map_text_outputs, shown_reportAll]
  unfold withMore
  rw [List.append_nil]
  rfl

/-- Files that are converted to standard output: the world at first, and what the arguments ask
for. -/
structure Stream where
  world : World
  args : Args

namespace Stream

section Parts

variable (s : Stream)

def inputs : List Input := s.world.inputs s.args.files

def style : Style := chosenStyle s.args s.world.config

/-- The log lines that come before anything is said about the inputs. -/
def opening : Text :=
  (s.world.logging s.args).lines (s.world.openingEvents s.args)

/-- What is written to standard error about an input. -/
def told (named : Bool) (i : Input) : Text := i.told (s.world.logging s.args) s.style named

/-- Arguments ask for the sources of files, and for no other place to write them to. -/
structure IsAskedBy (arguments : List Text) : Prop where
  parsed : Args.parse (withDefaults s.world.config.options arguments) = .ok s.args
  converts : s.args.listStyles = false
  sources : s.args.deps = false
  toStream : s.args.output = none
  files : s.args.files ≠ []

end Parts

variable {s : Stream} {arguments : List Text}

/-- The run adds the sources to standard output and what there is to say to standard error, and
leaves the rest of the world as it is. -/
theorem run_eq (h : s.IsAskedBy arguments) :
    s.world.run (run arguments) =
      (.ofFailures (s.inputs.countP fun i => (i.output? s.style).isNone),
        s.world.withMore (Text.join ['\n'] (s.inputs.filterMap (Input.source? s.style)))
          (s.opening ++
            s.inputs.flatMap fun i => s.told (isBatch s.inputs || !i.content.isOk) i)) := by
  have hcommand := command_eq_none h.parsed h.files
  rw [World.run_eq_obey h.parsed, World.run_obey h.converts,
    World.run_convertInputs_stream _ _ hcommand h.files h.toStream h.sources,
    World.shown_openingNotes]
  unfold World.withMore
  rw [← List.append_assoc]
  rfl

/-- A run succeeds just if all its inputs are converted. -/
theorem code_run_eq_zero_iff (h : s.IsAskedBy arguments) :
    (s.world.run (run arguments)).1.code = 0 ↔
      ∀ i ∈ s.inputs, ∃ c, i.converted s.style = .ok c := by
  rw [run_eq h]
  exact ExitStatus.code_ofFailures_eq_zero_iff.trans countP_isNone_eq_zero_iff

/-- A run of one file writes its source, or complains about it. -/
theorem run_eq_of_inputs {i : Input} (h : s.IsAskedBy arguments) (hi : s.inputs = [i]) :
    (s.world.run (run arguments)).2 = s.world.withMore ((i.source? s.style).getD [])
        (s.opening ++ s.told (!i.content.isOk) i) ∧
      ((s.world.run (run arguments)).1.code = 0 ↔ ∃ c, i.converted s.style = .ok c) := by
  have hsources : [i].filterMap (Input.source? s.style) = (i.source? s.style).toList := by
    cases hi : i.source? s.style with
    | none => rw [List.filterMap_cons_none hi]; rfl
    | some t => rw [List.filterMap_cons_some hi]; rfl
  have hout : Text.join ['\n'] (i.source? s.style).toList = (i.source? s.style).getD [] := by
    cases i.source? s.style with
    | none => rfl
    | some t => simp [Text.join]
  rw [code_run_eq_zero_iff h, hi, List.forall_mem_singleton, run_eq h, hi, hsources, hout,
    List.flatMap_singleton]
  exact ⟨rfl, Iff.rfl⟩

/-- The same arguments with one of the files only. -/
def only (s : Stream) (name : Text) : Stream := { s with args := { s.args with files := [name] } }

/-- A run of several files writes the sources of those that are converted, in order and with a line
break between them. To standard error it writes, apart from log lines, a line about each of the
others with its name and its error, in order. It exits with zero just if there are no others. A file
adds the source, or else the error, that it has in a run without the other files. -/
theorem streamed_one_by_one (h : s.IsAskedBy arguments) (hseveral : 1 < s.args.files.length) :
    ((s.world.run (run arguments)).2 = s.world.withMore
        (Text.join ['\n'] (s.inputs.filterMap (Input.source? s.style)))
        (s.opening ++ s.inputs.flatMap (s.told true)) ∧
      ((s.world.run (run arguments)).1.code = 0 ↔
        ∀ i ∈ s.inputs, ∃ c, i.converted s.style = .ok c)) ∧
    ∀ i ∈ s.inputs, ∀ alone, (s.only i.name).IsAskedBy alone →
      (s.world.run (run alone)).2 = s.world.withMore ((i.source? s.style).getD [])
          (s.opening ++ s.told (!i.content.isOk) i) ∧
        ((s.world.run (run alone)).1.code = 0 ↔ ∃ c, i.converted s.style = .ok c) := by
  constructor
  · have hbatch : isBatch s.inputs = true := by
      simpa [isBatch, inputs, World.inputs] using hseveral
    refine ⟨?_, code_run_eq_zero_iff h⟩
    rw [run_eq h, hbatch]
    rfl
  · intro i hi alone halone
    have hinputs : (s.only i.name).inputs = [i] := by
      obtain ⟨name, -, rfl⟩ := List.mem_map.1 hi
      rfl
    exact run_eq_of_inputs (s := s.only i.name) halone hinputs

/-- Of four files, one is no text and one is not there; the others do not depend on them. -/
theorem streamed_one_by_one_between :
    let source (host : String) :=
      ("import requests\n\nresponse = requests.get('http://" ++ host
        ++ "/')\n\nprint(response.text)\n").toList
    let tree :=
      ((Tree.empty.withFile ["a.sh".toList] (Utf8.encode "curl http://a/".toList)).withFile
      ["b.sh".toList] [0xff]).withFile ["c.sh".toList] (Utf8.encode "curl http://c/".toList)
    let world : World := ⟨[], tree, [], [], [], []⟩
    let arguments := ["a.sh", "b.sh", "none.sh", "c.sh"].map String.toList
    let complaints := "curlgen: b.sh: IO error: stream did not contain valid UTF-8\n".toList
      ++ "curlgen: none.sh: IO error: No such file or directory (os error 2)\n".toList
    (world.run (run arguments)).2 = world.withMore (source "a" ++ '\n' :: source "c") complaints ∧
      (world.run (run arguments)).1.code = 1 ∧
      (world.run (run ["a.sh".toList])).2 = world.withMore (source "a") [] ∧
      (world.run (run ["a.sh".toList])).1.code = 0 := by
  intro source tree world arguments complaints
  let s : Stream := ⟨world, { Args.none with files := arguments }⟩
  have hask : s.IsAskedBy arguments :=
    ⟨Except.eq_ok_of_toOption (by decide +kernel), rfl, rfl, rfl, by decide⟩
  have halone : (s.only "a.sh".toList).IsAskedBy ["a.sh".toList] :=
    ⟨Except.eq_ok_of_toOption (by decide +kernel), rfl, rfl, rfl, by decide⟩
  obtain ⟨⟨hrun, hcode⟩, hone⟩ := streamed_one_by_one hask (by decide)
  let input (name : Text) : Input := ⟨name, textOf (world.tree.read world.current name)⟩
  have hmem (name : Text) (hname : name ∈ arguments) : input name ∈ s.inputs :=
    List.mem_map_of_mem hname
  have hsources : s.inputs.filterMap (Input.source? s.style) = [source "a", source "c"] := by
    decide +kernel
  have hcomplaints : s.opening ++ s.inputs.flatMap (s.told true) = complaints := by
    decide +kernel
  have hfailure : (world.run (run arguments)).1.code = 1 := by
    apply ExitStatus.code_eq_one_of_ne_zero
    intro hzero
    obtain ⟨c, hc⟩ := hcode.1 hzero _ (hmem "b.sh".toList (by decide))
    have hnone : ((input "b.sh".toList).converted s.style).toOption = none := by decide +kernel
    rw [hc] at hnone
    cases hnone
  obtain ⟨hrun', hcode'⟩ := hone _ (hmem "a.sh".toList (by decide)) _ halone
  have hsource : (input "a.sh".toList).source? s.style = some (source "a") := by decide +kernel
  have hsilent : s.opening ++ s.told (!(input "a.sh".toList).content.isOk) (input "a.sh".toList) =
      [] := by
    decide +kernel
  have hsuccess : (world.run (run ["a.sh".toList])).1.code = 0 := by
    obtain ⟨c, hc, -⟩ := Option.map_eq_some_iff.1 hsource
    exact hcode'.2 ⟨c, Except.eq_ok_of_toOption hc⟩
  rw [hsources, hcomplaints] at hrun
  rw [hsource, hsilent] at hrun'
  exact ⟨hrun, hfailure, hrun', hsuccess⟩

end Stream

end CommandLine
end CurlScribe
