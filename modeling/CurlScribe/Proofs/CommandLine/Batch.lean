import CurlScribe.CommandLine.Batch
import CurlScribe.Proofs.Files.Path

/-!
# What becomes of inputs

Each input either gives an output or fails, whatever the others do. The outputs of a batch are those
of its inputs in order, and each goes to the file that has the stem of the input's name.
-/

namespace CurlScribe
namespace CommandLine

/-! ## Inputs -/

namespace Input

/-- The output that an input gives, if it can be converted. -/
def output? (style : Style) (i : Input) : Option Output := do
  let command ← i.content.toOption
  let conversion ← (Conversion.ofCommand style command).result.toOption
  return ⟨i.name, conversion⟩

/-- An input is reported as its output, or else as one failure. -/
theorem report_eq (style : Style) (amongSeveral : Bool) (i : Input) :
    (i.report style amongSeveral).outputs = (i.output? style).toList ∧
      (i.report style amongSeveral).failures = if (i.output? style).isNone then 1 else 0 := by
  unfold report output?
  cases i.content with
  | error fault => exact ⟨rfl, rfl⟩
  | ok command =>
    cases hresult : (Conversion.ofCommand style command).result with
    | error e => simp [hresult, Report.ofFailure, Except.toOption]
    | ok conversion => simp [hresult, Except.toOption]

end Input

theorem outputs_reportAll (style : Style) (amongSeveral : Bool) (inputs : List Input) :
    (reportAll style amongSeveral inputs).outputs = inputs.filterMap (Input.output? style) := by
  induction inputs with
  | nil => rfl
  | cons i rest ih =>
    have hi := (i.report_eq style amongSeveral).1
    rw [reportAll, Report.append, hi, ih]
    cases h : i.output? style with
    | none => rw [List.filterMap_cons_none h]; rfl
    | some o => rw [List.filterMap_cons_some h]; rfl

theorem failures_reportAll (style : Style) (amongSeveral : Bool) (inputs : List Input) :
    (reportAll style amongSeveral inputs).failures =
      inputs.countP fun i => (i.output? style).isNone := by
  induction inputs with
  | nil => rfl
  | cons i rest ih =>
    have hi := (i.report_eq style amongSeveral).2
    rw [reportAll, Report.append, hi, ih, List.countP_cons, Nat.add_comm]

/-! ## Outputs -/

namespace Output

/-- The name of the file for an output. -/
def fileName (style : Style) (deps : Bool) (o : Output) : Text :=
  Path.stem o.name ++ '.' :: (if deps then "deps".toList else style.extension)

theorem isEntryName_fileName (style : Style) (deps : Bool) (o : Output) :
    Path.IsEntryName (o.fileName style deps) := by
  have hextension : style.extension ≠ [] ∧ '/' ∉ style.extension ∧ '.' ∉ style.extension := by
    cases style <;> decide
  cases deps with
  | true =>
    show Path.IsEntryName (Path.stem o.name ++ '.' :: "deps".toList)
    exact Path.isEntryName_stem o.name (by decide) (by decide) (by decide)
  | false =>
    obtain ⟨hne, hslash, hdot⟩ := hextension
    exact Path.isEntryName_stem o.name hne hslash hdot

/-- Files for outputs of one run are told apart by the stems alone. -/
theorem fileName_eq_iff {style : Style} {deps : Bool} {o other : Output} :
    other.fileName style deps = o.fileName style deps ↔
      Path.stem other.name = Path.stem o.name := by
  unfold fileName
  exact List.append_left_inj _

end Output

end CommandLine
end CurlScribe
