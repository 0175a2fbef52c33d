import CurlScribe.CommandLine.Defaults
import CurlScribe.Proofs.CommandLine.Reader
import CurlScribe.Proofs.Outcome

/-!
# Default options before arguments

Default options are an option list of their own, and the arguments of a run are read behind them.
The arguments go first wherever they say something, except that the defaults may end the options or
give a command: behind the mark `--` all arguments are taken for files, and files cannot stand
beside a command (`withDefaults_over_iff`).
-/

namespace CurlScribe
namespace CommandLine

/-- What arguments ask for if others give the defaults: the input is theirs as soon as they name
one, the other values are theirs where they give them, and switches add up. -/
def Args.over (a d : Args) : Args :=
  if a.files = [] then a.or d else { a.or d with command := a.command }

section Defaults

variable {options arguments : List Text} {d a : Args}

theorem withDefaults_eq_append (hd : Args.parse options = .ok d) (hfiles : d.files = []) :
    withDefaults options arguments = options ++ arguments := by
  unfold withDefaults defaultsFault?
  simp only [hd, hfiles, List.isEmpty_nil, if_true, ite_self]

theorem withDefaults_eq_self (hd : ∀ d, Args.parse options = .ok d → d.files ≠ []) :
    withDefaults options arguments = arguments := by
  unfold withDefaults defaultsFault?
  cases options with
  | nil => rfl
  | cons option rest =>
    cases hparse : Args.parse (option :: rest) with
    | error stop => rfl
    | ok d =>
      have hfiles := List.isEmpty_eq_false_iff.2 (hd d hparse)
      simp [hfiles]

/-- The arguments are read by a reader that has read the default options. -/
theorem parse_withDefaults (hd : Args.parse options = .ok d) (hfiles : d.files = [])
    (arguments : List Text) :
    Args.parse (withDefaults options arguments) =
      (Reader.mk d .nothing false (decide (['-', '-'] ∈ options))).parse arguments := by
  rw [Reader.parse_start] at hd
  obtain ⟨t, s, ht, hs, rfl, -⟩ := Reader.parse_eq_ok hd
  obtain ⟨hkeeps, hpending⟩ := Reader.Keeps.of_settle hs
  have hnames (names : List Text) (hnames : t.pending = .files names) : names = [] := by
    have hcount := hkeeps.numFiles_eq
    rw [Reader.numFiles, Reader.numFiles, hpending, hfiles, hnames] at hcount
    exact List.eq_nil_of_length_eq_zero (Nat.eq_zero_of_add_eq_zero hcount.symm).2
  have hlast : s.commandLast = false := by
    refine eq_false_of_ne_true fun h => ?_
    exact ((hkeeps.isSound (Reader.isSound_start.readAll ht)).commandLast h).2 hfiles
  have honly : s.onlyFiles = decide (['-', '-'] ∈ options) := by
    rw [hkeeps.onlyFiles_eq, Bool.eq_iff_iff, decide_eq_true_eq, Reader.onlyFiles_readAll ht]
    simp [Reader.start]
  rw [withDefaults_eq_append hd hfiles, Reader.parse_start, Reader.parse_append ht,
    Reader.parse_settle hs hnames, ← hpending, ← hlast, ← honly]

/-- Default options that do not end the options are read as if they stood below the arguments. -/
theorem parse_withDefaults_of_not_mem (hd : Args.parse options = .ok d) (hfiles : d.files = [])
    (hmark : ['-', '-'] ∉ options) (ha : Args.parse arguments = .ok a) :
    Args.parse (withDefaults options arguments) =
      if d.command ≠ none ∧ a.files ≠ [] then .error (.conflict (.option (.value .command)) .files)
      else .ok (a.or d) := by
  have hstart : Reader.start.or d = ⟨d, .nothing, false, false⟩ := by
    have hargs : Args.none.or d = { d with files := [] } :=
      Args.onlyFiles_or (Reader.verbose_le_of_parse hd) []
    rw [← hfiles] at hargs
    unfold Reader.or Reader.start
    rw [hargs]
  rw [parse_withDefaults hd hfiles, decide_eq_false hmark, ← hstart]
  exact Reader.parse_or Reader.isSound_start ha

/-- Default options that end the options make files of all arguments. -/
theorem parse_withDefaults_of_mem (hd : Args.parse options = .ok d) (hfiles : d.files = [])
    (hmark : ['-', '-'] ∈ options) (arguments : List Text) :
    Args.parse (withDefaults options arguments) =
      if arguments.any List.isEmpty then .error (.invalidValue .files [])
      else if d.command ≠ none ∧ arguments ≠ [] then
        .error (.conflict (.option (.value .command)) .files)
      else .ok { d with files := arguments } := by
  rw [parse_withDefaults hd hfiles, decide_eq_true hmark]
  exact Reader.parse_onlyFiles rfl rfl hfiles rfl arguments

/-- Arguments that do not name files beside a command go over the defaults value by value. -/
theorem Args.over_eq_or (h : d.command = Option.none ∨ a.files = []) : a.over d = a.or d := by
  unfold Args.over
  split
  · rfl
  next hfiles =>
    have hcommand : (a.or d).command = a.command := by
      show a.command.or d.command = a.command
      rw [h.resolve_right hfiles, Option.or_none]
    rw [← hcommand]

theorem Args.files_over (a d : Args) : (a.over d).files = a.files := by
  unfold Args.over
  split
  · rfl
  · rfl

theorem withDefaults_over_iff_of_mem (hd : Args.parse options = .ok d) (hfiles : d.files = [])
    (ha : Args.parse arguments = .ok a) (hmark : ['-', '-'] ∈ options) :
    Args.parse (withDefaults options arguments) = .ok (a.over d) ↔
      (d.command = none ∨ a.files = []) ∧ a.files = arguments := by
  rw [parse_withDefaults_of_mem hd hfiles hmark]
  constructor
  · intro h
    split at h
    · cases h
    · split at h
      · cases h
      next hinput =>
        have hall : a.files = arguments := by
          rw [← a.files_over d, ← Except.ok.inj h]
        rw [← hall] at hinput
        exact ⟨by simpa [or_iff_not_imp_left] using hinput, hall⟩
  · rintro ⟨hinput, hall⟩
    obtain ⟨s, hs, hargs⟩ := Reader.isSound_of_parse ha
    -- the arguments are files that were accepted before, so each has a name
    have hnamed : ¬ arguments.any List.isEmpty = true := by
      rw [List.any_eq_true]
      rintro ⟨name, hname, hempty⟩
      rw [← hall, ← hargs] at hname
      exact hs.named name hname (List.isEmpty_iff.1 hempty)
    have hover : a.over d = { d with files := arguments } := by
      rw [Args.over_eq_or hinput, Reader.parse_of_files_eq ha hall]
      exact Args.onlyFiles_or (Reader.verbose_le_of_parse hd) arguments
    rw [hall] at hinput
    rw [if_neg hnamed, if_neg (by simpa [or_iff_not_imp_left] using hinput), hover]

/-- The default options give way to the arguments just if they give no command beside files that the
arguments name, and do not end the options before arguments that are more than files. If they give
such a command, the arguments are refused; if they end the options, all arguments count as files.
Lists that cannot be read, or name files, are left out. -/
theorem withDefaults_over_iff (hd : Args.parse options = .ok d) (hfiles : d.files = [])
    (ha : Args.parse arguments = .ok a) :
    (Args.parse (withDefaults options arguments) = .ok (a.over d) ↔
      (d.command = none ∨ a.files = []) ∧ (['-', '-'] ∉ options ∨ a.files = arguments)) ∧
    (['-', '-'] ∉ options → d.command ≠ none → a.files ≠ [] →
      Args.parse (withDefaults options arguments) =
        .error (.conflict (.option (.value .command)) .files)) ∧
    (['-', '-'] ∈ options → ∀ m, Args.parse (withDefaults options arguments) = .ok m →
      m = { d with files := arguments }) ∧
    ∀ unused, (∀ d, Args.parse unused = .ok d → d.files ≠ []) →
      withDefaults unused arguments = arguments := by
  refine ⟨?_, ?_, ?_, fun unused hunused => withDefaults_eq_self hunused⟩
  · by_cases hmark : ['-', '-'] ∈ options
    · exact (withDefaults_over_iff_of_mem hd hfiles ha hmark).trans (by simp [hmark])
    · rw [parse_withDefaults_of_not_mem hd hfiles hmark ha]
      constructor
      · intro h
        split at h
        · cases h
        next hinput => exact ⟨by simpa [or_iff_not_imp_left] using hinput, .inl hmark⟩
      · rintro ⟨hinput, -⟩
        rw [if_neg (by simpa [or_iff_not_imp_left] using hinput), Args.over_eq_or hinput]
  · intro hmark hcommand hnamed
    rw [parse_withDefaults_of_not_mem hd hfiles hmark ha, if_pos ⟨hcommand, hnamed⟩]
  · intro hmark m hm
    rw [parse_withDefaults_of_mem hd hfiles hmark] at hm
    split at hm
    · cases hm
    · split at hm
      · cases hm
      · exact (Except.ok.inj hm).symm

end Defaults

/-- A style and a switch in the defaults, and the same two options behind them. -/
theorem withDefaults_over_style :
    let options := ["-v", "-lgo", "-o", "out"].map String.toList
    let arguments := ["-l", "rust", "-v", "a.sh"].map String.toList
    Args.parse (withDefaults options arguments) =
      .ok { Args.none with
        files := ["a.sh".toList], style := some .rust, output := some "out".toList, verbose := 2 } := by
  intro options arguments
  let d : Args := { Args.none with style := some .go, output := some "out".toList, verbose := 1 }
  let a : Args := { Args.none with files := ["a.sh".toList], style := some .rust, verbose := 1 }
  have hd : Args.parse options = .ok d := Except.eq_ok_of_toOption (by decide +kernel)
  have ha : Args.parse arguments = .ok a := Except.eq_ok_of_toOption (by decide +kernel)
  have hover := (withDefaults_over_iff hd rfl ha).1.2 ⟨.inl rfl, .inl (by decide)⟩
  exact hover.trans (congrArg Except.ok (by decide))

/-- Defaults that end the options make files of a style and a command. -/
theorem withDefaults_mark :
    let options := ["--".toList]
    let arguments := ["-l", "go", "-c", "curl http://x/"].map String.toList
    let asked : Args :=
      { Args.none with style := some .go, command := some "curl http://x/".toList }
    Args.parse options = .ok Args.none ∧ Args.parse arguments = .ok asked ∧
      Args.parse (withDefaults options arguments) = .ok { Args.none with files := arguments } ∧
      { Args.none with files := arguments } ≠ asked.over Args.none := by
  refine ⟨Except.eq_ok_of_toOption ?_, Except.eq_ok_of_toOption ?_, Except.eq_ok_of_toOption ?_, ?_⟩
  · decide +kernel
  · decide +kernel
  · decide +kernel
  · decide +kernel

end CommandLine
end CurlScribe
