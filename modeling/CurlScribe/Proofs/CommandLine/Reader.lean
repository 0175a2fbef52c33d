import CurlScribe.CommandLine.Reader
import Mathlib.Tactic.Common

/-!
# Arguments behind other arguments

What a row of arguments comes to when others have been read before it. The reader is followed step
by step: what has been read before shows through wherever the row says nothing itself
(`Reader.readAll_or`), and a value that still waits to be looked at makes no difference to what
comes after it (`Reader.parse_settle`).
-/

namespace CurlScribe
namespace CommandLine

/-! ## Arguments over others -/

namespace Args

/-- What the first arguments ask for, and where they leave an option alone, what the second ask for.
The files are those of the first. -/
def or (a d : Args) : Args where
  files := a.files
  command := a.command.or d.command
  style := a.style.or d.style
  output := a.output.or d.output
  deps := a.deps || d.deps
  listStyles := a.listStyles || d.listStyles
  verbose := min 255 (a.verbose + d.verbose)
  quiet := a.quiet || d.quiet
  logFormat := a.logFormat.or d.logFormat

/-- All that arguments ask for besides files. -/
def withoutFiles (a : Args) : Args := { a with files := [] }

theorem eq_of_withoutFiles {a b : Args} (h : a.withoutFiles = b.withoutFiles)
    (hfiles : a.files = b.files) : a = b := by
  obtain ⟨files, command, style, output, deps, listStyles, verbose, quiet, logFormat⟩ := a
  obtain rfl : files = b.files := hfiles
  exact congrArg (fun c : Args => { c with files := b.files }) h

/-- Files alone leave everything else to the others. -/
theorem onlyFiles_or {d : Args} (hverbose : d.verbose ≤ 255) (files : List Text) :
    { Args.none with files := files }.or d = { d with files := files } := by
  have hmin : min 255 (0 + d.verbose) = d.verbose := by
    rw [Nat.zero_add]
    exact Nat.min_eq_right hverbose
  unfold or none
  simp only [hmin, Option.none_or, Bool.false_or]

end Args

/-- Is it an option that waits? -/
def Pending.isOption : Pending → Bool
  | .option _ _ => true
  | _ => false

/-- How many files wait to be looked at. -/
def Pending.numFiles : Pending → Nat
  | .files names => names.length
  | _ => 0

namespace Reader

/-- Nothing has been read. -/
def start : Reader := ⟨Args.none, .nothing, false, false⟩

/-- The reader with other arguments below those that it has read. -/
def or (r : Reader) (d : Args) : Reader := { r with args := r.args.or d }

/-- What is read, and then all that arguments ask for. -/
def parse (r : Reader) (args : List Text) : Except Stop Args :=
  match r.readAll args with
  | .error e => .error e
  | .ok r => r.finish

theorem parse_start (args : List Text) : Args.parse args = start.parse args := rfl

/-- Arguments are read one by one. -/
theorem parse_cons (r : Reader) (t : Text) (rest : List Text) :
    r.parse (t :: rest) = match r.read t with
      | .error e => .error e
      | .ok r => r.parse rest := by
  unfold parse
  rw [readAll]
  cases r.read t with
  | error e => rfl
  | ok r => rfl

/-- Arguments in front are read first, and their reader reads the others. -/
theorem readAll_append (r : Reader) (front back : List Text) :
    r.readAll (front ++ back) = match r.readAll front with
      | .error e => .error e
      | .ok r => r.readAll back := by
  induction front generalizing r with
  | nil => rfl
  | cons t front ih =>
    rw [List.cons_append, readAll, readAll]
    cases r.read t with
    | error e => rfl
    | ok r => exact ih r

/-- Arguments are read if the first is, and the others are by its reader. -/
theorem readAll_cons_eq_ok {r s : Reader} {t : Text} {rest : List Text} :
    r.readAll (t :: rest) = .ok s ↔ ∃ r', r.read t = .ok r' ∧ r'.readAll rest = .ok s := by
  rw [readAll]
  cases r.read t with
  | error e =>
    constructor
    · intro h
      cases h
    · rintro ⟨_, h, -⟩
      cases h
  | ok r' =>
    constructor
    · intro h
      exact ⟨r', rfl, h⟩
    · rintro ⟨_, h, hrest⟩
      obtain rfl := Except.ok.inj h
      exact hrest

/-- Arguments behind others are read by the reader that these leave. -/
theorem parse_append {r s : Reader} {front : List Text} (h : r.readAll front = .ok s)
    (back : List Text) : r.parse (front ++ back) = s.parse back := by
  unfold parse
  rw [readAll_append, h]

/-! ## Steps over other arguments

Every step of the reader does the same to the arguments that it has whatever lies below them. -/

section Or

variable (r : Reader) (d : Args)

/-- Values are set alike over other arguments: one that is given again replaces the other. -/
theorem setValue_or (o : ValueOption) (value : Text) :
    (r.or d).setValue o value = (r.setValue o value).map (·.or d) := by
  cases o with
  | command => rfl
  | language =>
    unfold setValue
    cases Style.ofName? value with
    | none => rfl
    | some style => rfl
  | output =>
    unfold setValue
    simp only
    split
    · rfl
    · rfl
  | logFormat =>
    unfold setValue
    cases Log.Format.ofName? value with
    | none => rfl
    | some format => rfl

/-- A pending option is settled alike over other arguments. -/
theorem settle_or : (r.or d).settle = r.settle.map (·.or d) := by
  obtain ⟨args, pending, commandLast, onlyFiles⟩ := r
  cases pending with
  | nothing => rfl
  | files names =>
    simp only [settle, or]
    split
    · rfl
    · rfl
  | option o value =>
    cases value with
    | none => rfl
    | some value => exact setValue_or ⟨args, .nothing, commandLast, onlyFiles⟩ d o value

/-- Switches are turned on alike over other arguments. -/
theorem turnOn_or (s : Switch) : (r.or d).turnOn s = (r.turnOn s).map (·.or d) := by
  unfold turnOn
  rw [settle_or]
  cases r.settle with
  | error e => rfl
  | ok r =>
    cases s with
    | verbose =>
      have hverbose : min 255 (min 255 (r.args.verbose + d.verbose) + 1) =
          min 255 (min 255 (r.args.verbose + 1) + d.verbose) := by omega
      simp only [Except.map, or, Args.or, hverbose]
    | deps => rfl
    | listStyles => rfl
    | quiet => rfl
    | help => rfl
    | version => rfl

/-- Options begin alike over other arguments. -/
theorem beginOption_or (o : ValueOption) (attached : Option Text) :
    (r.or d).beginOption o attached = (r.beginOption o attached).map (·.or d) := by
  unfold beginOption
  rw [settle_or]
  cases r.settle with
  | error e => rfl
  | ok r =>
    cases attached with
    | none => rfl
    | some value => exact setValue_or r d o value

/-- Files are added alike over other arguments. -/
theorem addFile_or (name : Text) : (r.or d).addFile name = (r.addFile name).map (·.or d) := by
  have hsettle : ((r.or d).settle.map fun r => { r with pending := .files [name] }) =
      (r.settle.map fun r => { r with pending := .files [name] }).map (·.or d) := by
    rw [settle_or]
    cases r.settle with
    | error e => rfl
    | ok r => rfl
  obtain ⟨args, pending, commandLast, onlyFiles⟩ := r
  cases pending with
  | nothing => rfl
  | files names => rfl
  | option o value => exact hsettle

/-- Long options are read alike over other arguments. -/
theorem readLong_or (t : Text) : (r.or d).readLong t = (r.readLong t).map (·.or d) := by
  unfold readLong
  cases Text.splitFirst (· == '=') t
  all_goals
    dsimp only
    split
    · rfl
    · exact beginOption_or r d _ _
    · exact turnOn_or r d _
    · rfl

/-- Letters in a row are read alike over other arguments: by induction on the letters. -/
theorem readLetters_or (letters : Text) :
    (r.or d).readLetters letters = (r.readLetters letters).map (·.or d) := by
  induction letters generalizing r with
  | nil => rfl
  | cons c rest ih =>
    rw [readLetters, readLetters]
    split
    · rfl
    · exact beginOption_or r d _ _
    · rw [turnOn_or]
      cases r.turnOn _ with
      | error e => rfl
      | ok r => exact ih r

theorem readPlain_or (t : Text) : (r.or d).readPlain t = (r.readPlain t).map (·.or d) := by
  have hadd := addFile_or r d t
  obtain ⟨args, pending, commandLast, onlyFiles⟩ := r
  cases pending with
  | nothing => exact hadd
  | files names => exact hadd
  | option o value =>
    cases value with
    | none => rfl
    | some value => exact hadd

/-- One argument is read alike over other arguments. -/
theorem read_or (t : Text) : (r.or d).read t = (r.read t).map (·.or d) := by
  unfold read
  show (if r.onlyFiles then _ else _) = _
  split
  · exact addFile_or r d t
  · split
    · rfl
    · exact readLong_or r d _
    · exact readLetters_or r d _
    · exact readPlain_or r d t

/-- A row of arguments is read over others as it is read on its own, and then put over them. -/
theorem readAll_or (args : List Text) :
    (r.or d).readAll args = (r.readAll args).map (·.or d) := by
  induction args generalizing r with
  | nil => rfl
  | cons t rest ih =>
    rw [readAll, readAll, read_or]
    cases r.read t with
    | error e => rfl
    | ok r => exact ih r

end Or

/-! ## What is kept from step to step -/

/-- What holds of a reader however far it has come. -/
structure IsSound (r : Reader) : Prop where
  verbose_le : r.args.verbose ≤ 255
  commandLast : r.commandLast = true → r.args.command ≠ none ∧ r.args.files ≠ []
  named : ∀ name ∈ r.args.files, name ≠ []

theorem isSound_start : start.IsSound := ⟨Nat.zero_le _, nofun, nofun⟩

/-- How many files have been read. -/
def numFiles (r : Reader) : Nat := r.args.files.length + r.pending.numFiles

/-- What a step leaves as it is when it reads no file. -/
structure Keeps (r s : Reader) : Prop where
  numFiles_eq : s.numFiles = r.numFiles
  onlyFiles_eq : s.onlyFiles = r.onlyFiles
  isSound : r.IsSound → s.IsSound

namespace Keeps

variable {r s t : Reader}

theorem trans (h : Keeps r s) (h' : Keeps s t) : Keeps r t :=
  ⟨h'.numFiles_eq.trans h.numFiles_eq, h'.onlyFiles_eq.trans h.onlyFiles_eq,
    fun hr => h'.isSound (h.isSound hr)⟩

/-- A value keeps the files and what is pending. -/
theorem of_setValue {o : ValueOption} {value : Text} (h : r.setValue o value = .ok s) :
    Keeps r s ∧ s.pending = r.pending := by
  unfold setValue at h
  cases o with
  | command =>
    obtain rfl := Except.ok.inj h
    refine ⟨⟨rfl, rfl, fun hr => ?_⟩, rfl⟩
    exact ⟨hr.verbose_le, fun hlast => ⟨nofun, by simpa using hlast⟩, hr.named⟩
  | language =>
    simp only at h
    split at h
    · obtain rfl := Except.ok.inj h
      exact ⟨⟨rfl, rfl, fun hr => ⟨hr.verbose_le, hr.commandLast, hr.named⟩⟩, rfl⟩
    · cases h
  | output =>
    simp only at h
    split at h
    · cases h
    · obtain rfl := Except.ok.inj h
      exact ⟨⟨rfl, rfl, fun hr => ⟨hr.verbose_le, hr.commandLast, hr.named⟩⟩, rfl⟩
  | logFormat =>
    simp only at h
    split at h
    · obtain rfl := Except.ok.inj h
      exact ⟨⟨rfl, rfl, fun hr => ⟨hr.verbose_le, hr.commandLast, hr.named⟩⟩, rfl⟩
    · cases h

/-- After a look at what is pending, nothing is. -/
theorem of_settle (h : r.settle = .ok s) : Keeps r s ∧ s.pending = .nothing := by
  obtain ⟨args, pending, commandLast, onlyFiles⟩ := r
  cases pending with
  | nothing =>
    obtain rfl := Except.ok.inj h
    exact ⟨⟨rfl, rfl, id⟩, rfl⟩
  | files names =>
    simp only [settle] at h
    split at h
    · cases h
    next hnames =>
      obtain rfl := Except.ok.inj h
      refine ⟨⟨?_, rfl, fun hr => ⟨hr.verbose_le, fun hlast => ?_, fun name hname => ?_⟩⟩, rfl⟩
      · simp [numFiles, Pending.numFiles]
      · obtain ⟨hcommand, hfiles⟩ := hr.commandLast hlast
        exact ⟨hcommand, List.append_ne_nil_of_left_ne_nil hfiles _⟩
      · rcases List.mem_append.1 hname with hold | hnew
        · exact hr.named name hold
        · rintro rfl
          exact hnames (List.any_eq_true.2 ⟨[], hnew, rfl⟩)
  | option o value =>
    cases value with
    | none => cases h
    | some value =>
      obtain ⟨hkeeps, hpending⟩ := of_setValue (r := ⟨args, .nothing, commandLast, onlyFiles⟩) h
      exact ⟨⟨hkeeps.numFiles_eq, hkeeps.onlyFiles_eq, fun hr =>
        hkeeps.isSound ⟨hr.verbose_le, hr.commandLast, hr.named⟩⟩, hpending⟩

theorem of_turnOn {o : Switch} (h : r.turnOn o = .ok s) : Keeps r s := by
  unfold turnOn at h
  split at h
  · cases h
  next hsettle =>
    refine (of_settle hsettle).1.trans ?_
    cases o with
    | verbose =>
      obtain rfl := Except.ok.inj h
      exact ⟨rfl, rfl, fun hr => ⟨Nat.min_le_left _ _, hr.commandLast, hr.named⟩⟩
    | deps =>
      obtain rfl := Except.ok.inj h
      exact ⟨rfl, rfl, fun hr => ⟨hr.verbose_le, hr.commandLast, hr.named⟩⟩
    | listStyles =>
      obtain rfl := Except.ok.inj h
      exact ⟨rfl, rfl, fun hr => ⟨hr.verbose_le, hr.commandLast, hr.named⟩⟩
    | quiet =>
      obtain rfl := Except.ok.inj h
      exact ⟨rfl, rfl, fun hr => ⟨hr.verbose_le, hr.commandLast, hr.named⟩⟩
    | help => cases h
    | version => cases h

theorem of_beginOption {o : ValueOption} {attached : Option Text}
    (h : r.beginOption o attached = .ok s) : Keeps r s := by
  unfold beginOption at h
  split at h
  · cases h
  next hsettle =>
    obtain ⟨hkeeps, hpending⟩ := of_settle hsettle
    refine hkeeps.trans ?_
    cases attached with
    | none =>
      obtain rfl := Except.ok.inj h
      refine ⟨?_, rfl, fun hr => ⟨hr.verbose_le, hr.commandLast, hr.named⟩⟩
      rw [numFiles, numFiles, hpending]
      rfl
    | some value => exact (of_setValue h).1

theorem of_readLong {long : Text} (h : r.readLong long = .ok s) : Keeps r s := by
  unfold readLong at h
  simp only at h
  split at h
  · cases h
  · exact of_beginOption h
  · exact of_turnOn h
  · cases h

/-- Letters in a row keep what each of them keeps. -/
theorem of_readLetters {letters : Text} (h : r.readLetters letters = .ok s) : Keeps r s := by
  induction letters generalizing r with
  | nil =>
    obtain rfl := Except.ok.inj h
    exact ⟨rfl, rfl, id⟩
  | cons c rest ih =>
    rw [readLetters] at h
    split at h
    · cases h
    · exact of_beginOption h
    · split at h
      · cases h
      next hturn => exact (of_turnOn hturn).trans (ih h)

end Keeps

/-- A file is one more that waits. -/
theorem addFile_spec {r s : Reader} {name : Text} (h : r.addFile name = .ok s) :
    s.numFiles = r.numFiles + 1 ∧ s.onlyFiles = r.onlyFiles ∧ (r.IsSound → s.IsSound) := by
  have hsettle (h : (r.settle.map fun r => { r with pending := .files [name] }) = .ok s) :
      s.numFiles = r.numFiles + 1 ∧ s.onlyFiles = r.onlyFiles ∧ (r.IsSound → s.IsSound) := by
    cases ht : r.settle with
    | error e =>
      rw [ht] at h
      cases h
    | ok t =>
      rw [ht] at h
      obtain rfl := Except.ok.inj h
      obtain ⟨hkeeps, hpending⟩ := Keeps.of_settle ht
      refine ⟨?_, hkeeps.onlyFiles_eq, fun hr => ?_⟩
      · rw [← hkeeps.numFiles_eq, numFiles, numFiles, hpending]
        rfl
      · obtain ⟨hverbose, hlast, hnamed⟩ := hkeeps.isSound hr
        exact ⟨hverbose, hlast, hnamed⟩
  obtain ⟨args, pending, commandLast, onlyFiles⟩ := r
  cases pending with
  | nothing => exact hsettle h
  | files names =>
    obtain rfl := Except.ok.inj h
    refine ⟨?_, rfl, fun hr => ⟨hr.verbose_le, hr.commandLast, hr.named⟩⟩
    simp [numFiles, Pending.numFiles, Nat.add_assoc]
  | option o value => exact hsettle h

/-- An argument is the mark that ends the options, or a file, or else no file is read. -/
theorem read_cases {r s : Reader} {t : Text} (h : r.read t = .ok s) :
    (t = ['-', '-'] ∧ s = { r with onlyFiles := true }) ∨
      ((r.onlyFiles = true ∨ t ≠ ['-', '-']) ∧ (r.addFile t = .ok s ∨ Keeps r s)) := by
  unfold read at h
  by_cases honly : r.onlyFiles = true
  · rw [if_pos honly] at h
    exact .inr ⟨.inl honly, .inl h⟩
  rw [if_neg honly] at h
  by_cases hmark : t = ['-', '-']
  · subst hmark
    exact .inl ⟨rfl, (Except.ok.inj h).symm⟩
  refine .inr ⟨.inr hmark, ?_⟩
  split at h
  · exact absurd rfl hmark
  · exact .inr (Keeps.of_readLong h)
  · exact .inr (Keeps.of_readLetters h)
  · unfold readPlain at h
    split at h
    next hpending =>
      obtain rfl := Except.ok.inj h
      refine .inr ⟨?_, rfl, fun hr => ⟨hr.verbose_le, hr.commandLast, hr.named⟩⟩
      rw [numFiles, numFiles, hpending]
      rfl
    · exact .inl h

/-- One argument leaves a sound reader sound. -/
theorem IsSound.read {r s : Reader} {t : Text} (hr : r.IsSound) (h : r.read t = .ok s) :
    s.IsSound := by
  rcases read_cases h with ⟨-, rfl⟩ | ⟨-, hadd | hkeeps⟩
  · exact ⟨hr.verbose_le, hr.commandLast, hr.named⟩
  · exact (addFile_spec hadd).2.2 hr
  · exact hkeeps.isSound hr

/-- A row of arguments leaves a sound reader sound. -/
theorem IsSound.readAll {r s : Reader} {args : List Text} (hr : r.IsSound)
    (h : r.readAll args = .ok s) : s.IsSound := by
  induction args generalizing r with
  | nil =>
    obtain rfl := Except.ok.inj h
    exact hr
  | cons t rest ih =>
    obtain ⟨r', hread, hrest⟩ := readAll_cons_eq_ok.1 h
    exact ih (hr.read hread) hrest

/-- Behind the mark, and only there, all arguments are files. -/
theorem onlyFiles_readAll {r s : Reader} {args : List Text} (h : r.readAll args = .ok s) :
    s.onlyFiles = true ↔ r.onlyFiles = true ∨ ['-', '-'] ∈ args := by
  induction args generalizing r with
  | nil =>
    obtain rfl := Except.ok.inj h
    simp
  | cons t rest ih =>
    obtain ⟨r', hread, hrest⟩ := readAll_cons_eq_ok.1 h
    rw [ih hrest, List.mem_cons]
    rcases read_cases hread with ⟨rfl, rfl⟩ | ⟨hmark, hstep⟩
    · simp
    · have honly : r'.onlyFiles = r.onlyFiles := by
        rcases hstep with hadd | hkeeps
        · exact (addFile_spec hadd).2.1
        · exact hkeeps.onlyFiles_eq
      rw [honly]
      rcases hmark with hmark | hmark
      · simp [hmark]
      · simp [Ne.symm hmark]

/-! ## What is still pending -/

/-- Nothing is to settle where nothing is pending. -/
theorem settle_of_nothing {r : Reader} (h : r.pending = .nothing) : r.settle = .ok r := by
  unfold settle
  rw [h]

theorem settle_withOnlyFiles (r : Reader) (b : Bool) :
    { r with onlyFiles := b }.settle = r.settle.map fun r => { r with onlyFiles := b } := by
  obtain ⟨args, pending, commandLast, onlyFiles⟩ := r
  cases pending with
  | nothing => rfl
  | files names =>
    simp only [settle]
    split
    · rfl
    · rfl
  | option o value =>
    cases value with
    | none => rfl
    | some value =>
      cases o with
      | command => rfl
      | language =>
        simp only [settle, setValue]
        cases Style.ofName? value with
        | none => rfl
        | some style => rfl
      | output =>
        simp only [settle, setValue]
        split
        · rfl
        · rfl
      | logFormat =>
        simp only [settle, setValue]
        cases Log.Format.ofName? value with
        | none => rfl
        | some format => rfl

section Settle

variable {r s : Reader} (h : r.settle = .ok s)
  (hfiles : ∀ names, r.pending = .files names → names = [])

include h

/-- A switch settles what is pending before it is turned on. -/
theorem turnOn_settle (o : Switch) : r.turnOn o = s.turnOn o := by
  unfold turnOn
  rw [h, settle_of_nothing (Keeps.of_settle h).2]

theorem beginOption_settle (o : ValueOption) (attached : Option Text) :
    r.beginOption o attached = s.beginOption o attached := by
  unfold beginOption
  rw [h, settle_of_nothing (Keeps.of_settle h).2]

theorem readLong_settle (t : Text) : r.readLong t = s.readLong t := by
  unfold readLong
  simp only [beginOption_settle h, turnOn_settle h]

/-- The first letter of a row settles what is pending. -/
theorem readLetters_settle (c : Char) (rest : Text) :
    r.readLetters (c :: rest) = s.readLetters (c :: rest) := by
  rw [readLetters, readLetters]
  simp only [beginOption_settle h, turnOn_settle h]

include hfiles

theorem addFile_settle (name : Text) : r.addFile name = s.addFile name := by
  have hs := (Keeps.of_settle h).2
  have hadd : s.addFile name = .ok { s with pending := .files [name] } := by
    unfold addFile
    rw [hs, settle_of_nothing hs]
    rfl
  rw [hadd]
  unfold addFile
  split
  next names hpending =>
    obtain rfl := hfiles names hpending
    unfold settle at h
    rw [hpending] at h
    obtain rfl := Except.ok.inj h
    simp
  · rw [h]
    rfl

/-- Any other argument is read alike once what is pending has been settled. -/
theorem readPlain_settle (t : Text) : r.readPlain t = s.readPlain t := by
  have hs := (Keeps.of_settle h).2
  have hplain : s.readPlain t = s.addFile t := by
    unfold readPlain
    rw [hs]
  rw [hplain, ← addFile_settle h hfiles]
  unfold readPlain
  split
  next hpending =>
    unfold settle at h
    rw [hpending] at h
    cases h
  · rfl

/-- What waits to be looked at may as well be looked at before more arguments are read. -/
theorem parse_settle (args : List Text) : r.parse args = s.parse args := by
  induction args generalizing r s with
  | nil =>
    show r.finish = s.finish
    unfold finish
    rw [h, settle_of_nothing (Keeps.of_settle h).2]
  | cons t rest ih =>
    have honly := (Keeps.of_settle h).1.onlyFiles_eq
    rw [parse_cons, parse_cons]
    -- the mark that ends options settles nothing; every other argument does
    by_cases hmark : r.onlyFiles = false ∧ t = ['-', '-']
    · obtain ⟨hfalse, rfl⟩ := hmark
      have hread (q : Reader) (hq : q.onlyFiles = false) :
          q.read ['-', '-'] = .ok { q with onlyFiles := true } := by
        unfold read
        rw [hq]
        rfl
      rw [hread r hfalse, hread s (honly.trans hfalse)]
      refine ih ?_ hfiles
      rw [settle_withOnlyFiles, h]
      rfl
    · have hread : r.read t = s.read t := by
        unfold read
        rw [honly]
        split
        · exact addFile_settle h hfiles t
        next hfalse =>
          split
          · exact absurd ⟨eq_false_of_ne_true hfalse, rfl⟩ hmark
          · exact readLong_settle h _
          · exact readLetters_settle h _ _
          · exact readPlain_settle h hfiles t
      rw [hread]

end Settle

/-! ## What arguments ask for in the end -/

/-- The command and files exclude each other. -/
theorem finish_eq {r s : Reader} (h : r.settle = .ok s) :
    r.finish = if s.args.command ≠ none ∧ s.args.files ≠ [] then
        if s.commandLast then .error (.conflict .files (.option (.value .command)))
        else .error (.conflict (.option (.value .command)) .files)
      else .ok s.args := by
  have hexclude : (s.args.command.isSome && !s.args.files.isEmpty) = true ↔
      s.args.command ≠ none ∧ s.args.files ≠ [] := by
    rw [Bool.and_eq_true, Option.isSome_iff_ne_none, Bool.not_eq_true', List.isEmpty_eq_false_iff]
  unfold finish
  simp only [h, hexclude]

/-- At the end what is pending is settled, and a command stands without files. -/
theorem finish_eq_ok {r : Reader} {a : Args} (h : r.finish = .ok a) :
    ∃ s, r.settle = .ok s ∧ s.args = a ∧ (a.files ≠ [] → a.command = none) := by
  cases hs : r.settle with
  | error e =>
    unfold finish at h
    rw [hs] at h
    cases h
  | ok s =>
    rw [finish_eq hs] at h
    split at h
    · split at h
      · cases h
      · cases h
    next hexclude =>
      obtain rfl := Except.ok.inj h
      refine ⟨s, rfl, rfl, fun hfiles => ?_⟩
      by_contra hcommand
      exact hexclude ⟨hcommand, hfiles⟩

/-- Arguments that are accepted are read, settled, and have no command beside files. -/
theorem parse_eq_ok {r : Reader} {args : List Text} {a : Args} (h : r.parse args = .ok a) :
    ∃ t s, r.readAll args = .ok t ∧ t.settle = .ok s ∧ s.args = a ∧
      (a.files ≠ [] → a.command = none) := by
  unfold parse at h
  cases ht : r.readAll args with
  | error e =>
    rw [ht] at h
    cases h
  | ok t =>
    rw [ht] at h
    obtain ⟨s, hs⟩ := finish_eq_ok h
    exact ⟨t, s, rfl, hs⟩

/-- What arguments ask for is as sound as the reader that has read them. -/
theorem isSound_of_parse {args : List Text} {a : Args} (h : start.parse args = .ok a) :
    ∃ s : Reader, s.IsSound ∧ s.args = a := by
  obtain ⟨t, s, ht, hs, hargs, -⟩ := parse_eq_ok h
  exact ⟨s, (Keeps.of_settle hs).1.isSound (isSound_start.readAll ht), hargs⟩

/-- The count of a switch stays in a byte. -/
theorem verbose_le_of_parse {args : List Text} {a : Args} (h : start.parse args = .ok a) :
    a.verbose ≤ 255 := by
  obtain ⟨s, hs, rfl⟩ := isSound_of_parse h
  exact hs.verbose_le

/-- Arguments that can be read alone can be read over others, unless they name files and the others
give a command. -/
theorem parse_or {r : Reader} {d a : Args} {args : List Text} (hr : r.IsSound)
    (h : r.parse args = .ok a) :
    (r.or d).parse args =
      if d.command ≠ none ∧ a.files ≠ [] then .error (.conflict (.option (.value .command)) .files)
      else .ok (a.or d) := by
  obtain ⟨t, s, ht, hs, rfl, hone⟩ := parse_eq_ok h
  have hparse : (r.or d).parse args = (t.or d).finish := by
    unfold parse
    rw [readAll_or, ht]
    rfl
  have hsettle : (t.or d).settle = .ok (s.or d) := by
    rw [settle_or, hs]
    rfl
  rw [hparse, finish_eq hsettle]
  by_cases hfiles : s.args.files = []
  · rw [if_neg fun hboth => hboth.2 hfiles, if_neg fun hboth => hboth.2 hfiles]
    rfl
  · -- with files there is no command of its own, so that the one below came first
    have hsound := (Keeps.of_settle hs).1.isSound (hr.readAll ht)
    have hlast : s.commandLast = false := by
      refine eq_false_of_ne_true fun hlast => ?_
      exact (hsound.commandLast hlast).1 (hone hfiles)
    have hcommand : (s.or d).args.command = d.command := by
      show s.args.command.or d.command = _
      rw [hone hfiles, Option.none_or]
    show (if (s.or d).args.command ≠ none ∧ s.args.files ≠ [] then
      if s.commandLast then _ else _ else Except.ok (s.args.or d)) = _
    rw [hcommand, hlast]
    rfl

/-! ## Files only -/

/-- Behind the mark that ends options, all arguments are files. -/
theorem readAll_onlyFiles {r : Reader} {names : List Text} (honly : r.onlyFiles = true)
    (hpending : r.pending = .files names) (args : List Text) :
    r.readAll args = .ok { r with pending := .files (names ++ args) } := by
  induction args generalizing r names with
  | nil => rw [List.append_nil, ← hpending]; rfl
  | cons t rest ih =>
    have hread : r.read t = .ok { r with pending := .files (names ++ [t]) } := by
      unfold read addFile
      rw [if_pos honly, hpending]
    have hrest := ih (r := { r with pending := .files (names ++ [t]) }) honly rfl
    rw [List.append_assoc] at hrest
    exact readAll_cons_eq_ok.2 ⟨_, hread, hrest⟩

/-- Behind the mark that ends the options, every argument is a file, which must have a name and must
not stand beside a command. -/
theorem parse_onlyFiles {r : Reader} (honly : r.onlyFiles = true) (hpending : r.pending = .nothing)
    (hfiles : r.args.files = []) (hlast : r.commandLast = false) (args : List Text) :
    r.parse args =
      if args.any List.isEmpty then .error (.invalidValue .files [])
      else if r.args.command ≠ none ∧ args ≠ [] then
        .error (.conflict (.option (.value .command)) .files)
      else .ok { r.args with files := args } := by
  cases args with
  | nil =>
    show r.finish = _
    have hargs : { r.args with files := [] } = r.args := by rw [← hfiles]
    rw [finish_eq (settle_of_nothing hpending), hfiles, hargs]
    simp
  | cons name rest =>
    have hread : r.read name = .ok { r with pending := .files [name] } := by
      unfold read addFile
      rw [if_pos honly, hpending, settle_of_nothing hpending]
      rfl
    have hall := readAll_onlyFiles (r := { r with pending := .files [name] }) honly rfl rest
    have hparse : r.parse (name :: rest) = { r with pending := .files (name :: rest) }.finish := by
      unfold parse
      rw [readAll_cons_eq_ok.2 ⟨_, hread, hall⟩]
      rfl
    rw [hparse]
    -- an empty name is refused when the files are settled
    by_cases hnames : (name :: rest).any List.isEmpty = true
    · rw [if_pos hnames]
      unfold finish settle
      simp only [hnames, if_true]
    · rw [if_neg hnames]
      have hsettle : { r with pending := .files (name :: rest) }.settle =
          .ok { r with args.files := name :: rest, pending := .nothing } := by
        unfold settle
        simp only [hnames, Bool.false_eq_true, if_false, hfiles, List.nil_append]
      rw [finish_eq hsettle]
      simp only [hlast, Bool.false_eq_true, if_false]

/-- A file changes nothing but the files, if no option waits. -/
theorem addFile_withoutFiles {r s : Reader} {name : Text} (hr : r.pending.isOption = false)
    (h : r.addFile name = .ok s) :
    s.args.withoutFiles = r.args.withoutFiles ∧ s.pending.isOption = false := by
  unfold addFile at h
  split at h
  · obtain rfl := Except.ok.inj h
    exact ⟨rfl, rfl⟩
  next hfiles =>
    have hpending : r.pending = .nothing := by
      cases hp : r.pending with
      | nothing => rfl
      | files names => exact absurd hp (hfiles names)
      | option o value =>
        rw [hp] at hr
        cases hr
    rw [settle_of_nothing hpending] at h
    obtain rfl := Except.ok.inj h
    exact ⟨rfl, rfl⟩

/-- Files that are pending change nothing but the files. -/
theorem settle_withoutFiles {r s : Reader} (hr : r.pending.isOption = false)
    (h : r.settle = .ok s) : s.args.withoutFiles = r.args.withoutFiles := by
  unfold settle at h
  split at h
  · obtain rfl := Except.ok.inj h
    rfl
  · split at h
    · cases h
    · obtain rfl := Except.ok.inj h
      rfl
  · cases h
  next hpending =>
    rw [hpending] at hr
    cases hr

/-- An argument is at most one more file, and then it is added as one. -/
theorem numFiles_read {r s : Reader} {t : Text} (h : r.read t = .ok s) :
    s.numFiles = r.numFiles ∨ s.numFiles = r.numFiles + 1 ∧ r.addFile t = .ok s := by
  rcases read_cases h with ⟨-, rfl⟩ | ⟨-, hadd | hkeeps⟩
  · exact .inl rfl
  · exact .inr ⟨(addFile_spec hadd).1, hadd⟩
  · exact .inl hkeeps.numFiles_eq

/-- No more files are read than there are arguments. -/
theorem numFiles_readAll_le {r s : Reader} {args : List Text} (h : r.readAll args = .ok s) :
    s.numFiles ≤ r.numFiles + args.length := by
  induction args generalizing r with
  | nil =>
    obtain rfl := Except.ok.inj h
    exact Nat.le_refl _
  | cons t rest ih =>
    obtain ⟨r', hread, hrest⟩ := readAll_cons_eq_ok.1 h
    have hle := ih hrest
    rw [List.length_cons]
    rcases numFiles_read hread with hsame | ⟨hone, -⟩
    · omega
    · omega

/-- If there are as many files as arguments, nothing else is read. -/
theorem withoutFiles_of_numFiles {r s : Reader} {args : List Text}
    (hr : r.pending.isOption = false) (h : r.readAll args = .ok s)
    (hall : s.numFiles = r.numFiles + args.length) :
    s.args.withoutFiles = r.args.withoutFiles ∧ s.pending.isOption = false := by
  induction args generalizing r with
  | nil =>
    obtain rfl := Except.ok.inj h
    exact ⟨rfl, hr⟩
  | cons t rest ih =>
    obtain ⟨r', hread, hrest⟩ := readAll_cons_eq_ok.1 h
    have hle := numFiles_readAll_le hrest
    rw [List.length_cons] at hall
    rcases numFiles_read hread with hsame | ⟨hone, hadd⟩
    · omega
    · obtain ⟨hargs, hpending⟩ := addFile_withoutFiles hr hadd
      obtain ⟨hargs', hpending'⟩ := ih hpending hrest (by omega)
      exact ⟨hargs'.trans hargs, hpending'⟩

/-- Arguments that are all files ask for nothing else. -/
theorem parse_of_files_eq {args : List Text} {a : Args} (h : start.parse args = .ok a)
    (hfiles : a.files = args) : a = { Args.none with files := args } := by
  obtain ⟨t, s, ht, hs, rfl, -⟩ := parse_eq_ok h
  obtain ⟨hkeeps, hnothing⟩ := Keeps.of_settle hs
  have hcount : t.numFiles = start.numFiles + args.length := by
    rw [← hkeeps.numFiles_eq, numFiles, hnothing, hfiles]
    exact (Nat.zero_add _).symm
  obtain ⟨hargs, hpending⟩ := withoutFiles_of_numFiles rfl ht hcount
  refine Args.eq_of_withoutFiles ?_ hfiles
  rw [settle_withoutFiles hpending hs, hargs]
  rfl

end Reader
end CommandLine
end CurlScribe
