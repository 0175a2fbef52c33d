import CurlScribe.Files.Tree
import CurlScribe.Proofs.Files.Path
import Mathlib.Data.List.TakeDrop

/-!
# Files at the places that paths lead to

A file is written by setting it at the place that its path leads to (`Tree.LeadsTo`). Where paths
lead is decided by directories alone, so a file that is set leaves every other path where it led.
Making directories puts directories where nothing stood, and changes nothing else.
-/

namespace CurlScribe
namespace Files
namespace Tree

variable {t s : Tree} {current place : Place} {path : Text} {content : Bytes}

/-! ## Entries -/

/-- What is set at a place stands there, and nothing changes elsewhere. -/
theorem get?_set (t : Tree) (hplace : place ≠ []) (entry : Entry) (other : Place) :
    (t.set place entry).get? other = if other = place then some entry else t.get? other := by
  unfold set get?
  cases other with
  | nil => simp [hplace.symm]
  | cons name rest =>
    simp only [List.isEmpty_cons, Bool.false_eq_true, if_false, List.find?_cons]
    by_cases h : name :: rest = place
    · simp [h]
    · have hne : (place == name :: rest) = false := by simpa using Ne.symm h
      simp only [hne, if_neg h, List.find?_filter]
      -- the entries left out are not those looked for
      refine congrArg (fun p => (t.entries.find? p).map Prod.snd) (funext fun entry => ?_)
      by_cases hentry : entry.1 = name :: rest
      · simp [hentry, h]
      · simp [hentry]

theorem ne_nil_of_get? (h : t.get? place ≠ some .directory) : place ≠ [] := by
  rintro rfl
  exact h rfl

/-! ## Following names -/

theorem obstacle?_eq_none_iff {name : Text} : t.obstacle? place name = none ↔
    t.get? place = some .directory ∧ Text.byteSize name ≤ 255 := by
  unfold obstacle?
  cases t.get? place with
  | none => simp
  | some entry =>
    cases entry with
    | file content => simp
    | directory => simp

theorem follow_cons_eq_ok {name : Text} {rest : List Text} {target : Place} :
    t.follow place (name :: rest) = .ok target ↔
      t.obstacle? place name = none ∧ t.follow (move place name) rest = .ok target := by
  rw [follow]
  cases t.obstacle? place name with
  | none => simp
  | some fault => simp

theorem follow_append_eq_ok {front back : List Text} {target : Place} :
    t.follow place (front ++ back) = .ok target ↔
      ∃ middle, t.follow place front = .ok middle ∧ t.follow middle back = .ok target := by
  induction front generalizing place with
  | nil => simp [follow]
  | cons name front ih =>
    rw [List.cons_append, follow_cons_eq_ok, ih]
    simp only [follow_cons_eq_ok, and_assoc, exists_and_left]

/-- A single name, when it can be followed, leads to the entry of that name. -/
theorem follow_singleton_eq_ok {name : Text} {target : Place} (h : Path.IsEntryName name) :
    t.follow place [name] = .ok target ↔
      t.obstacle? place name = none ∧ target = place ++ [name] := by
  rw [follow_cons_eq_ok, move, if_neg (by simpa using h.not_here),
    if_neg (by simpa using h.not_above)]
  simp [follow, eq_comm]

/-- Directories of one tree are directories of the other. -/
def KeepsDirectories (t s : Tree) : Prop :=
  ∀ place, t.get? place = some .directory → s.get? place = some .directory

/-- Names lead to the same place if no directory is lost. -/
theorem KeepsDirectories.follow (h : KeepsDirectories t s) {names : List Text} {target : Place}
    (hfollow : t.follow place names = .ok target) : s.follow place names = .ok target := by
  induction names generalizing place with
  | nil => exact hfollow
  | cons name rest ih =>
    obtain ⟨hstep, hrest⟩ := follow_cons_eq_ok.1 hfollow
    obtain ⟨hdirectory, hsize⟩ := obstacle?_eq_none_iff.1 hstep
    exact follow_cons_eq_ok.2 ⟨obstacle?_eq_none_iff.2 ⟨h place hdirectory, hsize⟩, ih hrest⟩

theorem keepsDirectories_set (h : t.get? place ≠ some .directory) (entry : Entry) :
    KeepsDirectories t (t.set place entry) := by
  intro other hother
  have hne : other ≠ place := by
    rintro rfl
    exact h hother
  rw [get?_set t (ne_nil_of_get? h), if_neg hne, hother]

/-! ## Where paths lead -/

/-- The path of a file leads to this place, where a file stands or may be written. -/
structure LeadsTo (t : Tree) (current : Place) (path : Text) (place : Place) : Prop where
  isPath : pathFault? path = none
  isFile : endsInSlash path = false
  follow : t.follow (origin current path) (Path.names path) = .ok place
  vacant : t.get? place ≠ some .directory

/-- A path that does not end in a slash has a name. -/
theorem names_ne_nil (hpath : pathFault? path = none) (hfile : endsInSlash path = false) :
    Path.names path ≠ [] := by
  have hne : path ≠ [] := by
    rintro rfl
    cases hpath
  rw [Path.names_eq_splitOn]
  by_cases hslash : '/' ∈ path
  · obtain ⟨front, back, rfl, hback⟩ := Text.exists_last_of_mem hslash
    have hlast : back ≠ [] := by
      rintro rfl
      simp [endsInSlash] at hfile
    rw [List.splitOn_append_cons_self, List.splitOn_eq_singleton hback]
    simp [hlast]
  · rw [List.splitOn_eq_singleton hslash]
    simp [hne]

theorem followParent_eq_ok {names last : List Text} {parent : Place} :
    t.followParent place names = .ok (parent, last) ↔
      t.follow place names.dropLast = .ok parent ∧ t.get? parent = some .directory ∧
        last = names.drop (names.length - 1) := by
  have hdot : Text.byteSize ['.'] ≤ 255 := by decide
  -- a place is a directory just if the name of the place itself meets no obstacle
  unfold followParent
  cases t.follow place names.dropLast with
  | error fault => simp
  | ok found =>
    cases hobstacle : t.obstacle? found ['.'] with
    | some fault =>
      have hno : t.get? found ≠ some .directory := by
        intro hdirectory
        rw [obstacle?_eq_none_iff.2 ⟨hdirectory, hdot⟩] at hobstacle
        cases hobstacle
      simp only [hobstacle, reduceCtorEq, false_iff, Except.ok.injEq]
      rintro ⟨rfl, hdirectory, -⟩
      exact hno hdirectory
    | none =>
      have hdirectory := (obstacle?_eq_none_iff.1 hobstacle).1
      simp only [hobstacle, Except.ok.injEq, Prod.mk.injEq]
      constructor
      · rintro ⟨rfl, rfl⟩
        exact ⟨rfl, hdirectory, rfl⟩
      · rintro ⟨rfl, -, rfl⟩
        exact ⟨rfl, rfl⟩

/-- Writing succeeds just if the path leads to a place for a file, and sets the file there. -/
theorem write_eq_ok_iff : t.write current path content = .ok s ↔
    ∃ place, t.LeadsTo current path place ∧ s = t.set place (.file content) := by
  constructor
  · intro h
    unfold write at h
    split at h
    · cases h
    next hpath =>
    split at h
    · cases h
    next parent last hparent =>
    obtain ⟨hfront, -, rfl⟩ := followParent_eq_ok.1 hparent
    split at h
    · cases h
    next hfile =>
    have hfile : endsInSlash path = false := by simpa using hfile
    split at h
    · cases h
    next place hlast =>
    split at h
    · cases h
    next hvacant =>
    refine ⟨place, ⟨hpath, hfile, ?_, hvacant⟩, (Except.ok.inj h).symm⟩
    -- the last name is looked up where those before it lead to
    have hnames := List.take_append_drop ((Path.names path).length - 1) (Path.names path)
    rw [← List.dropLast_eq_take] at hnames
    rw [← hnames]
    exact follow_append_eq_ok.2 ⟨parent, hfront, hlast⟩
  · rintro ⟨place, h, rfl⟩
    -- a path to a file has a last name
    have hnames := names_ne_nil h.isPath h.isFile
    obtain ⟨parent, hfront, hlast⟩ := follow_append_eq_ok.1
      ((congrArg (t.follow _) (List.dropLast_append_getLast hnames)).trans h.follow)
    have hdrop : (Path.names path).drop ((Path.names path).length - 1) =
        [(Path.names path).getLast hnames] := List.drop_length_sub_one hnames
    have hdirectory : t.get? parent = some .directory :=
      (obstacle?_eq_none_iff.1 (follow_cons_eq_ok.1 hlast).1).1
    unfold write
    rw [h.isPath]
    simp only [followParent_eq_ok.2 ⟨hfront, hdirectory, rfl⟩, h.isFile, hdrop, hlast,
      Bool.false_eq_true, if_false, if_neg h.vacant]

/-- A path leads to one place. -/
theorem LeadsTo.unique {other : Place} (h : t.LeadsTo current path place)
    (hother : t.LeadsTo current path other) : place = other :=
  Except.ok.inj (h.follow.symm.trans hother.follow)

/-- The file at the place that a path leads to is read through that path. -/
theorem LeadsTo.read (h : t.LeadsTo current path place)
    (hfile : t.get? place = some (.file content)) : t.read current path = .ok content := by
  unfold Tree.read
  rw [h.isPath]
  simp only [h.isFile, Bool.false_eq_true, if_false, List.append_nil, h.follow, hfile]

/-- A path leads to the same place after a file has been set anywhere. -/
theorem LeadsTo.set_file {other : Place} (h : t.LeadsTo current path place)
    (hother : t.get? other ≠ some .directory) (content : Bytes) :
    (t.set other (.file content)).LeadsTo current path place := by
  refine ⟨h.isPath, h.isFile, (keepsDirectories_set hother _).follow h.follow, ?_⟩
  rw [get?_set t (ne_nil_of_get? hother)]
  split
  · simp
  · exact h.vacant

/-- The path of a name in a directory leads to the entry of that name. -/
theorem LeadsTo.eq_of_join {directory name : Text} (hname : Path.IsEntryName name)
    (h : t.LeadsTo current (Path.join directory name) place) :
    ∃ around, t.follow (origin current directory) (Path.names directory) = .ok around ∧
      place = around ++ [name] := by
  have hfollow := h.follow
  unfold origin at hfollow ⊢
  rw [hname.isAbsolute_join, hname.names_join] at hfollow
  obtain ⟨around, haround, hlast⟩ := follow_append_eq_ok.1 hfollow
  exact ⟨around, haround, ((follow_singleton_eq_ok hname).1 hlast).2⟩

/-! ## Files at several places -/

/-- The tree with files at places, one after another. -/
def setFiles (t : Tree) : List (Place × Bytes) → Tree
  | [] => t
  | (place, content) :: rest => (t.set place (.file content)).setFiles rest

theorem get?_setFiles_of_not_mem {files : List (Place × Bytes)} (hplaces : ∀ f ∈ files, f.1 ≠ [])
    (h : ∀ f ∈ files, f.1 ≠ place) : (t.setFiles files).get? place = t.get? place := by
  induction files generalizing t with
  | nil => rfl
  | cons f rest ih =>
    obtain ⟨hf, hrest⟩ := List.forall_mem_cons.1 h
    obtain ⟨hne, hnes⟩ := List.forall_mem_cons.1 hplaces
    rw [setFiles, ih hnes hrest, get?_set t hne, if_neg (Ne.symm hf)]

theorem setFiles_append (t : Tree) (front back : List (Place × Bytes)) :
    t.setFiles (front ++ back) = (t.setFiles front).setFiles back := by
  induction front generalizing t with
  | nil => rfl
  | cons f front ih => exact ih _

/-- The last file that is set at a place stands there. -/
theorem get?_setFiles_of_last {front back : List (Place × Bytes)}
    (hplaces : ∀ f ∈ front ++ (place, content) :: back, f.1 ≠ [])
    (h : ∀ f ∈ back, f.1 ≠ place) :
    (t.setFiles (front ++ (place, content) :: back)).get? place = some (.file content) := by
  obtain ⟨-, hplaces⟩ := List.forall_mem_append.1 hplaces
  obtain ⟨hne, hback⟩ := List.forall_mem_cons.1 hplaces
  rw [setFiles_append, setFiles, get?_setFiles_of_not_mem hback h, get?_set _ hne, if_pos rfl]

/-- A path leads to the same place after files have been set anywhere. -/
theorem LeadsTo.setFiles {files : List (Place × Bytes)} (h : t.LeadsTo current path place)
    (hfiles : ∀ f ∈ files, t.get? f.1 ≠ some .directory) :
    (t.setFiles files).LeadsTo current path place := by
  induction files generalizing t with
  | nil => exact h
  | cons f rest ih =>
    obtain ⟨hf, hrest⟩ := List.forall_mem_cons.1 hfiles
    refine ih (h.set_file hf f.2) fun g hg => ?_
    rw [get?_set t (ne_nil_of_get? hf)]
    split
    · simp
    · exact hrest g hg

/-! ## Making directories -/

/-- One tree has the entries of the other, and perhaps directories where nothing stood. -/
def GrowsTo (t s : Tree) : Prop :=
  ∀ place, s.get? place = t.get? place ∨ t.get? place = none ∧ s.get? place = some .directory

theorem GrowsTo.refl (t : Tree) : t.GrowsTo t := fun _ => .inl rfl

theorem GrowsTo.trans {u : Tree} (h : t.GrowsTo s) (h' : s.GrowsTo u) : t.GrowsTo u := by
  intro place
  rcases h place, h' place with ⟨hs | ⟨ht, hs⟩, hu | ⟨hs', hu⟩⟩
  · exact .inl (hu.trans hs)
  · exact .inr ⟨hs.symm.trans hs', hu⟩
  · exact .inr ⟨ht, hu.trans hs⟩
  · rw [hs] at hs'
    cases hs'

theorem growsTo_makeAt {names : List Text} (h : t.makeAt place names = .ok s) : t.GrowsTo s := by
  unfold makeAt at h
  split at h
  · cases h
  split at h
  · cases h
  next found _ =>
  split at h
  · cases h
  next hnone =>
  obtain rfl := Except.ok.inj h
  intro other
  have hne : found ≠ [] := by
    rintro rfl
    cases hnone
  rw [get?_set t hne]
  split
  next he => exact .inr ⟨he ▸ hnone, rfl⟩
  · exact .inl rfl

theorem growsTo_ensureAt {names : List Text} (h : t.ensureAt place names = .ok s) :
    t.GrowsTo s := by
  unfold ensureAt at h
  split at h
  · split at h
    · obtain rfl := Except.ok.inj h
      exact .refl t
    · cases h
  · exact growsTo_makeAt h

theorem growsTo_makeAll {names : List Text} (h : t.makeAll place names = .ok s) : t.GrowsTo s := by
  fun_induction makeAll t place names generalizing s with
  | case1 =>
    obtain rfl := Except.ok.inj h
    exact .refl t
  | case2 names hnames hmissing fault houter ih => cases h
  | case3 names hnames hmissing outer houter ih => exact (ih houter).trans (growsTo_ensureAt h)
  | case4 names hnames hother => exact growsTo_ensureAt h

theorem growsTo_makeDirectories (h : t.makeDirectories current path = .ok s) : t.GrowsTo s := by
  unfold makeDirectories at h
  split at h
  · obtain rfl := Except.ok.inj h
    exact .refl t
  · split at h
    · cases h
    · exact growsTo_makeAll h

end Tree
end Files
end CurlScribe
