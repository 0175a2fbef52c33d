import CurlScribe.Files.Path
import CurlScribe.Proofs.Text.Runs

/-!
# Names in paths

The path of a name in a directory has the names of the directory and that name behind them. A stem
with an extension is always such a name, and another one for another stem.
-/

namespace CurlScribe
namespace Path

/-! ## Names -/

/-- The names of a path are what stands between its slashes, without the empty ones. -/
theorem names_eq_splitOn (path : Text) :
    names path = (path.splitOn '/').filter fun name => !name.isEmpty := by
  rw [names, Text.split_eq_splitOn]

/-- The names of a path are those before and those behind any of its slashes. -/
theorem names_append_slash (front back : Text) :
    names (front ++ '/' :: back) = names front ++ names back := by
  rw [names_eq_splitOn, List.splitOn_append_cons_self, List.filter_append, ← names_eq_splitOn,
    ← names_eq_splitOn]

/-- What an entry of a directory may be called. -/
structure IsEntryName (name : Text) : Prop where
  not_empty : name ≠ []
  avoids_slash : '/' ∉ name
  not_here : name ≠ ['.']
  not_above : name ≠ ['.', '.']

namespace IsEntryName

variable {name : Text} (h : IsEntryName name)

include h

theorem names_eq : names name = [name] := by
  rw [names_eq_splitOn, List.splitOn_eq_singleton h.avoids_slash]
  simp [h.not_empty]

/-- A name that is joined to a directory is the last of the names. -/
theorem names_join (directory : Text) :
    names (join directory name) = names directory ++ [name] := by
  unfold join
  split
  next hnone =>
    rw [List.getLast?_eq_none_iff.1 hnone, h.names_eq]
    rfl
  next hslash =>
    -- the directory has a slash at its end already
    obtain ⟨front, rfl⟩ := List.getLast?_eq_some_iff.1 hslash
    have hfront : names (front ++ ['/']) = names front := by
      rw [names_append_slash]
      exact List.append_nil _
    rw [List.append_assoc, List.singleton_append, names_append_slash, h.names_eq, hfront]
  · rw [names_append_slash, h.names_eq]

/-- A name that is joined to a directory is absolute if the directory is. -/
theorem isAbsolute_join (directory : Text) :
    isAbsolute (join directory name) = isAbsolute directory := by
  have hname : isAbsolute name = false := by
    cases name with
    | nil => rfl
    | cons c rest =>
      have hc : c ≠ '/' := fun hc => h.avoids_slash (hc ▸ List.mem_cons_self)
      simpa [isAbsolute] using hc
  unfold join
  split
  next hnone => rw [List.getLast?_eq_none_iff.1 hnone, hname]; rfl
  next hslash =>
    obtain ⟨front, rfl⟩ := List.getLast?_eq_some_iff.1 hslash
    cases front with
    | nil => rfl
    | cons c rest => rfl
  next hsome =>
    cases directory with
    | nil => cases hsome
    | cons c rest => rfl

end IsEntryName

/-! ## Stems -/

/-- The last name of a path has no slash in it. -/
theorem lastName_avoids_slash (path : Text) : '/' ∉ lastName path := by
  unfold lastName
  by_cases h : '/' ∈ path
  · obtain ⟨front, back, rfl, hback⟩ := Text.exists_last_of_mem h
    rw [Text.splitLast_append hback]
    exact hback
  · rw [Text.splitLast_eq_none h]
    exact h

/-- A stem is part of the last name, so it has no slash in it. -/
theorem stem_avoids_slash (path : Text) : '/' ∉ stem path := by
  have hlast := lastName_avoids_slash path
  unfold stem
  by_cases h : '.' ∈ lastName path
  · obtain ⟨front, back, hname, hback⟩ := Text.exists_last_of_mem h
    simp only [hname, Text.splitLast_append hback]
    rw [hname] at hlast
    split
    · exact hlast
    · exact fun hm => hlast (List.mem_append_left _ hm)
  · simp only [Text.splitLast_eq_none h]
    exact hlast

/-- A stem with an extension is the name of a file. -/
theorem isEntryName_stem (path : Text) {extension : Text} (hne : extension ≠ [])
    (hslash : '/' ∉ extension) (hdot : '.' ∉ extension) :
    IsEntryName (stem path ++ '.' :: extension) where
  not_empty := by simp
  avoids_slash := by simp [stem_avoids_slash, hslash]
  not_here := by
    intro h
    have hlength := congrArg List.length h
    have hpos := List.length_pos_iff.2 hne
    simp only [List.length_append, List.length_cons, List.length_nil] at hlength
    omega
  not_above := by
    intro h
    have hlast := congrArg List.getLast? h
    rw [List.getLast?_append_cons, List.getLast?_cons_of_ne_nil hne] at hlast
    exact hdot (List.mem_of_getLast? hlast)

end Path
end CurlScribe
