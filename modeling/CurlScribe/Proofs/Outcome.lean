import Mathlib.Data.List.Forall2
import CurlScribe.Outcome

/-!
# Steps that succeed

What is known of the parts of a step when the whole step succeeds.
-/

namespace Except

variable {ε α β : Type}

theorem bind_eq_ok {x : Except ε α} {f : α → Except ε β} {b : β} :
    (x >>= f) = .ok b ↔ ∃ a, x = .ok a ∧ f a = .ok b := by
  cases x with
  | error e => exact ⟨nofun, nofun⟩
  | ok a => exact ⟨fun h => ⟨a, rfl, h⟩, fun ⟨_, ha, h⟩ => Except.ok.inj ha ▸ h⟩

theorem map_eq_ok {x : Except ε α} {f : α → β} {b : β} :
    x.map f = .ok b ↔ ∃ a, x = .ok a ∧ f a = b := by
  cases x with
  | error e => exact ⟨nofun, nofun⟩
  | ok a => exact ⟨fun h => ⟨a, rfl, Except.ok.inj h⟩, fun ⟨_, ha, h⟩ => by cases ha; cases h; rfl⟩

theorem map_mapError {ε' : Type} (f : α → β) (g : ε → ε') (x : Except ε α) :
    (x.mapError g).map f = (x.map f).mapError g := by
  cases x with
  | error e => rfl
  | ok a => rfl

@[simp] theorem mapError_eq_ok {ε' : Type} {g : ε → ε'} {x : Except ε α} {a : α} :
    x.mapError g = .ok a ↔ x = .ok a := by
  cases x with
  | error e => exact ⟨nofun, nofun⟩
  | ok b => exact ⟨fun h => congrArg ok (ok.inj h), fun h => congrArg ok (ok.inj h)⟩

theorem eq_ok_of_toOption {x : Except ε α} {a : α} (h : x.toOption = some a) : x = .ok a := by
  cases x with
  | error e => cases h
  | ok b => exact congrArg Except.ok (Option.some.inj h)

/-- A step that succeeds on all elements of a list succeeds on each. -/
theorem mapM_eq_ok {f : α → Except ε β} {as : List α} {bs : List β} :
    as.mapM f = .ok bs ↔ List.Forall₂ (fun a b => f a = .ok b) as bs := by
  induction as generalizing bs with
  | nil =>
    rw [List.mapM_nil, List.forall₂_nil_left_iff]
    exact ⟨fun h => (Except.ok.inj h).symm, fun h => congrArg Except.ok h.symm⟩
  | cons a as ih =>
    rw [List.mapM_cons, bind_eq_ok, List.forall₂_cons_left_iff]
    constructor
    · rintro ⟨b, hb, h⟩
      obtain ⟨bs, hbs, ⟨⟩⟩ := bind_eq_ok.1 h
      exact ⟨b, bs, hb, ih.1 hbs, rfl⟩
    · rintro ⟨b, bs, hb, hbs, rfl⟩
      exact ⟨b, hb, bind_eq_ok.2 ⟨bs, ih.2 hbs, rfl⟩⟩

/-- What comes of a step on a list comes of the step on one of its elements. -/
theorem exists_mem_of_mapM {f : α → Except ε β} {as : List α} {bs : List β}
    (h : as.mapM f = .ok bs) {b : β} (hb : b ∈ bs) : ∃ a ∈ as, f a = .ok b := by
  have hall := mapM_eq_ok.1 h
  clear h
  induction hall with
  | nil => cases hb
  | cons hab _ ih =>
    rcases List.mem_cons.1 hb with rfl | hb
    · exact ⟨_, List.mem_cons_self, hab⟩
    · obtain ⟨a, ha, hfa⟩ := ih hb
      exact ⟨a, List.mem_cons_of_mem _ ha, hfa⟩

end Except

namespace CurlScribe
namespace Outcome

theorem andThen_result_eq_ok {α β : Type} {x : Outcome α} {f : α → Outcome β} {b : β} :
    (x.andThen f).result = .ok b ↔ ∃ a, x.result = .ok a ∧ (f a).result = .ok b := by
  unfold andThen
  cases x.result with
  | error e => exact ⟨nofun, nofun⟩
  | ok a => exact ⟨fun h => ⟨a, rfl, h⟩, fun ⟨_, ha, h⟩ => Except.ok.inj ha ▸ h⟩

/-- What comes of the steps for a list comes of the step for one of its members. -/
theorem exists_mem_of_forAll {α β : Type} {f : α → Outcome β} {as : List α} {bs : List β}
    (h : (forAll f as).result = .ok bs) {b : β} (hb : b ∈ bs) :
    ∃ a ∈ as, (f a).result = .ok b := by
  induction as generalizing bs with
  | nil =>
    cases h
    cases hb
  | cons a as ih =>
    obtain ⟨first, hfirst, h⟩ := andThen_result_eq_ok.1 h
    obtain ⟨rest, hrest, h⟩ := andThen_result_eq_ok.1 h
    cases h
    rcases List.mem_cons.1 hb with rfl | hb
    · exact ⟨a, List.mem_cons_self, hfirst⟩
    · obtain ⟨a', ha', hf⟩ := ih hrest hb
      exact ⟨a', List.mem_cons_of_mem _ ha', hf⟩

/-- Where every step succeeds, so do all of them in order, and every warning is kept. -/
theorem forAll_eq {α β : Type} {f : α → Outcome β} {as : List α} {g : α → β}
    {ws : α → List Warning} (h : ∀ a ∈ as, f a = ⟨.ok (g a), ws a⟩) :
    forAll f as = ⟨.ok (as.map g), as.flatMap ws⟩ := by
  induction as with
  | nil => rfl
  | cons a as ih =>
    obtain ⟨ha, has⟩ := List.forall_mem_cons.1 h
    rw [forAll, ha, ih has]
    simp [andThen, ok]

/-- Where some step fails, all of them in order fail as one of the steps does. -/
theorem exists_error_of_forAll {α β : Type} {f : α → Outcome β} {as : List α} {a : α} {e : Error}
    (ha : a ∈ as) (h : (f a).result = .error e) :
    ∃ b ∈ as, ∃ e, (f b).result = .error e ∧ (forAll f as).result = .error e := by
  induction as with
  | nil => cases ha
  | cons first rest ih =>
    rw [forAll]
    unfold andThen
    cases hfirst : (f first).result with
    | error e => exact ⟨first, List.mem_cons_self, e, hfirst, rfl⟩
    | ok b =>
      have hrest : a ∈ rest := by
        rcases List.mem_cons.1 ha with rfl | hrest
        · rw [hfirst] at h
          cases h
        · exact hrest
      obtain ⟨b, hb, e, hfb, hall⟩ := ih hrest
      exact ⟨b, List.mem_cons_of_mem _ hb, e, hfb, by simp [hall]⟩

/-- Steps in a row may be grouped in either way. -/
theorem andThen_assoc {α β γ : Type} (x : Outcome α) (f : α → Outcome β) (g : β → Outcome γ) :
    (x.andThen f).andThen g = x.andThen fun a => (f a).andThen g := by
  obtain ⟨result, warnings⟩ := x
  cases result with
  | error e => rfl
  | ok a =>
    simp only [andThen]
    cases (f a).result with
    | error e => rfl
    | ok b => simp

end Outcome
end CurlScribe
