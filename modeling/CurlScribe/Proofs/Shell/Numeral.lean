import CurlScribe.Proofs.Shell.Fragments
import Mathlib.Data.Nat.Digits.Defs

/-!
# Numerals

An escape by number takes the longest run of digits in front of it, up to a number of digits that
depends on the escape. This module says which run that is (`Radix.LongestRun`), what number it
stands for (`Radix.valueOf`), and what becomes of it in a machine word of 32 bits
(`Radix.accumulate?`). A reader with such a word has no answer once a digit makes the number too
large for it; this does not happen where all numbers of so many digits fit
(`Radix.accumulate?_eq`). Eight hexadecimal digits are the most that do.
-/

namespace CurlScribe
namespace Shell

/-- A numeral system: what its digits are worth, and a digit for every number below the base. -/
structure Radix where
  base : Nat
  value? : Char → Option Nat
  digit : Nat → Char
  one_lt_base : 1 < base
  value_lt : ∀ {c d}, value? c = some d → d < base
  value?_digit : ∀ d < base, value? (digit d) = some d
  value?_toLower : ∀ c, value? c.toLower = value? c

namespace Radix

def hexadecimal : Radix where
  base := 16
  value? := Text.hexValue?
  digit := Text.hexDigit
  one_lt_base := by decide
  value_lt h := by
    have hrange := Text.hexValue?_cases h
    omega
  value?_digit := by decide
  value?_toLower := Text.apply_toLower (by decide)

def octal : Radix where
  base := 8
  value? := Text.octalValue?
  digit := Text.hexDigit
  one_lt_base := by decide
  value_lt h := by
    have hrange := Text.octalValue?_eq h
    omega
  value?_digit := by decide
  value?_toLower := Text.apply_toLower (by decide)

/-- Is every character of the text a digit? -/
def AreDigits (r : Radix) (run : Text) : Prop := ∀ c ∈ run, (r.value? c).isSome = true

instance (r : Radix) (run : Text) : Decidable (r.AreDigits run) :=
  List.decidableBAll (fun c => (r.value? c).isSome = true) run

/-- The values of the digits of a text, in order. -/
def values (r : Radix) (run : Text) : List Nat := run.filterMap r.value?

/-- The number that a run of digits stands for. Its last digit counts units. -/
def valueOf (r : Radix) (run : Text) : Nat := Nat.ofDigits r.base (r.values run).reverse

/-- The input is `run` and then `rest`, and `run` is the longest of all runs of at most `limit`
digits that the input begins with. -/
structure LongestRun (r : Radix) (limit : Nat) (input run rest : Text) : Prop where
  input_eq : input = run ++ rest
  areDigits : r.AreDigits run
  bounded : run.length ≤ limit
  longest : ∀ other, other <+: input → r.AreDigits other → other.length ≤ limit →
    other.length ≤ run.length

variable {r : Radix}

/-! ## Values -/

theorem areDigits_of_map {run : Text} {ds : List Nat} (h : run.map r.value? = ds.map some) :
    r.AreDigits run := by
  intro c hc
  have hmem : r.value? c ∈ ds.map some := by
    rw [← h]
    exact List.mem_map_of_mem hc
  obtain ⟨d, -, hd⟩ := List.mem_map.1 hmem
  rw [← hd]
  rfl

theorem values_of_map {run : Text} {ds : List Nat} (h : run.map r.value? = ds.map some) :
    r.values run = ds := by
  have hvalues : (run.map r.value?).filterMap id = (ds.map some).filterMap id := by rw [h]
  rw [List.filterMap_map, List.filterMap_map] at hvalues
  show run.filterMap r.value? = ds
  calc run.filterMap r.value? = run.filterMap (id ∘ r.value?) := rfl
    _ = ds.filterMap some := hvalues
    _ = ds := List.filterMap_some

theorem map_value? {run : Text} (h : r.AreDigits run) :
    run.map r.value? = (r.values run).map some := by
  induction run with
  | nil => rfl
  | cons c run ih =>
    obtain ⟨hc, hrun⟩ := List.forall_mem_cons.1 h
    obtain ⟨d, hd⟩ := Option.isSome_iff_exists.1 hc
    rw [values, List.filterMap_cons_some hd, List.map_cons, List.map_cons, hd]
    exact congrArg (some d :: ·) (ih hrun)

theorem length_values {run : Text} (h : r.AreDigits run) : (r.values run).length = run.length := by
  have hlength := congrArg List.length (map_value? h)
  rw [List.length_map, List.length_map] at hlength
  exact hlength.symm

/-- The case of letters does not matter for what they are worth. -/
theorem map_value?_lower (run : Text) : (Text.lower run).map r.value? = run.map r.value? := by
  rw [Text.lower, List.map_map]
  exact List.map_congr_left fun c _ => r.value?_toLower c

/-- A run of digits stands for less than the next power of the base. -/
theorem valueOf_lt {run : Text} (h : r.AreDigits run) : r.valueOf run < r.base ^ run.length := by
  rw [← length_values h, ← List.length_reverse]
  apply Nat.ofDigits_lt_base_pow_length r.one_lt_base
  intro d hd
  obtain ⟨c, -, hc⟩ := List.mem_filterMap.1 (List.mem_reverse.1 hd)
  exact r.value_lt hc

theorem valueOf_concat (run : Text) {c : Char} {d : Nat} (h : r.value? c = some d) :
    r.valueOf (run ++ [c]) = r.valueOf run * r.base + d := by
  have hvalues : r.values (run ++ [c]) = r.values run ++ [d] := by
    rw [values, List.filterMap_append, List.filterMap_cons_some h]
    rfl
  rw [valueOf, hvalues, List.reverse_append, List.reverse_singleton, List.singleton_append,
    Nat.ofDigits_cons]
  show d + r.base * r.valueOf run = _
  rw [Nat.mul_comm, Nat.add_comm]

/-- Adding up digits from the front gives the number that they stand for. -/
theorem ofDigits_eq (base : Nat) (ds : List Nat) :
    ofDigits base ds = Nat.ofDigits base ds.reverse := by
  rw [Nat.ofDigits_eq_foldr, List.foldr_reverse, ofDigits]
  refine congrArg (ds.foldl · 0) (funext fun n => funext fun d => ?_)
  show n * base + d = d + base * n
  rw [Nat.mul_comm, Nat.add_comm]

/-! ## Numerals of a given width -/

/-- The numeral with `width` digits, of which the first may be zeros. -/
def numeral (r : Radix) : Nat → Nat → Text
  | 0, _ => []
  | width + 1, n => numeral r width (n / r.base) ++ [r.digit (n % r.base)]

theorem numeral_spec {width n : Nat} (h : n < r.base ^ width) :
    r.AreDigits (r.numeral width n) ∧ (r.numeral width n).length = width ∧
      r.valueOf (r.numeral width n) = n := by
  have hbase : 0 < r.base := Nat.lt_trans Nat.one_pos r.one_lt_base
  induction width generalizing n with
  | zero =>
    obtain rfl : n = 0 := by simpa using h
    exact ⟨by simp [numeral, AreDigits], rfl, rfl⟩
  | succ width ih =>
    have hfront : n / r.base < r.base ^ width := by
      rw [Nat.div_lt_iff_lt_mul hbase, ← Nat.pow_succ]
      exact h
    obtain ⟨hdigits, hlength, hvalue⟩ := ih hfront
    have hlast := r.value?_digit (n % r.base) (Nat.mod_lt n hbase)
    refine ⟨?_, ?_, ?_⟩
    · show ∀ c ∈ r.numeral width (n / r.base) ++ [r.digit (n % r.base)], (r.value? c).isSome = true
      rw [List.forall_mem_append, List.forall_mem_singleton, hlast]
      exact ⟨hdigits, rfl⟩
    · rw [numeral, List.length_append, hlength]
      rfl
    · rw [numeral, valueOf_concat _ hlast, hvalue, Nat.div_add_mod']

/-- The numbers that have a numeral of a given width. -/
theorem exists_run_iff {width n : Nat} :
    (∃ run, r.AreDigits run ∧ run.length = width ∧ r.valueOf run = n) ↔ n < r.base ^ width := by
  constructor
  · rintro ⟨run, hdigits, rfl, rfl⟩
    exact valueOf_lt hdigits
  · intro h
    exact ⟨r.numeral width n, numeral_spec h⟩

/-! ## Longest runs -/

/-- A run of digits does not reach beyond the end of digits. -/
theorem length_le_of_stop {run rest other : Text} (hstop : ∀ c more, rest = c :: more →
    r.value? c = none) (hother : other <+: run ++ rest) (hdigits : r.AreDigits other) :
    other.length ≤ run.length := by
  by_contra hlength
  have hrun : run <+: other :=
    List.prefix_of_prefix_length_le (List.prefix_append run rest) hother (by omega)
  obtain ⟨more, rfl⟩ := hrun
  cases more with
  | nil => simp at hlength
  | cons c more =>
    -- the first character beyond the run would be a digit
    obtain ⟨after, hafter⟩ := (List.prefix_append_right_inj run).1 hother
    have hnone : r.value? c = none := hstop c _ hafter.symm
    have hsome := hdigits c (by simp)
    rw [hnone] at hsome
    cases hsome

/-- Where the input begins with a digit the longest run is not empty. -/
theorem LongestRun.ne_nil {limit : Nat} {c : Char} {more run rest : Text}
    (h : r.LongestRun limit (c :: more) run rest) (hlimit : 0 < limit)
    (hc : (r.value? c).isSome = true) : run ≠ [] := by
  rintro rfl
  have hdigit : r.AreDigits [c] := by
    intro d hd
    rw [List.mem_singleton.1 hd]
    exact hc
  have hle := h.longest [c] ⟨more, rfl⟩ hdigit hlimit
  exact absurd hle (by simp)

/-- The scanner takes the longest run. -/
theorem exists_longestRun (r : Radix) (limit : Nat) (input : Text) :
    ∃ run rest, r.LongestRun limit input run rest ∧
      digitRun r.value? limit input = (r.values run, rest) := by
  rcases hread : digitRun r.value? limit input with ⟨ds, rest⟩
  obtain ⟨hbound, ⟨run, rfl, hrun⟩, hstop⟩ := digitRun_spec hread
  have hdigits := areDigits_of_map hrun
  have hvalues := values_of_map hrun
  have hlength : run.length = ds.length := by rw [← hvalues, length_values hdigits]
  refine ⟨run, rest, ⟨rfl, hdigits, by omega, ?_⟩, by rw [hvalues]⟩
  -- the scanner has stopped either at the limit or at a character that is no digit
  intro other hother hothers hle
  rcases hstop with hfull | hstop
  · omega
  · exact length_le_of_stop hstop hother hothers

/-! ## In a machine word -/

/-- The word with a digit behind its number, if the number still fits into 32 bits. The product
fits where the sum does. -/
def push? (r : Radix) (word : UInt32) (d : Nat) : Option UInt32 :=
  if word.toNat * r.base + d < UInt32.size then some (word * .ofNat r.base + .ofNat d) else none

/-- At most `limit` digits of the input added to the word, which holds no number before the first of
them, and the input after them. There is no answer if a number on the way does not fit. -/
def accumulate? (r : Radix) : Nat → Option UInt32 → Text → Option (Option UInt32 × Text)
  | 0, word, input => some (word, input)
  | _ + 1, word, [] => some (word, [])
  | limit + 1, word, c :: input =>
    match r.value? c with
    | none => some (word, c :: input)
    | some d => (r.push? (word.getD 0) d).bind fun next => accumulate? r limit (some next) input

/-- One step: a number of `k` digits becomes one of `k + 1` digits. -/
theorem exists_push? {word : UInt32} {d k : Nat} (hword : word.toNat < r.base ^ k)
    (hd : d < r.base) (hfits : r.base ^ (k + 1) ≤ UInt32.size) :
    ∃ next, r.push? word d = some next ∧ next.toNat = word.toNat * r.base + d ∧
      next.toNat < r.base ^ (k + 1) := by
  have hlt : word.toNat * r.base + d < r.base ^ (k + 1) := by
    calc word.toNat * r.base + d < word.toNat * r.base + r.base := by omega
      _ = (word.toNat + 1) * r.base := (Nat.succ_mul ..).symm
      _ ≤ r.base ^ k * r.base := Nat.mul_le_mul_right _ hword
      _ = r.base ^ (k + 1) := (Nat.pow_succ ..).symm
  have hsize : word.toNat * r.base + d < UInt32.size := by omega
  -- words wrap around, which does not show below their size
  have hnext : (word * .ofNat r.base + .ofNat d).toNat = word.toNat * r.base + d := by
    rw [UInt32.toNat_add, UInt32.toNat_mul, UInt32.toNat_ofNat', UInt32.toNat_ofNat',
      Nat.mul_mod_mod, ← Nat.add_mod, Nat.mod_eq_of_lt hsize]
  exact ⟨_, if_pos hsize, hnext, by omega⟩

/-- The whole run: with `k` digits in the word and room for `limit` more, the word takes the digits
that the scanner takes, and its number is theirs. -/
theorem accumulate?_eq {limit k : Nat} {word : Option UInt32} {input rest : Text} {ds : List Nat}
    (hword : (word.getD 0).toNat < r.base ^ k) (hfits : r.base ^ (k + limit) ≤ UInt32.size)
    (h : digitRun r.value? limit input = (ds, rest)) :
    ∃ final, r.accumulate? limit word input = some (final, rest) ∧
      final.map UInt32.toNat = if ds = [] then word.map UInt32.toNat else
        some (ds.foldl (fun n d => n * r.base + d) (word.getD 0).toNat) := by
  -- along the digits; the room that is left shrinks with each of them
  fun_induction digitRun r.value? limit input generalizing ds k word with
  | case1 =>
    obtain ⟨rfl, rfl⟩ := Prod.mk.inj h
    exact ⟨word, rfl, rfl⟩
  | case2 =>
    obtain ⟨rfl, rfl⟩ := Prod.mk.inj h
    exact ⟨word, rfl, rfl⟩
  | case3 limit c input hc =>
    obtain ⟨rfl, rfl⟩ := Prod.mk.inj h
    refine ⟨word, ?_, rfl⟩
    rw [accumulate?, hc]
  | case4 limit c input d hc es after hread ih =>
    obtain ⟨rfl, rfl⟩ := Prod.mk.inj h
    have hroom : r.base ^ (k + 1) ≤ UInt32.size := by
      refine Nat.le_trans (Nat.pow_le_pow_right ?_ ?_) hfits
      · exact Nat.lt_trans Nat.one_pos r.one_lt_base
      · omega
    obtain ⟨next, hpush, hnext, hbound⟩ := exists_push? hword (r.value_lt hc) hroom
    have hfits' : r.base ^ (k + 1 + limit) ≤ UInt32.size := by
      rw [show k + 1 + limit = k + (limit + 1) by omega]
      exact hfits
    have hnext_bound : ((some next).getD 0).toNat < r.base ^ (k + 1) := hbound
    obtain ⟨final, hfinal, hvalue⟩ := ih hnext_bound hfits' hread
    refine ⟨final, ?_, ?_⟩
    · rw [accumulate?, hc]
      show (r.push? _ d).bind _ = _
      rw [hpush]
      exact hfinal
    · rw [hvalue, if_neg (List.cons_ne_nil d es), List.foldl_cons, ← hnext]
      -- the last digit leaves the number in the word, and more digits go on from there
      cases es <;> rfl

/-- From the start: the word holds the number of the longest run, unless that is empty. -/
theorem exists_accumulate? {limit : Nat} (hfits : r.base ^ limit ≤ UInt32.size)
    {input run rest : Text} (h : digitRun r.value? limit input = (r.values run, rest))
    (hrun : r.AreDigits run) :
    ∃ word, r.accumulate? limit none input = some (word, rest) ∧
      word.map UInt32.toNat = if run = [] then none else some (r.valueOf run) := by
  have hstart : ((none : Option UInt32).getD 0).toNat < r.base ^ 0 := by
    rw [Nat.pow_zero]
    exact Nat.one_pos
  obtain ⟨word, hword, hvalue⟩ := accumulate?_eq hstart (by rwa [Nat.zero_add]) h
  refine ⟨word, hword, ?_⟩
  have hempty : r.values run = [] ↔ run = [] := by
    rw [← List.length_eq_zero_iff, length_values hrun, List.length_eq_zero_iff]
  rw [hvalue, valueOf, ← ofDigits_eq]
  by_cases hnil : run = []
  · rw [if_pos hnil, if_pos (hempty.2 hnil)]
    rfl
  · rw [if_neg hnil, if_neg (fun he => hnil (hempty.1 he))]
    rfl

end Radix
end Shell
end CurlScribe
