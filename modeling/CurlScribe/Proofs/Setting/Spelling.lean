import CurlScribe.Proofs.Request.Naming
import CurlScribe.Proofs.Setting.Grammar

/-!
# Spellings of options

Short options may share a word, the last of them may have its value in that word or in the next
one, and every option has a long name too. Where an option may stand, it does not matter which of
these spellings a command uses: the settings are the same but for the name that they keep for
remarks, and so is the request. An option may stand behind groups, which is to say, behind all words
that can be read without the mark `--` (`ofWords_eq_ok`).
-/

namespace CurlScribe

namespace FlagSpec

theorem mem_table_of_ofShort? {c : Char} {spec : FlagSpec} (h : ofShort? c = some spec) :
    spec ∈ table := List.mem_of_find?_eq_some h

/-- No two options of the table have the same long name. -/
theorem ofLong?_long {spec : FlagSpec} (h : spec ∈ table) : ofLong? spec.long = some spec := by
  have hall : ∀ spec ∈ table, ofLong? spec.long = some spec := by decide +kernel
  exact hall spec h

end FlagSpec

namespace Setting

/-! ## The spellings -/

/-- The option by its long name. -/
def Short.toLong (o : Short) : Long where
  name := o.spec.long
  spec := o.spec
  negated := false
  denotes := by
    rw [FlagSpec.ofLongOrNegated?, FlagSpec.ofLong?_long (FlagSpec.mem_table_of_ofShort? o.denotes)]

/-- The words of switches, each in a word of its own. -/
def apart (switches : List Switch) : List Word := switches.map fun o => Word.ofText o.name

/-- Each switch is a group of its own. -/
theorem flatMap_words_apart (switches : List Switch) :
    (switches.map fun o => Group.cluster [o] (List.cons_ne_nil o [])).flatMap Group.words =
      apart switches := by
  induction switches with
  | nil => rfl
  | cons o switches ih => exact congrArg (Word.ofText o.name :: ·) ih

theorem flatMap_settings_apart (switches : List Switch) :
    (switches.map fun o => Group.cluster [o] (List.cons_ne_nil o [])).flatMap Group.settings =
      turnedOn switches := by
  induction switches with
  | nil => rfl
  | cons o switches ih => exact congrArg (o.setting none :: ·) ih

theorem ofWords_apart (switches : List Switch) (rest : List Word) :
    ofWords (apart switches ++ rest) = prepend (turnedOn switches) (ofWords rest) := by
  rw [← flatMap_words_apart, ofWords_groups, flatMap_settings_apart]

/-! ## Commands around a spelling -/

variable (before : List Group) (after : List Word)

/-- The words of a command that has `words` behind some groups and before other words. -/
def inside (words : List Word) : List Word := before.flatMap Group.words ++ (words ++ after)

/-- The settings of a command that gives `middle` behind some groups and before other words. -/
def amid (middle : List Setting) : Except Error (List Setting) :=
  (ofWords after).bind fun others =>
    withOneUrl (before.flatMap Group.settings ++ (middle ++ others))

/-- What is read as `middle` wherever it stands is read as `middle` inside a command. -/
theorem resolve_inside {words : List Word} {middle : List Setting}
    (h : ofWords (words ++ after) = prepend middle (ofWords after)) :
    resolve (inside before after words) = amid before after middle := by
  rw [resolve_eq_bind, inside, ofWords_groups, h, amid]
  cases ofWords after with
  | error e => rfl
  | ok others => rfl

theorem resolve_apart (switches : List Switch) :
    resolve (inside before after (apart switches)) = amid before after (turnedOn switches) :=
  resolve_inside before after (ofWords_apart switches after)

theorem resolve_apart_taker (switches : List Switch) (last : Taker) (value : Word) :
    resolve (inside before after (apart switches ++ [Word.ofText last.name, value])) =
      amid before after (turnedOn switches ++ [last.setting (some value)]) := by
  refine resolve_inside before after ?_
  have htaker := ofWords_short after last.toShort (some value) last.takes.symm
  rw [List.append_assoc, ofWords_apart, prepend_append]
  exact congrArg (prepend (turnedOn switches)) htaker

/-- A setting under another name is as much a URL as before. -/
theorem urls_rename (front back : List Setting) (s : Setting) (name : Text) :
    urls (front ++ { s with name := name } :: back) = urls (front ++ s :: back) := by
  unfold urls
  rw [List.filter_append, List.filter_append, List.filter_cons, List.filter_cons]
  dsimp only
  split <;> simp [word]

/-- A name decides neither whether a command can be read nor what it makes, beyond remarks. -/
theorem amid_rename (s : Setting) (name : Text) :
    (∃ e, amid before after [s] = .error e ∧
        amid before after [{ s with name := name }] = .error e) ∨
      ∃ others, ofWords after = .ok others ∧
        amid before after [s] = .ok (before.flatMap Group.settings ++ s :: others) ∧
        amid before after [{ s with name := name }] =
          .ok (before.flatMap Group.settings ++ { s with name := name } :: others) ∧
        Request.Agree s.name name (before.flatMap Group.settings ++ s :: others)
          (before.flatMap Group.settings ++ { s with name := name } :: others) := by
  unfold amid
  cases ofWords after with
  | error e => exact .inl ⟨e, rfl, rfl⟩
  | ok others =>
    have hurls := urls_rename (before.flatMap Group.settings) others s name
    have hagree := Request.agree_of_rename (before.flatMap Group.settings) others s name
    simp only [Except.bind, withOneUrl, List.singleton_append, hurls]
    split
    next url hurl => exact .inr ⟨others, rfl, rfl, rfl, hagree⟩
    next hurl => exact .inl ⟨_, rfl, rfl⟩
    next first second more hurl => exact .inl ⟨_, rfl, rfl⟩

/-! ## Spellings do not matter -/

/-- Where an option may stand, which is behind groups, all spellings of short options give the same
settings, and the long name of an option in place of its short one gives the same settings but for
the name, and the same request with the same warnings but for the name. The settings of the groups
before and of the words after are there in any case. -/
theorem resolve_spelling :
    (∀ switches : List Switch,
      (switches ≠ [] → resolve (inside before after [Word.ofText ('-' :: letters switches)]) =
        resolve (inside before after (apart switches))) ∧
      resolve (inside before after (apart switches)) = amid before after (turnedOn switches)) ∧
    (∀ (switches : List Switch) (last : Taker) (value : Word),
      (value ≠ Word.empty → value.IsNormal →
        resolve (inside before after
            [Word.ofText ('-' :: (letters switches ++ [last.letter])) ++ value]) =
          resolve (inside before after (apart switches ++ [Word.ofText last.name, value]))) ∧
      resolve (inside before after
          [Word.ofText ('-' :: (letters switches ++ [last.letter])), value]) =
        resolve (inside before after (apart switches ++ [Word.ofText last.name, value])) ∧
      resolve (inside before after (apart switches ++ [Word.ofText last.name, value])) =
        amid before after (turnedOn switches ++ [last.setting (some value)])) ∧
    (∀ (o : Short) (value : Option Word), value.isSome = o.spec.takesValue →
      (∃ e, resolve (inside before after (Word.ofText o.name :: value.toList)) = .error e ∧
          resolve (inside before after (Word.ofText o.toLong.written :: value.toList)) =
            .error e) ∨
        ∃ others, ofWords after = .ok others ∧
          resolve (inside before after (Word.ofText o.name :: value.toList)) =
            .ok (before.flatMap Group.settings ++ o.setting value :: others) ∧
          resolve (inside before after (Word.ofText o.toLong.written :: value.toList)) =
            .ok (before.flatMap Group.settings ++ { o.setting value with name := o.toLong.written }
              :: others) ∧
          Request.Agree o.name o.toLong.written
            (before.flatMap Group.settings ++ o.setting value :: others)
            (before.flatMap Group.settings ++ { o.setting value with name := o.toLong.written }
              :: others)) := by
  -- what words resolve to depends only on the settings that they add to those around them
  refine ⟨?_, ?_, ?_⟩
  · intro switches
    rw [resolve_apart]
    exact ⟨fun hne => resolve_inside before after (ofWords_cluster after hne), rfl⟩
  · intro switches last value
    rw [resolve_apart_taker]
    refine ⟨fun hne hnormal => ?_, ?_, rfl⟩
    · exact resolve_inside before after (ofWords_attached after switches last hne hnormal)
    · exact resolve_inside before after (ofWords_following after switches last value)
  · intro o value h
    have hshort : resolve (inside before after (Word.ofText o.name :: value.toList)) =
        amid before after [o.setting value] :=
      resolve_inside before after (ofWords_short after o value h)
    have hlong : resolve (inside before after (Word.ofText o.toLong.written :: value.toList)) =
        amid before after [{ o.setting value with name := o.toLong.written }] :=
      resolve_inside before after (ofWords_long after o.toLong value h)
    rw [hshort, hlong]
    exact amid_rename before after (o.setting value) o.toLong.written

/-- `-sXPOST` is `-s -X POST`, and `--request POST` makes the request of `-X POST`. -/
theorem resolve_spelling_post :
    resolve (["-sXPOST", "http://x/"].map Word.ofString) =
        resolve (["-s", "-X", "POST", "http://x/"].map Word.ofString) ∧
      Request.Agree "-X".toList "--request".toList
        [⟨.method, "-X".toList, some (Word.ofString "POST"), false⟩,
          positional (Word.ofString "http://x/")]
        [⟨.method, "--request".toList, some (Word.ofString "POST"), false⟩,
          positional (Word.ofString "http://x/")] := by
  let silent : Switch := ⟨⟨'s', .ignoredSwitch "silent" (some 's'), by decide⟩, rfl⟩
  let method : Taker := ⟨⟨'X', .value "request" (some 'X') .method, by decide⟩, rfl⟩
  let post := Word.ofString "POST"
  obtain ⟨-, hcluster, hlong⟩ := resolve_spelling [] [Word.ofString "http://x/"]
  have hattached := (hcluster [silent] method post).1 (by decide) (by decide)
  refine ⟨hattached, ?_⟩
  rcases hlong method.toShort (some post) rfl with ⟨e, he, -⟩ | ⟨others, hothers, -, -, hagree⟩
  · have hok : (resolve (["-X", "POST", "http://x/"].map Word.ofString)).toBool = true := by
      decide +kernel
    have hfail : resolve (["-X", "POST", "http://x/"].map Word.ofString) = .error e := he
    rw [hfail] at hok
    cases hok
  · cases hothers
    exact hagree

end Setting
end CurlScribe
