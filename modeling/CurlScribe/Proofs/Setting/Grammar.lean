import CurlScribe.Proofs.Outcome
import CurlScribe.Proofs.Word.Normal
import CurlScribe.Setting.Resolve

/-!
# The grammar of command lines

A command line is a row of groups: a URL, a long option with its value, or short options in one
word, the last of which may have a value in the rest of the word or in the next word. Words behind
the mark `--` are URLs. A group carries the proof that its names are names of options, so a syntax
tree cannot be built from anything else.

Reading goes group by group whatever comes behind the group (`ofWords_group`), and what can be read
are the words of syntax trees (`ofWords_eq_ok`).
-/

namespace CurlScribe
namespace Setting

/-! ## Written options -/

/-- An option that has a short name, with that name. -/
structure Short where
  letter : Char
  spec : FlagSpec
  denotes : FlagSpec.ofShort? letter = some spec

/-- A short option without a value. -/
structure Switch extends Short where
  isSwitch : spec.takesValue = false

/-- A short option with a value. -/
structure Taker extends Short where
  takes : spec.takesValue = true

/-- An option by its long name, given without the dashes; `negated` holds of a switch that the name
turns off. -/
structure Long where
  name : Text
  spec : FlagSpec
  negated : Bool
  denotes : FlagSpec.ofLongOrNegated? name = some (spec, negated)

namespace Short

def name (o : Short) : Text := ['-', o.letter]

/-- The option with a value, or without one. -/
def setting (o : Short) (value : Option Word) : Setting := ⟨o.spec.flag, o.name, value, false⟩

/-- The dash, which begins the long names, is no short name. -/
theorem letter_ne_dash (o : Short) : o.letter ≠ '-' := by
  intro h
  have hnone : FlagSpec.ofShort? '-' = none := by decide
  exact absurd (hnone.symm.trans (h ▸ o.denotes)) (by simp)

end Short

namespace Long

def written (o : Long) : Text := '-' :: '-' :: o.name

/-- The option with a value, or without one. -/
def setting (o : Long) (value : Option Word) : Setting :=
  ⟨o.spec.flag, o.written, value, o.negated⟩

/-- Two dashes alone are no option. -/
theorem name_ne_nil (o : Long) : o.name ≠ [] := by
  intro h
  have hnone : FlagSpec.ofLongOrNegated? [] = none := by decide
  exact absurd (hnone.symm.trans (h ▸ o.denotes)) (by simp)

end Long

/-- A word that is a URL where an option may stand. -/
def IsPlain (w : Word) : Prop := w = Word.ofText ['-'] ∨ w.startsWith '-' = false

/-- The letters of short options, behind the dash that they share. -/
def letters (switches : List Switch) : Text := switches.map fun o => o.letter

@[simp] theorem letters_nil : letters [] = [] := rfl

@[simp] theorem letters_cons (o : Switch) (switches : List Switch) :
    letters (o :: switches) = o.letter :: letters switches := rfl

/-- The settings of switches. -/
def turnedOn (switches : List Switch) : List Setting := switches.map fun o => o.setting none

/-! ## Syntax trees -/

/-- Words that are read together. -/
inductive Group where
  /-- A URL. -/
  | positional (url : Word) (plain : IsPlain url)
  /-- A long option, and its value if it takes one. -/
  | long (option : Long) (value : Option Word) (takes : value.isSome = option.spec.takesValue)
  /-- Switches in one word. -/
  | cluster (switches : List Switch) (nonempty : switches ≠ [])
  /-- Switches and an option whose value is the rest of the word. -/
  | attached (switches : List Switch) (last : Taker) (value : Word) (nonempty : value ≠ Word.empty)
    (normal : value.IsNormal)
  /-- Switches and an option whose value is the next word. -/
  | following (switches : List Switch) (last : Taker) (value : Word)

namespace Group

/-- The words that the group is written with. -/
def words : Group → List Word
  | positional url _ => [url]
  | long option value _ => Word.ofText option.written :: value.toList
  | cluster switches _ => [Word.ofText ('-' :: letters switches)]
  | attached switches last value _ _ =>
    [Word.ofText ('-' :: (letters switches ++ [last.letter])) ++ value]
  | following switches last value =>
    [Word.ofText ('-' :: (letters switches ++ [last.letter])), value]

/-- The settings that the group stands for. -/
def settings : Group → List Setting
  | positional url _ => [Setting.positional url]
  | long option value _ => [option.setting value]
  | cluster switches _ => turnedOn switches
  | attached switches last value _ _ => turnedOn switches ++ [last.setting (some value)]
  | following switches last value => turnedOn switches ++ [last.setting (some value)]

end Group

/-- A command line: groups, and the URLs behind the mark `--` if it is there. -/
structure Line where
  groups : List Group
  behindMark : Option (List Word)

namespace Line

/-- The mark, and what is behind it. -/
def marked : Option (List Word) → List Word
  | none => []
  | some urls => Word.ofText ['-', '-'] :: urls

def words (l : Line) : List Word := l.groups.flatMap Group.words ++ marked l.behindMark

def settings (l : Line) : List Setting :=
  l.groups.flatMap Group.settings ++ (l.behindMark.getD []).map positional

end Line

/-! ## Roles of words -/

theorem prepend_eq_ok {front settings : List Setting} {r : Except Error (List Setting)} :
    prepend front r = .ok settings ↔ ∃ others, r = .ok others ∧ front ++ others = settings := by
  cases r with
  | error e => exact ⟨nofun, nofun⟩
  | ok others => simp [prepend]

theorem prepend_append (front back : List Setting) (r : Except Error (List Setting)) :
    prepend (front ++ back) r = prepend front (prepend back r) := by
  cases r with
  | error e => rfl
  | ok others => simp [prepend]

@[simp] theorem prepend_nil (r : Except Error (List Setting)) : prepend [] r = r := by
  cases r with
  | error e => rfl
  | ok others => rfl

namespace Role

/-- A word that begins with one dash and more text is a cluster. -/
theorem ofWord_cluster {c : Char} (hc : c ≠ '-') (letters : Text) (rest : List WordPart) :
    ofWord ⟨.text ('-' :: c :: letters) :: rest⟩ = .cluster (c :: letters) rest := by
  unfold ofWord
  split <;> simp_all

theorem ofWord_long {name : Text} (h : name ≠ []) :
    ofWord (Word.ofText ('-' :: '-' :: name)) = .long name := by
  obtain ⟨c, name, rfl⟩ := List.exists_cons_of_ne_nil h
  rfl

theorem ofWord_plain {w : Word} (h : IsPlain w) : ofWord w = .url := by
  rcases h with rfl | h
  · rfl
  · unfold ofWord
    split <;> simp_all [Word.startsWith]

end Role

/-! ## Reading groups -/

/-- Switches at the front of a cluster add their settings to what the rest comes to. -/
theorem readCluster_letters (word : Word) (parts : List WordPart) (switches : List Switch)
    (rest : Text) :
    readCluster word parts (letters switches ++ rest) =
      (readCluster word parts rest).map fun cluster =>
        { cluster with settings := turnedOn switches ++ cluster.settings } := by
  induction switches with
  | nil =>
    rw [letters_nil, List.nil_append]
    cases readCluster word parts rest with
    | error e => rfl
    | ok cluster => rfl
  | cons o switches ih =>
    rw [letters_cons, List.cons_append, readCluster, o.denotes]
    simp only [o.isSwitch, Bool.false_eq_true, if_false, ih]
    cases readCluster word parts rest with
    | error e => rfl
    | ok cluster => rfl

/-- An option with a value ends its cluster; what is left of the word is its value. -/
theorem readCluster_taker (word : Word) (parts : List WordPart) (last : Taker) (t : Text) :
    readCluster word parts (last.letter :: t) = .ok (match WordPart.ofText t ++ parts with
      | [] => ⟨[], some (last.spec.flag, last.name)⟩
      | attached => ⟨[last.setting (some ⟨attached⟩)], none⟩) := by
  rw [readCluster, last.denotes]
  simp only [last.takes, if_true]
  cases WordPart.ofText t ++ parts with
  | nil => rfl
  | cons p attached => rfl

theorem ofWord_letters (switches : List Switch) (last : Short) (t : Text) (rest : List WordPart) :
    Role.ofWord ⟨.text ('-' :: (letters switches ++ last.letter :: t)) :: rest⟩ =
      .cluster (letters switches ++ last.letter :: t) rest := by
  cases switches with
  | nil => exact Role.ofWord_cluster last.letter_ne_dash t rest
  | cons o switches => exact Role.ofWord_cluster o.letter_ne_dash _ rest

variable (rest : List Word)

/-- A word that looks like no option is the URL. -/
theorem ofWords_positional {url : Word} (h : IsPlain url) :
    ofWords (url :: rest) = prepend [positional url] (ofWords rest) := by
  rw [ofWords, Role.ofWord_plain h]

/-- A long option takes the word behind it if it needs a value. -/
theorem ofWords_long (o : Long) (value : Option Word)
    (h : value.isSome = o.spec.takesValue) :
    ofWords (Word.ofText o.written :: (value.toList ++ rest)) =
      prepend [o.setting value] (ofWords rest) := by
  rw [ofWords, Long.written, Role.ofWord_long o.name_ne_nil]
  simp only [o.denotes, ← h]
  cases value with
  | none => rfl
  | some value => rfl

/-- Letters in one word turn on one switch each. -/
theorem ofWords_cluster {switches : List Switch} (h : switches ≠ []) :
    ofWords (Word.ofText ('-' :: letters switches) :: rest) =
      prepend (turnedOn switches) (ofWords rest) := by
  obtain ⟨o, switches, rfl⟩ := List.exists_cons_of_ne_nil h
  have hrole : Role.ofWord (Word.ofText ('-' :: letters (o :: switches))) =
      .cluster (letters (o :: switches)) [] := Role.ofWord_cluster o.letter_ne_dash _ []
  have hread (w : Word) : readCluster w [] (letters (o :: switches)) =
      .ok ⟨turnedOn (o :: switches), none⟩ := by
    rw [← List.append_nil (letters _), readCluster_letters]
    simp [readCluster, Except.map]
  rw [ofWords, hrole]
  simp only [hread]

/-- The last letter of a cluster may have its value in the same word. -/
theorem ofWords_attached (switches : List Switch) (last : Taker) {value : Word}
    (hne : value ≠ Word.empty) (h : value.IsNormal) :
    ofWords ((Word.ofText ('-' :: (letters switches ++ [last.letter])) ++ value) :: rest) =
      prepend (turnedOn switches ++ [last.setting (some value)]) (ofWords rest) := by
  obtain ⟨t, parts, rfl, hstarts, hparts⟩ := Word.exists_text h
  rw [Word.ofText_append (List.cons_ne_nil _ _) t hstarts hparts]
  have hrole : Role.ofWord ⟨.text ('-' :: (letters switches ++ [last.letter]) ++ t) :: parts⟩ =
      .cluster (letters switches ++ last.letter :: t) parts := by
    simpa using ofWord_letters switches last.toShort t parts
  have hread (w : Word) : readCluster w parts (letters switches ++ last.letter :: t) =
      .ok ⟨turnedOn switches ++ [last.setting (some ⟨WordPart.ofText t ++ parts⟩)], none⟩ := by
    rw [readCluster_letters, readCluster_taker]
    cases hvalue : WordPart.ofText t ++ parts with
    | nil => exact absurd (congrArg Word.mk hvalue) hne
    | cons p attached => rfl
  rw [ofWords, hrole]
  simp only [hread]

/-- The last letter of a cluster may have its value in the next word. -/
theorem ofWords_following (switches : List Switch) (last : Taker) (value : Word) :
    ofWords (Word.ofText ('-' :: (letters switches ++ [last.letter])) :: value :: rest) =
      prepend (turnedOn switches ++ [last.setting (some value)]) (ofWords rest) := by
  have hrole : Role.ofWord (Word.ofText ('-' :: (letters switches ++ [last.letter]))) =
      .cluster (letters switches ++ [last.letter]) [] := ofWord_letters switches last.toShort [] []
  have hread (w : Word) : readCluster w [] (letters switches ++ [last.letter]) =
      .ok ⟨turnedOn switches, some (last.spec.flag, last.name)⟩ := by
    rw [readCluster_letters, readCluster_taker]
    simp [WordPart.ofText, Except.map]
  rw [ofWords, hrole]
  simp only [hread]
  rfl

/-- An option by its short name in a word of its own. -/
theorem ofWords_short (o : Short) (value : Option Word)
    (h : value.isSome = o.spec.takesValue) :
    ofWords (Word.ofText o.name :: (value.toList ++ rest)) =
      prepend [o.setting value] (ofWords rest) := by
  cases value with
  | none =>
    let switch : Switch := ⟨o, h.symm⟩
    exact ofWords_cluster rest (List.cons_ne_nil switch [])
  | some value => exact ofWords_following rest [] ⟨o, h.symm⟩ value

/-- A group is read as its settings, whatever words come behind it. -/
theorem ofWords_group (g : Group) :
    ofWords (g.words ++ rest) = prepend g.settings (ofWords rest) := by
  cases g with
  | positional url plain => exact ofWords_positional rest plain
  | long option value takes => exact ofWords_long rest option value takes
  | cluster switches nonempty => exact ofWords_cluster rest nonempty
  | attached switches last value nonempty normal =>
    exact ofWords_attached rest switches last nonempty normal
  | following switches last value => exact ofWords_following rest switches last value

/-- Groups are read one behind the other. -/
theorem ofWords_groups (groups : List Group) :
    ofWords (groups.flatMap Group.words ++ rest) =
      prepend (groups.flatMap Group.settings) (ofWords rest) := by
  induction groups with
  | nil => exact (prepend_nil _).symm
  | cons g groups ih =>
    rw [List.flatMap_cons, List.append_assoc, ofWords_group, ih, List.flatMap_cons, prepend_append]

/-- The words of a command line are read as its settings. -/
theorem ofWords_line (l : Line) : ofWords l.words = .ok l.settings := by
  have hmarked : ofWords (Line.marked l.behindMark) =
      .ok ((l.behindMark.getD []).map positional) := by
    cases l.behindMark with
    | none => rfl
    | some urls => rw [Line.marked, ofWords]; rfl
  rw [Line.words, ofWords_groups, hmarked]
  rfl

/-! ## All that can be read -/

/-- What a word is whose role is known. -/
def Role.Is (w : Word) : Role → Prop
  | url => IsPlain w
  | endOfOptions => w = Word.ofText ['-', '-']
  | long name => w = Word.ofText ('-' :: '-' :: name)
  | cluster letters rest =>
    w = ⟨.text ('-' :: letters) :: rest⟩ ∧ (letters = [] → rest ≠ [])
  | unreadable => True

/-- Every normal word plays the role that it is read in. -/
theorem Role.is_of_ofWord {w : Word} {role : Role} (h : w.IsNormal) (hrole : ofWord w = role) :
    Role.Is w role := by
  subst hrole
  obtain ⟨parts⟩ := w
  match parts with
  | [] => exact .inr rfl
  | .reference _ :: _ => exact .inr rfl
  | .text [] :: _ => exact absurd rfl h.1
  | .text (c :: t) :: rest =>
    by_cases hc : c = '-'
    · subst hc
      match t, rest with
      | [], [] => exact .inl rfl
      | [], p :: rest => exact ⟨rfl, fun _ => List.cons_ne_nil p rest⟩
      | d :: t, rest =>
        by_cases hd : d = '-'
        · subst hd
          match t, rest with
          | [], [] => rfl
          | _ :: _, [] => rfl
          | [], _ :: _ => trivial
          | _ :: _, _ :: _ => trivial
        · rw [ofWord_cluster hd]
          exact ⟨rfl, nofun⟩
    · have hplain : IsPlain ⟨.text (c :: t) :: rest⟩ := .inr (by simp [Word.startsWith, hc])
      rw [ofWord_plain hplain]
      exact hplain

/-- The clusters that can be read: switches alone, which must be the whole word, and switches
before an option with a value, attached or not. -/
inductive Reading (parts : List WordPart) : Text → Cluster → Prop
  | cluster (switches : List Switch) (whole : parts = []) :
    Reading parts (letters switches) ⟨turnedOn switches, none⟩
  | attached (switches : List Switch) (last : Taker) (t : Text)
    (nonempty : WordPart.ofText t ++ parts ≠ []) :
    Reading parts (letters switches ++ last.letter :: t)
      ⟨turnedOn switches ++ [last.setting (some ⟨WordPart.ofText t ++ parts⟩)], none⟩
  | following (switches : List Switch) (last : Taker) (whole : parts = []) :
    Reading parts (letters switches ++ [last.letter])
      ⟨turnedOn switches, some (last.spec.flag, last.name)⟩

namespace Reading

/-- One more switch in front. -/
theorem cons (o : Switch) {parts : List WordPart} {t : Text} {cluster : Cluster}
    (h : Reading parts t cluster) :
    Reading parts (o.letter :: t)
      { cluster with settings := o.setting none :: cluster.settings } := by
  cases h with
  | cluster switches whole => exact .cluster (o :: switches) whole
  | attached switches last t nonempty => exact .attached (o :: switches) last t nonempty
  | following switches last whole => exact .following (o :: switches) last whole

/-- Whatever a cluster is read as is one of the ways to read it. -/
theorem of_readCluster {word : Word} {parts : List WordPart} {t : Text} {cluster : Cluster}
    (h : readCluster word parts t = .ok cluster) : Reading parts t cluster := by
  induction t generalizing cluster with
  | nil =>
    unfold readCluster at h
    split at h
    next hparts =>
      cases h
      exact .cluster [] (List.isEmpty_iff.1 hparts)
    next => cases h
  | cons c t ih =>
    cases hspec : FlagSpec.ofShort? c with
    | none =>
      -- a letter that is none of an option is no cluster
      rw [readCluster, hspec] at h
      cases h
    | some spec =>
      cases htakes : spec.takesValue with
      | true =>
        -- the rest of the word, if there is one, is the value of a letter that takes one
        let last : Taker := ⟨⟨c, spec, hspec⟩, htakes⟩
        obtain rfl := Except.ok.inj (h.symm.trans (readCluster_taker word parts last t))
        cases hvalue : WordPart.ofText t ++ parts with
        | nil =>
          obtain ⟨ht, hparts⟩ := List.append_eq_nil_iff.1 hvalue
          cases t with
          | nil => exact .following [] last hparts
          | cons d t => cases ht
        | cons p ps =>
          have hattached : Reading parts _ _ := attached [] last t (by simp [hvalue])
          rw [hvalue] at hattached
          exact hattached
      | false =>
        rw [readCluster, hspec] at h
        simp only [htakes, Bool.false_eq_true, if_false] at h
        cases hrest : readCluster word parts t with
        | error e =>
          rw [hrest] at h
          cases h
        | ok others =>
          rw [hrest] at h
          cases h
          exact cons ⟨⟨c, spec, hspec⟩, htakes⟩ (ih hrest)

end Reading

/-- There is a command line with these words and settings. -/
def IsLine (words : List Word) (settings : List Setting) : Prop :=
  ∃ l : Line, l.words = words ∧ l.settings = settings

/-- A group in front of words that are a command line as soon as they can be read. -/
theorem IsLine.cons (g : Group) {rest : List Word} {settings : List Setting}
    (h : prepend g.settings (ofWords rest) = .ok settings)
    (hrest : ∀ others, ofWords rest = .ok others → IsLine rest others) :
    IsLine (g.words ++ rest) settings := by
  obtain ⟨others, hothers, rfl⟩ := prepend_eq_ok.1 h
  obtain ⟨l, rfl, rfl⟩ := hrest others hothers
  exact ⟨⟨g :: l.groups, l.behindMark⟩, by simp [Line.words], by simp [Line.settings]⟩

/-- All that can be read is the words of a command line. -/
theorem exists_line {words : List Word} {settings : List Setting} (hw : ∀ w ∈ words, w.IsNormal)
    (h : ofWords words = .ok settings) : IsLine words settings := by
  -- one case for each way in which a word is read; those that fail have nothing to show
  fun_induction ofWords words generalizing settings with
  | case1 =>
    cases h
    exact ⟨⟨[], none⟩, rfl, rfl⟩
  | case2 w rest hrole ih =>
    obtain ⟨hnormal, hrest⟩ := List.forall_mem_cons.1 hw
    exact IsLine.cons (.positional w (Role.is_of_ofWord hnormal hrole)) h fun _ => ih hrest
  | case3 w rest hrole =>
    obtain rfl := Role.is_of_ofWord (hw w List.mem_cons_self) hrole
    cases h
    exact ⟨⟨[], some rest⟩, rfl, rfl⟩
  | case4 w rest hrole => cases h
  | case5 w rest name hrole hname => cases h
  | case6 w name hrole spec negated hname htakes => cases h
  | case7 w name hrole written spec negated hname htakes value rest =>
    rename_i ih
    obtain ⟨hnormal, htail⟩ := List.forall_mem_cons.1 hw
    obtain rfl := Role.is_of_ofWord hnormal hrole
    exact IsLine.cons (.long ⟨name, spec, negated, hname⟩ (some value) htakes.symm) h fun _ =>
      ih (List.forall_mem_cons.1 htail).2
  | case8 w rest name hrole written spec negated hname htakes =>
    rename_i ih
    obtain ⟨hnormal, hrest⟩ := List.forall_mem_cons.1 hw
    obtain rfl := Role.is_of_ofWord hnormal hrole
    have hswitch : (none : Option Word).isSome = spec.takesValue := by simpa using htakes
    exact IsLine.cons (.long ⟨name, spec, negated, hname⟩ none hswitch) h fun _ => ih hrest
  | case9 => cases h
  | case10 w rest letters parts hrole settings hread ih =>
    obtain ⟨hnormal, hrest⟩ := List.forall_mem_cons.1 hw
    obtain ⟨rfl, hne⟩ := Role.is_of_ofWord hnormal hrole
    cases Reading.of_readCluster hread with
    | cluster switches whole =>
      subst whole
      have hswitches : switches ≠ [] := by
        rintro rfl
        exact hne rfl rfl
      exact IsLine.cons (.cluster switches hswitches) h fun _ => ih hrest
    | attached switches last t nonempty =>
      -- the value in the same word is normal, as a part of a normal word
      have hfront : '-' :: (Setting.letters switches ++ last.letter :: t) =
          '-' :: (Setting.letters switches ++ [last.letter]) ++ t := by simp
      rw [hfront] at hnormal ⊢
      have hline := IsLine.cons (.attached switches last ⟨WordPart.ofText t ++ parts⟩
        (fun hempty => nonempty (congrArg Word.parts hempty)) (Word.isNormal_rest hnormal)) h
        fun _ => ih hrest
      rw [Group.words, Word.ofText_append (List.cons_ne_nil _ _) t hnormal.2.1 hnormal.2.2] at hline
      exact hline
  | case11 => cases h
  | case12 w letters parts hrole settings flag name hread value rest ih =>
    obtain ⟨hnormal, htail⟩ := List.forall_mem_cons.1 hw
    obtain ⟨rfl, -⟩ := Role.is_of_ofWord hnormal hrole
    cases Reading.of_readCluster hread with
    | following switches last whole =>
      subst whole
      exact IsLine.cons (.following switches last value) h fun _ =>
        ih (List.forall_mem_cons.1 htail).2

/-- The words that can be read are those of command lines, and they are read as their settings. -/
theorem ofWords_eq_ok {words : List Word} {settings : List Setting}
    (hw : ∀ w ∈ words, w.IsNormal) : ofWords words = .ok settings ↔ IsLine words settings := by
  refine ⟨exists_line hw, ?_⟩
  rintro ⟨l, rfl, rfl⟩
  exact ofWords_line l

/-! ## The one URL -/

/-- Settings, if exactly one of them is a URL. -/
def withOneUrl (settings : List Setting) : Except Error (List Setting) :=
  match urls settings with
  | [_] => .ok settings
  | [] => .error .missingUrl
  | first :: second :: _ => .error (.multipleUrls first second)

theorem resolve_eq_bind (words : List Word) : resolve words = (ofWords words).bind withOneUrl := by
  unfold resolve
  cases ofWords words with
  | error e => rfl
  | ok settings => rfl

theorem withOneUrl_eq_ok {settings others : List Setting} :
    withOneUrl settings = .ok others ↔ settings = others ∧ ∃ url, urls settings = [url] := by
  unfold withOneUrl
  split
  next url hurls => simp [hurls]
  next hurls => simp [hurls]
  next first second more hurls => simp [hurls]

/-- Words resolve to settings if they are read as them and there is one URL among them. -/
theorem resolve_eq_ok {words : List Word} {settings : List Setting} :
    resolve words = .ok settings ↔ ofWords words = .ok settings ∧ ∃ url, urls settings = [url] := by
  rw [resolve_eq_bind]
  constructor
  · intro h
    obtain ⟨others, hothers, hone⟩ := Except.bind_eq_ok.1 h
    obtain ⟨rfl, hurl⟩ := withOneUrl_eq_ok.1 hone
    exact ⟨hothers, hurl⟩
  · rintro ⟨hothers, hurl⟩
    exact Except.bind_eq_ok.2 ⟨settings, hothers, withOneUrl_eq_ok.2 ⟨rfl, hurl⟩⟩

end Setting
end CurlScribe
