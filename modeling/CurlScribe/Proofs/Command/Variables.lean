import CurlScribe.Conversion
import CurlScribe.Proofs.Setting.Grammar
import CurlScribe.Proofs.Shell.Exactness
import CurlScribe.Proofs.Target.GoLookups
import CurlScribe.Proofs.Target.Injection
import CurlScribe.Proofs.Target.PythonLookups
import CurlScribe.Proofs.Target.RustLookups

/-!
# Variables from the command to the program

The variables of a request are those that its words refer to, each once, in the order of first use.
All of them come from references that the shell would see in the command, and a program for the
request looks up these variables and no others.
-/

namespace CurlScribe

/-! ## First uses -/

/-- The names that are used, each once, the one that is used first in front. -/
structure IsFirstUses (names uses : List Text) : Prop where
  nodup : names.Nodup
  mem_iff : ∀ n, n ∈ names ↔ n ∈ uses
  ordered : names.Pairwise fun m n => uses.idxOf m < uses.idxOf n

/-- One more use counts only if it is the first of its name. -/
theorem eraseDups_concat (uses : List Text) (n : Text) :
    (uses ++ [n]).eraseDups = if n ∈ uses then uses.eraseDups else uses.eraseDups ++ [n] := by
  rw [List.eraseDups_append]
  split
  next h => simp [List.removeAll, h]
  next h => simp [List.removeAll, h, List.eraseDups_cons]

/-- A row of names without repetitions lists their first uses. -/
theorem isFirstUses_eraseDups (uses : List Text) : IsFirstUses uses.eraseDups uses := by
  refine ⟨?nodup, fun n => List.mem_eraseDups, ?ordered⟩
  -- both on the last use, which is new or changes nothing
  case nodup =>
    induction uses using List.reverseRecOn with
    | nil => simp
    | append_singleton uses n ih =>
      rw [eraseDups_concat]
      split
      · exact ih
      next h =>
        refine List.nodup_append.2 ⟨ih, by simp, ?_⟩
        intro m hm m' hm' heq
        exact h (List.mem_singleton.1 hm' ▸ heq ▸ List.mem_eraseDups.1 hm)
  case ordered =>
    induction uses using List.reverseRecOn with
    | nil => simp
    | append_singleton uses n ih =>
      have hold : uses.eraseDups.Pairwise fun m m' =>
          (uses ++ [n]).idxOf m < (uses ++ [n]).idxOf m' := by
        refine ih.imp_of_mem ?_
        intro m m' hm hm' hlt
        rwa [List.idxOf_append_of_mem (List.mem_eraseDups.1 hm),
          List.idxOf_append_of_mem (List.mem_eraseDups.1 hm')]
      rw [eraseDups_concat]
      split
      · exact hold
      next h =>
        refine List.pairwise_append.2 ⟨hold, by simp, ?_⟩
        intro m hm n' hn'
        obtain rfl := List.mem_singleton.1 hn'
        have hm := List.mem_eraseDups.1 hm
        rw [List.idxOf_append_of_mem hm, List.idxOf_append_of_notMem h]
        exact (List.idxOf_lt_length_of_mem hm).trans_le (Nat.le_add_right _ _)

/-! ## References in commands -/

namespace Word

/-- The references of a word are among its atoms. -/
theorem reference_mem_atoms {w : Word} {r : Reference} (h : r ∈ w.references) :
    Atom.reference r ∈ w.atoms := by
  obtain ⟨part, hpart, hr⟩ := List.mem_filterMap.1 h
  cases part with
  | text t => cases hr
  | reference r' =>
    cases hr
    exact List.mem_flatMap.2 ⟨_, hpart, List.mem_singleton_self _⟩

end Word

namespace Shell

/-- All references among atoms are written with names. -/
def AreNamed (as : List Atom) : Prop := ∀ r, Atom.reference r ∈ as → Text.isName r.name = true

theorem areNamed_chars (t : Text) : AreNamed (t.map .char) := by
  intro r hr
  simp at hr

theorem AreNamed.append {as bs : List Atom} (ha : AreNamed as) (hb : AreNamed bs) :
    AreNamed (as ++ bs) := fun r hr => (List.mem_append.1 hr).elim (ha r) (hb r)

namespace Grammar

/-- The name of a reference is read as a name. -/
theorem areNamed_dollar {input rest : Text} {a : Atom} (h : Dollar input a rest) :
    AreNamed [a] := by
  cases h with
  | reference hvariable =>
    intro r hr
    simp only [List.mem_singleton, Atom.reference.injEq] at hr
    subst hr
    cases hvariable with
    | plain hname => exact hname
    | braced _ hname => exact hname
  | lone => exact areNamed_chars ['$']

theorem areNamed_doubleQuoted {input rest : Text} {as : List Atom}
    (h : DoubleQuoted input as rest) : AreNamed as := by
  induction h with
  | close => exact areNamed_chars []
  | @escape c _ _ _ _ _ ih => exact (areNamed_chars [c]).append ih
  | continuation _ _ ih => exact ih
  | backslash _ _ _ ih => exact (areNamed_chars ['\\']).append ih
  | dollar hdollar _ ih => exact (areNamed_dollar hdollar).append ih
  | @plain c _ _ _ _ _ ih => exact (areNamed_chars [c]).append ih

theorem areNamed_ansiQuoted {input rest : Text} {as : List Atom} (h : AnsiQuoted input as rest) :
    AreNamed as := by
  induction h with
  | close => exact areNamed_chars []
  | @escape _ cs _ _ _ _ _ ih => exact (areNamed_chars cs).append ih
  | @plain c _ _ _ _ _ ih => exact (areNamed_chars [c]).append ih

/-- Every fragment of a word has names for its references. -/
theorem areNamed_fragment {input rest : Text} {as : List Atom} (h : Fragment input as rest) :
    AreNamed as := by
  cases h with
  | @plain c _ _ => exact areNamed_chars [c]
  | @escaped c _ _ => exact areNamed_chars [c]
  | continuation _ => exact areNamed_chars []
  | @singleQuoted inside _ _ => exact areNamed_chars inside
  | doubleQuoted h => exact areNamed_doubleQuoted h
  | localized h => exact areNamed_doubleQuoted h
  | ansiQuoted h => exact areNamed_ansiQuoted h
  | dollar _ h => exact areNamed_dollar h

theorem areNamed_fragments {input rest : Text} {as : List Atom} (h : Fragments input as rest) :
    AreNamed as := by
  induction h with
  | nil => exact areNamed_chars []
  | cons hhead _ ih => exact (areNamed_fragment hhead).append ih

/-- The references of a command are written with names. -/
theorem areNamed_commandLine {input : Text} {ds : List (List Atom)} (h : CommandLine input ds) :
    ∀ as ∈ ds, AreNamed as := by
  induction h with
  | done => simp
  | word _ hword _ ih =>
    obtain ⟨bs, next, cs, hbs, hcs, rfl⟩ := hword.fragments
    exact List.forall_mem_cons.2 ⟨(areNamed_fragment hbs).append (areNamed_fragments hcs), ih⟩

end Grammar

/-- All references of a command have names. -/
theorem isName_of_tokenize {command : Text} {tokens : List Token}
    (h : tokenize command = .ok tokens) :
    ∀ token ∈ tokens, token.word.UsesOnly fun r => Text.isName r.name = true := by
  intro token htoken r hr
  have hnamed := Grammar.areNamed_commandLine (commandLine_of_tokenize h).1
  exact hnamed _ (List.mem_map_of_mem htoken) r (Word.reference_mem_atoms hr)

end Shell

/-! ## References from words to settings -/

namespace Setting

variable {P : Reference → Prop}

theorem usesOnly_turnedOn (switches : List Switch) :
    ∀ s ∈ turnedOn switches, s.word.UsesOnly P := by
  intro s hs
  obtain ⟨o, -, rfl⟩ := List.mem_map.1 hs
  exact Word.usesOnly_empty

/-- A group of words has the references of the settings that it stands for. -/
theorem usesOnly_group {g : Group} (h : ∀ w ∈ g.words, w.UsesOnly P) :
    ∀ s ∈ g.settings, s.word.UsesOnly P := by
  have hlast (switches : List Switch) (last : Taker) {value : Word} (hvalue : value.UsesOnly P) :
      ∀ s ∈ turnedOn switches ++ [last.setting (some value)], s.word.UsesOnly P :=
    List.forall_mem_append.2 ⟨usesOnly_turnedOn switches, List.forall_mem_singleton.2 hvalue⟩
  cases g with
  | positional url => exact List.forall_mem_singleton.2 (h url (List.mem_singleton_self _))
  | long option value =>
    refine List.forall_mem_singleton.2 ?_
    cases value with
    | none => exact Word.usesOnly_empty
    | some value => exact h value (by simp [Group.words])
  | cluster switches => exact usesOnly_turnedOn switches
  | attached switches last value =>
    have hword := h _ (List.mem_singleton_self _)
    exact hlast switches last (Word.usesOnly_append.1 hword).2
  | following switches last value => exact hlast switches last (h value (by simp [Group.words]))

/-- The settings of a line use only what its words use. -/
theorem usesOnly_line {l : Line} (h : ∀ w ∈ l.words, w.UsesOnly P) :
    ∀ s ∈ l.settings, s.word.UsesOnly P := by
  obtain ⟨groups, behindMark⟩ := l
  obtain ⟨hgroups, hmarked⟩ := List.forall_mem_append.1 h
  refine List.forall_mem_append.2 ⟨?_, ?_⟩
  · intro s hs
    obtain ⟨g, hg, hs⟩ := List.mem_flatMap.1 hs
    exact usesOnly_group (fun w hw => hgroups w (List.mem_flatMap.2 ⟨g, hg, hw⟩)) s hs
  · intro s hs
    obtain ⟨url, hurl, rfl⟩ := List.mem_map.1 hs
    cases behindMark with
    | none => cases hurl
    | some urls => exact hmarked url (List.mem_cons_of_mem _ hurl)

/-- The settings of words use only what the words use. -/
theorem usesOnly_resolve {words : List Word} {settings : List Setting}
    (hnormal : ∀ w ∈ words, w.IsNormal) (hw : ∀ w ∈ words, w.UsesOnly P)
    (h : resolve words = .ok settings) : ∀ s ∈ settings, s.word.UsesOnly P := by
  obtain ⟨l, rfl, rfl⟩ := (ofWords_eq_ok hnormal).1 (resolve_eq_ok.1 h).1
  exact usesOnly_line hw

end Setting

namespace Request

variable {command : Text} {r : Request} {P : Reference → Prop}

theorem mem_of_mem_withoutProgram {words : List Word} {w : Word}
    (h : w ∈ withoutProgram words) : w ∈ words := by
  cases words with
  | nil => cases h
  | cons first rest =>
    rw [withoutProgram] at h
    split_ifs at h
    · exact List.mem_cons_of_mem _ h
    · exact h

/-- The references of a request are references of the tokens of its command. -/
theorem usesOnly_of_ofCommand {tokens : List Shell.Token}
    (htokens : Shell.tokenize command = .ok tokens)
    (hP : ∀ token ∈ tokens, token.word.UsesOnly P) (h : (ofCommand command).result = .ok r) :
    ∀ w ∈ r.words, w.UsesOnly P := by
  obtain ⟨settings, hsettings, hr⟩ := Outcome.andThen_result_eq_ok.1 h
  have hresolve :
      Setting.resolve (withoutProgram (tokens.map Shell.Token.word)) = .ok settings := by
    have hread : settingsOf command = .ok settings := hsettings
    rwa [settingsOf, htokens] at hread
  have hmem {w : Word} (hw : w ∈ withoutProgram (tokens.map Shell.Token.word)) :
      ∃ token ∈ tokens, token.word = w := List.mem_map.1 (mem_of_mem_withoutProgram hw)
  refine usesOnly_of_ofSettings (Setting.usesOnly_resolve ?_ ?_ hresolve) hr
  · intro w hw
    obtain ⟨token, htoken, rfl⟩ := hmem hw
    exact (Shell.commandLine_of_tokenize htokens).2 token htoken
  · intro w hw
    obtain ⟨token, htoken, rfl⟩ := hmem hw
    exact hP token htoken

/-! ## Variables of programs -/

/-- The code of the program for a request looks up the variables of the words that it sends. -/
theorem exists_looksUp_of_code? {style : Style} {opening : List Target.Token} {code : Code}
    (hopening : style.opening? = some opening) (h : r.code? style = some code) :
    ∃ names, code.LooksUp opening Code.IsLine names ∧
      ∀ n, n ∈ names ↔ n ∈ r.sentWords.flatMap Word.variableNames := by
  cases style with
  | go =>
    cases hopening
    cases h
    exact ⟨_, Go.looksUp_ofRequest r, Go.mem_lookups_statementsOf r⟩
  | python =>
    cases hopening
    obtain ⟨p, hp, rfl⟩ := ofRequest_of_code? h
    exact ⟨_, Python.Program.looksUp_code (Python.isPlain_ofRequest hp),
      Python.mem_words_ofRequest hp⟩
  | rust =>
    cases hopening
    cases h
    exact ⟨_, Rust.Program.looksUp_code (Rust.isPlain_ofRequest r), Rust.mem_words_ofRequest r⟩
  | http => cases hopening

/-- A program for a request that settings make looks up the variables of the request. -/
theorem lookups_render {settings : List Setting} {style : Style} {L : Target.Lexicon}
    {opening : List Target.Token} {source : Source} (h : (ofSettings settings).result = .ok r)
    (hL : style.lexicon? = some L) (hopening : style.opening? = some opening)
    (hsource : r.render style = .ok source) :
    ∃ tokens, L.lex source.text = some tokens ∧
      ∀ n, n ∈ r.usedVariables ↔ opening ++ [.string n] <:+: tokens := by
  obtain ⟨code, hcode, htext⟩ := exists_code_of_render hL hsource
  obtain ⟨names, hlooks, hnames⟩ := exists_looksUp_of_code? hopening hcode
  refine ⟨code.tokens, ?_, fun n => ?_⟩
  · rw [htext]
    exact hlooks.shape.isPhrase.lex_text (Style.reads_quote hL)
  · rw [mem_usedVariables h, ← hnames, ← hlooks.lookupsIn_eq, Target.mem_lookupsIn]

/-- A request that refers to a variable has no message. -/
theorem render_http_ne_ok (h : r.usedVariables ≠ []) (source : Source) :
    r.render .http ≠ .ok source := by
  obtain ⟨name, more, hused⟩ := List.exists_cons_of_ne_nil h
  intro hsource
  obtain ⟨m, hm, -⟩ := Except.map_eq_ok.1 hsource
  rw [Message.ofRequest, hused] at hm
  cases hm

/-- The variables of a request are those that its words refer to, in the order of first use; their
names are names of references in the command; and they are the variables that every program for the
request looks up, while no message can be sent in their place. -/
theorem usedVariables_of_ofCommand (h : (ofCommand command).result = .ok r) :
    IsFirstUses r.usedVariables (r.words.flatMap Word.variableNames) ∧
      (∃ tokens, Shell.tokenize command = .ok tokens ∧
        (∀ n ∈ r.usedVariables, Text.isName n = true ∧
          ∃ token ∈ tokens, ∃ reference ∈ token.word.references, reference.name = n) ∧
        ((∀ token ∈ tokens, token.word.references = []) → r.usedVariables = [])) ∧
      (∀ style L opening source, style.lexicon? = some L → style.opening? = some opening →
        r.render style = .ok source → ∃ found, L.lex source.text = some found ∧
          ∀ n, n ∈ r.usedVariables ↔ opening ++ [.string n] <:+: found) ∧
      (r.usedVariables ≠ [] → ∀ source, r.render .http ≠ .ok source) := by
  obtain ⟨settings, hsettings, hr⟩ := Outcome.andThen_result_eq_ok.1 h
  have hused : r.usedVariables = variablesOf r.words := usedVariables_of_ofSettings hr
  have hfirst : IsFirstUses r.usedVariables (r.words.flatMap Word.variableNames) := by
    rw [hused]
    exact isFirstUses_eraseDups _
  obtain ⟨tokens, htokens⟩ : ∃ tokens, Shell.tokenize command = .ok tokens := by
    have hread : settingsOf command = .ok settings := hsettings
    unfold settingsOf at hread
    split at hread
    · cases hread
    next tokens htokens => exact ⟨tokens, htokens⟩
  have hreferences {n : Text} (hn : n ∈ r.usedVariables) :
      ∃ token ∈ tokens, ∃ reference ∈ token.word.references, reference.name = n := by
    obtain ⟨w, hw, hname⟩ := List.mem_flatMap.1 ((hfirst.mem_iff n).1 hn)
    obtain ⟨reference, hreference, rfl⟩ := List.mem_map.1 hname
    obtain ⟨token, htoken, hmem⟩ := usesOnly_of_ofCommand htokens
      (P := fun reference => ∃ token ∈ tokens, reference ∈ token.word.references)
      (fun token htoken _ hmem => ⟨token, htoken, hmem⟩) h w hw reference hreference
    exact ⟨token, htoken, reference, hmem, rfl⟩
  refine ⟨hfirst, ⟨tokens, htokens, ?_, ?_⟩, ?_, render_http_ne_ok⟩
  · intro n hn
    obtain ⟨token, htoken, reference, hmem, rfl⟩ := hreferences hn
    exact ⟨Shell.isName_of_tokenize htokens token htoken reference hmem, token, htoken, reference,
      hmem, rfl⟩
  · intro hnone
    rw [List.eq_nil_iff_forall_not_mem]
    intro n hn
    obtain ⟨token, htoken, reference, hmem, -⟩ := hreferences hn
    rw [hnone token htoken] at hmem
    cases hmem
  · intro style L opening source hL hopening hsource
    exact lookups_render hr hL hopening hsource

/-- A variable that is used twice is counted where it is used first, and one in single quotes is
text. -/
theorem usedVariables_of_ofCommand_quoted :
    let command := "curl -u \"$B:p\" -H \"A: $A$B\" -d '$C' http://h/".toList
    ∃ r, (ofCommand command).result = .ok r ∧ r.usedVariables = ["A".toList, "B".toList] ∧
      IsFirstUses r.usedVariables (r.words.flatMap Word.variableNames) ∧
      (∀ source, r.render .http ≠ .ok source) ∧
      ∃ source found, r.render .python = .ok source ∧
        Target.pythonLexicon.lex source.text = some found ∧
        ∀ n, n = "A".toList ∨ n = "B".toList ↔
          Target.pythonOpening ++ [.string n] <:+: found := by
  intro command
  have hused : (ofCommand command).result.toOption.map (fun r =>
      (r.usedVariables, (r.render .python).isOk)) = some (["A".toList, "B".toList], true) := by
    decide +kernel
  obtain ⟨r, hr, hfacts⟩ := Option.map_eq_some_iff.1 hused
  obtain ⟨hvariables, hpython⟩ := Prod.mk.inj hfacts
  have hresult := Except.eq_ok_of_toOption hr
  obtain ⟨hfirst, -, hprograms, hmessage⟩ := usedVariables_of_ofCommand hresult
  cases hsource : r.render .python with
  | error e =>
    rw [hsource] at hpython
    cases hpython
  | ok source =>
    obtain ⟨found, hfound, hlooked⟩ := hprograms .python _ _ source rfl rfl hsource
    refine ⟨r, hresult, hvariables, hfirst, hmessage (by simp [hvariables]), source, found, hsource,
      hfound, fun n => ?_⟩
    rw [← hlooked, hvariables]
    simp

end Request

end CurlScribe
