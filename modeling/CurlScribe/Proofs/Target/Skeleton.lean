import CurlScribe.Proofs.Target.Outline
import CurlScribe.Target.Render

/-!
# Skeletons of requests

What a generated program may depend on besides the values of its literals: the outlines of all
words, and the few questions about texts that choose between forms of code. Requests of one skeleton
are alike, constructor by constructor, and the proofs about programs go by cases of that.
-/

namespace CurlScribe

/-! ## Outlines -/

namespace FormPart

/-- The part with the outlines of its words. -/
def outline : FormPart → FormPart
  | .field name value => .field name.outline value.outline
  | .file name filename path => .file name.outline filename.outline path.outline
  | .fileContent name path => .fileContent name.outline path.outline

/-- Is the part a file under the name that its path gives it? -/
def isNamed : FormPart → Bool
  | .file _ filename path => isNamedByPath filename path
  | _ => false

end FormPart

namespace Body

/-- The body with the outlines of its words. -/
def outline : Body → Body
  | .empty => .empty
  | .raw content contentType => .raw content.outline contentType.outline
  | .urlEncoded pairs => .urlEncoded (pairs.map pairOutline)
  | .multipart parts => .multipart (parts.map FormPart.outline)
  | .file path contentType => .file path.outline (contentType.map Word.outline)

/-- Which parts of the body are files under the names that their paths give them. -/
def named : Body → List Bool
  | .multipart parts => parts.map FormPart.isNamed
  | _ => []

end Body

/-- The field with the outlines of its words. -/
def Header.outline (h : Header) : Header := ⟨h.name.outline, h.value.outline⟩

/-- Which fields repeat the name of an earlier one, where `earlier` stand before all of them. -/
def Headers.repeated (earlier : Headers) : Headers → List Bool
  | [] => []
  | h :: rest => hasNameOf earlier h :: repeated (earlier ++ [h]) rest

/-- The credentials with the outlines of their words. -/
def Credentials.outline (c : Credentials) : Credentials := ⟨c.user.outline, c.password.outline⟩

/-! ## Skeletons -/

/-- The methods that programs of a style write as code rather than as text. -/
def Style.verbs : Style → List Text
  | .python => Python.shortcuts
  | .rust => Rust.shortcuts ++ Rust.constants
  | _ => []

/-- The method, if it is one that programs of the style write as code. -/
def Style.verb? (style : Style) (method : Word) : Option Text :=
  method.literal?.filter style.verbs.contains

/-- What a request is but for its texts and the names of its variables. -/
structure Skeleton where
  method : Word
  verb : Option Text
  url : Word
  headers : Headers
  repeated : List Bool
  hasContentType : Bool
  credentials : Option Credentials
  body : Body
  named : List Bool
  usesVariables : Bool
deriving DecidableEq, Repr

/-- The skeleton of a request for programs of a style. -/
def Request.skeleton (style : Style) (r : Request) : Skeleton where
  method := r.effectiveMethod.outline
  verb := style.verb? r.effectiveMethod
  url := r.url.outline
  headers := r.headers.map Header.outline
  repeated := Headers.repeated [] r.headers
  hasContentType := r.explicitContentType?.isSome
  credentials := r.credentials.map Credentials.outline
  body := r.body.outline
  named := r.body.named
  usesVariables := !r.usedVariables.isEmpty

/-! ## Parts and bodies that are alike -/

namespace FormPart

/-- Parts of one constructor whose words have the same outlines. -/
inductive Alike : FormPart → FormPart → Prop where
  | field {n v n' v' : Word} (hname : n.outline = n'.outline) (hvalue : v.outline = v'.outline) :
    Alike (.field n v) (.field n' v')
  | file {n f p n' f' p' : Word} (hname : n.outline = n'.outline)
    (hfilename : f.outline = f'.outline) (hpath : p.outline = p'.outline)
    (hnamed : isNamedByPath f p = isNamedByPath f' p') : Alike (.file n f p) (.file n' f' p')
  | fileContent {n p n' p' : Word} (hname : n.outline = n'.outline)
    (hpath : p.outline = p'.outline) : Alike (.fileContent n p) (.fileContent n' p')

/-- As many parts, each like the other of its place. -/
inductive AllAlike : List FormPart → List FormPart → Prop where
  | nil : AllAlike [] []
  | cons {p q : FormPart} {ps qs : List FormPart} (h : Alike p q) (hs : AllAlike ps qs) :
    AllAlike (p :: ps) (q :: qs)

/-- Parts with the same outline that both give a file name, or both give none, are alike. -/
theorem alike_of_outline {p q : FormPart} (h : p.outline = q.outline)
    (hn : p.isNamed = q.isNamed) : Alike p q := by
  cases p with
  | field n v =>
    cases q with
    | field n' v' =>
      obtain ⟨hname, hvalue⟩ := FormPart.field.inj h
      exact .field hname hvalue
    | file => exact absurd h (by simp [outline])
    | fileContent => exact absurd h (by simp [outline])
  | file n f p =>
    cases q with
    | field => exact absurd h (by simp [outline])
    | file n' f' p' =>
      obtain ⟨hname, hfilename, hpath⟩ := FormPart.file.inj h
      exact .file hname hfilename hpath hn
    | fileContent => exact absurd h (by simp [outline])
  | fileContent n p =>
    cases q with
    | field => exact absurd h (by simp [outline])
    | file => exact absurd h (by simp [outline])
    | fileContent n' p' =>
      obtain ⟨hname, hpath⟩ := FormPart.fileContent.inj h
      exact .fileContent hname hpath

/-- The parts of two forms are alike one by one if their outlines are the same. -/
theorem allAlike_of_outline {ps qs : List FormPart} (h : ps.map outline = qs.map outline)
    (hn : ps.map isNamed = qs.map isNamed) : AllAlike ps qs := by
  induction ps generalizing qs with
  | nil =>
    obtain rfl : qs = [] := List.map_eq_nil_iff.1 h.symm
    exact .nil
  | cons p ps ih =>
    cases qs with
    | nil => exact absurd h (by simp)
    | cons q qs =>
      obtain ⟨hpq, hrest⟩ := List.cons.inj h
      obtain ⟨hnamed, hnrest⟩ := List.cons.inj hn
      exact .cons (alike_of_outline hpq hnamed) (ih hrest hnrest)

/-- What is the same for parts that are alike is the same for all parts of lists that are. -/
theorem AllAlike.map_eq {β : Type} {f : FormPart → β} (hf : ∀ {p q}, Alike p q → f p = f q)
    {ps qs : List FormPart} (h : AllAlike ps qs) : ps.map f = qs.map f := by
  induction h with
  | nil => rfl
  | cons h _ ih => rw [List.map_cons, List.map_cons, hf h, ih]

end FormPart

namespace Body

/-- Bodies of one constructor that send words of the same outlines. -/
inductive Alike : Body → Body → Prop where
  | empty : Alike .empty .empty
  | raw {c t c' t' : Word} (hcontent : c.outline = c'.outline) (htype : t.outline = t'.outline) :
    Alike (.raw c t) (.raw c' t')
  | urlEncoded {ps qs : List (Word × Word)} (h : (encoded ps).outline = (encoded qs).outline) :
    Alike (.urlEncoded ps) (.urlEncoded qs)
  | multipart {ps qs : List FormPart} (h : FormPart.AllAlike ps qs) :
    Alike (.multipart ps) (.multipart qs)
  | file {p p' : Word} {t t' : Option Word} (hpath : p.outline = p'.outline)
    (htype : t.map Word.outline = t'.map Word.outline) : Alike (.file p t) (.file p' t')

/-- The words of the pairs of a body are among those of the body. -/
theorem isNormal_pairs {pairs : List (Word × Word)}
    (h : ∀ w ∈ (urlEncoded pairs).words, w.IsNormal) :
    ∀ p ∈ pairs, p.1.IsNormal ∧ p.2.IsNormal := by
  intro p hp
  exact ⟨h p.1 (List.mem_flatMap.2 ⟨p, hp, by simp⟩), h p.2 (List.mem_flatMap.2 ⟨p, hp, by simp⟩)⟩

/-- Bodies of normal words are alike if their outlines are the same and they name the same of their
files. -/
theorem alike_of_outline {a b : Body} (ha : ∀ w ∈ a.words, w.IsNormal)
    (hb : ∀ w ∈ b.words, w.IsNormal) (h : a.outline = b.outline) (hn : a.named = b.named) :
    Alike a b := by
  cases a with
  | empty =>
    cases b with
    | empty => exact .empty
    | _ => exact absurd h (by simp [outline])
  | raw c t =>
    cases b with
    | raw c' t' =>
      obtain ⟨hcontent, htype⟩ := Body.raw.inj h
      exact .raw hcontent htype
    | _ => exact absurd h (by simp [outline])
  | urlEncoded ps =>
    cases b with
    | urlEncoded qs =>
      exact .urlEncoded (outline_encoded (isNormal_pairs ha) (isNormal_pairs hb)
        (Body.urlEncoded.inj h))
    | _ => exact absurd h (by simp [outline])
  | multipart ps =>
    cases b with
    | multipart qs => exact .multipart (FormPart.allAlike_of_outline (Body.multipart.inj h) hn)
    | _ => exact absurd h (by simp [outline])
  | file p t =>
    cases b with
    | file p' t' =>
      obtain ⟨hpath, htype⟩ := Body.file.inj h
      exact .file hpath htype
    | _ => exact absurd h (by simp [outline])

/-- Bodies that are alike imply types with the same outline. -/
theorem Alike.contentType? {a b : Body} (h : Alike a b) :
    a.contentType?.map Word.outline = b.contentType?.map Word.outline := by
  cases h with
  | empty => rfl
  | raw _ htype => exact congrArg some htype
  | urlEncoded _ => rfl
  | multipart _ => rfl
  | file _ htype => exact htype

end Body

/-! ## Requests that are alike -/

namespace Request

/-- What programs of a style make of a request, as far as it is the same for requests of one
skeleton. -/
structure Alike (style : Style) (r s : Request) : Prop where
  method : r.effectiveMethod.outline = s.effectiveMethod.outline
  verb : style.verb? r.effectiveMethod = style.verb? s.effectiveMethod
  url : r.url.outline = s.url.outline
  headers : r.headers.map Header.outline = s.headers.map Header.outline
  repeated : Headers.repeated [] r.headers = Headers.repeated [] s.headers
  hasContentType : r.explicitContentType?.isSome = s.explicitContentType?.isSome
  impliedContentType : r.impliedContentType?.map Word.outline = s.impliedContentType?.map Word.outline
  credentials : r.credentials.map Credentials.outline = s.credentials.map Credentials.outline
  body : Body.Alike r.body s.body
  usesVariables : r.usedVariables.isEmpty = s.usedVariables.isEmpty

/-- The type that is implied is that of the body, unless a field gives one. -/
theorem impliedContentType?_eq (r : Request) :
    r.impliedContentType? = if r.explicitContentType?.isSome then none else r.body.contentType? := by
  rw [impliedContentType?]
  split
  · next h => simp [h]
  · next h => simp [h]

theorem mem_words_of_mem_body {r : Request} {w : Word} (h : w ∈ r.body.words) : w ∈ r.words :=
  List.mem_append_right _ h

/-- Requests of normal words with the same skeleton are alike. -/
theorem alike_of_skeleton {style : Style} {r s : Request} (hr : ∀ w ∈ r.words, w.IsNormal)
    (hs : ∀ w ∈ s.words, w.IsNormal) (h : r.skeleton style = s.skeleton style) :
    Alike style r s := by
  obtain ⟨hmethod, hverb, hurl, hheaders, hrepeated, hexplicit, hcredentials, hbody, hnamed, huses⟩ :=
    Skeleton.mk.inj h
  have hbodies : Body.Alike r.body s.body :=
    Body.alike_of_outline (fun w hw => hr w (mem_words_of_mem_body hw))
      (fun w hw => hs w (mem_words_of_mem_body hw)) hbody hnamed
  have himplied : r.impliedContentType?.map Word.outline =
      s.impliedContentType?.map Word.outline := by
    rw [impliedContentType?_eq, impliedContentType?_eq, hexplicit]
    split
    · rfl
    · exact hbodies.contentType?
  exact {
    method := hmethod
    verb := hverb
    url := hurl
    headers := hheaders
    repeated := hrepeated
    hasContentType := hexplicit
    impliedContentType := himplied
    credentials := hcredentials
    body := hbodies
    usesVariables := Bool.not_inj huses }

end Request
end CurlScribe
